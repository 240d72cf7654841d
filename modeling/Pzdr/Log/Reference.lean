import Pzdr.Sha256
import Pzdr.Tools.Ledger

/-!
# Log.Reference

The enclave's log against the reference log. After the same appends they have the same root, the same
inclusion proofs and the same consistency proofs from every size but 0 (`log_agrees`).

From size 0 the enclave answers with no hashes. The reference has no such case: its recursion goes on
to the empty slice, and the proof has a hash for every cut. No verifier reads a proof from size 0.
-/

namespace Pzdr
namespace Log

open Enclave (TransparencyLog)

section Entries

variable (S : LogHash Bytes) (entries : List Bytes)

theorem root_agrees : (TransparencyLog.ofEntries S entries).root S =
    (Tools.TransparencyLog.ofEntries S entries).root S := by
  rw [Tools.TransparencyLog.ofEntries_eq, Tools.TransparencyLog.root, Tools.merkleRoot_eq,
    TransparencyLog.root, TransparencyLog.ofEntries_leaves]

theorem inclusion_agrees {idx : Nat} (hidx : idx < entries.length) :
    ∃ path, (TransparencyLog.ofEntries S entries).inclusionPath S idx = some path ∧
      (Tools.TransparencyLog.ofEntries S entries).inclusion S idx = some (path.map hexEncode) := by
  have hlen : idx < (entries.map S.leafHash).length := by rwa [List.length_map]
  refine ⟨Enclave.inclusion S (entries.map S.leafHash) idx, ?_, ?_⟩
  · rw [TransparencyLog.inclusionPath, TransparencyLog.ofEntries_leaves, if_pos hlen]
  · rw [Tools.TransparencyLog.ofEntries_eq, Tools.TransparencyLog.inclusion,
      Tools.inclusionPath_eq S hlen, Option.map_some]

theorem consistencyPath_zero :
    (TransparencyLog.ofEntries S entries).consistencyPath S 0 = some [] := by
  rw [TransparencyLog.consistencyPath, if_neg (by omega), if_pos rfl]

theorem consistency_agrees {m : Nat} (hpos : 0 < m) (hm : m ≤ entries.length) :
    ∃ path, (TransparencyLog.ofEntries S entries).consistencyPath S m = some path ∧
      (Tools.TransparencyLog.ofEntries S entries).consistency S m = some (path.map hexEncode) := by
  have hlen : m ≤ (entries.map S.leafHash).length := by rwa [List.length_map]
  rw [TransparencyLog.consistencyPath, TransparencyLog.ofEntries_leaves, if_neg (by omega),
    if_neg (by omega), Tools.TransparencyLog.ofEntries_eq, Tools.TransparencyLog.consistency,
    Tools.consistencyPath]
  by_cases heq : m = (entries.map S.leafHash).length
  · rw [if_pos heq, if_pos heq]
    exact ⟨[], rfl, rfl⟩
  · rw [if_neg heq, if_neg heq, Tools.subproof_eq S hpos hlen]
    exact ⟨_, rfl, rfl⟩

theorem consistency_zero_ne (h : entries ≠ []) :
    (Tools.TransparencyLog.ofEntries S entries).consistency S 0 ≠ some [] := by
  rw [Tools.TransparencyLog.ofEntries_eq, Tools.TransparencyLog.consistency,
    Tools.consistencyPath]
  intro heq
  have hne : entries.map S.leafHash ≠ [] := by simpa using h
  have hlen : 0 ≠ (entries.map S.leafHash).length :=
    fun hzero => hne (List.length_eq_zero_iff.mp hzero.symm)
  rw [if_neg hlen] at heq
  obtain ⟨path, hpath, hnil⟩ := Option.map_eq_some_iff.mp heq
  rw [List.map_eq_nil_iff] at hnil
  rw [hnil] at hpath
  exact Tools.subproof_zero_ne_nil S hne true hpath

end Entries

theorem log_agrees (S : LogHash Bytes) (entries : List Bytes) :
    let log := TransparencyLog.ofEntries S entries
    let reference := Tools.TransparencyLog.ofEntries S entries
    log.root S = reference.root S ∧
      (∀ idx < entries.length, ∃ path, log.inclusionPath S idx = some path ∧
        reference.inclusion S idx = some (path.map hexEncode)) ∧
      (∀ m, 0 < m → m ≤ entries.length → ∃ path, log.consistencyPath S m = some path ∧
        reference.consistency S m = some (path.map hexEncode)) ∧
      log.consistencyPath S 0 = some [] ∧
      (reference.consistency S 0 = some [] ↔ entries = []) := by
  refine ⟨root_agrees S entries, fun idx hidx => inclusion_agrees S entries hidx,
    fun m hpos hm => consistency_agrees S entries hpos hm, consistencyPath_zero S entries, ?_⟩
  constructor
  · intro h
    by_contra hne
    exact consistency_zero_ne S entries hne h
  · rintro rfl
    rw [Tools.TransparencyLog.ofEntries_eq]
    rfl

theorem log_agrees_two : ∃ path,
    (TransparencyLog.ofEntries Sha256.firstBytes.log [[], [0x01]]).consistencyPath
        Sha256.firstBytes.log 1 = some path ∧
      (Tools.TransparencyLog.ofEntries Sha256.firstBytes.log [[], [0x01]]).consistency
        Sha256.firstBytes.log 1 = some (path.map hexEncode) :=
  (log_agrees Sha256.firstBytes.log [[], [0x01]]).2.2.1 1 (by decide) (by decide)

/-- A log of one entry, and its proof from size 0 with the leaf in it. -/
theorem consistency_from_zero :
    (TransparencyLog.ofEntries Sha256.firstBytes.log [[]]).consistencyPath Sha256.firstBytes.log 0 =
        some [] ∧
      (Tools.TransparencyLog.ofEntries Sha256.firstBytes.log [[]]).consistency
          Sha256.firstBytes.log 0 = some [hexEncode (Sha256.firstBytes.log.leafHash [])] := by
  refine ⟨consistencyPath_zero _ _, ?_⟩
  rw [Tools.TransparencyLog.ofEntries_eq, Tools.TransparencyLog.consistency, Tools.consistencyPath,
    if_neg (by simp), Tools.subproof, if_neg (by simp), Tools.split_small (by simp)]
  simp [Tools.subproof, Tools.merkleRoot]

end Log
end Pzdr
