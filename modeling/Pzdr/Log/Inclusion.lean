import Pzdr.Enclave.Transparency
import Pzdr.Tools.Transparency
import Pzdr.Sdk.Transparency

/-!
# Log.Inclusion

What the inclusion verifiers of the enclave, the auditor's tool and the SDK decide about a log.

* `verifyInclusion_sound`: an accepted path is the audit path of the entry at that index. None of
  the three loops stops when it is at the root, so paths of every length have to be excluded.
* `inclusionPath_complete`: the log's own paths are accepted, for every hash function.
-/

namespace Pzdr
namespace Log

variable {H : Type}

/-- An accepted walk over the leaves of a log used the leaf hash and the audit path of the entry it
claims to be about. -/
theorem walk_sound {S : LogHash H} {es : List Bytes} {index : Nat} {leaf : H} {path : List H}
    (hi : index < es.length)
    (hb : Merkle.Binds S.nodeHash S.emptyHash
      (Merkle.walkPairs S.nodeHash index (es.length - 1) path leaf) (es.map S.leafHash))
    (h : Merkle.walk (Merkle.combine S.nodeHash) index (es.length - 1) path leaf =
      (Merkle.root S.nodeHash S.emptyHash (es.map S.leafHash), 0)) :
    leaf = S.leafHash es[index] ∧ path = Enclave.inclusion S (es.map S.leafHash) index := by
  have hlen : (es.map S.leafHash).length = es.length := List.length_map _
  rw [← hlen] at h hb
  obtain ⟨hleaf, hpath⟩ := Merkle.inclusion_sound S.nodeHash S.emptyHash (by omega) hb h
  rw [List.getElem?_map, List.getElem?_eq_getElem hi, Option.map_some, Option.some.injEq] at hleaf
  exact ⟨hleaf.symm, by rw [Enclave.inclusion_eq S _ (by omega), hpath]⟩

open Enclave.TransparencyLog (ofEntries) in
theorem verifyInclusion_sound [DecidableEq H] (S : LogHash H) (hS : S.CollisionFree)
    (es : List Bytes) (index : Nat) (leaf : H) (path : List H)
    (h : Enclave.verifyInclusion S leaf index (ofEntries S es).size path ((ofEntries S es).root S) =
          true ∨
        Tools.verifyInclusion S leaf index (ofEntries S es).size path ((ofEntries S es).root S) =
          true ∨
        ∃ hexToBytes pathHex rootHex, pathHex.mapM hexToBytes = some path ∧
          hexToBytes rootHex = some ((ofEntries S es).root S) ∧
          Sdk.verifyInclusion S hexToBytes leaf index (ofEntries S es).size pathHex rootHex =
            some true) :
    ∃ hi : index < es.length, leaf = S.leafHash es[index] ∧
      path = Enclave.inclusion S (ofEntries S es).leaves index := by
  have hwalk : index < es.length ∧
      Merkle.walk (Merkle.combine S.nodeHash) index (es.length - 1) path leaf =
        (Merkle.root S.nodeHash S.emptyHash (es.map S.leafHash), 0) := by
    rw [Enclave.TransparencyLog.ofEntries_root, Enclave.TransparencyLog.ofEntries_size] at h
    rcases h with h | h | ⟨hexToBytes, pathHex, rootHex, hp, hr, h⟩
    · exact (Enclave.verifyInclusion_iff S).mp h
    · exact (Tools.verifyInclusion_iff S).mp h
    · obtain ⟨hi, path', root', hp', hr', hw⟩ := (Sdk.verifyInclusion_iff S hexToBytes).mp h
      rw [hp, Option.some.injEq] at hp'
      rw [hr, Option.some.injEq] at hr'
      subst hp' hr'
      exact ⟨hi, hw⟩
  obtain ⟨hi, hw⟩ := hwalk
  refine ⟨hi, ?_⟩
  rw [Enclave.TransparencyLog.ofEntries_leaves]
  exact walk_sound hi (hS.binds _ es) hw

/-- The second of two entries, whose path is the first leaf. -/
theorem verifyInclusion_sound_two :
    ∃ hi : 1 < ([[1], [2]] : List Bytes).length,
      Term.leaf [2] = Term.logHash.leafHash ([[1], [2]] : List Bytes)[1] ∧
      [Term.leaf [1]] = Enclave.inclusion Term.logHash
        (Enclave.TransparencyLog.ofEntries Term.logHash [[1], [2]]).leaves 1 :=
  verifyInclusion_sound Term.logHash Term.collisionFree [[1], [2]] 1 (.leaf [2]) [.leaf [1]]
    (.inl (by decide +kernel))

theorem inclusionPath_walk (S : LogHash H) (log : Enclave.TransparencyLog H) {idx : Nat} {leaf : H}
    (h : log.leafAt idx = some leaf) :
    Merkle.walk (Merkle.combine S.nodeHash) idx (log.size - 1)
      (Enclave.inclusion S log.leaves idx) leaf = (log.root S, 0) := by
  obtain ⟨hi, _⟩ := List.getElem?_eq_some_iff.mp h
  rw [Enclave.inclusion_eq S _ hi, Enclave.TransparencyLog.root, Enclave.mth_eq_root]
  exact Merkle.inclusion_complete S.nodeHash S.emptyHash h

open Enclave (TransparencyLog) in
theorem inclusionPath_complete [DecidableEq H] (S : LogHash H) (log : TransparencyLog H)
    (idx : Nat) :
    ((log.inclusionPath S idx).isSome ↔ idx < log.size) ∧
    ∀ p, log.inclusionPath S idx = some p → ∃ leaf, log.leafAt idx = some leaf ∧
      Enclave.verifyInclusion S leaf idx log.size p (log.root S) = true ∧
      Tools.verifyInclusion S leaf idx log.size p (log.root S) = true ∧
      ∀ hexToBytes pathHex rootHex, pathHex.mapM hexToBytes = some p →
        hexToBytes rootHex = some (log.root S) →
        Sdk.verifyInclusion S hexToBytes leaf idx log.size pathHex rootHex = some true := by
  constructor
  · rw [TransparencyLog.inclusionPath, TransparencyLog.size]
    split <;> simp [*]
  · intro p hp
    rw [TransparencyLog.inclusionPath] at hp
    split at hp
    · rename_i hi
      rw [Option.some.injEq] at hp
      have hleaf : log.leafAt idx = some log.leaves[idx] := List.getElem?_eq_getElem hi
      have hw := inclusionPath_walk S log hleaf
      rw [hp] at hw
      refine ⟨log.leaves[idx], hleaf, ?_, ?_, ?_⟩
      · exact (Enclave.verifyInclusion_iff S).mpr ⟨hi, hw⟩
      · exact (Tools.verifyInclusion_iff S).mpr ⟨hi, hw⟩
      · intro hexToBytes pathHex rootHex hpath hroot
        exact (Sdk.verifyInclusion_iff S hexToBytes).mpr ⟨hi, p, log.root S, hpath, hroot, hw⟩
    · cases hp

end Log
end Pzdr
