import Pzdr.Audit.Sessions
import Pzdr.Log.Consistency

/-!
# Audit.Heads

The enclave does not equivocate: every checkpoint it has signed is a head of the one ledger, now and
in every later state (`heads_never_fork`). The entries of a reachable state are the whole history of
the ledger, so the heads are those of the logs of their first `size` entries (`entriesLog`).
-/

namespace Pzdr
namespace Audit

open Enclave

/-- The log of the first `size` entries. -/
def entriesLog (P : Platform) (s : State) (size : Nat) : TransparencyLog Bytes :=
  .ofEntries P.sha.log ((s.entries.take size).map Platform.entryBytes)

variable {P : Platform} {s s' : State}

theorem entriesLog_leaves (hc : Consistent P s) (size : Nat) :
    (entriesLog P s size).leaves = s.ledger.leaves.take size := by
  rw [entriesLog, TransparencyLog.ofEntries_leaves, hc.leaves, List.map_map, List.map_take]
  rfl

theorem entriesLog_size {size : Nat} (h : size ≤ s.entries.length) :
    (entriesLog P s size).size = size := by
  rw [entriesLog, TransparencyLog.ofEntries_size, List.length_map, List.length_take]
  omega

theorem entriesLog_mono (hpre : s.entries <+: s'.entries) {size : Nat}
    (h : size ≤ s.entries.length) : entriesLog P s' size = entriesLog P s size := by
  obtain ⟨rest, hrest⟩ := hpre
  rw [entriesLog, entriesLog, ← hrest, List.take_append_of_le_length h]

/-- A shorter log is a prefix of a longer one, so its head is an earlier head of that. -/
theorem entriesLog_rootAt (hc : Consistent P s) {m n : Nat} (hmn : m ≤ n)
    (hn : n ≤ s.entries.length) :
    (entriesLog P s n).rootAt P.sha.log m = some ((entriesLog P s m).root P.sha.log) := by
  have hsize := entriesLog_size (P := P) hn
  rw [TransparencyLog.size] at hsize
  rw [TransparencyLog.rootAt, hsize, if_pos hmn, TransparencyLog.root, entriesLog_leaves hc,
    entriesLog_leaves hc, List.take_take, Nat.min_eq_left hmn]

theorem signed_head (hc : Consistent P s) {origin : Origin} {c : CheckpointStatement}
    (hm : .checkpoint origin c ∈ s.signed) : c.size ≤ s.entries.length ∧
      c.rootHex = hexEncode ((entriesLog P s c.size).root P.sha.log) := by
  obtain ⟨root, hroot, hhex⟩ := hc.heads origin c hm
  have hle := TransparencyLog.le_size_of_rootAt _ hroot
  rw [TransparencyLog.size] at hle
  rw [TransparencyLog.rootAt, if_pos hle, Option.some.injEq] at hroot
  rw [TransparencyLog.root, entriesLog_leaves hc, hroot, hc.size_eq, TransparencyLog.size]
  exact ⟨hle, hhex⟩

theorem leafAt_mono (hc : Consistent P s) (hc' : Consistent P s') (hpre : s.entries <+: s'.entries)
    {index : Nat} {leaf : Bytes} (h : s.ledger.leafAt index = some leaf) :
    s'.ledger.leafAt index = some leaf := by
  obtain ⟨rest, hrest⟩ := hpre
  rw [TransparencyLog.leafAt] at h ⊢
  have hlt := (List.getElem?_eq_some_iff.mp h).1
  rw [hc.leaves] at h hlt
  rw [hc'.leaves, ← hrest, List.map_append, List.getElem?_append_left hlt, h]

/-- The ledger answers a query for each of its entries, with the leaf. -/
theorem inclusionAnswer_leaf {ledger : TransparencyLog Bytes} {index : Nat} {leaf : Bytes}
    (h : ledger.leafAt index = some leaf) (now : Nat) :
    ∃ answer, P.inclusionAnswer ledger index now = some answer ∧
      answer.get? "leaf_hash_hex" = some (.str (hexEncode leaf)) := by
  have hlt := (List.getElem?_eq_some_iff.mp h).1
  rw [Platform.inclusionAnswer, h, TransparencyLog.inclusionPath, if_pos hlt]
  exact ⟨_, rfl, object_get? (by simp) _⟩

theorem receipt_leaf (hc : Consistent P s) (hn : Numbered P s) {session : Session}
    (hs : session ∈ s.sessions) {proof : SignedProof} {response : Json}
    (hd : session.stage = .done proof response) : ∃ (receipt : Json) (index : Nat) (leaf : Bytes),
      response.get? "receipt" = some receipt ∧ receipt.get? "index" = some (.num index) ∧
      receipt.get? "leaf_hash_hex" = some (.str (hexEncode leaf)) ∧
      s.ledger.leafAt index = some leaf := by
  obtain ⟨receipt, index, hr, hi, hl, he⟩ := hn.indexed session hs proof response hd
  refine ⟨receipt, index, _, hr, hi, hl, ?_⟩
  rw [TransparencyLog.leafAt, hc.leaves, List.getElem?_map, he]
  rfl

theorem heads_never_fork (P : Platform) {es es' : List Event} {s s' : State}
    (hrun : Run P.step State.boot es s) (hrun' : Run P.step s es' s') :
    (∀ origin c, Message.checkpoint origin c ∈ s.signed → c.size ≤ s'.entries.length ∧
      c.rootHex = hexEncode ((entriesLog P s' c.size).root P.sha.log)) ∧
    (∀ origin c origin' c', Message.checkpoint origin c ∈ s.signed →
      Message.checkpoint origin' c' ∈ s.signed → c.size = c'.size → c.rootHex = c'.rootHex) ∧
    (∀ origin c origin' c', Message.checkpoint origin c ∈ s.signed →
      Message.checkpoint origin' c' ∈ s.signed → 1 ≤ c.size → c.size ≤ c'.size →
      ∃ root root' path, c.rootHex = hexEncode root ∧ c'.rootHex = hexEncode root' ∧
        (entriesLog P s c'.size).consistencyPath P.sha.log c.size = some path ∧
        Enclave.verifyConsistency P.sha.log c.size root c'.size root' path = true ∧
        Tools.verifyConsistency P.sha.log c.size root c'.size root' path = some true) ∧
    (∀ index leaf, s.ledger.leafAt index = some leaf → s'.ledger.leafAt index = some leaf) ∧
    (∀ session ∈ s.sessions, ∀ proof response, session.stage = .done proof response →
      ∃ (receipt : Json) (index : Nat) (leafHex : String), response.get? "receipt" = some receipt ∧
        receipt.get? "index" = some (.num index) ∧
        receipt.get? "leaf_hash_hex" = some (.str leafHex) ∧
        ∀ now, ∃ answer, P.inclusionAnswer s'.ledger index now = some answer ∧
          answer.get? "leaf_hash_hex" = some (.str leafHex)) := by
  have hc := reachable_consistent hrun
  have hc' := reachable_consistent (hrun.append hrun')
  have hpre := entries_run hrun'
  refine ⟨?_, ?_, ?_, fun index leaf h => leafAt_mono hc hc' hpre h, ?_⟩
  · intro origin c hm
    obtain ⟨hle, hhex⟩ := signed_head hc hm
    rw [entriesLog_mono hpre hle]
    exact ⟨hle.trans hpre.length_le, hhex⟩
  · intro origin c origin' c' hm hm' hsize
    rw [(signed_head hc hm).2, (signed_head hc hm').2, hsize]
  · intro origin c origin' c' hm hm' _ hle
    obtain ⟨_, hhex⟩ := signed_head hc hm
    obtain ⟨hle', hhex'⟩ := signed_head hc hm'
    have hsize := entriesLog_size (P := P) hle'
    obtain ⟨root, path, hroot, hpath, haccepts⟩ := Log.consistencyPath_accepts P.sha.log
      (entriesLog P s c'.size) (m := c.size) (by omega)
    rw [entriesLog_rootAt hc hle hle', Option.some.injEq] at hroot
    rw [hsize] at haccepts
    refine ⟨root, _, path, by rw [hhex, hroot], hhex', hpath, ?_, ?_⟩
    · exact (Log.enclave_verifyConsistency_iff _).mpr haccepts
    · exact (Log.tools_verifyConsistency_iff _).mpr haccepts
  · intro session hs proof response hd
    obtain ⟨receipt, index, leaf, hr, hi, hl, hleaf⟩ :=
      receipt_leaf hc (reachable_numbered hrun) hs hd
    exact ⟨receipt, index, _, hr, hi, hl,
      inclusionAnswer_leaf (leafAt_mono hc hc' hpre hleaf)⟩

theorem heads_never_fork_in_turn : ∃ s s',
    Run (samplePlatform []).step State.boot firstEvents s ∧
    Run (samplePlatform []).step s secondEvents s' ∧
    ∀ origin c, Message.checkpoint origin c ∈ s.signed → c.size ≤ s'.entries.length ∧
      c.rootHex = hexEncode ((entriesLog (samplePlatform []) s' c.size).root
        (samplePlatform []).sha.log) := by
  obtain ⟨s, s', _, _, _, hrun, hrun', _⟩ := inTurn_run
  exact ⟨s, s', hrun, hrun', (heads_never_fork (samplePlatform []) hrun hrun').1⟩

end Audit
end Pzdr
