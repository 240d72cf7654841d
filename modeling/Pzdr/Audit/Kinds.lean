import Pzdr.Audit.Answer

/-!
# Audit.Kinds

Whether a signature of one kind passes for another. `verifyProof` checks the signature over whatever
statement it is given, so a published checkpoint passes as a proof (`verifyProof_checkpoint`).
`verifyCheckpoint` builds its message from three properties, and no proof statement has just these.

`accepted_kinds`: an accepted proof has the statement of a session or a signed checkpoint, and the
keys of the statement say which.
-/

namespace Pzdr
namespace Audit

open Enclave
open Sdk (prop verifyProof verifyCheckpoint JsVal)

/-- The value is the statement of a session, up to the order of its keys. -/
def IsStatement (s : State) (v : Json) : Prop :=
  ∃ statement, .proof statement ∈ s.signed ∧ (∃ session ∈ s.sessions, session.Proves statement) ∧
    v.sortKeys utf16Le = statement.toJson.sortKeys codePointLe

/-- The value is a checkpoint that was signed, up to the order of its keys. -/
def IsCheckpoint (s : State) (v : Json) : Prop :=
  ∃ origin c, .checkpoint origin c ∈ s.signed ∧
    v.sortKeys utf16Le = c.toJson.sortKeys codePointLe

variable {P : Platform} {D : Sdk.Platform} {s : State}

theorem IsStatement.keys {v : Json} (h : IsStatement s v) :
    (v.get? "proof_id").isSome ∧ v.get? "root_hex" = none := by
  obtain ⟨statement, _, _, hsort⟩ := h
  have hid : statement.toJson.get? "proof_id" = some (.str statement.proofId) :=
    object_get? statement.nodup_fields _
  have hroot : statement.toJson.get? "root_hex" = none := object_get? statement.nodup_fields _
  rw [← Option.not_isSome_iff_eq_none, Json.isSome_get?_of_sortKeys_eq hsort,
    Json.isSome_get?_of_sortKeys_eq hsort, hid, hroot]
  simp

theorem IsCheckpoint.keys {v : Json} (h : IsCheckpoint s v) :
    v.get? "proof_id" = none ∧ (v.get? "root_hex").isSome := by
  obtain ⟨origin, c, _, hsort⟩ := h
  have hid : c.toJson.get? "proof_id" = none := object_get? c.nodup_fields _
  have hroot : c.toJson.get? "root_hex" = some (.str c.rootHex) := object_get? c.nodup_fields _
  rw [← Option.not_isSome_iff_eq_none, Json.isSome_get?_of_sortKeys_eq hsort,
    Json.isSome_get?_of_sortKeys_eq hsort, hid, hroot]
  simp

theorem accepted_kinds (P : Platform) (D : Sdk.Platform) {es : List Event} {s : State}
    (hrun : Run P.step State.boot es s) (hunf : Unforgeable P D s) {keyHex : JsVal}
    (hkey : D.fromHex keyHex = some P.proofPk) :
    (∀ proof, verifyProof D proof keyHex = some true →
      ∃ v, prop proof "statement" = some (some v) ∧
        ((IsStatement s v ∧ (v.get? "proof_id").isSome ∧ v.get? "root_hex" = none) ∨
          (IsCheckpoint s v ∧ v.get? "proof_id" = none ∧ (v.get? "root_hex").isSome))) ∧
    ∀ checkpoint, verifyCheckpoint D checkpoint keyHex = some true →
      ∃ origin c, .checkpoint origin c ∈ s.signed ∧
        prop checkpoint "size" = some (some (.num c.size)) ∧
        prop checkpoint "root_hex" = some (some (.str c.rootHex)) ∧
        prop checkpoint "timestamp" = some (some (.num c.timestamp)) := by
  have h := reachable_consistent hrun
  constructor
  · intro proof hv
    obtain ⟨m, hm, v, hstatement, hbytes⟩ := verifyProof_signed hunf hkey hv
    refine ⟨v, hstatement, ?_⟩
    cases m with
    | proof statement =>
      have hkind : IsStatement s v := ⟨statement, hm, (h.proofs _).mp hm,
        sortKeys_eq_of_canonicalBytes_eq (hbytes.trans (canonicalJson_eq _))⟩
      exact .inl ⟨hkind, hkind.keys⟩
    | checkpoint origin c =>
      have hkind : IsCheckpoint s v :=
        ⟨origin, c, hm, sortKeys_eq_of_canonicalBytes_eq (hbytes.trans (canonicalJson_eq _))⟩
      exact .inr ⟨hkind, hkind.keys⟩
  · intro checkpoint hv
    exact verifyCheckpoint_signed h hunf hkey hv

/-! ## A checkpoint as a proof -/

/-- A checkpoint and its signature, in the properties of a proof. -/
def disguised (P : Platform) (c : CheckpointStatement) : Json := object [
  ("statement", c.toJson),
  ("signature_b64", .str (P.base64 (P.sign (canonicalJson c.toJson))))]

theorem disguised_statement (P : Platform) (c : CheckpointStatement) :
    prop (some (disguised P c)) "statement" = some (some c.toJson) :=
  prop_object (by simp) rfl

/-- Every checkpoint that is signed passes as a proof. -/
theorem verifyProof_checkpoint (hD : Reads P D s) {origin : Origin} {c : CheckpointStatement}
    (hm : .checkpoint origin c ∈ s.signed) :
    verifyProof D (some (disguised P c)) (some (.str (hexEncode P.proofPk))) = some true := by
  have hsignature : prop (some (disguised P c)) "signature_b64" =
      some (some (.str (P.base64 (P.sign (canonicalJson c.toJson))))) := prop_object (by simp) rfl
  rw [verifyProof, disguised_statement, hsignature]
  simp only [Option.bind_eq_bind, Option.bind_some, hD.atob, hD.fromHex,
    encodeCanonical_plain c.plain]
  exact hD.verify _ hm

/-- One query of the empty ledger. -/
def headEvents : List Event := [.ledgerRoot 1]

theorem headEvents_run : ∃ s c, Run (samplePlatform []).step State.boot headEvents s ∧
    s.signed = [.checkpoint .ledgerRoot c] :=
  ⟨_, _, Run.of_foldlM rfl, rfl⟩

theorem accepted_kinds_head : ∃ s c, Run (samplePlatform []).step State.boot headEvents s ∧
    IsCheckpoint s c := by
  obtain ⟨s, c, hrun, hsigned⟩ := headEvents_run
  have hm : .checkpoint .ledgerRoot c ∈ s.signed := by rw [hsigned]; exact List.mem_singleton.mpr rfl
  have hreads := sample_reads [] s
  obtain ⟨v, hv, hkind⟩ := (accepted_kinds (samplePlatform [])
    (Sdk.samplePlatform (s.signed.map Message.bytes)) hrun (sample_unforgeable [] s)
    (hreads.fromHex _)).1 _ (verifyProof_checkpoint hreads hm)
  rw [disguised_statement, Option.some.injEq, Option.some.injEq] at hv
  subst hv
  rcases hkind with ⟨_, hid, _⟩ | ⟨hcheckpoint, _⟩
  · have hnone : c.toJson.get? "proof_id" = none := object_get? c.nodup_fields _
    rw [hnone] at hid
    cases hid
  · exact ⟨s, c.toJson, hrun, hcheckpoint⟩

/-- An accepted proof without any statement of a proof having been signed. -/
theorem checkpoint_accepted_as_proof : ∃ (s : State) (proof : Json) (D : Sdk.Platform),
    Run (samplePlatform []).step State.boot headEvents s ∧ Unforgeable (samplePlatform []) D s ∧
    verifyProof D (some proof) (some (.str (hexEncode (samplePlatform []).proofPk))) = some true ∧
    (∃ v, prop (some proof) "statement" = some (some v) ∧ IsCheckpoint s v) ∧
    ∀ statement, .proof statement ∉ s.signed := by
  obtain ⟨s, c, hrun, hsigned⟩ := headEvents_run
  have hm : .checkpoint .ledgerRoot c ∈ s.signed := by rw [hsigned]; exact List.mem_singleton.mpr rfl
  refine ⟨s, disguised (samplePlatform []) c, _, hrun, sample_unforgeable [] s,
    verifyProof_checkpoint (sample_reads [] s) hm, ⟨_, disguised_statement _ c, ?_⟩, ?_⟩
  · exact ⟨_, c, hm, c.plain.sortKeys_utf16Le⟩
  · intro statement hp
    rw [hsigned, List.mem_singleton] at hp
    cases hp

end Audit
end Pzdr
