import Pzdr.Canonical
import Pzdr.Hex

/-!
# Enclave.Statement

What the enclave signs: `ProofStatement` and `CheckpointStatement`, and the records that carry the
signatures, as their derived serializers write them.
-/

namespace Pzdr
namespace Enclave

/-! ## Objects -/

theorem object_get? {fields : List (String × Json)} (h : (fields.map Prod.fst).Nodup)
    (key : String) : (object fields).get? key = fields.lookup key :=
  Json.lookup_sortFields codePointLe h key

theorem object_plain {fields : List (String × Json)} (h : (fields.map Prod.fst).Nodup)
    (hv : ∀ f ∈ fields, Bmp f.1 ∧ Plain f.2) : Plain (object fields) := by
  constructor
  · rw [object, Json.DistinctKeys, Json.distinctKeysFields_iff]
    refine ⟨((Json.sortFields_perm _ _).map Prod.fst).nodup_iff.mpr h, ?_⟩
    intro f hf
    exact (hv f ((Json.mem_sortFields _).mp hf)).2.distinct
  · intro k hk
    rw [object, Json.keys, Json.keysFields_eq] at hk
    obtain ⟨f, hf, hk⟩ := List.mem_flatMap.mp hk
    obtain ⟨hkey, hplain⟩ := hv f ((Json.mem_sortFields _).mp hf)
    rcases List.mem_cons.mp hk with rfl | hk
    · exact hkey
    · exact hplain.bmp k hk

/-- `Option<String>` -/
def ofString? : Option String → Json
  | some s => .str s
  | none => .null

/-- `Option<u64>` -/
def ofNat? : Option Nat → Json
  | some n => .num n
  | none => .null

@[simp] theorem plain_ofString? (s : Option String) : Plain (ofString? s) := by
  cases s <;> simp [ofString?]

@[simp] theorem plain_ofNat? (n : Option Nat) : Plain (ofNat? n) := by
  cases n <;> simp [ofNat?]

/-! ## Proofs -/

structure ProofStatement where
  proofId : String
  proofVersion : Nat
  schemaUrl : String
  sessionId : String
  tenantId : String
  counter : Nat
  timestamp : Nat
  commitmentHex : String
  processorId : String
  upstreamModel : Option String
  upstreamTokensIn : Option Nat
  upstreamTokensOut : Option Nat
  measurement : String
  channelPublicKeyHex : String
  proofVerifierKeyHex : String
  teeBackend : String
  computeTier : String
  proofMode : String
  success : Bool
  errorCode : Option String
  policyDecision : Json
  zeroizationReport : Json
  resultHashHex : Option String
  outputGovernance : Json
  failureDetail : Option Json

def ProofStatement.fields (s : ProofStatement) : List (String × Json) := [
  ("proof_id", .str s.proofId),
  ("proof_version", .num s.proofVersion),
  ("schema_url", .str s.schemaUrl),
  ("session_id", .str s.sessionId),
  ("tenant_id", .str s.tenantId),
  ("counter", .num s.counter),
  ("timestamp", .num s.timestamp),
  ("commitment_hex", .str s.commitmentHex),
  ("processor_id", .str s.processorId),
  ("upstream_model", ofString? s.upstreamModel),
  ("upstream_tokens_in", ofNat? s.upstreamTokensIn),
  ("upstream_tokens_out", ofNat? s.upstreamTokensOut),
  ("measurement", .str s.measurement),
  ("channel_public_key_hex", .str s.channelPublicKeyHex),
  ("proof_verifier_key_hex", .str s.proofVerifierKeyHex),
  ("tee_backend", .str s.teeBackend),
  ("compute_tier", .str s.computeTier),
  ("proof_mode", .str s.proofMode),
  ("success", .bool s.success),
  ("error_code", ofString? s.errorCode),
  ("policy_decision", s.policyDecision),
  ("zeroization_report", s.zeroizationReport),
  ("result_hash_hex", ofString? s.resultHashHex),
  ("output_governance", s.outputGovernance),
  ("failure_detail", s.failureDetail.getD .null)]

def ProofStatement.toJson (s : ProofStatement) : Json := object s.fields

structure SignedProof where
  statement : ProofStatement
  signerKeyId : String
  signatureB64 : String

def SignedProof.fields (p : SignedProof) : List (String × Json) := [
  ("statement", p.statement.toJson),
  ("signer_key_id", .str p.signerKeyId),
  ("signature_b64", .str p.signatureB64)]

def SignedProof.toJson (p : SignedProof) : Json := object p.fields

/-! ## Checkpoints -/

structure CheckpointStatement where
  size : Nat
  rootHex : String
  timestamp : Nat

def CheckpointStatement.fields (c : CheckpointStatement) : List (String × Json) := [
  ("size", .num c.size),
  ("root_hex", .str c.rootHex),
  ("timestamp", .num c.timestamp)]

def CheckpointStatement.toJson (c : CheckpointStatement) : Json := object c.fields

structure SignedCheckpoint where
  size : Nat
  rootHex : String
  timestamp : Nat
  checkpointSignatureB64 : String

def SignedCheckpoint.toJson (c : SignedCheckpoint) : Json := object [
  ("size", .num c.size),
  ("root_hex", .str c.rootHex),
  ("timestamp", .num c.timestamp),
  ("checkpoint_signature_b64", .str c.checkpointSignatureB64)]

/-! ## Keys -/

theorem ProofStatement.nodup_fields (s : ProofStatement) : (s.fields.map Prod.fst).Nodup := by
  simp [fields]

theorem SignedProof.nodup_fields (p : SignedProof) : (p.fields.map Prod.fst).Nodup := by
  simp [fields]

theorem CheckpointStatement.nodup_fields (c : CheckpointStatement) :
    (c.fields.map Prod.fst).Nodup := by
  simp [fields]

/-- The free-form parts of a statement are plain. -/
structure ProofStatement.WellFormed (s : ProofStatement) : Prop where
  policyDecision : Plain s.policyDecision
  zeroizationReport : Plain s.zeroizationReport
  outputGovernance : Plain s.outputGovernance
  failureDetail : ∀ v ∈ s.failureDetail, Plain v

theorem ProofStatement.plain {s : ProofStatement} (h : s.WellFormed) : Plain s.toJson := by
  apply object_plain s.nodup_fields
  have hdetail : Plain (s.failureDetail.getD .null) := by
    cases hd : s.failureDetail with
    | none => exact plain_null
    | some v => exact h.failureDetail v hd
  simp [fields, Bmp, h.policyDecision, h.zeroizationReport, h.outputGovernance, hdetail]

theorem SignedProof.plain {p : SignedProof} (h : p.statement.WellFormed) : Plain p.toJson := by
  apply object_plain p.nodup_fields
  simp [fields, Bmp, ProofStatement.plain h]

theorem CheckpointStatement.plain (c : CheckpointStatement) : Plain c.toJson := by
  apply object_plain c.nodup_fields
  simp [fields, Bmp]

end Enclave
end Pzdr
