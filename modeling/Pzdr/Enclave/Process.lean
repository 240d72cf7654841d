import Pzdr.Enclave.Policy
import Pzdr.Enclave.Statement

/-!
# Enclave.Process

What `process_and_delete` decides about a request, and the proof it signs for the decision.

The part before the counter is taken touches no shared state, so it is a function of the body
(`Platform.decide`). Its exits are the calls of `fail`, in the order of the source, and the success.
-/

namespace Pzdr
namespace Enclave

/-- Struct `InferenceRequest`. -/
structure InferenceRequest where
  clientPubHex : String
  ciphertextHex : String
  nonceHex : String
  commitmentHex : String
  commitmentSaltHex : String
  commitmentContext : String
  processorId : Option String

/-- The request object, in the order in which the SDK writes its fields. -/
def InferenceRequest.toJson (req : InferenceRequest) : Json := .obj [
  ("client_pub_hex", .str req.clientPubHex),
  ("ciphertext_hex", .str req.ciphertextHex),
  ("nonce_hex", .str req.nonceHex),
  ("commitment_hex", .str req.commitmentHex),
  ("commitment_salt_hex", .str req.commitmentSaltHex),
  ("commitment_context", .str req.commitmentContext),
  ("processor_id", ofString? req.processorId)]

/-- What the enclave has from its crates, its build and its boot: `parseRequest` is
`serde_json::from_slice`, `diffieHellman` and `sign` hold the secret keys, `hkdf` is the expansion
of a salt, an input key and an info string to a length, `aeadOpen` the decryption of a message under
a key, a nonce and associated data. -/
structure Platform where
  sha : Sha256
  parseRequest : Bytes → Option InferenceRequest
  diffieHellman : Bytes → Bytes
  hkdf : Bytes → Bytes → Bytes → Nat → Option Bytes
  aeadOpen : Bytes → Bytes → Bytes → Bytes → Option Bytes
  sign : Bytes → Bytes
  base64 : Bytes → String
  expectedPcr0 : String
  channelPk : Bytes
  proofPk : Bytes

/-- How a request ends: a call of `fail`, or the statement of a success. -/
inductive Outcome where
  | failed (code commitment processor : String) (inputWiped : Bool)
  | succeeded (commitment processor : String) (upstreamResp : Json)

/-- `call_upstream`; the mock does not fail. -/
def callUpstream (sha : Sha256) (plaintext : Bytes) : Except Unit Json :=
  .ok (object [
    ("model", .str "mock-claude-sonnet-4.5"),
    ("response", .str ("[mock] processed " ++ toString plaintext.length ++ " bytes: " ++
      .ofList ((hexEncode (sha.hash plaintext)).toList.take 32))),
    ("input_tokens", .num (plaintext.length / 4 : Nat)),
    ("output_tokens", .num 16)])

/-- The answer is an object of a sorted map. -/
theorem callUpstream_plain {sha : Sha256} {plaintext : Bytes} {v : Json}
    (h : callUpstream sha plaintext = .ok v) : Plain v ∧ toVec v = canonicalJson v := by
  cases h
  refine ⟨object_plain (by simp) (by simp [Bmp]), ?_⟩
  rw [canonicalJson]
  congr 1
  simp [object, sortKeys, Json.sortKeys_obj, Json.sortFields, codePointLe, Json.sortKeys]

namespace Platform

variable (P : Platform)

/-- The checks up to the decrypted plaintext; an error is the code of the failure. -/
def decrypt (req : InferenceRequest) : Except String Bytes :=
  match hexDecode req.clientPubHex with
  | none => .error "channel_decrypt_failed"
  | some clientPub =>
  match hexDecode req.ciphertextHex with
  | none => .error "channel_decrypt_failed"
  | some ciphertext =>
  match hexDecode req.nonceHex with
  | none => .error "channel_decrypt_failed"
  | some nonce =>
  if clientPub.length ≠ 32 then .error "channel_decrypt_failed"
  else if nonce.length ≠ 24 then .error "channel_decrypt_failed"
  else
  match P.hkdf (Utf8.encode "pzdr-channel-v1".toList) (P.diffieHellman clientPub)
      (Utf8.encode "channel-aead".toList) 32 with
  | none => .error "channel_key_derivation_failed"
  | some aeadKey =>
  -- `XChaCha20Poly1305::new_from_slice` takes keys of 32 bytes
  if aeadKey.length ≠ 32 then .error "channel_key_derivation_failed"
  else
  match P.aeadOpen aeadKey nonce [] ciphertext with
  | none => .error "channel_decrypt_failed"
  | some plaintext => .ok plaintext

/-- The input of the commitment hash: the parts follow each other without a separator. -/
def commitmentInput (plaintext salt : Bytes) (context : String) : Bytes :=
  plaintext ++ salt ++ Utf8.encode context.toList

/-- The commitment check; gives the decoded salt. -/
def checkCommitment (req : InferenceRequest) (plaintext : Bytes) : Except String Bytes :=
  match hexDecode req.commitmentSaltHex with
  | none => .error "invalid_commitment_salt"
  | some salt =>
  if hexEncode (P.sha.hash (commitmentInput plaintext salt req.commitmentContext)) ≠
      req.commitmentHex then .error "commitment_mismatch"
  else .ok salt

/-- `process_and_delete` up to the counter. -/
def decide (body : Bytes) : Outcome :=
  match P.parseRequest body with
  | none => .failed "malformed_request" "" "gateway" false
  | some req =>
  let processor := req.processorId.getD "gateway"
  match P.decrypt req with
  | .error code => .failed code req.commitmentHex processor false
  | .ok plaintext =>
  match P.checkCommitment req plaintext with
  | .error code => .failed code req.commitmentHex processor true
  | .ok _ =>
  match Policy.defaultV1.evaluate plaintext processor with
  | .error reason => .failed reason req.commitmentHex processor true
  | .ok () =>
  match callUpstream P.sha plaintext with
  | .error _ => .failed "upstream_failed" req.commitmentHex processor true
  | .ok upstreamResp => .succeeded req.commitmentHex processor upstreamResp

/-- `process_and_delete` up to the counter, with the plaintexts it has handed to `call_upstream`. -/
def decideTraced (body : Bytes) : Outcome × List Bytes :=
  match P.parseRequest body with
  | none => (.failed "malformed_request" "" "gateway" false, [])
  | some req =>
  let processor := req.processorId.getD "gateway"
  match P.decrypt req with
  | .error code => (.failed code req.commitmentHex processor false, [])
  | .ok plaintext =>
  match P.checkCommitment req plaintext with
  | .error code => (.failed code req.commitmentHex processor true, [])
  | .ok _ =>
  match Policy.defaultV1.evaluate plaintext processor with
  | .error reason => (.failed reason req.commitmentHex processor true, [])
  | .ok () =>
  match callUpstream P.sha plaintext with
  | .error _ => (.failed "upstream_failed" req.commitmentHex processor true, [plaintext])
  | .ok upstreamResp => (.succeeded req.commitmentHex processor upstreamResp, [plaintext])

theorem decideTraced_fst (body : Bytes) : (P.decideTraced body).1 = P.decide body := by
  unfold decideTraced decide
  cases P.parseRequest body with
  | none => rfl
  | some req =>
    dsimp only
    cases P.decrypt req with
    | error code => rfl
    | ok plaintext =>
      dsimp only
      cases P.checkCommitment req plaintext with
      | error code => rfl
      | ok salt =>
        dsimp only
        cases Policy.defaultV1.evaluate plaintext (req.processorId.getD "gateway") <;> rfl

/-! ## The signed proof -/

def policyDecision (allow : Bool) (reason tenant processor : String) : Json :=
  object [
    ("allow", .bool allow),
    ("reason", .str reason),
    ("policy_id", .str Policy.defaultV1.policyId),
    ("policy_version", .num Policy.defaultV1.policyVersion),
    ("policy_hash", .str (Policy.defaultV1.policyHash P.sha)),
    ("tenant", .str tenant),
    ("processor", .str processor)]

def zeroizationReport (inputWiped responseReturned : Bool) : Json :=
  object [
    ("input_buffer_wiped", .bool inputWiped),
    ("response_buffer_wiped", .bool false),
    ("response_buffer_returned", .bool responseReturned)]

/-- `v.get(key).and_then(|v| v.as_str())` -/
def getStr (v : Json) (key : String) : Option String :=
  match v.get? key with
  | some (.str s) => some s
  | _ => none

/-- `v.get(key).and_then(|v| v.as_u64())` -/
def getU64 (v : Json) (key : String) : Option Nat :=
  match v.get? key with
  | some (.num (.ofNat n)) => some n
  | _ => none

/-- The statement of a finished request, with the counter, the clock reading and the random
identifiers that go into it. -/
def statement (outcome : Outcome) (tenant : String) (counter timestamp : Nat)
    (proofId sessionId : Bytes) : ProofStatement :=
  match outcome with
  | .succeeded commitment processor upstreamResp => {
      proofId := hexEncode proofId
      proofVersion := 3
      schemaUrl := "pzdr://proof/v3"
      sessionId := hexEncode sessionId
      tenantId := tenant
      counter := counter
      timestamp := timestamp
      commitmentHex := commitment
      processorId := processor
      upstreamModel := getStr upstreamResp "model"
      upstreamTokensIn := getU64 upstreamResp "input_tokens"
      upstreamTokensOut := getU64 upstreamResp "output_tokens"
      measurement := P.expectedPcr0
      channelPublicKeyHex := hexEncode P.channelPk
      proofVerifierKeyHex := hexEncode P.proofPk
      teeBackend := "aws-nitro"
      computeTier := "tier1_cpu_enclave_only"
      proofMode := "attestation"
      success := true
      errorCode := none
      policyDecision := P.policyDecision true "allowed" tenant processor
      zeroizationReport := zeroizationReport true true
      resultHashHex := some (hexEncode (P.sha.hash (toVec upstreamResp)))
      outputGovernance := object [
        ("retention_policy", .str "returned-only"),
        ("expires_at", .num timestamp)]
      failureDetail := none }
  | .failed code commitment processor inputWiped => {
      proofId := hexEncode proofId
      proofVersion := 3
      schemaUrl := "pzdr://proof/v3"
      sessionId := hexEncode sessionId
      tenantId := tenant
      counter := counter
      timestamp := timestamp
      commitmentHex := commitment
      processorId := processor
      upstreamModel := none
      upstreamTokensIn := none
      upstreamTokensOut := none
      measurement := P.expectedPcr0
      channelPublicKeyHex := hexEncode P.channelPk
      proofVerifierKeyHex := hexEncode P.proofPk
      teeBackend := "aws-nitro"
      computeTier := "tier1_cpu_enclave_only"
      proofMode := "attestation"
      success := false
      errorCode := some code
      policyDecision := P.policyDecision false code tenant processor
      zeroizationReport := zeroizationReport inputWiped false
      resultHashHex := none
      outputGovernance := object []
      failureDetail := some (object [("code", .str code)]) }

def signProof (statement : ProofStatement) : SignedProof where
  statement := statement
  signerKeyId := "enclave-proof-v1"
  signatureB64 := P.base64 (P.sign (canonicalJson statement.toJson))

/-- The answer to a request, from its proof and its receipt. -/
def response (outcome : Outcome) (proof : SignedProof) (receipt : Json) (totalUs : Nat) : Json :=
  match outcome with
  | .succeeded _ _ upstreamResp => object [
      ("ok", .bool true),
      ("model_response", upstreamResp),
      ("proof", proof.toJson),
      ("receipt", receipt),
      ("timings_us", object [("total", .num totalUs)])]
  | .failed code _ _ _ => object [
      ("ok", .bool false),
      ("error", .str code),
      ("proof", proof.toJson),
      ("receipt", receipt),
      ("timings_us", object [("total", .num totalUs)])]

theorem response_get?_proof (outcome : Outcome) (proof : SignedProof) (receipt : Json)
    (totalUs : Nat) : (response outcome proof receipt totalUs).get? "proof" = some proof.toJson := by
  cases outcome <;> exact object_get? (by simp) _

theorem response_get?_receipt (outcome : Outcome) (proof : SignedProof) (receipt : Json)
    (totalUs : Nat) : (response outcome proof receipt totalUs).get? "receipt" = some receipt := by
  cases outcome <;> exact object_get? (by simp) _

/-! ## Facts about the decision -/

variable {P} in
theorem decide_succeeded {body : Bytes} {commitment processor : String} {upstreamResp : Json}
    (h : P.decide body = .succeeded commitment processor upstreamResp) :
    ∃ req plaintext, P.parseRequest body = some req ∧ req.commitmentHex = commitment ∧
      callUpstream P.sha plaintext = .ok upstreamResp := by
  unfold decide at h
  split at h
  · cases h
  · rename_i req hparse
    dsimp only at h
    split at h
    · cases h
    · rename_i plaintext hplain
      split at h
      · cases h
      · split at h
        · cases h
        · split at h
          · cases h
          · rename_i upstream hupstream
            cases h
            exact ⟨req, plaintext, hparse, rfl, hupstream⟩

variable {P} in
theorem decrypt_error {req : InferenceRequest} {code : String} (h : P.decrypt req = .error code) :
    code ∈ ["channel_decrypt_failed", "channel_key_derivation_failed"] := by
  unfold decrypt at h
  repeat' split at h
  all_goals cases h <;> simp

variable {P} in
theorem checkCommitment_error {req : InferenceRequest} {plaintext : Bytes} {code : String}
    (h : P.checkCommitment req plaintext = .error code) :
    code ∈ ["invalid_commitment_salt", "commitment_mismatch"] := by
  unfold checkCommitment at h
  repeat' split at h
  all_goals cases h <;> simp

variable {P} in
/-- The codes with which a request can fail. -/
theorem decide_failed {body : Bytes} {code commitment processor : String} {inputWiped : Bool}
    (h : P.decide body = .failed code commitment processor inputWiped) :
    code ∈ ["malformed_request", "channel_decrypt_failed", "channel_key_derivation_failed",
      "invalid_commitment_salt", "commitment_mismatch", "processor_not_allowed", "input_too_large",
      "restricted_marker", "pii_detected", "upstream_failed"] := by
  unfold decide at h
  split at h
  · cases h
    simp
  · dsimp only at h
    split at h
    · rename_i hdecrypt
      cases h
      have hcode := decrypt_error hdecrypt
      simp only [List.mem_cons, List.not_mem_nil, or_false] at hcode
      rcases hcode with rfl | rfl <;> simp
    · split at h
      · rename_i hcommitment
        cases h
        have hcode := checkCommitment_error hcommitment
        simp only [List.mem_cons, List.not_mem_nil, or_false] at hcode
        rcases hcode with rfl | rfl <;> simp
      · split at h
        · rename_i hpolicy
          cases h
          have hcode := Policy.evaluate_reasons hpolicy
          simp only [List.mem_cons, List.not_mem_nil, or_false] at hcode
          rcases hcode with rfl | rfl | rfl | rfl <;> simp
        · split at h
          · cases h
            simp
          · cases h

variable {P} in
theorem response_plain {body : Bytes} {proof : SignedProof} {receipt : Json} (totalUs : Nat)
    (hproof : proof.statement.WellFormed) (hreceipt : Plain receipt) :
    Plain (response (P.decide body) proof receipt totalUs) := by
  have htimings : Plain (object [("total", .num totalUs)]) := object_plain (by simp) (by simp [Bmp])
  cases hd : P.decide body with
  | succeeded commitment processor upstreamResp =>
    obtain ⟨_, _, _, _, hupstream⟩ := decide_succeeded hd
    exact object_plain (by simp) (by simp [Bmp, (callUpstream_plain hupstream).1,
      SignedProof.plain hproof, hreceipt, htimings])
  | failed code commitment processor inputWiped =>
    exact object_plain (by simp) (by simp [Bmp, SignedProof.plain hproof, hreceipt, htimings])

/-! ## Facts about the statement -/

theorem policyDecision_plain (allow : Bool) (reason tenant processor : String) :
    Plain (P.policyDecision allow reason tenant processor) := by
  apply object_plain
  · simp
  · simp [Bmp]

theorem zeroizationReport_plain (inputWiped responseReturned : Bool) :
    Plain (zeroizationReport inputWiped responseReturned) := by
  apply object_plain
  · simp
  · simp [Bmp]

theorem statement_wellFormed (outcome : Outcome) (tenant : String) (counter timestamp : Nat)
    (proofId sessionId : Bytes) :
    (P.statement outcome tenant counter timestamp proofId sessionId).WellFormed := by
  cases outcome with
  | succeeded commitment processor upstreamResp =>
    refine ⟨P.policyDecision_plain _ _ _ _, zeroizationReport_plain _ _, ?_, ?_⟩
    · exact object_plain (by simp) (by simp [Bmp])
    · intro v hv
      cases hv
  | failed code commitment processor inputWiped =>
    refine ⟨P.policyDecision_plain _ _ _ _, zeroizationReport_plain _ _, ?_, ?_⟩
    · exact object_plain (by simp) (by simp)
    · intro v hv
      cases hv
      exact object_plain (by simp) (by simp [Bmp])

end Platform

/-! ## A platform to run the model on -/

/-- Primitives that keep what they are given, and a parser for the bodies of some requests. -/
def samplePlatform (requests : List InferenceRequest) : Platform where
  sha := .firstBytes
  parseRequest body := requests.find? (fun req => toVec req.toJson == body)
  diffieHellman publicKey := publicKey
  hkdf _ _ _ length := some (List.replicate length 0)
  aeadOpen _ _ _ ciphertext := some ciphertext
  sign message := message
  base64 := hexEncode
  expectedPcr0 := "00"
  channelPk := List.replicate 32 1
  proofPk := List.replicate 32 2

theorem toJson_injective {req req' : InferenceRequest} (h : req.toJson = req'.toJson) :
    req = req' := by
  obtain ⟨a, b, c, d, e, f, p⟩ := req
  obtain ⟨a', b', c', d', e', f', p'⟩ := req'
  cases p <;> cases p' <;> simp_all [InferenceRequest.toJson, ofString?]

/-- The sample parser reads back what a client has written. -/
theorem sample_parseRequest {requests : List InferenceRequest} {req : InferenceRequest}
    (h : req ∈ requests) :
    (samplePlatform requests).parseRequest (toVec req.toJson) = some req := by
  cases hf : (samplePlatform requests).parseRequest (toVec req.toJson) with
  | none =>
    have := List.find?_eq_none.mp hf req h
    simp at this
  | some req' =>
    have heq : toVec req'.toJson = toVec req.toJson := by simpa using List.find?_some hf
    rw [toJson_injective (Json.print_injective (Utf8.encode_injective heq))]

/-- The request of a client for this platform. -/
def sampleRequest (plaintext salt : Bytes) (context processor : String) : InferenceRequest where
  clientPubHex := hexEncode (List.replicate 32 3)
  ciphertextHex := hexEncode plaintext
  nonceHex := hexEncode (List.replicate 24 4)
  commitmentHex := hexEncode ((samplePlatform []).sha.hash
    (Platform.commitmentInput plaintext salt context))
  commitmentSaltHex := hexEncode salt
  commitmentContext := context
  processorId := some processor

theorem sample_decrypt (requests : List InferenceRequest) (plaintext salt : Bytes)
    (context processor : String) :
    (samplePlatform requests).decrypt (sampleRequest plaintext salt context processor) =
      .ok plaintext := by
  simp [Platform.decrypt, sampleRequest, hexDecode_hexEncode, samplePlatform]

theorem sample_checkCommitment (requests : List InferenceRequest) (plaintext salt : Bytes)
    (context processor : String) :
    (samplePlatform requests).checkCommitment (sampleRequest plaintext salt context processor)
      plaintext = .ok salt := by
  simp [Platform.checkCommitment, sampleRequest, hexDecode_hexEncode, samplePlatform]

end Enclave
end Pzdr
