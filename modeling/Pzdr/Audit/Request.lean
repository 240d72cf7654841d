import Pzdr.Enclave.Process
import Pzdr.Sdk.Client

/-!
# Audit.Request

The request that the SDK builds, as the enclave reads it. With libraries that agree (`Agrees`), the
enclave recovers the payload and passes the commitment, so only the policy decides
(`process_decided`).
-/

namespace Pzdr
namespace Audit

open Enclave
open Sdk (ProcessOptions Draws Gateway requestBody)

/-- The two programs' libraries follow one specification each. -/
structure Agrees (P : Platform) (D : Sdk.Platform) : Prop where
  fromHex : ∀ bs, D.fromHex (some (.str (hexEncode bs))) = some bs
  scalarmult : ∀ secret, secret.length = 32 →
    D.scalarmult secret P.channelPk = some (P.diffieHellman (D.scalarmultBase secret))
  publicKey : ∀ secret, secret.length = 32 → (D.scalarmultBase secret).length = 32
  hkdf : ∀ salt ikm info length, length ≤ 255 * 32 →
    P.hkdf salt ikm info length = some (D.hkdf ikm salt info length) ∧
      (D.hkdf ikm salt info length).length = length
  aead : ∀ key nonce message, key.length = 32 → nonce.length = 24 →
    P.aeadOpen key nonce [] (D.aeadEncrypt message nonce key) = some message

/-- The key of the AEAD, as the client derives it. -/
def clientKey (D : Sdk.Platform) (shared : Bytes) : Bytes :=
  D.hkdf shared (Utf8.encode "pzdr-channel-v1".toList) (Utf8.encode "channel-aead".toList) 32

/-- The fields of the request. -/
def clientRequest (P : Platform) (D : Sdk.Platform) (options : ProcessOptions) (draws : Draws) :
    InferenceRequest where
  clientPubHex := hexEncode (D.scalarmultBase draws.clientSecret)
  ciphertextHex := hexEncode (D.aeadEncrypt options.payload draws.nonce
    (clientKey D (P.diffieHellman (D.scalarmultBase draws.clientSecret))))
  nonceHex := hexEncode draws.nonce
  commitmentHex := Sdk.commitment P.sha options draws
  commitmentSaltHex := hexEncode draws.salt
  commitmentContext := options.context.getD "default"
  processorId := some (options.processor.getD "gateway")

variable {P : Platform} {D : Sdk.Platform} {gateway : Gateway} {options : ProcessOptions}
  {draws : Draws}

theorem requestBody_eq (hD : Agrees P D) (hsecret : draws.clientSecret.length = 32)
    {attestation : Json}
    (hattestation : (options.attestation <|> Sdk.getAttestation D gateway) = some attestation)
    (hverified : D.verifyAttestation (some attestation) = some ())
    (hchannel : Sdk.prop (some attestation) "channel_public_key_hex" =
      some (some (.str (hexEncode P.channelPk)))) :
    requestBody P.sha D gateway options draws = some (clientRequest P D options draws).toJson := by
  rw [requestBody, hattestation]
  simp only [Option.bind_eq_bind, Option.bind_some, hverified, hchannel, hD.fromHex,
    hD.scalarmult _ hsecret]
  rfl

theorem decrypt_clientRequest (hD : Agrees P D) (hsecret : draws.clientSecret.length = 32)
    (hnonce : draws.nonce.length = 24) :
    P.decrypt (clientRequest P D options draws) = .ok options.payload := by
  obtain ⟨hkdf, hlen⟩ := hD.hkdf (Utf8.encode "pzdr-channel-v1".toList)
    (P.diffieHellman (D.scalarmultBase draws.clientSecret)) (Utf8.encode "channel-aead".toList) 32
    (by omega)
  have hopen := hD.aead _ draws.nonce options.payload hlen hnonce
  have hpub := hD.publicKey _ hsecret
  unfold Platform.decrypt clientRequest
  simp only [hexDecode_hexEncode, hpub, hnonce, hkdf, hlen, clientKey, hopen, ne_eq,
    not_true_eq_false, if_false]

theorem checkCommitment_clientRequest :
    P.checkCommitment (clientRequest P D options draws) options.payload = .ok draws.salt := by
  unfold Platform.checkCommitment clientRequest
  simp only [hexDecode_hexEncode, Platform.commitmentInput, Sdk.commitment, ne_eq,
    not_true_eq_false, if_false]

/-- The checks before the policy are passed. -/
theorem decide_clientRequest (hD : Agrees P D) (hsecret : draws.clientSecret.length = 32)
    (hnonce : draws.nonce.length = 24) {body : Bytes}
    (hparse : P.parseRequest body = some (clientRequest P D options draws)) :
    P.decide body =
      match Policy.defaultV1.evaluate options.payload (options.processor.getD "gateway") with
      | .error reason => .failed reason (Sdk.commitment P.sha options draws)
          (options.processor.getD "gateway") true
      | .ok () =>
        match callUpstream P.sha options.payload with
        | .error _ => .failed "upstream_failed" (Sdk.commitment P.sha options draws)
            (options.processor.getD "gateway") true
        | .ok upstreamResp => .succeeded (Sdk.commitment P.sha options draws)
            (options.processor.getD "gateway") upstreamResp := by
  unfold Platform.decide
  rw [hparse]
  simp only [decrypt_clientRequest hD hsecret hnonce, checkCommitment_clientRequest]
  rfl

theorem process_decided (P : Platform) (D : Sdk.Platform) (gateway : Gateway)
    (options : ProcessOptions) (draws : Draws) (hD : Agrees P D)
    (hsecret : draws.clientSecret.length = 32) (hnonce : draws.nonce.length = 24)
    {attestation : Json}
    (hattestation : (options.attestation <|> Sdk.getAttestation D gateway) = some attestation)
    (hverified : D.verifyAttestation (some attestation) = some ())
    (hchannel : Sdk.prop (some attestation) "channel_public_key_hex" =
      some (some (.str (hexEncode P.channelPk))))
    (hparse : ∀ req : InferenceRequest,
      requestBody P.sha D gateway options draws = some req.toJson →
        P.parseRequest (toVec req.toJson) = some req) :
    ∃ body req, requestBody P.sha D gateway options draws = some body ∧
      P.parseRequest (toVec body) = some req ∧ P.decrypt req = .ok options.payload ∧
      P.checkCommitment req options.payload = .ok draws.salt ∧
      ∀ tenant counter timestamp proofId sessionId,
        let statement :=
          P.statement (P.decide (toVec body)) tenant counter timestamp proofId sessionId
        let verdict :=
          Policy.defaultV1.evaluate options.payload (options.processor.getD "gateway")
        (verdict = .ok () → statement.success = true ∧ statement.errorCode = none) ∧
        (∀ reason, verdict = .error reason →
          statement.success = false ∧ statement.errorCode = some reason) ∧
        statement.errorCode ∉ [some "malformed_request", some "channel_decrypt_failed",
          some "invalid_commitment_salt", some "commitment_mismatch"] := by
  have hbody := requestBody_eq hD hsecret hattestation hverified hchannel
  have hparsed := hparse _ hbody
  refine ⟨_, _, hbody, hparsed, decrypt_clientRequest hD hsecret hnonce,
    checkCommitment_clientRequest, ?_⟩
  intro tenant counter timestamp proofId sessionId
  rw [decide_clientRequest hD hsecret hnonce hparsed]
  cases hverdict : Policy.defaultV1.evaluate options.payload (options.processor.getD "gateway") with
  | ok =>
    refine ⟨fun _ => ⟨rfl, rfl⟩, ?_, ?_⟩
    · intro reason h
      cases h
    · simp [Platform.statement, callUpstream]
  | error reason =>
    refine ⟨?_, ?_, ?_⟩
    · intro h
      cases h
    · intro reason' h
      cases h
      exact ⟨rfl, rfl⟩
    · have hreason := Policy.evaluate_reasons hverdict
      simp only [List.mem_cons, List.not_mem_nil, or_false] at hreason
      rcases hreason with rfl | rfl | rfl | rfl <;> simp [Platform.statement]

/-! ## A client and an enclave -/

/-- A key exchange that commutes: the public key is the secret, and the shared one the sum bit by
bit. -/
def agreeingPlatform (requests : List InferenceRequest) : Platform :=
  { samplePlatform requests with
    diffieHellman := fun publicKey => List.zipWith (· ^^^ ·) (List.replicate 32 1) publicKey }

def agreeingSdk : Sdk.Platform :=
  { Sdk.samplePlatform [] with
    scalarmult := fun secret publicKey => some (List.zipWith (· ^^^ ·) secret publicKey) }

theorem sample_agrees (requests : List InferenceRequest) :
    Agrees (agreeingPlatform requests) agreeingSdk := by
  constructor
  · exact hexDecode_hexEncode
  · intro secret _
    exact congrArg some (List.zipWith_comm_of_comm UInt8.xor_comm)
  · intro secret h
    exact h
  · intro salt ikm info length _
    exact ⟨rfl, List.length_replicate⟩
  · intro key nonce message _ _
    rfl

theorem agreeing_parseRequest {requests : List InferenceRequest} {req : InferenceRequest}
    (h : req ∈ requests) :
    (agreeingPlatform requests).parseRequest (toVec req.toJson) = some req :=
  sample_parseRequest h

def sampleOptions : ProcessOptions where
  prompt := .inr [0x68, 0x69]
  processor := none
  tenant := none
  context := none
  attestation := some (.obj [("channel_public_key_hex", .str (hexEncode (List.replicate 32 1)))])

def sampleDraws : Draws := ⟨List.replicate 32 5, List.replicate 24 6, List.replicate 16 7⟩

theorem process_decided_sample : ∃ (P : Platform) (body : Json) (req : InferenceRequest),
    requestBody P.sha agreeingSdk ⟨none, fun _ _ => none⟩ sampleOptions sampleDraws = some body ∧
    P.parseRequest (toVec body) = some req ∧ P.decrypt req = .ok [0x68, 0x69] := by
  have hbody : requestBody (agreeingPlatform []).sha agreeingSdk ⟨none, fun _ _ => none⟩
      sampleOptions sampleDraws =
        some (clientRequest (agreeingPlatform []) agreeingSdk sampleOptions sampleDraws).toJson :=
    requestBody_eq (sample_agrees []) List.length_replicate rfl rfl rfl
  obtain ⟨body, req, h, hparsed, hplain, _⟩ := process_decided
    (agreeingPlatform [clientRequest (agreeingPlatform []) agreeingSdk sampleOptions sampleDraws])
    agreeingSdk ⟨none, fun _ _ => none⟩ sampleOptions sampleDraws (sample_agrees _)
    List.length_replicate List.length_replicate rfl rfl rfl (by
      intro req hreq
      obtain rfl := toJson_injective (Option.some.inj (hbody.symm.trans hreq))
      exact agreeing_parseRequest List.mem_cons_self)
  exact ⟨_, body, req, h, hparsed, hplain⟩

end Audit
end Pzdr
