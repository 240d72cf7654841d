import Pzdr.Sdk.Attestation

/-!
# Sdk.Trust

`PZDRClient.verifyAttestation` of `sdk/typescript/client.ts`, on the value that came over the wire,
and what `verifyNitroAttestation` has found out about any document that it accepts.
-/

namespace Pzdr
namespace Sdk

open Cbor

/-- What `verifyAttestation` reads of a `PZDRClientConfig`. -/
structure PZDRClientConfig where
  expectedPcr0 : String
  awsNitroRootPem : Option String
  maxAttestationAgeSeconds : Option Int

/-- `Buffer.from(v, "base64")` takes more than texts; `bufferText` gives, for what is no text, a base64
text of the same bytes. -/
def bufferBase64 (bufferText : Json → Option String) : JsVal → Option String
  | some (.str text) => some text
  | some v => bufferText v
  | none => none

/-- The fields as `verifyNitroAttestation` reads them: only texts have `toLowerCase`. -/
def envelopeOf (bufferText : Json → Option String) (attestation : JsVal) :
    Option AttestationEnvelope := do
  let document ← bufferBase64 bufferText (← prop attestation "nitro_attestation_b64")
  let measurement ← asString (← prop attestation "measurement")
  let channelKey ← asString (← prop attestation "channel_public_key_hex")
  let proofKey ← asString (← prop attestation "proof_verifier_key_hex")
  let format ← prop attestation "binding_format"
  return ⟨document, measurement, channelKey, proofKey, asString format⟩

section

variable {Key : Type} (N : Node Key) (bufferText : Json → Option String)

def PZDRClientConfig.options (config : PZDRClientConfig) : NitroVerificationOptions where
  expectedPcr0 := config.expectedPcr0
  awsRootPem := some (config.awsNitroRootPem.getD awsNitroRootPemCommercial)
  maxAgeSeconds := config.maxAttestationAgeSeconds
  now := none

def verifyAttestation (config : PZDRClientConfig) (clock : Date) (attestation : JsVal) :
    Option Unit := do
  let envelope ← envelopeOf bufferText attestation
  match verifyNitroAttestation N envelope config.options clock with
  | .ok _ => some ()
  | .error _ => none

variable {N bufferText}

theorem verifyAttestation_some {config : PZDRClientConfig} {clock : Date} {attestation : JsVal}
    (h : verifyAttestation N bufferText config clock attestation = some ()) :
    ∃ envelope r, verifyNitroAttestation N envelope config.options clock = .ok r ∧
      prop attestation "channel_public_key_hex" = some (some (.str envelope.channelPublicKeyHex)) ∧
      prop attestation "proof_verifier_key_hex" = some (some (.str envelope.proofVerifierKeyHex)) := by
  obtain ⟨envelope, henvelope, h⟩ := Option.bind_eq_some_iff.mp h
  split at h
  · rename_i r hr
    simp only [envelopeOf, Option.bind_eq_bind, Option.bind_eq_some_iff] at henvelope
    obtain ⟨_, _, _, _, _, _, _, _, channelKey, hchannel, channelText, hchannelText, proofKey, hproof,
      proofText, hproofText, _, _, henvelope⟩ := henvelope
    cases Option.some.inj henvelope
    rw [asString_some hchannelText] at hchannel
    rw [asString_some hproofText] at hproof
    exact ⟨_, r, hr, hchannel, hproof⟩
  · cases h

/-- The checks of `verifyNitroAttestation`, in their order. -/
theorem verifyNitroAttestation_parts {attestation : AttestationEnvelope}
    {options : NitroVerificationOptions} {clock : Date} {r : VerifiedNitroDocument}
    (h : verifyNitroAttestation N attestation options clock = .ok r) :
    ∃ cose payload, N.decodeFirstSync cose.payloadBytes = some payload ∧
      checkSignature N cose payload (options.awsRootPem.getD awsNitroRootPemCommercial)
        (options.now.getD clock) = .ok () ∧
      checkTimestamp N payload (options.maxAgeSeconds.getD 300) (options.now.getD clock) =
        .ok r.timestampMs ∧
      checkMeasurement payload options.expectedPcr0 attestation.measurement = .ok r.measurement ∧
      checkKeys N payload attestation = .ok (r.channelPublicKeyHex, r.proofVerifierKeyHex) := by
  simp only [verifyNitroAttestation, Except.bind_eq_ok, call_ok] at h
  obtain ⟨_, _, cose, _, payload, hpayload, _, hsignature, t, ht, m, hm, ⟨channelKey, proofKey⟩, hkeys,
    h⟩ := h
  cases h
  exact ⟨cose, payload, hpayload, hsignature, ht, hm, hkeys⟩

theorem checkSignature_parts {cose : Sign1} {payload : Value} {rootPem : String} {now : Date}
    (h : checkSignature N cose payload rootPem now = .ok ()) :
    ∃ leafDer bundle leaf key, validateCertificatePath N leafDer bundle rootPem now = .ok leaf ∧
      leaf.publicKey = some key ∧
      N.verifySignature (N.encodeCanonical (sigStructure cose)) key cose.signature = some true := by
  simp only [checkSignature, Except.bind_eq_ok, call_ok, throwIf_ok] at h
  obtain ⟨_, _, _, _, _, _, leafDer, _, _, _, bundle, _, leaf, hleaf, key, hkey, verified, hverified,
    h⟩ := h
  rw [Bool.not_eq_false] at h
  exact ⟨leafDer, bundle, leaf, key, hleaf, hkey, h ▸ hverified⟩

theorem checkTimestamp_parts {payload : Value} {maxAgeSeconds t : Int} {now : Date}
    (h : checkTimestamp N payload maxAgeSeconds now = .ok t) :
    (∃ v, mapGet (some payload) (.text "timestamp") = .ok v ∧ toNumber N v = some t) ∧
      |now.ms - t| ≤ maxAgeSeconds * 1000 := by
  rw [checkTimestamp, Except.bind_eq_ok] at h
  obtain ⟨v, hv, h⟩ := h
  split at h
  · cases h
  · rename_i t' ht
    simp only [Except.bind_eq_ok, throwIf_ok] at h
    obtain ⟨_, _, _, hage, h⟩ := h
    cases h
    exact ⟨⟨v, hv, ht⟩, not_lt.mp hage⟩

theorem checkMeasurement_parts {payload : Value} {expectedPcr0 advertised m : String}
    (h : checkMeasurement payload expectedPcr0 advertised = .ok m) :
    ∃ pcrs pcr0, mapGet (some payload) (.text "pcrs") = .ok pcrs ∧
      mapGet pcrs (.number 0) = .ok (some (.bytes pcr0)) ∧
      (hexEncode pcr0).toLower = expectedPcr0.toLower ∧ m = hexEncode pcr0 := by
  simp only [checkMeasurement, Except.bind_eq_ok, bytes_ok, throwIf_ok, not_not] at h
  obtain ⟨pcrs, hpcrs, _, hvalue, pcr0, rfl, _, _, _, hpinned, _, _, h⟩ := h
  cases h
  exact ⟨pcrs, pcr0, hpcrs, hvalue, hpinned, rfl⟩

theorem checkKeys_parts {payload : Value} {attestation : AttestationEnvelope}
    {channelKey proofKey : String} (h : checkKeys N payload attestation = .ok (channelKey, proofKey)) :
    ∃ channelPk data binding key,
      mapGet (some payload) (.text "public_key") = .ok (some (.bytes channelPk)) ∧
      mapGet (some payload) (.text "user_data") = .ok (some (.bytes data)) ∧
      N.parse data = some binding ∧ channelKey = hexEncode channelPk ∧
      channelKey = attestation.channelPublicKeyHex.toLower ∧
      prop (some binding) "proof_verifier_key_hex" = some key ∧
      proofKey = (stringOrEmpty key).toLower ∧
      proofKey = attestation.proofVerifierKeyHex.toLower := by
  simp only [checkKeys, Except.bind_eq_ok, bytes_ok, throwIf_ok] at h
  obtain ⟨_, hpublic, channelPk, rfl, _, _, _, hdata, data, rfl, h⟩ := h
  split at h
  · cases h
  · rename_i binding hbinding
    rw [Except.bind_eq_ok] at h
    obtain ⟨_, hcheck, h⟩ := h
    cases h
    simp only [checkBinding, Except.bind_eq_ok, call_ok, throwIf_ok, not_or, not_not] at hcheck
    obtain ⟨_, _, _, _, _, _, _, _, _, hchannel, key, hkey, _, _, _, hproof, h⟩ := hcheck
    cases h
    exact ⟨channelPk, data, binding, key, hpublic, hdata, hbinding, rfl, hchannel.1, hkey, rfl, hproof⟩

end

end Sdk
end Pzdr
