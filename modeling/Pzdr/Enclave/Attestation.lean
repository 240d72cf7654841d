import Pzdr.Enclave.Process

/-!
# Enclave.Attestation

`publish_attestation` of `services/pzdr-enclave/src/main.rs`: the two public keys of the enclave in
the user data of an attestation document, and beside it.
-/

namespace Pzdr
namespace Enclave

structure AttestationOut where
  nitroAttestationB64 : String
  measurement : String
  channelPublicKeyHex : String
  proofVerifierKeyHex : String
  bindingFormat : String
  teeBackend : String
  computeTier : String
  timestamp : Nat

def AttestationOut.fields (a : AttestationOut) : List (String × Json) := [
  ("nitro_attestation_b64", .str a.nitroAttestationB64),
  ("measurement", .str a.measurement),
  ("channel_public_key_hex", .str a.channelPublicKeyHex),
  ("proof_verifier_key_hex", .str a.proofVerifierKeyHex),
  ("binding_format", .str a.bindingFormat),
  ("tee_backend", .str a.teeBackend),
  ("compute_tier", .str a.computeTier),
  ("timestamp", .num a.timestamp)]

def AttestationOut.toJson (a : AttestationOut) : Json := .obj a.fields

namespace Platform

variable (P : Platform)

def attestationBinding : Json := object [
  ("format", .str "pzdr-attestation-binding/v1"),
  ("channel_public_key_hex", .str (hexEncode P.channelPk)),
  ("proof_verifier_key_hex", .str (hexEncode P.proofPk))]

/-- `generateAttestation` is the NSM device: a document for user data and a public key. -/
def publishAttestation (generateAttestation : Bytes → Bytes → Option Bytes) (now : Nat) :
    Option AttestationOut := do
  let doc ← generateAttestation (canonicalJson P.attestationBinding) P.channelPk
  return {
    nitroAttestationB64 := P.base64 doc
    measurement := P.expectedPcr0
    channelPublicKeyHex := hexEncode P.channelPk
    proofVerifierKeyHex := hexEncode P.proofPk
    bindingFormat := "pzdr-attestation-binding/v1"
    teeBackend := "aws-nitro"
    computeTier := "tier1_cpu_enclave_only"
    timestamp := now }

end Platform

end Enclave
end Pzdr
