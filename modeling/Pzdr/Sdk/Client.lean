import Pzdr.Canonical
import Pzdr.Hex
import Pzdr.Sha256
import Pzdr.Sdk.Transparency

/-!
# Sdk.Client

`sdk/typescript/client.ts`: one call of `PZDRClient.process`, and the verification of the evidence
it returns. `none` stands for a thrown exception.

Values that came over the wire are JSON values; reading a property gives a `JsVal`. JavaScript
objects have no key twice, and the numbers of this protocol are integers.
-/

namespace Pzdr
namespace Sdk

/-- What the SDK has from its libraries and from the language: `verifyDetached` is
`sodium.crypto_sign_verify_detached` on signature, message and key, `atob` decodes as `b64ToBytes`
does, and `coercedInclusion` is what `verifyInclusion` makes of an index or a size that is not an
integer. -/
structure Platform where
  verifyDetached : Bytes → Bytes → Bytes → Option Bool
  fromHex : JsVal → Option Bytes
  atob : JsVal → Option Bytes
  bufferFromBase64 : JsVal → Option Bytes
  coercedInclusion : Bytes → JsVal → JsVal → JsVal → JsVal → Option Bool
  verifyAttestation : JsVal → Option Unit
  scalarmultBase : Bytes → Bytes
  scalarmult : Bytes → Bytes → Option Bytes
  hkdf : Bytes → Bytes → Bytes → Nat → Bytes
  aeadEncrypt : Bytes → Bytes → Bytes → Bytes

/-- `v.key`; there is no property to read on `undefined` and `null`. -/
def prop : JsVal → String → Option JsVal
  | none, _ => none
  | some .null, _ => none
  | some v, key => some (v.get? key)

theorem prop_some {v : JsVal} {key : String} {x : JsVal} (h : prop v key = some x) :
    ∃ w, v = some w ∧ w.get? key = x := by
  cases v with
  | none => cases h
  | some w =>
    cases w with
    | null => cases h
    | _ => exact ⟨_, rfl, Option.some.inj h⟩

def asString : JsVal → Option String
  | some (.str s) => some s
  | _ => none

/-- `new TextEncoder().encode(canonicalJSON(v))`; without an argument the encoder gives no bytes. -/
def encodeCanonical : JsVal → Bytes
  | some v => Utf8.encode (canonicalJSON v)
  | none => []

/-! ## Verification -/

section Verify

variable (sha : Sha256) (D : Platform)

def entryBytesOf (proof : JsVal) : Bytes := encodeCanonical proof

def verifyProof (proof keyHex : JsVal) : Option Bool := do
  let message := encodeCanonical (← prop proof "statement")
  let signature ← D.atob (← prop proof "signature_b64")
  let key ← D.fromHex keyHex
  D.verifyDetached signature message key

def verifyCheckpoint (checkpoint keyHex : JsVal) : Option Bool := do
  let message := Utf8.encode (canonicalRecord [
    ("root_hex", ← prop checkpoint "root_hex"),
    ("size", ← prop checkpoint "size"),
    ("timestamp", ← prop checkpoint "timestamp")])
  let signature ← D.bufferFromBase64 (← prop checkpoint "checkpoint_signature_b64")
  let key ← D.fromHex keyHex
  D.verifyDetached signature message key

/-- `verifyInclusion` on values from the wire: an array of strings and a string are needed once the
numbers are in range. -/
def checkInclusion (leaf : Bytes) (index size auditPath rootHex : JsVal) : Option Bool :=
  match index, size with
  | some (.num index), some (.num size) =>
    if index ≥ size ∨ size ≤ 0 then some false
    else
      match auditPath with
      | some (.arr hashes) => do
        let pathHex ← hashes.mapM (fun h => asString (some h))
        let rootHex ← asString rootHex
        verifyInclusion sha.log hexToBytes leaf index size pathHex rootHex
      | _ => none
  | index, size => D.coercedInclusion leaf index size auditPath rootHex

def verifyReceipt (proof receipt keyHex : JsVal) : Option Bool := do
  if !(← verifyProof D proof keyHex) then return false
  let checkpoint ← prop receipt "checkpoint"
  if !(← verifyCheckpoint D checkpoint keyHex) then return false
  let leaf := sha.log.leafHash (entryBytesOf proof)
  -- lower case letters outside ASCII never equal a hexadecimal digit
  let leafHashHex ← asString (← prop receipt "leaf_hash_hex")
  if hexEncode leaf ≠ leafHashHex.toLower then return false
  checkInclusion sha D leaf (← prop receipt "index") (← prop checkpoint "size")
    (← prop receipt "audit_path") (← prop checkpoint "root_hex")

variable {sha D}

theorem asString_some {v : JsVal} {text : String} (h : asString v = some text) :
    v = some (.str text) := by
  unfold asString at h
  split at h
  · cases h
    rfl
  · cases h

/-- The checks of `verifyReceipt`. -/
theorem verifyReceipt_iff {proof receipt keyHex : JsVal} :
    verifyReceipt sha D proof receipt keyHex = some true ↔
    verifyProof D proof keyHex = some true ∧
    ∃ checkpoint leafHashHex index size auditPath rootHex,
      prop receipt "checkpoint" = some checkpoint ∧
      verifyCheckpoint D checkpoint keyHex = some true ∧
      prop receipt "leaf_hash_hex" = some (some (.str leafHashHex)) ∧
      hexEncode (sha.log.leafHash (entryBytesOf proof)) = leafHashHex.toLower ∧
      prop receipt "index" = some index ∧ prop checkpoint "size" = some size ∧
      prop receipt "audit_path" = some auditPath ∧ prop checkpoint "root_hex" = some rootHex ∧
      checkInclusion sha D (sha.log.leafHash (entryBytesOf proof)) index size auditPath rootHex =
        some true := by
  constructor
  · intro h
    simp only [verifyReceipt, Option.bind_eq_bind, Option.bind_eq_some_iff] at h
    obtain ⟨proofOk, hproof, h⟩ := h
    cases proofOk with
    | false => simp at h
    | true =>
      simp only [Bool.not_true, Bool.false_eq_true, if_false, Option.bind_eq_some_iff] at h
      obtain ⟨checkpoint, hcheckpoint, checkpointOk, hcheckpointOk, h⟩ := h
      cases checkpointOk with
      | false => simp at h
      | true =>
        simp only [Bool.not_true, Bool.false_eq_true, if_false, Option.bind_eq_some_iff] at h
        obtain ⟨leafHash, hleafHash, leafHashHex, htext, h⟩ := h
        rw [asString_some htext] at hleafHash
        split at h
        · simp at h
        · rename_i heq
          simp only [Option.bind_eq_some_iff] at h
          obtain ⟨index, hindex, size, hsize, auditPath, hpath, rootHex, hroot, h⟩ := h
          exact ⟨hproof, checkpoint, leafHashHex, index, size, auditPath, rootHex, hcheckpoint,
            hcheckpointOk, hleafHash, not_not.mp heq, hindex, hsize, hpath, hroot, h⟩
  · rintro ⟨hproof, checkpoint, leafHashHex, index, size, auditPath, rootHex, hcheckpoint,
      hcheckpointOk, hleafHash, heq, hindex, hsize, hpath, hroot, h⟩
    simp [verifyReceipt, hproof, hcheckpoint, hcheckpointOk, hleafHash, asString, heq, hindex,
      hsize, hpath, hroot, h]

theorem checkInclusion_num {leaf : Bytes} {index size : Int} {auditPath : JsVal} {rootHex : String}
    (h : checkInclusion sha D leaf (some (.num index)) (some (.num size)) auditPath
      (some (.str rootHex)) = some true) :
    ∃ hashes pathHex, auditPath = some (.arr hashes) ∧
      hashes.mapM (fun h => asString (some h)) = some pathHex ∧
      verifyInclusion sha.log hexToBytes leaf index size pathHex rootHex = some true := by
  simp only [checkInclusion] at h
  split at h
  · simp at h
  · split at h
    · rename_i hashes
      simp only [Option.bind_eq_bind, Option.bind_eq_some_iff] at h
      obtain ⟨pathHex, hp, root, hr, h⟩ := h
      cases hr
      exact ⟨hashes, pathHex, rfl, hp, h⟩
    · cases h

variable (sha)

/-- The inputs that `verifyReceipt` hashes. -/
def receiptInputs (proof receipt : JsVal) : List Bytes :=
  let leaf := sha.log.leafHash (entryBytesOf proof)
  let checkpoint := (prop receipt "checkpoint").getD none
  leafInput (entryBytesOf proof) ::
    match (prop receipt "index").getD none, (prop checkpoint "size").getD none,
      (prop receipt "audit_path").getD none with
    | some (.num index), some (.num size), some (.arr hashes) =>
      match (hashes.mapM (fun h => asString (some h))).bind (fun hs => hs.mapM hexToBytes) with
      | some path =>
        (Merkle.walkPairs sha.log.nodeHash index.toNat (size.toNat - 1) path leaf).map nodeInput
      | none => []
    | _, _, _ => []

theorem receiptInputs_eq {proof receipt checkpoint : JsVal} {index size : Nat} {hashes : List Json}
    {pathHex : List String} {path : List Bytes}
    (hcheckpoint : prop receipt "checkpoint" = some checkpoint)
    (hindex : prop receipt "index" = some (some (.num index)))
    (hsize : prop checkpoint "size" = some (some (.num size)))
    (hpath : prop receipt "audit_path" = some (some (.arr hashes)))
    (hhex : hashes.mapM (fun h => asString (some h)) = some pathHex)
    (hbytes : pathHex.mapM hexToBytes = some path) :
    receiptInputs sha proof receipt = leafInput (entryBytesOf proof) ::
      (Merkle.walkPairs sha.log.nodeHash index (size - 1) path
        (sha.log.leafHash (entryBytesOf proof))).map nodeInput := by
  simp only [receiptInputs, hcheckpoint, hindex, hpath, Option.getD_some, hsize, hhex,
    Option.bind_some, hbytes, Int.toNat_natCast]

end Verify

/-! ## A call -/

structure ProcessOptions where
  prompt : String ⊕ Bytes
  processor : Option String
  tenant : Option String
  context : Option String
  attestation : Option Json

/-- The random bytes of a call. -/
structure Draws where
  clientSecret : Bytes
  nonce : Bytes
  salt : Bytes

/-- What the gateway answers: `none` is a failed fetch, a status other than 2xx or a body that is
not JSON. The parent proxy decides it. -/
structure Gateway where
  attestation : Option Json
  inference : Json → Option String → Option Json

structure InferenceResult where
  ok : JsVal
  modelResponse : JsVal
  error : JsVal
  proof : JsVal
  receipt : JsVal
  timingsUs : JsVal

def ProcessOptions.payload (options : ProcessOptions) : Bytes :=
  match options.prompt with
  | .inl text => Utf8.encode text.toList
  | .inr bytes => bytes

/-- The commitment that a call computes for its request. -/
def commitment (sha : Sha256) (options : ProcessOptions) (draws : Draws) : String :=
  let context := options.context.getD "default"
  hexEncode (sha.hash (options.payload ++ draws.salt ++ Utf8.encode context.toList))

section Process

variable (sha : Sha256) (D : Platform) (gateway : Gateway)

def getAttestation : Option Json := do
  let attestation ← gateway.attestation
  D.verifyAttestation (some attestation)
  return attestation

/-- The body of the request. -/
def requestBody (options : ProcessOptions) (draws : Draws) : Option Json := do
  let attestation ← options.attestation <|> getAttestation D gateway
  D.verifyAttestation (some attestation)
  let channelPublic ← D.fromHex (← prop (some attestation) "channel_public_key_hex")
  let shared ← D.scalarmult draws.clientSecret channelPublic
  let aeadKey := D.hkdf shared (Utf8.encode "pzdr-channel-v1".toList)
    (Utf8.encode "channel-aead".toList) 32
  let ciphertext := D.aeadEncrypt options.payload draws.nonce aeadKey
  return .obj [
    ("client_pub_hex", .str (hexEncode (D.scalarmultBase draws.clientSecret))),
    ("ciphertext_hex", .str (hexEncode ciphertext)),
    ("nonce_hex", .str (hexEncode draws.nonce)),
    ("commitment_hex", .str (commitment sha options draws)),
    ("commitment_salt_hex", .str (hexEncode draws.salt)),
    ("commitment_context", .str (options.context.getD "default")),
    ("processor_id", .str (options.processor.getD "gateway"))]

/-- `X-Tenant-Id`, for a tenant that is not the empty string. -/
def ProcessOptions.tenantHeader (options : ProcessOptions) : Option String :=
  options.tenant.filter (fun tenant => tenant ≠ "")

/-- The result is read from the response, and nothing in it is compared with the request. -/
def readResult (response : JsVal) : Option InferenceResult := do
  return {
    ok := ← prop response "ok"
    modelResponse := ← prop response "model_response"
    error := ← prop response "error"
    proof := ← prop response "proof"
    receipt := ← prop response "receipt"
    timingsUs :=
      match ← prop response "timings_us" with
      | none => some (.obj [])
      | some .null => some (.obj [])
      | some timings => some timings }

def process (options : ProcessOptions) (draws : Draws) : Option InferenceResult := do
  let body ← requestBody sha D gateway options draws
  let response ← gateway.inference body options.tenantHeader
  readResult (some response)

theorem process_eq {options : ProcessOptions} {draws : Draws} {body response : Json}
    (hbody : requestBody sha D gateway options draws = some body)
    (hresponse : gateway.inference body options.tenantHeader = some response) :
    process sha D gateway options draws = readResult (some response) := by
  rw [process, hbody, Option.bind_eq_bind, Option.bind_some, hresponse]
  rfl

theorem requestBody_commitment {options : ProcessOptions} {draws : Draws} {body : Json}
    (h : requestBody sha D gateway options draws = some body) :
    body.get? "commitment_hex" = some (.str (commitment sha options draws)) := by
  simp only [requestBody, Option.bind_eq_bind, Option.bind_eq_some_iff] at h
  obtain ⟨_, _, _, _, _, _, _, _, _, _, h⟩ := h
  cases Option.some.inj h
  rfl

theorem readResult_some {response : Json} {result : InferenceResult}
    (h : readResult (some response) = some result) :
    response.get? "ok" = result.ok ∧ response.get? "model_response" = result.modelResponse ∧
      response.get? "proof" = result.proof ∧ response.get? "receipt" = result.receipt := by
  simp only [readResult, Option.bind_eq_bind, Option.bind_eq_some_iff] at h
  obtain ⟨ok, hok, model, hmodel, _, _, proof, hproof, receipt, hreceipt, _, _, h⟩ := h
  cases Option.some.inj h
  have hprop : ∀ {key x}, prop (some response) key = some x → response.get? key = x := by
    intro key x hx
    obtain ⟨w, hw, hget⟩ := prop_some hx
    cases hw
    exact hget
  exact ⟨hprop hok, hprop hmodel, hprop hproof, hprop hreceipt⟩

end Process

/-- Libraries for the sample enclave: a signature is the message, and texts are hexadecimal. -/
def samplePlatform (signed : List Bytes) : Platform where
  verifyDetached signature message _ := some (signature == message && signed.contains message)
  fromHex v := (asString v).bind hexDecode
  atob v := (asString v).bind hexDecode
  bufferFromBase64 v := (asString v).bind hexDecode
  coercedInclusion _ _ _ _ _ := none
  verifyAttestation _ := some ()
  scalarmultBase secret := secret
  scalarmult _ publicKey := some publicKey
  hkdf _ _ _ length := List.replicate length 0
  aeadEncrypt message _ _ := message

end Sdk
end Pzdr
