import Pzdr.Cbor
import Pzdr.Hex
import Pzdr.Nitro.Chain
import Pzdr.Sdk.Client

/-!
# Sdk.Attestation

`sdk/typescript/attestation.ts`: the SDK's verification of an attestation document. Decoding and the
arithmetic of P-384 are those of the libraries (`Node`).

`validateCertificatePath` looks for an issuer by name and signature until it is at the pinned root,
which has to be in the bundle.
-/

namespace Pzdr
namespace Sdk

open Cbor

/-- An exception: an `Error` of this file, or one of a library or of the language. -/
inductive Thrown where
  | error (message : String)
  | foreign
  deriving DecidableEq, Repr

def call {α : Type} : Option α → Except Thrown α
  | none => .error .foreign
  | some a => .ok a

theorem call_ok {α : Type} {o : Option α} {a : α} : call o = .ok a ↔ o = some a := by
  cases o <;> simp [call]

/-- `if (condition) throw new Error(message)` -/
def throwIf (condition : Prop) [Decidable condition] (message : String) : Except Thrown Unit :=
  if condition then .error (.error message) else .ok ()

theorem throwIf_ok {condition : Prop} [Decidable condition] {message : String} {u : Unit} :
    throwIf condition message = .ok u ↔ ¬ condition := by
  unfold throwIf
  by_cases h : condition <;> simp [h]

/-- The milliseconds of a `Date`. -/
structure Date where
  ms : Int
  range : |ms| ≤ 8640000000000000

/-- `new Date(validFrom)` and `new Date(validTo)` stand for the texts; `publicKey` has no value where
reading it throws. -/
structure X509Certificate (Key : Type) where
  raw : Bytes
  subject : String
  issuer : String
  validFrom : Int
  validTo : Int
  ca : Bool
  publicKey : Option Key

/-- `node:crypto` and `cbor`, and from the language `JSON.parse` on UTF-8 and `Number` on what is not
a number. Without a value an exception is thrown; a number that is no integer is left out. -/
structure Node (Key : Type) where
  decodeFirstSync : Bytes → Option Value
  encodeCanonical : Value → Bytes
  x509Der : Bytes → Option (X509Certificate Key)
  x509Pem : String → Option (X509Certificate Key)
  verify : X509Certificate Key → Key → Bool
  verifySignature : Bytes → Key → Bytes → Option Bool
  fromBase64 : String → Bytes
  parse : Bytes → Option Json
  coerced : Value → Option Int

/-! ## Decoded values

`none` is `undefined`. -/

/-- The integer that a double is. -/
def floatInt (bits : UInt64) : Option Int :=
  let exponent := bits.toNat / 2 ^ 52 % 2 ^ 11
  let fraction := bits.toNat % 2 ^ 52
  let significand := if exponent = 0 then fraction else 2 ^ 52 + fraction
  let scale := max exponent 1
  let sign : Int := if bits.toNat < 2 ^ 63 then 1 else -1
  if exponent = 2047 then none
  else if 1075 ≤ scale then some (sign * (significand * 2 ^ (scale - 1075) : Nat))
  else if significand % 2 ^ (1075 - scale) = 0 then
    some (sign * (significand / 2 ^ (1075 - scale) : Nat))
  else none

example : floatInt 0xC041800000000000 = some (-35) := by decide

def asNumber : Value → Option Int
  | .integer i => some i.val
  | .float bits => floatInt bits
  | _ => none

inductive MapKey where
  | text (s : String)
  | number (n : Nat)

/-- The decoder makes an object of a map with texts as keys, and a `Map` of others. -/
def isObject (entries : List (Value × Value)) : Bool :=
  entries.all (fun e => e.1.asText.any (· != "__proto__"))

/-- The last of several values of a key counts. -/
def entriesGet (entries : List (Value × Value)) : MapKey → Option Value
  | .text s => find Value.asText entries.reverse s
  | .number n =>
    if isObject entries then find Value.asText entries.reverse (toString n)
    else find asNumber entries.reverse (n : Int)

/-- What there is in texts and byte strings at an index is neither a map nor a byte string. -/
def mapGet (map : Option Value) (key : MapKey) : Except Thrown (Option Value) :=
  match map, key with
  | none, _ => .error .foreign
  | some .null, _ => .error .foreign
  | some (.map entries), key => .ok (entriesGet entries key)
  | some (.array items), .number n => .ok items[n]?
  | some _, _ => .ok none

def bytes (value : Option Value) (label : String) : Except Thrown Bytes :=
  match value with
  | some (.bytes bs) => .ok bs
  | _ => .error (.error ("Nitro attestation " ++ label ++ " is not a byte string"))

/-- `decoded.value` of an object that has it: tagged items have, and maps from texts may have. -/
def untagged : Value → Value
  | .tag _ v => v
  | .map entries =>
    if isObject entries then (entriesGet entries (.text "value")).getD (.map entries)
    else .map entries
  | v => v

section

variable {Key : Type} (N : Node Key)

/-- `Number(value)`, where it is an integer. -/
def toNumber : Option Value → Option Int
  | none => none
  | some v => match v with
    | .integer i => some i.val
    | .float bits => floatInt bits
    | v => N.coerced v

end

/-- `(value as unknown[]).map((item) => bytes(item, label))` -/
def mapBytes (value : Option Value) (label : String) : Except Thrown (List Bytes) :=
  match value with
  | some (.array items) => items.mapM (fun item => bytes (some item) label)
  | _ => .error .foreign

mutual

/-- `String(v)` -/
def stringOf : Json → String
  | .null => "null"
  | .bool b => toString b
  | .num i => toString i
  | .str s => s
  | .arr xs => ",".intercalate (stringsOf xs)
  | .obj _ => "[object Object]"

def stringsOf : List Json → List String
  | [] => []
  | x :: xs => (match x with
    | .null => ""
    | x => stringOf x) :: stringsOf xs

end

/-- `String(v ?? "")` -/
def stringOrEmpty : JsVal → String
  | none => ""
  | some .null => ""
  | some v => stringOf v

/-- `/^[0-9a-fA-F]{n}$/.test(s)` -/
def isHexText (n : Nat) (s : String) : Bool :=
  s.length == n && s.toList.all (fun c => (nibble c).isSome)

/-- `/^[0-9a-f]{n}$/.test(s)` -/
def isLowerHexText (n : Nat) (s : String) : Bool := isHexText n s && s.toLower == s

theorem isHexText_hexEncode (bs : Bytes) : isHexText (2 * bs.length) (hexEncode bs) = true := by
  have hdigits : ∀ c ∈ bs.flatMap byteChars, (nibble c).isSome = true := by
    intro c hc
    obtain ⟨b, _, hc⟩ := List.mem_flatMap.mp hc
    have hb := b.toNat_lt
    rw [byteChars, List.mem_cons, List.mem_singleton] at hc
    rcases hc with rfl | rfl
    · rw [nibble_digitChar _ (by omega)]
      rfl
    · rw [nibble_digitChar _ (by omega)]
      rfl
  rw [isHexText, length_hexEncode, beq_self_eq_true, Bool.true_and, List.all_eq_true, hexEncode,
    String.toList_ofList]
  exact hdigits

theorem isLowerHexText_hexEncode (bs : Bytes) :
    isLowerHexText (2 * bs.length) (hexEncode bs) = true := by
  rw [isLowerHexText, isHexText_hexEncode, toLower_hexEncode, beq_self_eq_true, Bool.and_self]

/-! ## Decoded values without surprises -/

section

variable {entries : List (Value × Value)} {v : Value}

theorem entriesGet_text (hkeys : (keys Value.asText entries).Nodup) {s : String} :
    entriesGet entries (.text s) = some v ↔ (.text s, v) ∈ entries := by
  have hkeys' : (keys Value.asText entries.reverse).Nodup := by
    rw [keys, List.filterMap_reverse, List.nodup_reverse]
    exact hkeys
  rw [entriesGet, find_eq_some hkeys']
  constructor
  · rintro ⟨⟨key, _⟩, hmem, hkey, rfl⟩
    obtain rfl := Value.asText_eq_some.mp hkey
    exact List.mem_reverse.mp hmem
  · intro hmem
    exact ⟨_, List.mem_reverse.mpr hmem, rfl, rfl⟩

theorem keys_asNumber (hint : ∀ e ∈ entries, ∃ i, e.1 = .integer i) :
    keys asNumber entries = (keys Value.asInteger entries).map Integer.val := by
  induction entries with
  | nil => rfl
  | cons e entries ih =>
    obtain ⟨⟨i, hi⟩, hint⟩ := List.forall_mem_cons.mp hint
    have hnumber : keys asNumber (e :: entries) = i.val :: keys asNumber entries :=
      List.filterMap_cons_some (by rw [hi]; rfl)
    have hinteger : keys Value.asInteger (e :: entries) = i :: keys Value.asInteger entries :=
      List.filterMap_cons_some (by rw [hi]; rfl)
    rw [hnumber, hinteger, List.map_cons, ih hint]

theorem entriesGet_number (hkeys : (keys Value.asInteger entries).Nodup)
    (hint : ∀ e ∈ entries, ∃ i, e.1 = .integer i) {n : Nat} :
    entriesGet entries (.number n) = some v ↔
      ∃ i : Integer, i.val = n ∧ (.integer i, v) ∈ entries := by
  cases entries with
  | nil => simp [entriesGet, isObject, find]
  | cons e rest =>
    have hobject : isObject (e :: rest) = false := by
      obtain ⟨i, hi⟩ := hint e List.mem_cons_self
      simp [isObject, hi, Value.asText]
    have hinj : Function.Injective Integer.val := by
      rintro ⟨_, _, _⟩ ⟨_, _, _⟩ rfl
      rfl
    have hkeys' : (keys asNumber (e :: rest).reverse).Nodup := by
      rw [keys, List.filterMap_reverse, List.nodup_reverse]
      change (keys asNumber (e :: rest)).Nodup
      rw [keys_asNumber hint]
      exact hkeys.map hinj
    simp only [entriesGet, hobject, Bool.false_eq_true, if_false]
    rw [find_eq_some hkeys']
    constructor
    · rintro ⟨⟨key, _⟩, hmem, hkey, rfl⟩
      have hmem := List.mem_reverse.mp hmem
      obtain ⟨i, rfl⟩ := hint _ hmem
      exact ⟨i, Option.some.inj hkey, hmem⟩
    · rintro ⟨i, hi, hmem⟩
      exact ⟨_, List.mem_reverse.mpr hmem, congrArg some hi, rfl⟩

theorem bytes_ok {value : Option Value} {label : String} {bs : Bytes} :
    bytes value label = .ok bs ↔ value = some (.bytes bs) := by
  unfold bytes
  split
  · simp
  · rename_i h
    simpa using h bs

theorem mapBytes_bytes (bundle : List Bytes) (label : String) :
    mapBytes (some (.array (bundle.map .bytes))) label = .ok bundle := by
  unfold mapBytes
  induction bundle with
  | nil => rfl
  | cons bs bundle ih =>
    simp only [List.map_cons, List.mapM_cons, Except.bind_eq_ok, bytes_ok, ih]
    exact ⟨bs, rfl, bundle, rfl, rfl⟩

end

/-! ## The certificate path -/

section Path

variable {Key : Type} (N : Node Key)

def certIsValid (cert : X509Certificate Key) (now : Date) : Bool :=
  decide (now.ms ≥ cert.validFrom) && decide (now.ms ≤ cert.validTo)

def issuedBy (child candidate : X509Certificate Key) : Except Thrown Bool :=
  if child.issuer = candidate.subject then (call candidate.publicKey).map (N.verify child)
  else .ok false

/-- `findIndex` and `splice`: the first certificate of the pool that issued the child, and the
others. -/
def findIssuer (child : X509Certificate Key) : List (X509Certificate Key) →
    Except Thrown (Option (X509Certificate Key × List (X509Certificate Key)))
  | [] => .ok none
  | candidate :: pool => do
    let found ← issuedBy N child candidate
    if found then return some (candidate, pool)
    else
      let rest ← findIssuer child pool
      return rest.map (fun r => (r.1, candidate :: r.2))

theorem length_findIssuer {child issuer : X509Certificate Key}
    {pool rest : List (X509Certificate Key)}
    (h : findIssuer N child pool = .ok (some (issuer, rest))) : rest.length + 1 = pool.length := by
  induction pool generalizing rest with
  | nil => cases h
  | cons candidate pool ih =>
    simp only [findIssuer, Except.bind_eq_ok] at h
    obtain ⟨found, _, h⟩ := h
    split at h
    · cases h
      rfl
    · obtain ⟨r, hr, h⟩ := Except.bind_eq_ok.mp h
      cases r with
      | none => cases h
      | some r =>
        cases h
        rw [List.length_cons, List.length_cons, ih hr]

/-- The loop that builds the path: `last` is the last certificate of the chain and `chain` the ones
before it. -/
def extendChain (rootRaw : Bytes) (chain : List (X509Certificate Key)) (last : X509Certificate Key)
    (pool : List (X509Certificate Key)) : Except Thrown (List (X509Certificate Key)) :=
  if last.raw = rootRaw then .ok (chain ++ [last])
  else
    match _h : findIssuer N last pool with
    | .error e => .error e
    | .ok none => .error (.error "Nitro certificate path signature validation failed")
    | .ok (some (issuer, rest)) => extendChain rootRaw (chain ++ [last]) issuer rest
termination_by pool.length
decreasing_by
  have := length_findIssuer N _h
  omega

variable {N} in
theorem extendChain_ok {rootRaw : Bytes} {last : X509Certificate Key}
    {chain pool out : List (X509Certificate Key)} (h : last.raw ≠ rootRaw) :
    extendChain N rootRaw chain last pool = .ok out ↔ ∃ r, findIssuer N last pool = .ok (some r) ∧
      extendChain N rootRaw (chain ++ [last]) r.1 r.2 = .ok out := by
  rw [extendChain, if_neg h]
  split
  · rename_i hfind
    simp [hfind]
  · rename_i hfind
    simp [hfind]
  · rename_i issuer rest hfind
    simp [hfind]

/-- The loop over the chain, from the certificate at `i` on. -/
def checkChain (now : Date) : Nat → List (X509Certificate Key) → Except Thrown Unit
  | _, [] => .ok ()
  | i, cert :: rest => do
    throwIf (certIsValid cert now = false) "Nitro certificate is outside its validity window"
    throwIf (i > 0 ∧ cert.ca = false) "Nitro issuer certificate is not a CA"
    checkChain now (i + 1) rest

def validateCertificatePath (leafDer : Bytes) (caBundle : List Bytes) (rootPem : String)
    (now : Date) : Except Thrown (X509Certificate Key) := do
  let pinnedRoot ← call (N.x509Pem rootPem)
  let supplied ← caBundle.mapM (fun der => call (N.x509Der der))
  throwIf (∀ cert ∈ supplied, cert.raw ≠ pinnedRoot.raw)
    "Nitro certificate bundle is not rooted in the pinned AWS CA"
  let leaf ← call (N.x509Der leafDer)
  let chain ← extendChain N pinnedRoot.raw [] leaf supplied
  checkChain now 0 chain
  let rootKey ← call pinnedRoot.publicKey
  throwIf (N.verify pinnedRoot rootKey = false) "Pinned AWS Nitro root is not self-signed"
  return leaf

/-- Behind the leaf, all certificates have to be those of CAs. -/
theorem checkChain_succ_ok {now : Date} {i : Nat} {chain : List (X509Certificate Key)} :
    checkChain now (i + 1) chain = .ok () ↔
      ∀ cert ∈ chain, certIsValid cert now = true ∧ cert.ca = true := by
  induction chain generalizing i with
  | nil => simp [checkChain]
  | cons cert chain ih =>
    simp only [checkChain, Except.unit_bind_eq_ok, throwIf_ok, ih, List.forall_mem_cons,
      Bool.not_eq_false]
    simp [and_assoc]

theorem checkChain_ok {now : Date} {chain : List (X509Certificate Key)} :
    checkChain now 0 chain = .ok () ↔ (∀ cert ∈ chain, certIsValid cert now = true) ∧
      ∀ cert ∈ chain.tail, cert.ca = true := by
  cases chain with
  | nil => simp [checkChain]
  | cons cert chain =>
    simp only [checkChain, Except.unit_bind_eq_ok, throwIf_ok, checkChain_succ_ok,
      List.forall_mem_cons, Bool.not_eq_false, List.tail_cons, forall_and]
    simp [and_assoc]

variable {N} in
theorem validateCertificatePath_ok {leafDer : Bytes} {caBundle : List Bytes} {rootPem : String}
    {now : Date} {leaf : X509Certificate Key} :
    validateCertificatePath N leafDer caBundle rootPem now = .ok leaf ↔
      ∃ pinnedRoot supplied chain key, N.x509Pem rootPem = some pinnedRoot ∧
        caBundle.mapM (fun der => call (N.x509Der der)) = .ok supplied ∧
        (∃ cert ∈ supplied, cert.raw = pinnedRoot.raw) ∧ N.x509Der leafDer = some leaf ∧
        extendChain N pinnedRoot.raw [] leaf supplied = .ok chain ∧
        checkChain now 0 chain = .ok () ∧ pinnedRoot.publicKey = some key ∧
        N.verify pinnedRoot key = true := by
  simp only [validateCertificatePath, Except.bind_eq_ok, exists_const, call_ok, throwIf_ok,
    not_forall, not_not, exists_prop, Bool.not_eq_false]
  constructor
  · rintro ⟨root, hroot, supplied, hsupplied, hmem, leaf', hleaf, chain, hchain, _, hcheck, key, hkey,
      hself, h⟩
    cases h
    exact ⟨root, supplied, chain, key, hroot, hsupplied, hmem, hleaf, hchain, hcheck, hkey, hself⟩
  · rintro ⟨root, supplied, chain, key, hroot, hsupplied, hmem, hleaf, hchain, hcheck, hkey, hself⟩
    exact ⟨root, hroot, supplied, hsupplied, hmem, leaf, hleaf, chain, hchain, (), hcheck, key,
      hkey, hself, rfl⟩

end Path

/-! ## The document -/

structure AttestationEnvelope where
  nitroAttestationB64 : String
  measurement : String
  channelPublicKeyHex : String
  proofVerifierKeyHex : String
  bindingFormat : Option String

structure NitroVerificationOptions where
  expectedPcr0 : String
  awsRootPem : Option String
  maxAgeSeconds : Option Int
  now : Option Date

structure VerifiedNitroDocument where
  measurement : String
  timestampMs : Int
  channelPublicKeyHex : String
  proofVerifierKeyHex : String
  deriving DecidableEq, Repr

def awsNitroRootPemCommercial : String :=
  "-----BEGIN CERTIFICATE-----
MIICETCCAZagAwIBAgIRAPkxdWgbkK/hHUbMtOTn+FYwCgYIKoZIzj0EAwMwSTEL
MAkGA1UEBhMCVVMxDzANBgNVBAoMBkFtYXpvbjEMMAoGA1UECwwDQVdTMRswGQYD
VQQDDBJhd3Mubml0cm8tZW5jbGF2ZXMwHhcNMTkxMDI4MTMyODA1WhcNNDkxMDI4
MTQyODA1WjBJMQswCQYDVQQGEwJVUzEPMA0GA1UECgwGQW1hem9uMQwwCgYDVQQL
DANBV1MxGzAZBgNVBAMMEmF3cy5uaXRyby1lbmNsYXZlczB2MBAGByqGSM49AgEG
BSuBBAAiA2IABPwCVOumCMHzaHDimtqQvkY4MpJzbolL//Zy2YlES1BR5TSksfbb
48C8WBoyt7F2Bw7eEtaaP+ohG2bnUs990d0JX28TcPQXCEPZ3BABIeTPYwEoCWZE
h8l5YoQwTcU/9KNCMEAwDwYDVR0TAQH/BAUwAwEB/zAdBgNVHQ4EFgQUkCW1DdkF
R+eWw5b6cp3PmanfS5YwDgYDVR0PAQH/BAQDAgGGMAoGCCqGSM49BAMDA2kAMGYC
MQCjfy+Rocm9Xue4YnwWmNJVA44fA0P5W2OpYow9OYCVRaEevL8uO1XYru5xtMPW
rfMCMQCi85sWBbJwKKXdS6BptQFuZbT73o/gBh1qUxl/nNr12UO8Yfwr6wPLb+6N
IwLz3/Y=
-----END CERTIFICATE-----"

def bindingFormatV1 : String := "pzdr-attestation-binding/v1"

def maxSafeInteger : Int := 9007199254740991

section Document

variable {Key : Type} (N : Node Key)

/-- The items of a `COSE_Sign1` array that are read: protected header, payload and signature. -/
structure Sign1 where
  protectedBytes : Bytes
  payloadBytes : Bytes
  signature : Bytes

/-- `verifyNitroAttestation` up to the payload. -/
def openEnvelope (raw : Bytes) : Except Thrown Sign1 := do
  let decoded ← call (N.decodeFirstSync raw)
  match untagged decoded with
  | .array [protectedItem, _, payloadItem, signatureItem] =>
    let protectedBytes ← bytes (some protectedItem) "protected header"
    let protectedMap ← call (N.decodeFirstSync protectedBytes)
    let alg ← mapGet (some protectedMap) (.number 1)
    throwIf (alg.bind asNumber ≠ some (-35)) "Nitro COSE algorithm is not ES384"
    let payloadBytes ← bytes (some payloadItem) "payload"
    let signature ← bytes (some signatureItem) "signature"
    throwIf (signature.length ≠ 96) "Nitro ES384 signature must be 96 bytes"
    return ⟨protectedBytes, payloadBytes, signature⟩
  | _ => throw (.error "Invalid COSE_Sign1 envelope")

def sigStructure (cose : Sign1) : Value :=
  .array [.text "Signature1", .bytes cose.protectedBytes, .bytes [], .bytes cose.payloadBytes]

/-- The signature of the document, by a leaf below the pinned root. -/
def checkSignature (cose : Sign1) (payload : Value) (rootPem : String) (now : Date) :
    Except Thrown Unit := do
  let digest ← mapGet (some payload) (.text "digest")
  throwIf (digest.bind Value.asText ≠ some "SHA384") "Nitro attestation digest is not SHA384"
  let certificate ← mapGet (some payload) (.text "certificate")
  let leafDer ← bytes certificate "certificate"
  let cabundle ← mapGet (some payload) (.text "cabundle")
  let caBundle ← mapBytes cabundle "CA certificate"
  let leaf ← validateCertificatePath N leafDer caBundle rootPem now
  let key ← call leaf.publicKey
  let verified ← call (N.verifySignature (N.encodeCanonical (sigStructure cose)) key cose.signature)
  throwIf (verified = false) "Nitro COSE signature validation failed"

def checkTimestamp (payload : Value) (maxAgeSeconds : Int) (now : Date) : Except Thrown Int := do
  let timestamp ← mapGet (some payload) (.text "timestamp")
  match toNumber N timestamp with
  | none => throw (.error "Invalid Nitro attestation timestamp")
  | some timestampMs =>
    throwIf (|timestampMs| > maxSafeInteger) "Invalid Nitro attestation timestamp"
    throwIf (|now.ms - timestampMs| > maxAgeSeconds * 1000)
      "Nitro attestation is stale or from the future"
    return timestampMs

def checkMeasurement (payload : Value) (expectedPcr0 advertised : String) :
    Except Thrown String := do
  let pcrs ← mapGet (some payload) (.text "pcrs")
  let value ← mapGet pcrs (.number 0)
  let pcr0 ← bytes value "PCR0"
  throwIf (pcr0.length ≠ 48) "Nitro PCR0 must be 48 bytes"
  throwIf ((hexEncode pcr0).toLower ≠ expectedPcr0.toLower)
    "Nitro PCR0 does not match the pinned enclave measurement"
  -- lower case letters outside ASCII never equal a hexadecimal digit
  throwIf (hexEncode pcr0 ≠ advertised.toLower)
    "Advertised measurement does not match signed PCR0"
  return hexEncode pcr0

/-- What is asked of the JSON value in `user_data`. -/
def checkBinding (binding : Json) (channelKey : String) (attestation : AttestationEnvelope) :
    Except Thrown String := do
  let format ← call (prop (some binding) "format")
  throwIf (asString format ≠ some bindingFormatV1) "Unsupported PZDR attestation binding format"
  throwIf (attestation.bindingFormat ≠ some bindingFormatV1)
    "Advertised PZDR attestation binding format does not match"
  let boundKey ← call (prop (some binding) "channel_public_key_hex")
  throwIf (channelKey ≠ attestation.channelPublicKeyHex.toLower ∨ asString boundKey ≠ some channelKey)
    "Channel public key is not bound to the Nitro document"
  let proofKey ← call (prop (some binding) "proof_verifier_key_hex")
  let proofKey := (stringOrEmpty proofKey).toLower
  throwIf (isLowerHexText 64 proofKey = false) "PZDR proof verifier key must be 32 bytes"
  throwIf (proofKey ≠ attestation.proofVerifierKeyHex.toLower)
    "Proof verifier key is not bound to the Nitro document"
  return proofKey

/-- Both keys, as the document binds them. -/
def checkKeys (payload : Value) (attestation : AttestationEnvelope) :
    Except Thrown (String × String) := do
  let publicKey ← mapGet (some payload) (.text "public_key")
  let channelKeyBytes ← bytes publicKey "public key"
  throwIf (channelKeyBytes.length ≠ 32) "PZDR channel key must be 32 bytes"
  let userData ← mapGet (some payload) (.text "user_data")
  let bindingBytes ← bytes userData "user data"
  match N.parse bindingBytes with
  | none => throw (.error "Nitro user_data does not contain the PZDR key binding")
  | some binding =>
    let proofKey ← checkBinding binding (hexEncode channelKeyBytes) attestation
    return (hexEncode channelKeyBytes, proofKey)

/-- `clock` is `new Date()`. -/
def verifyNitroAttestation (attestation : AttestationEnvelope) (options : NitroVerificationOptions)
    (clock : Date) : Except Thrown VerifiedNitroDocument := do
  throwIf (isHexText 96 options.expectedPcr0 = false)
    "expectedPcr0 must be a 48-byte hexadecimal measurement"
  let cose ← openEnvelope N (N.fromBase64 attestation.nitroAttestationB64)
  let payload ← call (N.decodeFirstSync cose.payloadBytes)
  let now := options.now.getD clock
  checkSignature N cose payload (options.awsRootPem.getD awsNitroRootPemCommercial) now
  let timestampMs ← checkTimestamp N payload (options.maxAgeSeconds.getD 300) now
  let measurement ← checkMeasurement payload options.expectedPcr0 attestation.measurement
  let (channelKey, proofKey) ← checkKeys N payload attestation
  return ⟨measurement, timestampMs, channelKey, proofKey⟩

variable {N} in
theorem openEnvelope_ok {raw : Bytes} {cose : Sign1} : openEnvelope N raw = .ok cose ↔
    ∃ decoded unprotected protectedMap alg, N.decodeFirstSync raw = some decoded ∧
      untagged decoded = .array [.bytes cose.protectedBytes, unprotected, .bytes cose.payloadBytes,
        .bytes cose.signature] ∧
      N.decodeFirstSync cose.protectedBytes = some protectedMap ∧
      mapGet (some protectedMap) (.number 1) = .ok alg ∧ alg.bind asNumber = some (-35) ∧
      cose.signature.length = 96 := by
  simp only [openEnvelope, Except.bind_eq_ok, call_ok]
  refine exists_congr fun decoded => ?_
  constructor
  · rintro ⟨hdecoded, h⟩
    split at h
    · rename_i protectedItem unprotected payloadItem signatureItem hitems
      simp only [Except.bind_eq_ok, bytes_ok, call_ok, throwIf_ok, exists_const, not_not,
        Option.some.injEq] at h
      obtain ⟨protectedBytes, rfl, protectedMap, hmap, alg, halg, hes384, payloadBytes, rfl,
        signature, rfl, hlength, h⟩ := h
      cases h
      exact ⟨unprotected, protectedMap, alg, hdecoded, hitems, hmap, halg, hes384, hlength⟩
    · cases h
  · rintro ⟨unprotected, protectedMap, alg, hdecoded, hitems, hmap, halg, hes384, hlength⟩
    refine ⟨hdecoded, ?_⟩
    rw [hitems]
    simp only [Except.bind_eq_ok, bytes_ok, call_ok, throwIf_ok, exists_const, not_not,
      Option.some.injEq]
    exact ⟨_, rfl, protectedMap, hmap, alg, halg, hes384, _, rfl, _, rfl, hlength, rfl⟩

end Document

end Sdk
end Pzdr
