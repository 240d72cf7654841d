import Pzdr.Audit.Base64
import Pzdr.Audit.CertificatePath
import Pzdr.Audit.Measurement

/-!
# Audit.Attestation

Which attestation documents the Rust verifier and the SDK accept, with libraries that decode and
verify alike.

`verifyNitroAttestation_iff`: a document with the key binding that has the form of those that are
issued for enclaves is accepted by the SDK exactly if the verifier accepts it and it passes the checks
that only the SDK makes. `verifyNitroAttestation_short` is a document that the verifier accepts and
the SDK does not.
-/

namespace Pzdr
namespace Audit

open Cbor Nitro
open Enclave (canonicalJson)
open Sdk (AttestationEnvelope Date Node X509Certificate bindingFormatV1 bytes_ok call_ok mapGet
  maxSafeInteger sigStructure throwIf_ok)

section

variable {Name Key Sig PublicKey : Type}

/-- The protected header names ES384. -/
def NamesEs384 (labels : List (Value × Value)) : Prop :=
  ∃ one alg : Integer, one.val = 1 ∧ alg.val = -35 ∧ (.integer one, .integer alg) ∈ labels

/-- The CBOR, COSE and P-384 libraries decode and verify alike. -/
structure CoseAlike (C : Cose) (X : X509 Name Key Sig) (N : Node PublicKey)
    (view : Certificate Name → X509Certificate PublicKey) : Prop where
  decode : ∀ bs, N.decodeFirstSync bs = (C.fromReader bs).toOption
  fromSlice : ∀ bs cose payload, C.fromSlice bs = .ok cose → cose.payload = some payload →
    ∃ unprotected, C.fromReader bs =
      .ok (.array [.bytes cose.protectedBytes, unprotected, .bytes payload, .bytes cose.signature])
  -- an empty header is no item, and names no algorithm; a header has no label twice
  header : ∀ bs cose, C.fromSlice bs = .ok cose →
    (cose.alg = none ∧ ∃ e, C.fromReader cose.protectedBytes = .error e) ∨
    ∃ labels, C.fromReader cose.protectedBytes = .ok (.map labels) ∧
      (keys Value.asInteger labels).Nodup ∧
      (∀ i bits, Integer.val i = 1 → (.integer i, .float bits) ∉ labels) ∧
      (cose.alg = some .es384 ↔ NamesEs384 labels)
  tbsData : ∀ bs cose payload, C.fromSlice bs = .ok cose → cose.payload = some payload →
    C.tbsData cose [] =
      N.encodeCanonical (sigStructure ⟨cose.protectedBytes, payload, cose.signature⟩)
  verify : ∀ cert msg signature, (signature.length = 96 ∧ ∃ key,
      (view cert).publicKey = some key ∧ N.verifySignature msg key signature = some true) ↔
    ∃ vk sig, X.verifyingKey cert.spki = .ok vk ∧ X.signatureFromSlice signature = .ok sig ∧
      X.verify vk msg sig = true

end

/-! ## The documents -/

structure ReadsDocument (C : Cose) (docBytes : Bytes) (cose : CoseSign1) (payload : Bytes)
    (entries : List (Value × Value)) : Prop where
  doc : C.fromSlice docBytes = .ok cose
  decoded : cose.payload = some payload
  entries : C.fromReader payload = .ok (.map entries)

/-- The form of the documents that are issued for enclaves. -/
structure RegularDocument (C : Cose) (cose : CoseSign1) (entries : List (Value × Value))
    (leafDer : Bytes) (bundle : List Bytes) : Prop where
  labels : ∀ labels, C.fromReader cose.protectedBytes = .ok (.map labels) →
    ∀ e ∈ labels, ∃ i, e.1 = .integer i
  keys : DistinctKeys entries
  text : ∀ e ∈ entries, e.1.asText.isSome = true
  moduleId : ∃ s, (.text "module_id", .text s) ∈ entries
  timestamp : ∀ v, (.text "timestamp", v) ∈ entries → ∃ i, v = .integer i
  pcrs : ∀ v, (.text "pcrs", v) ∈ entries → ∃ pmap, v = .map pmap ∧
    ∀ e ∈ pmap, ∃ i : Integer, e.1 = .integer i ∧ 0 ≤ i.val
  certificate : (.text "certificate", .bytes leafDer) ∈ entries
  cabundle : (.text "cabundle", .array (bundle.map .bytes)) ∈ entries

/-- The document carries the key binding. -/
structure CarriesBinding {PublicKey : Type} (N : Node PublicKey) (entries : List (Value × Value))
    (channelKey : Bytes) (proofKey : String) : Prop where
  publicKey : (.text "public_key", .bytes channelKey) ∈ entries
  length : channelKey.length = 32
  userData : ∃ data binding, (.text "user_data", .bytes data) ∈ entries ∧
    N.parse data = some binding ∧ binding.get? "format" = some (.str bindingFormatV1) ∧
    binding.get? "channel_public_key_hex" = some (.str (hexEncode channelKey)) ∧
    binding.get? "proof_verifier_key_hex" = some (.str proofKey)
  proofKey : Sdk.isLowerHexText 64 proofKey.toLower = true

/-- The advertised fields are copied from the document. -/
structure Copied {PublicKey : Type} (N : Node PublicKey) (docBytes : Bytes)
    (entries : List (Value × Value)) (channelKey : Bytes) (proofKey : String)
    (attestation : AttestationEnvelope) : Prop where
  document : N.fromBase64 attestation.nitroAttestationB64 = docBytes
  measurement : ∀ b, Binds entries 0 b → attestation.measurement = hexEncode b
  channelKey : attestation.channelPublicKeyHex = hexEncode channelKey
  proofKey : attestation.proofVerifierKeyHex = proofKey
  format : attestation.bindingFormat = some bindingFormatV1

section Parts

variable {PublicKey : Type} {N : Node PublicKey} {C : Cose} {cose : CoseSign1}
  {entries : List (Value × Value)} {leafDer : Bytes} {bundle : List Bytes}

theorem get_text (h : RegularDocument C cose entries leafDer bundle) {s : String} {v : Value} :
    Sdk.entriesGet entries (.text s) = some v ↔ (.text s, v) ∈ entries :=
  Sdk.entriesGet_text h.keys.text

theorem checkSignature_ok (h : RegularDocument C cose entries leafDer bundle) {sign1 : Sdk.Sign1}
    {pem : String} {now : Date} :
    Sdk.checkSignature N sign1 (.map entries) pem now = .ok () ↔
      (.text "digest", .text "SHA384") ∈ entries ∧ ∃ leaf key,
        Sdk.validateCertificatePath N leafDer bundle pem now = .ok leaf ∧
        leaf.publicKey = some key ∧
        N.verifySignature (N.encodeCanonical (sigStructure sign1)) key sign1.signature =
          some true := by
  have hdigest : (Sdk.entriesGet entries (.text "digest")).bind Value.asText = some "SHA384" ↔
      (.text "digest", .text "SHA384") ∈ entries := by
    simp only [Option.bind_eq_some_iff, get_text h, Value.asText_eq_some, exists_eq_right]
  simp only [Sdk.checkSignature, mapGet, Except.bind_eq_ok, Except.ok.injEq, exists_eq_left',
    throwIf_ok, not_not, exists_const, hdigest, (get_text h).mpr h.certificate,
    (get_text h).mpr h.cabundle, Sdk.bytes, Sdk.mapBytes_bytes, call_ok, Bool.not_eq_false]
  refine and_congr_right fun _ => ?_
  constructor
  · rintro ⟨leaf, hleaf, key, hkey, _, hverify, rfl⟩
    exact ⟨leaf, key, hleaf, hkey, hverify⟩
  · rintro ⟨leaf, key, hleaf, hkey, hverify⟩
    exact ⟨leaf, hleaf, key, hkey, _, hverify, rfl⟩

theorem checkTimestamp_ok (h : RegularDocument C cose entries leafDer bundle)
    {maxAgeSeconds t : Int} {now : Date} :
    Sdk.checkTimestamp N (.map entries) maxAgeSeconds now = .ok t ↔
      Stamps entries t ∧ |t| ≤ maxSafeInteger ∧ |now.ms - t| ≤ maxAgeSeconds * 1000 := by
  simp only [Sdk.checkTimestamp, mapGet, Except.bind_eq_ok, Except.ok.injEq, exists_eq_left', Stamps,
    ← get_text h]
  cases hv : Sdk.entriesGet entries (.text "timestamp") with
  | none => simp [Sdk.toNumber, throw, throwThe, MonadExceptOf.throw]
  | some v =>
    obtain ⟨i, rfl⟩ := h.timestamp v ((get_text h).mp hv)
    simp only [Sdk.toNumber, Except.bind_eq_ok, throwIf_ok, exists_const, not_lt, Option.some.injEq,
      Value.integer.injEq, exists_eq_left']
    constructor
    · rintro ⟨hsafe, hfresh, ht⟩
      cases ht
      exact ⟨rfl, hsafe, hfresh⟩
    · rintro ⟨rfl, hsafe, hfresh⟩
      exact ⟨hsafe, hfresh, rfl⟩

theorem get_pcr0 (h : RegularDocument C cose entries leafDer bundle) {pmap : List (Value × Value)}
    (hpcrs : (.text "pcrs", .map pmap) ∈ entries) {b : Bytes} :
    Sdk.entriesGet pmap (.number 0) = some (.bytes b) ↔ Binds entries 0 b := by
  obtain ⟨pmap', heq, hint⟩ := h.pcrs _ hpcrs
  cases heq
  rw [Sdk.entriesGet_number (h.keys.pcrs pmap hpcrs) fun e he => ?_]
  · constructor
    · rintro hmeasures
      exact ⟨pmap, hpcrs, hmeasures⟩
    · rintro ⟨pmap', hpcrs', hmeasures⟩
      have hpcrs := (get_text h).mpr hpcrs
      rw [(get_text h).mpr hpcrs', Option.some.injEq, Value.map.injEq] at hpcrs
      exact hpcrs ▸ hmeasures
  · obtain ⟨i, hi, _⟩ := hint e he
    exact ⟨i, hi⟩

theorem checkMeasurement_ok (h : RegularDocument C cose entries leafDer bundle)
    {expectedPcr0 advertised m : String} :
    Sdk.checkMeasurement (.map entries) expectedPcr0 advertised = .ok m ↔ ∃ b, Binds entries 0 b ∧
      b.length = 48 ∧ (hexEncode b).toLower = expectedPcr0.toLower ∧
      hexEncode b = advertised.toLower ∧ hexEncode b = m := by
  have hget : mapGet (some (.map entries)) (.text "pcrs") =
      .ok (Sdk.entriesGet entries (.text "pcrs")) := rfl
  simp only [Sdk.checkMeasurement, hget, Except.bind_eq_ok, Except.ok.injEq, exists_eq_left',
    bytes_ok, throwIf_ok, exists_const, not_not]
  cases hv : Sdk.entriesGet entries (.text "pcrs") with
  | none =>
    have hnone : ∀ b, ¬ Binds entries 0 b := by
      rintro b ⟨pmap, hpcrs, _⟩
      rw [(get_text h).mpr hpcrs] at hv
      cases hv
    simp [mapGet, hnone]
  | some v =>
    have hpcrs := (get_text h).mp hv
    obtain ⟨pmap, rfl, _⟩ := h.pcrs v hpcrs
    simp only [mapGet, Except.ok.injEq, exists_eq_left', get_pcr0 h hpcrs]
    constructor
    · rintro ⟨b, hb, hlength, hpinned, hadvertised, hm⟩
      cases hm
      exact ⟨b, hb, hlength, hpinned, hadvertised, rfl⟩
    · rintro ⟨b, hb, hlength, hpinned, hadvertised, rfl⟩
      exact ⟨b, hb, hlength, hpinned, hadvertised, rfl⟩

theorem checkKeys_ok (h : RegularDocument C cose entries leafDer bundle) {docBytes channelKey : Bytes}
    {proofKey : String} {attestation : AttestationEnvelope}
    (hbinding : CarriesBinding N entries channelKey proofKey)
    (hcopied : Copied N docBytes entries channelKey proofKey attestation) :
    Sdk.checkKeys N (.map entries) attestation = .ok (hexEncode channelKey, proofKey.toLower) := by
  obtain ⟨data, binding, hdata, hparse, hformat, hchannel, hproof⟩ := hbinding.userData
  have hprop : ∀ {key : String} {v : Json}, binding.get? key = some v →
      Sdk.prop (some binding) key = some (some v) := by
    intro key v hv
    cases binding with
    | obj fields => exact congrArg some hv
    | _ => cases hv
  have hlower : attestation.channelPublicKeyHex.toLower = hexEncode channelKey := by
    rw [hcopied.channelKey, toLower_hexEncode]
  have hok : Sdk.checkBinding binding (hexEncode channelKey) attestation = .ok proofKey.toLower := by
    simp only [Sdk.checkBinding, hprop hformat, hprop hchannel, hprop hproof, Except.bind_eq_ok,
      call_ok, throwIf_ok, exists_const, Option.some.injEq, exists_eq_left', Sdk.asString,
      Sdk.stringOrEmpty, Sdk.stringOf, hcopied.format, hlower, hcopied.proofKey, hbinding.proofKey]
    simp [throwIf_ok, pure, Except.pure]
  have hget : ∀ {s : String} {v : Value}, (.text s, v) ∈ entries →
      mapGet (some (.map entries)) (.text s) = .ok (some v) := by
    intro s v hv
    rw [← (get_text h).mpr hv]
    rfl
  simp only [Sdk.checkKeys, hget hbinding.publicKey, hget hdata, Except.bind_eq_ok, Except.ok.injEq,
    exists_eq_left', Sdk.bytes, throwIf_ok, exists_const, hparse, hok, hbinding.length]
  simp [pure, Except.pure]

end Parts

/-! ## The verifiers -/

section Verifiers

variable {Name Key Sig PublicKey : Type} {C : Cose} {X : X509 Name Key Sig} {N : Node PublicKey}
  {view : Certificate Name → X509Certificate PublicKey} {cose : CoseSign1}
  {docBytes payload leafDer : Bytes} {entries : List (Value × Value)} {bundle : List Bytes}

theorem header_iff {labels : List (Value × Value)} (hkeys : (keys Value.asInteger labels).Nodup)
    (hfloat : ∀ i bits, Integer.val i = 1 → (.integer i, .float bits) ∉ labels)
    (hint : ∀ e ∈ labels, ∃ i, e.1 = .integer i) :
    (Sdk.entriesGet labels (.number 1)).bind Sdk.asNumber = some (-35) ↔ NamesEs384 labels := by
  simp only [Option.bind_eq_some_iff, Sdk.entriesGet_number hkeys hint, NamesEs384]
  constructor
  · rintro ⟨v, ⟨one, hone, hmem⟩, hv⟩
    cases v with
    | integer alg => exact ⟨one, alg, hone, Option.some.inj hv, hmem⟩
    | float bits => exact absurd hmem (hfloat one bits hone)
    | _ => cases hv
  · rintro ⟨one, alg, hone, halg, hmem⟩
    exact ⟨_, ⟨one, hone, hmem⟩, congrArg some halg⟩

theorem openEnvelope_iff (hC : CoseAlike C X N view)
    (hdoc : ReadsDocument C docBytes cose payload entries)
    (h : RegularDocument C cose entries leafDer bundle) {sign1 : Sdk.Sign1} :
    Sdk.openEnvelope N docBytes = .ok sign1 ↔ cose.alg = some .es384 ∧
      cose.signature.length = 96 ∧ sign1 = ⟨cose.protectedBytes, payload, cose.signature⟩ := by
  obtain ⟨unprotected, hitems⟩ := hC.fromSlice docBytes cose payload hdoc.doc hdoc.decoded
  have hdecoded : N.decodeFirstSync docBytes = some (.array [.bytes cose.protectedBytes,
      unprotected, .bytes payload, .bytes cose.signature]) := by
    rw [hC.decode, hitems]
    rfl
  simp only [Sdk.openEnvelope_ok, hdecoded, Option.some.injEq]
  constructor
  · rintro ⟨_, _, protectedMap, alg, rfl, huntagged, hmap, hget, hes384, hlength⟩
    cases sign1
    simp only [Sdk.untagged, Value.array.injEq, List.cons.injEq, Value.bytes.injEq] at huntagged
    obtain ⟨rfl, rfl, rfl, rfl, _⟩ := huntagged
    refine ⟨?_, hlength, rfl⟩
    rw [hC.decode] at hmap
    rcases hC.header docBytes cose hdoc.doc with ⟨_, e, he⟩ | ⟨labels, hlabels, hkeys, hfloat, halg⟩
    · rw [he] at hmap
      cases hmap
    · rw [hlabels] at hmap
      cases hmap
      cases hget
      exact halg.mpr ((header_iff hkeys hfloat (h.labels labels hlabels)).mp hes384)
  · rintro ⟨halg, hlength, rfl⟩
    rcases hC.header docBytes cose hdoc.doc with ⟨hnone, _⟩ | ⟨labels, hlabels, hkeys, hfloat, hiff⟩
    · rw [hnone] at halg
      cases halg
    · refine ⟨_, unprotected, .map labels, _, rfl, rfl, ?_, rfl, ?_, hlength⟩
      · rw [hC.decode, hlabels]
        rfl
      · exact (header_iff hkeys hfloat (h.labels labels hlabels)).mpr (hiff.mp halg)

theorem stamps_unique (h : RegularDocument C cose entries leafDer bundle) {t t' : Int}
    (ht : Stamps entries t) (ht' : Stamps entries t') : t = t' := by
  obtain ⟨i, hi, rfl⟩ := ht
  obtain ⟨j, hj, rfl⟩ := ht'
  have hi := (get_text h).mpr hi
  rw [(get_text h).mpr hj, Option.some.injEq, Value.integer.injEq] at hi
  rw [hi]

theorem parsed_chain (h : RegularDocument C cose entries leafDer bundle) {v : VerifiedAttestation}
    (hv : parsePayload entries = .ok v) : v.certificateChain = leafDer :: bundle := by
  obtain ⟨_, hread⟩ := (parsePayload_ok h.keys.text).mp hv
  obtain ⟨_, _, _, _, hchain, _⟩ := Fields.finish_ok.mp hread
  have hcert : (Fields.read (find Value.asText entries)).cert = some leafDer := by
    rw [Fields.read, (find_text h.keys).mpr h.certificate]
    rfl
  have hbundle : (Fields.read (find Value.asText entries)).cabundle = bundle := by
    have hbytes : (bundle.map Value.bytes).filterMap Value.asBytes = bundle := by
      rw [List.filterMap_map]
      exact List.filterMap_some
    rw [Fields.read, (find_text h.keys).mpr h.cabundle]
    simpa [pushCerts, Value.asArray] using hbytes
  rw [hchain, hcert, hbundle]
  rfl

theorem parsed_pcr0 (h : RegularDocument C cose entries leafDer bundle) {v : VerifiedAttestation}
    (hv : parsePayload entries = .ok v) {text : String} :
    v.pcrs[0]? = some text ↔ ∃ b, Binds entries 0 b ∧ hexEncode b = text := by
  rw [(parsePayload_ok_of h.keys hv).2]
  refine getElem?_pcrs h.keys ?_ 0 text
  rintro n b ⟨pmap, hpcrs, i, rfl, hmem⟩
  obtain ⟨_, heq, hint⟩ := h.pcrs _ hpcrs
  cases heq
  obtain ⟨j, hj, hpos⟩ := hint _ hmem
  cases hj
  exact hpos

theorem parseAndVerify_iff [DecidableEq Name] (hdoc : ReadsDocument C docBytes cose payload entries)
    (h : RegularDocument C cose entries leafDer bundle) {rootPem : Bytes} {nowMs maxAge : Int}
    {pcr0 : String} {clock : Option Nat} :
    (∃ v, parseAndVerify C X docBytes rootPem nowMs maxAge (some pcr0) clock = .ok v) ↔
      (∃ s, (.text "digest", .text s) ∈ entries) ∧
      (∃ t, Stamps entries t ∧ |(asI64 (nowMs - asI64 t)).tdiv 1000| ≤ maxAge) ∧
      verifyChain X leafDer bundle rootPem clock = .ok () ∧
      verifyCoseSignature C X cose leafDer = .ok () ∧
      ∃ b, Binds entries 0 b ∧ (hexEncode b).toLower = pcr0.toLower := by
  simp only [parseAndVerify_ok, parse_eq_parsePayload hdoc.doc hdoc.decoded hdoc.entries,
    assertFresh_ok, assertMeasurementMatches_ok, Option.some.injEq, forall_eq']
  constructor
  · rintro ⟨v, hv, hsig, hfresh, got, hgot, heq⟩
    have hcomplete := (complete_iff h.keys).mpr ⟨v, hv⟩
    obtain ⟨⟨i, hi, ht⟩, _⟩ := parsePayload_ok_of h.keys hv
    obtain ⟨b, hb, rfl⟩ := (parsed_pcr0 h hv).mp hgot
    obtain ⟨hpath, hcose⟩ := (verifySignature_cons hdoc.doc (parsed_chain h hv)).mp hsig
    rw [← ht] at hfresh
    exact ⟨hcomplete.digest, ⟨i.val, ⟨i, hi, rfl⟩, hfresh⟩, hpath, hcose, b, hb, heq⟩
  · rintro ⟨hdigest, ⟨t, hstamp, hfresh⟩, hpath, hcose, b, hb, heq⟩
    obtain ⟨v, hv⟩ := (complete_iff h.keys).mp ⟨h.text, h.moduleId, hdigest, t, hstamp⟩
    obtain ⟨⟨i, hi, ht⟩, _⟩ := parsePayload_ok_of h.keys hv
    obtain rfl := stamps_unique h hstamp ⟨i, hi, rfl⟩
    refine ⟨v, hv, (verifySignature_cons hdoc.doc (parsed_chain h hv)).mpr ⟨hpath, hcose⟩, ?_, _,
      (parsed_pcr0 h hv).mpr ⟨b, hb, rfl⟩, heq⟩
    rwa [← ht]

theorem verifyNitroAttestation_ok (hC : CoseAlike C X N view)
    (hdoc : ReadsDocument C docBytes cose payload entries)
    (h : RegularDocument C cose entries leafDer bundle) {channelKey : Bytes} {proofKey : String}
    {attestation : AttestationEnvelope} (hbinding : CarriesBinding N entries channelKey proofKey)
    (hcopied : Copied N docBytes entries channelKey proofKey attestation) {pcr0 pem : String}
    {maxAge : Int} {now clock : Date} :
    (∃ r, Sdk.verifyNitroAttestation N attestation ⟨pcr0, some pem, some maxAge, some now⟩ clock =
        .ok r) ↔
      Sdk.isHexText 96 pcr0 = true ∧ cose.alg = some .es384 ∧ cose.signature.length = 96 ∧
      ((.text "digest", .text "SHA384") ∈ entries ∧ ∃ leaf key,
        Sdk.validateCertificatePath N leafDer bundle pem now = .ok leaf ∧
        leaf.publicKey = some key ∧ N.verifySignature (C.tbsData cose []) key cose.signature =
          some true) ∧
      (∃ t, Stamps entries t ∧ |t| ≤ maxSafeInteger ∧ |now.ms - t| ≤ maxAge * 1000) ∧
      ∃ b, Binds entries 0 b ∧ b.length = 48 ∧ (hexEncode b).toLower = pcr0.toLower := by
  have hpayload : N.decodeFirstSync payload = some (.map entries) := by
    rw [hC.decode, hdoc.entries]
    rfl
  have hadvertised : ∀ b, Binds entries 0 b →
      hexEncode b = attestation.measurement.toLower := by
    intro b hb
    rw [hcopied.measurement b hb, toLower_hexEncode]
  rw [hC.tbsData docBytes cose payload hdoc.doc hdoc.decoded]
  simp only [Sdk.verifyNitroAttestation, Except.bind_eq_ok, throwIf_ok, exists_const, call_ok,
    Bool.not_eq_false, hcopied.document, openEnvelope_iff hC hdoc h, Option.getD_some]
  constructor
  · rintro ⟨_, hhex, _, ⟨halg, hlength, rfl⟩, _, hmap, _, hsig, t, ht, m, hm, _⟩
    rw [hpayload, Option.some.injEq] at hmap
    subst hmap
    obtain ⟨b, hb, h48, heq, _⟩ := (checkMeasurement_ok h).mp hm
    exact ⟨hhex, halg, hlength, (checkSignature_ok h).mp hsig, ⟨t, (checkTimestamp_ok h).mp ht⟩, b,
      hb, h48, heq⟩
  · rintro ⟨hhex, halg, hlength, hsig, ⟨t, ht⟩, b, hb, h48, heq⟩
    have hm := (checkMeasurement_ok h).mpr ⟨b, hb, h48, heq, hadvertised b hb, rfl⟩
    exact ⟨_, hhex, _, ⟨halg, hlength, rfl⟩, _, hpayload, (), (checkSignature_ok h).mpr hsig, t,
      (checkTimestamp_ok h).mpr ht, _, hm, _, checkKeys_ok h hbinding hcopied, rfl⟩

end Verifiers

/-! ## The comparison -/

section

variable {Name Key Sig : Type}

/-- What only the SDK asks of a document. -/
structure SdkChecks [DecidableEq Name] (X : X509 Name Key Sig) (entries : List (Value × Value))
    (leafDer : Bytes) (bundle : List Bytes) (root : Certificate Name) (pcr0 : String) (maxAge : Int)
    (now : Date) : Prop where
  pcr0 : Sdk.isHexText 96 pcr0 = true
  digest : (.text "digest", .text "SHA384") ∈ entries
  rooted : root.raw ∈ bundle
  selfSigned : SignedBy X root root
  timestamp : ∀ t, Stamps entries t → |t| ≤ maxSafeInteger ∧ |now.ms - t| ≤ maxAge * 1000
  expiry : ∀ path, PathOf X leafDer bundle root path →
    ∀ cert ∈ path ++ [root], now.ms ≤ 1000 * (cert.notAfter : Int)

end

/-- The verifier's age is that of the SDK, rounded down to seconds. -/
theorem fresh_of_fresh {now : Date} {t maxAge : Int} (hsafe : |t| ≤ maxSafeInteger)
    (hfresh : |now.ms - t| ≤ maxAge * 1000) : |(asI64 (now.ms - asI64 t)).tdiv 1000| ≤ maxAge := by
  have hrange := now.range
  rw [maxSafeInteger] at hsafe
  rw [abs_le] at hsafe hrange hfresh
  rw [asI64_eq (n := t) (by omega) (by omega), asI64_eq (by omega) (by omega), abs_le]
  rcases le_total 0 (now.ms - t) with hpos | hneg
  · rw [Int.tdiv_eq_ediv_of_nonneg hpos]
    omega
  · rw [← neg_neg (now.ms - t), Int.neg_tdiv, Int.tdiv_eq_ediv_of_nonneg (by omega)]
    omega

theorem verifyNitroAttestation_iff {Name Key Sig PublicKey : Type} [DecidableEq Name] (C : Cose)
    (X : X509 Name Key Sig) (N : Node PublicKey)
    (view : Certificate Name → X509Certificate PublicKey) (hC : CoseAlike C X N view)
    (hX : X509Alike X N view) (docBytes payload leafDer rootPem : Bytes) (cose : CoseSign1)
    (entries : List (Value × Value)) (bundle : List Bytes) (root : Certificate Name) (pem : String)
    (hdoc : ReadsDocument C docBytes cose payload entries)
    (h : RegularDocument C cose entries leafDer bundle) (hchain : RegularChain X leafDer bundle root)
    (hroot : decodeRoot X rootPem = .ok root) (hpem : N.x509Pem pem = some (view root))
    (channelKey : Bytes) (proofKey : String) (attestation : AttestationEnvelope)
    (hbinding : CarriesBinding N entries channelKey proofKey)
    (hcopied : Copied N docBytes entries channelKey proofKey attestation) (pcr0 : String)
    (maxAge : Int) (now clock : Date) :
    (∃ r, Sdk.verifyNitroAttestation N attestation ⟨pcr0, some pem, some maxAge, some now⟩ clock =
        .ok r) ↔
      (∃ v, parseAndVerify C X docBytes rootPem now.ms maxAge (some pcr0) (systemClock now) =
        .ok v) ∧
      SdkChecks X entries leafDer bundle root pcr0 maxAge now := by
  rw [verifyNitroAttestation_ok hC hdoc h hbinding hcopied, parseAndVerify_iff hdoc h,
    verifyCoseSignature_ok]
  simp only [validateCertificatePath_iff hX hroot hpem hchain]
  constructor
  · rintro ⟨hhex, halg, hlength, ⟨hdigest, _, key, ⟨⟨leaf, hleaf, rfl⟩, hpath, hmem, hself, hexpiry⟩,
      hkey, hverify⟩, ⟨t, hstamp, hsafe, hfresh⟩, b, hb, _, heq⟩
    obtain ⟨vk, sig, hvk, hsig, hok⟩ := (hC.verify leaf _ _).mp ⟨hlength, key, hkey, hverify⟩
    refine ⟨⟨⟨_, hdigest⟩, ⟨t, hstamp, fresh_of_fresh hsafe hfresh⟩, hpath,
      ⟨halg, leaf, vk, sig, hleaf, hvk, hsig, hok⟩, b, hb, heq⟩,
      hhex, hdigest, hmem, hself, ?_, hexpiry⟩
    intro t' hstamp'
    rw [stamps_unique h hstamp' hstamp]
    exact ⟨hsafe, hfresh⟩
  · rintro ⟨⟨_, ⟨t, hstamp, _⟩, hpath, ⟨halg, leaf, vk, sig, hleaf, hvk, hsig, hok⟩, b, hb, heq⟩,
      hhex, hdigest, hmem, hself, hfresh, hexpiry⟩
    obtain ⟨hlength, key, hkey, hverify⟩ := (hC.verify leaf _ _).mpr ⟨vk, sig, hvk, hsig, hok⟩
    have h48 : b.length = 48 := by
      have hlen := congrArg String.length heq
      rw [length_toLower, length_toLower, length_hexEncode] at hlen
      rw [Sdk.isHexText, Bool.and_eq_true, beq_iff_eq] at hhex
      omega
    exact ⟨hhex, halg, hlength, ⟨hdigest, _, key, ⟨⟨leaf, hleaf, rfl⟩, hpath, hmem, hself, hexpiry⟩,
      hkey, hverify⟩, ⟨t, hstamp, hfresh t hstamp⟩, b, hb, h48, heq⟩

/-! ## Two documents

A leaf certificate directly under the root, once with the root in the bundle and once without. -/

def cborHead (major n : Nat) : Bytes :=
  if n < 24 then [.ofNat (32 * major + n)]
  else if n < 256 then [.ofNat (32 * major + 24), .ofNat n]
  else [.ofNat (32 * major + 25), .ofNat (n / 256), .ofNat n]

mutual

/-- The items of the samples, whose lengths fit in 16 bits. -/
def cborItem : Value → Bytes
  | .integer i =>
    if 0 ≤ i.val then cborHead 0 i.val.toNat else cborHead 1 (-1 - i.val).toNat
  | .bytes bs => cborHead 2 bs.length ++ bs
  | .text s => cborHead 3 (Utf8.encode s.toList).length ++ Utf8.encode s.toList
  | .array items => cborHead 4 items.length ++ cborItems items
  | .map entries => cborHead 5 entries.length ++ cborEntries entries
  | _ => []

def cborItems : List Value → Bytes
  | [] => []
  | item :: items => cborItem item ++ cborItems items

def cborEntries : List (Value × Value) → Bytes
  | [] => []
  | (key, value) :: entries => cborItem key ++ cborItem value ++ cborEntries entries

end

example : cborItem (.map [(.integer (.ofInt64 1), .integer (.ofInt64 (-35)))]) =
    sampleHeader := by decide

/-- Not an elliptic curve. -/
def sampleSign (key msg : Bytes) : Bytes := (key ++ msg ++ List.replicate 96 0).take 96

theorem length_sampleSign (key msg : Bytes) : (sampleSign key msg).length = 96 := by
  rw [sampleSign, List.length_take, List.length_append, List.length_replicate]
  omega

def sampleExtensions : List Extension :=
  [⟨basicConstraintsOid, [0x30, 0x03, 0x01, 0x01, 0xFF]⟩, ⟨keyUsageOid, [0x03, 0x02, 0x01, 0x86]⟩]

def sampleRoot : Certificate String where
  raw := [0x30, 0x01, 0x01]
  subject := "aws.nitro-enclaves"
  issuer := "aws.nitro-enclaves"
  notBefore := 0
  notAfter := 100
  extensions := some sampleExtensions
  spki := [0x04, 0x01]
  tbs := .ok [0x01]
  signature := some (sampleSign [0x04, 0x01] [0x01])

def sampleLeaf : Certificate String where
  raw := [0x30, 0x01, 0x02]
  subject := "enclave"
  issuer := "aws.nitro-enclaves"
  notBefore := 0
  notAfter := 100
  extensions := none
  spki := [0x04, 0x02]
  tbs := .ok [0x02]
  signature := some (sampleSign [0x04, 0x01] [0x02])

def samplePem : String :=
  "-----BEGIN CERTIFICATE-----
MAEB
-----END CERTIFICATE-----
"

def sampleX509 : X509 String Bytes Bytes where
  fromDer bs :=
    if bs = sampleRoot.raw then .ok sampleRoot
    else if bs = sampleLeaf.raw then .ok sampleLeaf
    else .error ""
  base64Decode bs := if bs = Utf8.encode "MAEB".toList then some sampleRoot.raw else none
  display name := name
  basicConstraints bs :=
    if bs = [0x30, 0x03, 0x01, 0x01, 0xFF] then .ok ⟨true, none⟩ else .error ""
  keyUsage bs := if bs = [0x03, 0x02, 0x01, 0x86] then .ok ⟨true⟩ else .error ""
  verifyingKey spki := .ok spki
  signatureFromDer bs := .ok bs
  signatureFromSlice bs := if bs.length = 96 then .ok bs else .error ""
  verify key msg sig := sig == sampleSign key msg

def sampleView (cert : Certificate String) : X509Certificate Bytes where
  raw := cert.raw
  subject := cert.subject
  issuer := cert.issuer
  validFrom := 1000 * cert.notBefore
  validTo := 1000 * cert.notAfter
  ca := (assertCaConstraints sampleX509 cert 0 "").isOk
  publicKey := some cert.spki

def sampleChannelKey : Bytes := List.replicate 32 0xBB

def sampleProofKey : String := hexEncode (List.replicate 32 0xCC)

def samplePcr0 : Bytes := List.replicate 48 0xAA

def sampleBinding : Json := .obj [
  ("channel_public_key_hex", .str (hexEncode sampleChannelKey)),
  ("format", .str bindingFormatV1),
  ("proof_verifier_key_hex", .str sampleProofKey)]

def attestedEntries (bundle : List Bytes) : List (Value × Value) := [
  (.text "module_id", .text "i"),
  (.text "digest", .text "SHA384"),
  (.text "timestamp", .integer (.ofInt64 1000)),
  (.text "pcrs", .map [(.integer (.ofInt64 0), .bytes samplePcr0)]),
  (.text "certificate", .bytes sampleLeaf.raw),
  (.text "cabundle", .array (bundle.map .bytes)),
  (.text "public_key", .bytes sampleChannelKey),
  (.text "user_data", .bytes (canonicalJson sampleBinding))]

def attestedPayload (bundle : List Bytes) : Bytes := cborItem (.map (attestedEntries bundle))

def attestedLabels : List (Value × Value) :=
  [(.integer (.ofInt64 1), .integer (.ofInt64 (-35)))]

def attestedSignature (bundle : List Bytes) : Bytes :=
  sampleSign sampleLeaf.spki (cborItem (sigStructure ⟨sampleHeader, attestedPayload bundle, []⟩))

def attestedCose (bundle : List Bytes) : CoseSign1 :=
  ⟨sampleHeader, some .es384, some (attestedPayload bundle), attestedSignature bundle⟩

def attestedItem (bundle : List Bytes) : Value := .array [.bytes sampleHeader, .map [],
  .bytes (attestedPayload bundle), .bytes (attestedSignature bundle)]

def attestedDocument (bundle : List Bytes) : Bytes := cborItem (attestedItem bundle)

/-- The crates on the document with this bundle. -/
def attestedCrates (bundle : List Bytes) : Cose where
  fromSlice bs := if bs = attestedDocument bundle then .ok (attestedCose bundle) else .error ""
  fromReader bs :=
    if bs = attestedDocument bundle then .ok (attestedItem bundle)
    else if bs = attestedPayload bundle then .ok (.map (attestedEntries bundle))
    else if bs = sampleHeader then .ok (.map attestedLabels)
    else .error ""
  tbsData cose aad := cborItem (.array [.text "Signature1", .bytes cose.protectedBytes, .bytes aad,
    .bytes (cose.payload.getD [])])
  display _ := ""

def attestedNode (bundle : List Bytes) : Node Bytes where
  decodeFirstSync bs := ((attestedCrates bundle).fromReader bs).toOption
  encodeCanonical := cborItem
  x509Der bs := (sampleX509.fromDer bs).toOption.map sampleView
  x509Pem pem := if pem = samplePem then some (sampleView sampleRoot) else none
  verify cert key :=
    match sampleX509.fromDer cert.raw with
    | .ok c => match c.tbs, c.signature with
      | .ok tbs, some sig => sampleX509.verify key tbs sig
      | _, _ => false
    | .error _ => false
  verifySignature msg key sig := some (sig.length == 96 && sig == sampleSign key msg)
  fromBase64 text :=
    if text = .ofList (base64Chars (attestedDocument bundle)) then attestedDocument bundle else []
  parse bs := if bs = canonicalJson sampleBinding then some sampleBinding else none
  coerced _ := none

def attestedEnvelope (bundle : List Bytes) : AttestationEnvelope where
  nitroAttestationB64 := .ofList (base64Chars (attestedDocument bundle))
  measurement := hexEncode samplePcr0
  channelPublicKeyHex := hexEncode sampleChannelKey
  proofVerifierKeyHex := sampleProofKey
  bindingFormat := some bindingFormatV1

section Samples

variable {bundle : List Bytes}

theorem fromDer_sample {bs : Bytes} {cert : Certificate String}
    (h : sampleX509.fromDer bs = .ok cert) : cert.raw = bs := by
  simp only [sampleX509] at h
  split at h
  · rename_i hbs
    cases h
    exact hbs.symm
  · split at h
    · rename_i hbs
      cases h
      exact hbs.symm
    · cases h

theorem signedBy_sample {cert issuer : Certificate String} : SignedBy sampleX509 cert issuer ↔
    ∃ tbs sig, cert.tbs = .ok tbs ∧ cert.signature = some sig ∧ sig = sampleSign issuer.spki tbs := by
  simp [SignedBy, sampleX509]

theorem x509Alike_sample (bundle : List Bytes) :
    X509Alike sampleX509 (attestedNode bundle) sampleView where
  der _ := rfl
  fromDer_raw _ _ := fromDer_sample
  raw _ := rfl
  names _ _ := Iff.rfl
  validFrom _ := rfl
  validTo _ := rfl
  ca cert := by
    have hok : IsCa sampleX509 cert 0 ↔ assertCaConstraints sampleX509 cert 0 "" = .ok () :=
      assertCaConstraints_ok.symm
    rw [hok, sampleView]
    cases assertCaConstraints sampleX509 cert 0 "" <;> simp [Except.isOk, Except.toBool]
  verify cert issuer hcert := by
    have hraw : sampleX509.fromDer (sampleView cert).raw = .ok cert := hcert
    have hverify : ∀ key, (attestedNode bundle).verify (sampleView cert) key =
        match cert.tbs, cert.signature with
        | .ok tbs, some sig => sampleX509.verify key tbs sig
        | _, _ => false := by
      intro key
      simp only [attestedNode, hraw]
    have hkey : (sampleView issuer).publicKey = some issuer.spki := rfl
    simp only [signedBy_sample, hverify, hkey, Option.some.injEq, exists_eq_left']
    cases cert.tbs <;> cases cert.signature <;> simp [sampleX509]

theorem attestedDocument_ne (bundle : List Bytes) :
    attestedPayload bundle ≠ attestedDocument bundle ∧ sampleHeader ≠ attestedDocument bundle ∧
      sampleHeader ≠ attestedPayload bundle := by
  have hdocument : (attestedDocument bundle).head? = some 0x84 := rfl
  have hpayload : (attestedPayload bundle).head? = some 0xA8 := rfl
  have hheader : sampleHeader.head? = some 0xA1 := rfl
  refine ⟨fun h => ?_, fun h => ?_, fun h => ?_⟩
  · rw [h, hdocument] at hpayload
    cases hpayload
  · rw [h, hdocument] at hheader
    cases hheader
  · rw [h, hpayload] at hheader
    cases hheader

theorem fromReader_attested (bundle : List Bytes) :
    (attestedCrates bundle).fromReader (attestedDocument bundle) = .ok (attestedItem bundle) ∧
      (attestedCrates bundle).fromReader (attestedPayload bundle) =
        .ok (.map (attestedEntries bundle)) ∧
      (attestedCrates bundle).fromReader sampleHeader = .ok (.map attestedLabels) := by
  obtain ⟨hpayload, hheader, hheader'⟩ := attestedDocument_ne bundle
  simp only [attestedCrates, if_pos, if_neg hpayload, if_neg hheader, if_neg hheader', and_self]

theorem decoded_attestedDocument {bs : Bytes} {cose : CoseSign1}
    (h : (attestedCrates bundle).fromSlice bs = .ok cose) :
    bs = attestedDocument bundle ∧ cose = attestedCose bundle := by
  simp only [attestedCrates] at h
  split at h
  · rename_i hbs
    cases h
    exact ⟨hbs, rfl⟩
  · cases h

theorem coseAlike_attested (bundle : List Bytes) :
    CoseAlike (attestedCrates bundle) sampleX509 (attestedNode bundle) sampleView where
  decode _ := rfl
  fromSlice bs cose payload h hpayload := by
    obtain ⟨rfl, rfl⟩ := decoded_attestedDocument h
    cases hpayload
    exact ⟨.map [], (fromReader_attested bundle).1⟩
  header bs cose h := by
    obtain ⟨rfl, rfl⟩ := decoded_attestedDocument h
    refine .inr ⟨attestedLabels, (fromReader_attested bundle).2.2, ?_, ?_, ?_⟩
    · simp [keys, attestedLabels, Value.asInteger]
    · simp [attestedLabels]
    · refine iff_of_true rfl ⟨_, _, ?_, ?_, List.mem_cons_self⟩
      · rfl
      · rfl
  tbsData bs cose payload h hpayload := by
    obtain ⟨rfl, rfl⟩ := decoded_attestedDocument h
    cases hpayload
    rfl
  verify cert msg signature := by
    simp only [attestedNode, sampleView, sampleX509, Option.some.injEq, exists_eq_left',
      Except.ok.injEq, Bool.and_eq_true, beq_iff_eq]
    constructor
    · rintro ⟨hlength, _, hsig⟩
      exact ⟨_, signature, rfl, by rw [if_pos hlength], hsig⟩
    · rintro ⟨_, sig, rfl, h, hsig⟩
      split at h
      · rename_i hlength
        cases h
        exact ⟨hlength, hlength, hsig⟩
      · cases h

theorem reads_attested (bundle : List Bytes) :
    ReadsDocument (attestedCrates bundle) (attestedDocument bundle) (attestedCose bundle)
      (attestedPayload bundle) (attestedEntries bundle) where
  doc := by simp [attestedCrates]
  decoded := rfl
  entries := (fromReader_attested bundle).2.1

theorem regularDocument_attested (bundle : List Bytes) :
    RegularDocument (attestedCrates bundle) (attestedCose bundle) (attestedEntries bundle)
      sampleLeaf.raw bundle where
  labels labels h := by
    have hheader : (attestedCrates bundle).fromReader (attestedCose bundle).protectedBytes =
      .ok (.map attestedLabels) := (fromReader_attested bundle).2.2
    rw [hheader] at h
    cases h
    simp [attestedLabels]
  keys := by
    constructor
    · simp [keys, attestedEntries, Value.asText]
    · simp [keys, attestedEntries, Value.asInteger]
  text := by simp [attestedEntries, Value.asText]
  moduleId := ⟨"i", by simp [attestedEntries]⟩
  timestamp := by simp [attestedEntries]
  pcrs := by simp [attestedEntries]
  certificate := by simp [attestedEntries]
  cabundle := by simp [attestedEntries]

theorem carriesBinding_attested (bundle : List Bytes) :
    CarriesBinding (attestedNode bundle) (attestedEntries bundle) sampleChannelKey
      sampleProofKey where
  publicKey := by simp [attestedEntries]
  length := List.length_replicate
  userData := by
    refine ⟨canonicalJson sampleBinding, sampleBinding, by simp [attestedEntries], ?_, ?_, ?_, ?_⟩
    · simp [attestedNode]
    · rfl
    · rfl
    · rfl
  proofKey := by
    rw [sampleProofKey, toLower_hexEncode]
    exact Sdk.isLowerHexText_hexEncode _

theorem binds_attested {n : Int} {b : Bytes} :
    Binds (attestedEntries bundle) n b ↔ n = 0 ∧ b = samplePcr0 := by
  simp [Binds, Measures, attestedEntries, eq_comm]

theorem stamps_attested {t : Int} : Stamps (attestedEntries bundle) t ↔ t = 1000 := by
  simp [Stamps, attestedEntries, eq_comm]

theorem copied_attested (bundle : List Bytes) :
    Copied (attestedNode bundle) (attestedDocument bundle) (attestedEntries bundle)
      sampleChannelKey sampleProofKey (attestedEnvelope bundle) where
  document := by simp [attestedNode, attestedEnvelope]
  measurement b hb := by rw [(binds_attested.mp hb).2, attestedEnvelope]
  channelKey := rfl
  proofKey := rfl
  format := rfl

/-- The lines between the dashes. -/
theorem decodeVec_sample {base64Decode : Bytes → Option Bytes} {der : Bytes}
    (h : base64Decode (Utf8.encode "MAEB".toList) = some der) :
    decodeVec base64Decode (Utf8.encode samplePem.toList) = .ok ("CERTIFICATE", der) := by
  have hlines : ((Lines.lines (Utf8.encode samplePem.toList)).filter
      (fun l => !pemDashes.isPrefixOf l)).flatten = Utf8.encode "MAEB".toList := by decide
  simp only [decodeVec, Utf8.decode?_encode, hlines, h]
  rfl

theorem decodeRoot_sample : decodeRoot sampleX509 (Utf8.encode samplePem.toList) = .ok sampleRoot := by
  have hbase64 : sampleX509.base64Decode (Utf8.encode "MAEB".toList) = some sampleRoot.raw := by
    simp [sampleX509]
  simp only [decodeRoot, Utf8.decode?_encode, decodeVec_sample hbase64]
  rfl

theorem x509Pem_sample : (attestedNode bundle).x509Pem samplePem = some (sampleView sampleRoot) := by
  simp [attestedNode]

theorem fromDer_sampleLeaf : sampleX509.fromDer sampleLeaf.raw = .ok sampleLeaf := rfl

theorem isCa_sampleExtensions {X : X509 String Bytes Bytes} {cert : Certificate String}
    (hbasic : X.basicConstraints = sampleX509.basicConstraints)
    (husage : X.keyUsage = sampleX509.keyUsage) (h : cert.extensions = some sampleExtensions)
    (count : Nat) : IsCa X cert count := by
  refine ⟨sampleExtensions, h, ?_, ?_, ?_⟩
  · simp [sampleExtensions]
  · simp [sampleExtensions, hbasic, sampleX509, basicConstraintsOid, keyUsageOid]
  · simp [sampleExtensions, husage, sampleX509, basicConstraintsOid, keyUsageOid]

theorem isCa_sampleRoot : IsCa sampleX509 sampleRoot 0 := isCa_sampleExtensions rfl rfl rfl 0

theorem pathLength_sample (cert : Certificate String) (count : Nat) :
    PathLength sampleX509 cert count := by
  intro exts _ ext _ _ bc hbc limit hlimit
  simp only [sampleX509] at hbc
  split at hbc
  · cases hbc
    cases hlimit
  · cases hbc

theorem pathOf_sample {pool : List (Certificate String)}
    (h : decodeBundle sampleX509 0 bundle = .ok pool) :
    PathOf sampleX509 sampleLeaf.raw bundle sampleRoot [sampleLeaf] :=
  ⟨sampleLeaf, pool, fromDer_sampleLeaf, h, buildPath_of_issuer rfl⟩

theorem trusted_sample : Trusted sampleX509 1 ([sampleLeaf] ++ [sampleRoot]) where
  valid := by simp [ValidAt, sampleLeaf, sampleRoot]
  named := by simp [Named, sampleLeaf, sampleRoot]
  signed := by simp [Signed, signedBy_sample, sampleLeaf, sampleRoot]
  ca i issuer hi := by
    cases i with
    | zero =>
      cases hi
      exact isCa_sampleRoot
    | succ i => cases hi

theorem regularChain_sample {pool : List (Certificate String)}
    (h : decodeBundle sampleX509 0 bundle = .ok pool)
    (hnodup : (pool.map Certificate.subject).Nodup) :
    RegularChain sampleX509 sampleLeaf.raw bundle sampleRoot where
  selfIssued := rfl
  ca := isCa_sampleRoot
  subjects pool' h' := by
    rw [h, Except.ok.injEq] at h'
    rwa [← h']
  pathLength _ _ i issuer _ := pathLength_sample issuer i

/-- One second after 1970. -/
def sampleDate : Date := ⟨1000, by norm_num⟩

theorem parseAndVerify_attested {pool : List (Certificate String)}
    (h : decodeBundle sampleX509 0 bundle = .ok pool) :
    ∃ v, parseAndVerify (attestedCrates bundle) sampleX509 (attestedDocument bundle)
      (Utf8.encode samplePem.toList) sampleDate.ms 300 (some (hexEncode samplePcr0))
      (systemClock sampleDate) = .ok v := by
  refine (parseAndVerify_iff (reads_attested bundle) (regularDocument_attested bundle)).mpr
    ⟨⟨"SHA384", ?_⟩, ⟨1000, stamps_attested.mpr rfl, ?_⟩, ?_, ?_, samplePcr0,
      binds_attested.mpr ⟨rfl, rfl⟩, rfl⟩
  · simp [attestedEntries]
  · decide
  · exact (verifyChain_iff decodeRoot_sample).mpr
      ⟨1, [sampleLeaf], rfl, pathOf_sample h, trusted_sample⟩
  · have htbs : (attestedCrates bundle).tbsData (attestedCose bundle) [] =
        cborItem (sigStructure ⟨sampleHeader, attestedPayload bundle, []⟩) := rfl
    have hlength : (attestedSignature bundle).length = 96 := by
      rw [attestedSignature, length_sampleSign]
    have hsig : sampleX509.signatureFromSlice (attestedSignature bundle) =
        .ok (attestedSignature bundle) := by
      simp only [sampleX509, if_pos hlength]
    refine verifyCoseSignature_ok.mpr ⟨rfl, sampleLeaf, sampleLeaf.spki, attestedSignature bundle,
      fromDer_sampleLeaf, rfl, hsig, ?_⟩
    rw [htbs]
    exact beq_self_eq_true (attestedSignature bundle)

/-- The root is not in the bundle, as the tests of the verifier have it. -/
theorem verifyNitroAttestation_short :
    CoseAlike (attestedCrates []) sampleX509 (attestedNode []) sampleView ∧
      X509Alike sampleX509 (attestedNode []) sampleView ∧
      ReadsDocument (attestedCrates []) (attestedDocument []) (attestedCose []) (attestedPayload [])
        (attestedEntries []) ∧
      CarriesBinding (attestedNode []) (attestedEntries []) sampleChannelKey sampleProofKey ∧
      Copied (attestedNode []) (attestedDocument []) (attestedEntries []) sampleChannelKey
        sampleProofKey (attestedEnvelope []) ∧
      decodeRoot sampleX509 (Utf8.encode samplePem.toList) = .ok sampleRoot ∧
      (attestedNode []).x509Pem samplePem = some (sampleView sampleRoot) ∧
      (∃ v, parseAndVerify (attestedCrates []) sampleX509 (attestedDocument [])
        (Utf8.encode samplePem.toList) sampleDate.ms 300 (some (hexEncode samplePcr0))
        (systemClock sampleDate) = .ok v) ∧
      ¬ ∃ r, Sdk.verifyNitroAttestation (attestedNode []) (attestedEnvelope [])
        ⟨hexEncode samplePcr0, some samplePem, some 300, some sampleDate⟩ sampleDate = .ok r := by
  refine ⟨coseAlike_attested [], x509Alike_sample [], reads_attested [], carriesBinding_attested [],
    copied_attested [], decodeRoot_sample, x509Pem_sample, parseAndVerify_attested rfl, ?_⟩
  rw [verifyNitroAttestation_ok (coseAlike_attested []) (reads_attested [])
    (regularDocument_attested []) (carriesBinding_attested []) (copied_attested [])]
  have hpool : decodeBundle sampleX509 0 [] = .ok [] := rfl
  rintro ⟨_, _, _, ⟨_, leaf, _, hpath, _⟩, _⟩
  obtain ⟨_, _, hmem, _⟩ := (validateCertificatePath_iff (x509Alike_sample []) decodeRoot_sample
    x509Pem_sample (regularChain_sample hpool List.nodup_nil)).mp hpath
  cases hmem

theorem verifyNitroAttestation_rooted :
    ∃ r, Sdk.verifyNitroAttestation (attestedNode [sampleRoot.raw])
      (attestedEnvelope [sampleRoot.raw])
      ⟨hexEncode samplePcr0, some samplePem, some 300, some sampleDate⟩ sampleDate = .ok r := by
  have hpool : decodeBundle sampleX509 0 [sampleRoot.raw] = .ok [sampleRoot] := rfl
  refine (verifyNitroAttestation_iff _ _ _ _ (coseAlike_attested _) (x509Alike_sample _) _ _ _ _ _
    _ _ _ _ (reads_attested _) (regularDocument_attested _)
    (regularChain_sample hpool (List.nodup_singleton _)) decodeRoot_sample x509Pem_sample _ _ _
    (carriesBinding_attested _) (copied_attested _) _ _ _ _).mpr
    ⟨parseAndVerify_attested hpool, ?_⟩
  constructor
  · exact Sdk.isHexText_hexEncode samplePcr0
  · simp [attestedEntries]
  · exact List.mem_cons_self
  · simp [signedBy_sample, sampleRoot]
  · intro t ht
    rw [stamps_attested.mp ht]
    decide
  · intro path hpath
    rw [hpath.unique (pathOf_sample hpool)]
    simp [sampleLeaf, sampleRoot, sampleDate]

end Samples

end Audit
end Pzdr
