import Pzdr.Audit.Answer
import Pzdr.Audit.Attestation
import Pzdr.Fleet
import Pzdr.Json.Read
import Pzdr.Sdk.Trust

/-!
# Audit.Published

The documents that the NSM issues for an enclave of this image, as the SDK reads them.

`published_accepted_iff`: the SDK accepts what `publish_attestation` puts around such a document
exactly if the image was built with its own measurement and the document is fresh.
-/

namespace Pzdr
namespace Audit

open Cbor Nitro
open Enclave (AttestationOut Platform canonicalJson object)
open Sdk (AttestationEnvelope Date JsVal NitroVerificationOptions Node PZDRClientConfig bindingFormatV1
  bytes_ok call_ok mapGet maxSafeInteger prop sigStructure throwIf_ok verifyNitroAttestation)

/-! ## A document of the NSM -/

section Payload

variable {d : Document}

theorem nodup_entries (d : Document) : (keys Value.asText d.entries).Nodup := by
  simp [keys, Document.entries, Value.asText]

theorem mapGet_entries {key : String} {v : Value} (h : (.text key, v) ∈ d.entries) :
    Sdk.mapGet (some (.map d.entries)) (.text key) = .ok (some v) :=
  congrArg Except.ok ((Sdk.entriesGet_text (nodup_entries d)).mpr h)

theorem nodup_pcrEntries (d : Document) : (keys Value.asInteger d.pcrEntries).Nodup := by
  have hinj : Function.Injective Document.pcrIndex := by
    intro i j hij
    have hval : (i.val : Int) = j.val := congrArg Integer.val hij
    omega
  have hkeys : keys Value.asInteger d.pcrEntries = (d.pcrs.map Prod.fst).map Document.pcrIndex := by
    rw [keys, Document.pcrEntries, List.filterMap_map, List.map_map]
    exact congrFun List.filterMap_eq_map' d.pcrs
  rw [hkeys]
  exact d.distinct.map hinj

/-- The byte string at 0 is PCR0. -/
theorem mapGet_pcrEntries {bs : Bytes}
    (h : Sdk.mapGet (some (.map d.pcrEntries)) (.number 0) = .ok (some (.bytes bs))) :
    (0, bs) ∈ d.pcrs := by
  have hint : ∀ e ∈ d.pcrEntries, ∃ i, e.1 = .integer i := by
    intro e he
    obtain ⟨_, _, rfl⟩ := List.mem_map.mp he
    exact ⟨_, rfl⟩
  obtain ⟨i, hi, hmem⟩ := (Sdk.entriesGet_number (nodup_pcrEntries d) hint).mp (Except.ok.inj h)
  obtain ⟨⟨j, bs'⟩, he, heq⟩ := List.mem_map.mp hmem
  simp only [Prod.mk.injEq, Value.integer.injEq, Value.bytes.injEq] at heq
  obtain ⟨rfl, rfl⟩ := heq
  have hj : j = 0 := by
    apply Fin.ext
    have hval : (j.val : Int) = 0 := hi
    simpa using hval
  exact hj ▸ he

theorem ofBytes?_bytes {o : Option Bytes} {bs : Bytes} (h : Document.ofBytes? o = .bytes bs) :
    o = some bs := by
  cases o with
  | none => cases h
  | some bs' =>
    cases h
    rfl

end Payload

section Genuine

variable {Key : Type} {N : Node Key} {d : Document}

/-- `JSON.parse` reads the key bindings that the enclaves write. -/
def ReadsBindings (N : Node Key) : Prop :=
  ∀ P : Platform, N.parse (canonicalJson P.attestationBinding) = some P.attestationBinding

/-- The bytes of a document, and its signature at this time. -/
structure Genuine (N : Node Key) (rootPem : String) (now : Date) (d : Document) (docBytes : Bytes)
    (cose : Sdk.Sign1) : Prop where
  decoded : ∃ unprotected, N.decodeFirstSync docBytes = some (.array [.bytes cose.protectedBytes,
    unprotected, .bytes cose.payloadBytes, .bytes cose.signature])
  header : N.decodeFirstSync cose.protectedBytes =
    some (.map [(.integer (.ofInt64 1), .integer (.ofInt64 (-35)))])
  payload : N.decodeFirstSync cose.payloadBytes = some (.map d.entries)
  length : cose.signature.length = 96
  signed : ∃ leaf key, Sdk.validateCertificatePath N d.certificate d.cabundle rootPem now = .ok leaf ∧
    leaf.publicKey = some key ∧
    N.verifySignature (N.encodeCanonical (sigStructure cose)) key cose.signature = some true

/-- Decoding as that of the verifier plays no part here. -/
def noCrates : Cose := ⟨fun _ => .error "", fun _ => .error "", fun _ _ => [], fun _ => ""⟩

theorem regular_entries (d : Document) :
    RegularDocument noCrates ⟨[], none, none, []⟩ d.entries d.certificate d.cabundle where
  labels labels h := by cases h
  keys := by
    refine ⟨nodup_entries d, ?_⟩
    intro pmap h
    obtain rfl : pmap = d.pcrEntries := by simpa [Document.entries] using h
    exact nodup_pcrEntries d
  text := by simp [Document.entries, Value.asText]
  moduleId := ⟨d.moduleId, by simp [Document.entries]⟩
  timestamp v h := by
    obtain rfl : v = .integer (.ofInt64 d.timestamp) := by simpa [Document.entries] using h
    exact ⟨_, rfl⟩
  pcrs v h := by
    obtain rfl : v = .map d.pcrEntries := by simpa [Document.entries] using h
    refine ⟨_, rfl, ?_⟩
    intro e he
    obtain ⟨e, _, rfl⟩ := List.mem_map.mp he
    exact ⟨_, rfl, by simp [Document.pcrIndex]⟩
  certificate := by simp [Document.entries]
  cabundle := by simp [Document.entries]

theorem stamps_entries {t : Int} : Stamps d.entries t ↔ t = d.timestamp.toInt := by
  simp [Stamps, Document.entries, eq_comm]

theorem binds_entries {b : Bytes} : Binds d.entries 0 b ↔ (0, b) ∈ d.pcrs := by
  constructor
  · intro h
    apply mapGet_pcrEntries
    obtain ⟨pmap, hpcrs, hmeasures⟩ := h
    obtain rfl : pmap = d.pcrEntries := by simpa [Document.entries] using hpcrs
    exact congrArg Except.ok ((get_pcr0 (regular_entries d) hpcrs).mpr ⟨_, hpcrs, hmeasures⟩)
  · intro h
    refine ⟨d.pcrEntries, by simp [Document.entries], .ofInt64 0, rfl, ?_⟩
    exact List.mem_map.mpr ⟨_, h, rfl⟩

theorem openEnvelope_genuine {rootPem : String} {now : Date} {docBytes : Bytes} {cose sign1 : Sdk.Sign1}
    (h : Genuine N rootPem now d docBytes cose) :
    Sdk.openEnvelope N docBytes = .ok sign1 ↔ sign1 = cose := by
  obtain ⟨unprotected, hdecoded⟩ := h.decoded
  rw [Sdk.openEnvelope_ok]
  constructor
  · rintro ⟨decoded, _, _, _, hdecoded', hitems, _⟩
    obtain rfl := Option.some.inj (hdecoded.symm.trans hdecoded')
    cases sign1
    simp only [Sdk.untagged, Value.array.injEq, List.cons.injEq, Value.bytes.injEq] at hitems
    obtain ⟨rfl, rfl, rfl, rfl, _⟩ := hitems
    rfl
  · rintro rfl
    exact ⟨_, unprotected, _, some (.integer (.ofInt64 (-35))), hdecoded, rfl, h.header, rfl, rfl,
      h.length⟩

theorem checkKeys_genuine (hparse : ReadsBindings N) {P : Platform}
    (hrequest : d.request = P.attestationRequest) (hchannelPk : P.channelPk.length = 32)
    (hproofPk : P.proofPk.length = 32) (attestation : AttestationEnvelope) :
    (∃ keys, Sdk.checkKeys N (.map d.entries) attestation = .ok keys) ↔
      attestation.bindingFormat = some bindingFormatV1 ∧
      attestation.channelPublicKeyHex.toLower = hexEncode P.channelPk ∧
      attestation.proofVerifierKeyHex.toLower = hexEncode P.proofPk := by
  obtain ⟨hdata, _, hpublic⟩ : d.userData = some (canonicalJson P.attestationBinding) ∧
      d.nonce = none ∧ d.publicKey = some P.channelPk := by
    simpa [Document.request, Platform.attestationRequest] using hrequest
  have hpublic' : (.text "public_key", .bytes P.channelPk) ∈ d.entries := by
    simp [Document.entries, hpublic, Document.ofBytes?]
  have hdata' : (.text "user_data", .bytes (canonicalJson P.attestationBinding)) ∈ d.entries := by
    simp [Document.entries, hdata, Document.ofBytes?]
  have hprop : ∀ key text, [("format", Json.str bindingFormatV1),
      ("channel_public_key_hex", .str (hexEncode P.channelPk)),
      ("proof_verifier_key_hex", .str (hexEncode P.proofPk))].lookup key = some (.str text) →
      prop (some P.attestationBinding) key = some (some (.str text)) := by
    intro key text h
    exact prop_object (by simp) h
  have hlower : Sdk.isLowerHexText 64 (hexEncode P.proofPk) = true := by
    have := Sdk.isLowerHexText_hexEncode P.proofPk
    rwa [hproofPk] at this
  have htext : ∀ text, Sdk.stringOrEmpty (some (.str text)) = text := fun _ => rfl
  simp only [Sdk.checkKeys, mapGet_entries hpublic', mapGet_entries hdata', Except.bind_eq_ok,
    Except.ok.injEq, exists_eq_left', bytes_ok, Option.some.injEq, Value.bytes.injEq, throwIf_ok,
    hchannelPk, hparse P, Sdk.checkBinding, hprop "format" bindingFormatV1 rfl,
    hprop "channel_public_key_hex" _ rfl, hprop "proof_verifier_key_hex" _ rfl, call_ok, htext,
    toLower_hexEncode, hlower, exists_const, Sdk.asString]
  constructor
  · rintro ⟨_, _, _, ⟨_, _, hformat, _, hchannel, _, hproof, _⟩, _⟩
    have hbound := (not_or.mp (throwIf_ok.mp hchannel)).1
    exact ⟨not_not.mp hformat, (not_not.mp hbound).symm, (not_not.mp hproof).symm⟩
  · rintro ⟨hformat, hchannel, hproof⟩
    simp [throwIf_ok, hformat, hchannel, hproof, pure, Except.pure]

theorem genuine_accepted_iff (options : NitroVerificationOptions) (clock : Date)
    {attestation : AttestationEnvelope} {docBytes : Bytes} {cose : Sdk.Sign1}
    (h : Genuine N (options.awsRootPem.getD Sdk.awsNitroRootPemCommercial) (options.now.getD clock) d
      docBytes cose)
    (hdoc : N.fromBase64 attestation.nitroAttestationB64 = docBytes) (hparse : ReadsBindings N)
    {P : Platform} (hrequest : d.request = P.attestationRequest) (hchannelPk : P.channelPk.length = 32)
    (hproofPk : P.proofPk.length = 32) {pcr0 : Bytes} (hpcr0 : (0, pcr0) ∈ d.pcrs)
    (hlength : pcr0.length = 48) :
    (∃ r, verifyNitroAttestation N attestation options clock = .ok r) ↔
      (Sdk.isHexText 96 options.expectedPcr0 = true ∧
        options.expectedPcr0.toLower = hexEncode pcr0) ∧
      (|d.timestamp.toInt| ≤ maxSafeInteger ∧ |(options.now.getD clock).ms - d.timestamp.toInt| ≤
        options.maxAgeSeconds.getD 300 * 1000) ∧
      attestation.measurement.toLower = hexEncode pcr0 ∧
      attestation.bindingFormat = some bindingFormatV1 ∧
      attestation.channelPublicKeyHex.toLower = hexEncode P.channelPk ∧
      attestation.proofVerifierKeyHex.toLower = hexEncode P.proofPk := by
  have hunique : ∀ b, (0, b) ∈ d.pcrs → b = pcr0 := by
    intro b hb
    exact (Prod.mk.inj (List.inj_on_of_nodup_map d.distinct hb hpcr0 rfl)).2
  have hregular := regular_entries d
  rw [← checkKeys_genuine hparse hrequest hchannelPk hproofPk attestation]
  simp only [verifyNitroAttestation, Except.bind_eq_ok, throwIf_ok, exists_const, call_ok,
    Bool.not_eq_false, hdoc, openEnvelope_genuine h]
  constructor
  · rintro ⟨_, hhex, _, rfl, _, hpayload, _, _, t, ht, m, hm, keys, hkeys, _⟩
    obtain rfl := Option.some.inj (h.payload.symm.trans hpayload)
    obtain ⟨hstamp, hsafe, hage⟩ := (checkTimestamp_ok hregular).mp ht
    obtain ⟨b, hb, _, hpinned, hadvertised, _⟩ := (checkMeasurement_ok hregular).mp hm
    obtain rfl := hunique b (binds_entries.mp hb)
    obtain rfl := stamps_entries.mp hstamp
    rw [toLower_hexEncode] at hpinned
    exact ⟨⟨hhex, hpinned.symm⟩, ⟨hsafe, hage⟩, hadvertised.symm, keys, hkeys⟩
  · rintro ⟨⟨hhex, hpinned⟩, ⟨hsafe, hage⟩, hadvertised, keys, hkeys⟩
    obtain ⟨leaf, key, hleaf, hkey, hverified⟩ := h.signed
    refine ⟨_, hhex, cose, rfl, _, h.payload, (), ?_, d.timestamp.toInt, ?_, hexEncode pcr0, ?_, keys,
      hkeys, rfl⟩
    · exact (checkSignature_ok hregular).mpr ⟨by simp [Document.entries], leaf, key, hleaf, hkey,
        hverified⟩
    · exact (checkTimestamp_ok hregular).mpr ⟨stamps_entries.mpr rfl, hsafe, hage⟩
    · refine (checkMeasurement_ok hregular).mpr ⟨pcr0, binds_entries.mpr hpcr0, hlength, ?_,
        hadvertised.symm, rfl⟩
      rw [toLower_hexEncode, hpinned]

variable {bufferText : Json → Option String} {config : PZDRClientConfig} {clock : Date}

/-- The fields of the published object. -/
theorem envelopeOf_published (out : AttestationOut) :
    Sdk.envelopeOf bufferText (some out.toJson) = some ⟨out.nitroAttestationB64, out.measurement,
      out.channelPublicKeyHex, out.proofVerifierKeyHex, some out.bindingFormat⟩ := rfl

theorem verifyAttestation_iff {attestation : JsVal} {envelope : AttestationEnvelope}
    (h : Sdk.envelopeOf bufferText attestation = some envelope) :
    Sdk.verifyAttestation N bufferText config clock attestation = some () ↔
      ∃ r, verifyNitroAttestation N envelope config.options clock = .ok r := by
  rw [Sdk.verifyAttestation, h, Option.bind_eq_bind, Option.bind_some]
  cases verifyNitroAttestation N envelope config.options clock <;> simp

theorem published_accepted_iff (image : Image) {es : List Fleet.Event} {f : Fleet}
    (hrun : Run image.step .empty es f) (N : Node Key) (bufferText : Json → Option String)
    (config : PZDRClientConfig) (clock : Date) (hparse : ReadsBindings N)
    (hkeys : ∀ seed : Bytes, seed.length = 32 → (image.crates.publicKey seed).length = 32 ∧
      (image.crates.verifyingKey seed).length = 32)
    (hlength : image.pcr0.length = 48) {inst : Instance} (hinst : inst ∈ f.instances) {d : Document}
    (hrequest : d.request = inst.platform.attestationRequest) (hpcr0 : (0, image.pcr0) ∈ d.pcrs)
    {docBytes : Bytes} {cose : Sdk.Sign1}
    (hgenuine : Genuine N (config.awsNitroRootPem.getD Sdk.awsNitroRootPemCommercial) clock d docBytes
      cose)
    (hdoc : N.fromBase64 (image.crates.base64 docBytes) = docBytes)
    {generateAttestation : Bytes → Bytes → Option Bytes} {now : Nat} {out : AttestationOut}
    (hgenerate : generateAttestation (canonicalJson inst.platform.attestationBinding)
      inst.platform.channelPk = some docBytes)
    (hout : inst.platform.publishAttestation generateAttestation now = some out) :
    Sdk.verifyAttestation N bufferText config clock (some out.toJson) = some () ↔
      (Sdk.isHexText 96 config.expectedPcr0 = true ∧
        config.expectedPcr0.toLower = hexEncode image.pcr0) ∧
      image.expectedPcr0.toLower = hexEncode image.pcr0 ∧
      |d.timestamp.toInt| ≤ maxSafeInteger ∧
      |clock.ms - d.timestamp.toInt| ≤ config.maxAttestationAgeSeconds.getD 300 * 1000 := by
  obtain ⟨⟨fd, answers, hnew⟩, _⟩ := (Image.reachable_sound hrun).hosted inst hinst
  obtain ⟨channelSeed, proofSeed, hchannel, hproof, hplatform⟩ := Enclave.new_ready hnew
  rw [Platform.publishAttestation, hgenerate, Option.bind_eq_bind, Option.bind_some] at hout
  obtain rfl := Option.some.inj hout
  rw [verifyAttestation_iff (envelopeOf_published _)]
  rw [hplatform] at hrequest ⊢
  rw [genuine_accepted_iff config.options clock hgenuine hdoc hparse hrequest (hkeys _ hchannel).1
    (hkeys _ hproof).2 hpcr0 hlength]
  have hadvertised : (hexEncode (image.crates.publicKey channelSeed)).toLower =
      hexEncode (image.crates.publicKey channelSeed) ∧
      (hexEncode (image.crates.verifyingKey proofSeed)).toLower =
        hexEncode (image.crates.verifyingKey proofSeed) :=
    ⟨toLower_hexEncode _, toLower_hexEncode _⟩
  constructor
  · rintro ⟨hpinned, hfresh, hbuilt, _⟩
    exact ⟨hpinned, hbuilt, hfresh⟩
  · rintro ⟨hpinned, hbuilt, hfresh⟩
    exact ⟨hpinned, hfresh, hbuilt, rfl, hadvertised⟩

end Genuine

/-! ## A document -/

/-- Crates whose secret keys are the public ones. -/
def sampleSecrets : Enclave.Crates where
  sha := (Enclave.samplePlatform []).sha
  parseRequest := (Enclave.samplePlatform []).parseRequest
  hkdf := (Enclave.samplePlatform []).hkdf
  aeadOpen := (Enclave.samplePlatform []).aeadOpen
  base64 := hexEncode
  publicKey seed := seed
  diffieHellman _ clientPub := clientPub
  verifyingKey seed := seed
  sign _ message := message

/-- The NSM's randomness, a key in each answer. -/
def sampleAnswers : List Enclave.NsmResponse :=
  [.getRandom (List.replicate 32 1), .getRandom (List.replicate 32 2)]

def issuedDocument : Document where
  moduleId := "i"
  timestamp := 1000
  pcrs := [(Document.pcr0Index, samplePcr0)]
  distinct := List.nodup_singleton _
  certificate := sampleLeaf.raw
  cabundle := [sampleRoot.raw]
  publicKey := some (List.replicate 32 1)
  userData := some (canonicalJson (Enclave.samplePlatform []).attestationBinding)
  nonce := none

def issuedPayload : Bytes := cborItem (.map issuedDocument.entries)

/-- What is signed. -/
def issuedMessage : Bytes := cborItem (sigStructure ⟨sampleHeader, issuedPayload, []⟩)

def issuedSign1 : Sdk.Sign1 :=
  ⟨sampleHeader, issuedPayload, sampleSign sampleLeaf.spki issuedMessage⟩

def issuedItem : Value := .array [.bytes sampleHeader, .map [], .bytes issuedPayload,
  .bytes issuedSign1.signature]

def issuedBytes : Bytes := cborItem issuedItem

/-- The libraries on this document; the leaf's key has signed nothing else. -/
def issuedNode : Node Bytes :=
  { attestedNode [] with
    decodeFirstSync := fun bs =>
      if bs = issuedBytes then some issuedItem
      else if bs = issuedPayload then some (.map issuedDocument.entries)
      else if bs = sampleHeader then some (.map attestedLabels)
      else none
    encodeCanonical := fun v =>
      match v with
      | .array [_, .bytes header, _, .bytes payload] =>
        if header = sampleHeader ∧ payload = issuedPayload then cborItem v else []
      | _ => []
    verifySignature := fun msg key sig => some (msg == issuedMessage && sig == sampleSign key msg)
    fromBase64 := fun text =>
      if text = .ofList (base64Chars issuedBytes) then issuedBytes else []
    parse := fun bs => (Utf8.decode? bs).bind Json.read }

theorem readsBindings_issued : ReadsBindings issuedNode := by
  intro P
  have hsorted : Enclave.sortKeys P.attestationBinding = P.attestationBinding := by
    simp [Enclave.sortKeys, Platform.attestationBinding, object, Json.sortKeys_obj, Json.sortFields,
      codePointLe, Json.sortKeys]
  have hreader : issuedNode.parse = fun bs => (Utf8.decode? bs).bind Json.read := rfl
  simp only [hreader]
  rw [canonicalJson, hsorted, Enclave.toVec, Utf8.decode?_encode, Option.bind_some, Json.read_print]

theorem x509Alike_issued : X509Alike sampleX509 issuedNode sampleView :=
  have h := x509Alike_sample []
  ⟨h.der, h.fromDer_raw, h.raw, h.names, h.validFrom, h.validTo, h.ca, h.verify⟩

/-- The three byte strings differ in their first byte. -/
theorem decodeFirstSync_issued : issuedNode.decodeFirstSync issuedBytes = some issuedItem ∧
    issuedNode.decodeFirstSync issuedPayload = some (.map issuedDocument.entries) ∧
    issuedNode.decodeFirstSync sampleHeader = some (.map attestedLabels) := by
  have hdocument : issuedBytes.head? = some 0x84 := rfl
  have hpayload : issuedPayload.head? = some 0xA9 := rfl
  have hheader : sampleHeader.head? = some 0xA1 := rfl
  have hne : issuedPayload ≠ issuedBytes := by
    intro h
    rw [h, hdocument] at hpayload
    cases hpayload
  have hne' : sampleHeader ≠ issuedBytes ∧ sampleHeader ≠ issuedPayload := by
    constructor
    · intro h
      rw [h, hdocument] at hheader
      cases hheader
    · intro h
      rw [h, hpayload] at hheader
      cases hheader
  simp only [issuedNode, if_pos, if_neg hne, if_neg hne'.1, if_neg hne'.2, and_self]

theorem encodeCanonical_issued :
    issuedNode.encodeCanonical (sigStructure issuedSign1) = issuedMessage := by
  have hstructure : sigStructure issuedSign1 = .array [.text "Signature1", .bytes sampleHeader,
      .bytes [], .bytes issuedPayload] := rfl
  have hencode : issuedNode.encodeCanonical = fun v =>
      match v with
      | .array [_, .bytes header, _, .bytes payload] =>
        if header = sampleHeader ∧ payload = issuedPayload then cborItem v else []
      | _ => [] := rfl
  rw [hstructure, hencode]
  simp only [and_self, if_true]
  rfl

theorem genuine_issued : Genuine issuedNode samplePem sampleDate issuedDocument issuedBytes
    issuedSign1 where
  decoded := ⟨.map [], decodeFirstSync_issued.1⟩
  header := decodeFirstSync_issued.2.2
  payload := decodeFirstSync_issued.2.1
  length := length_sampleSign _ _
  signed := by
    have hpool : decodeBundle sampleX509 0 [sampleRoot.raw] = .ok [sampleRoot] := rfl
    have hpath := pathOf_sample hpool
    refine ⟨sampleView sampleLeaf, sampleLeaf.spki, ?_, rfl, ?_⟩
    · have hpem : issuedNode.x509Pem samplePem = some (sampleView sampleRoot) := @x509Pem_sample []
      refine (validateCertificatePath_iff x509Alike_issued decodeRoot_sample hpem
        (regularChain_sample hpool (List.nodup_singleton _))).mpr
        ⟨⟨sampleLeaf, fromDer_sampleLeaf, rfl⟩, ?_, List.mem_cons_self, ?_, ?_⟩
      · exact (verifyChain_iff decodeRoot_sample).mpr ⟨1, [sampleLeaf], rfl, hpath, trusted_sample⟩
      · simp [signedBy_sample, sampleRoot]
      · intro path hpath'
        rw [hpath'.unique hpath]
        simp [sampleLeaf, sampleRoot, sampleDate]
    · rw [encodeCanonical_issued]
      simp [issuedNode, issuedSign1]

/-- An image of the sample crates. -/
def sampleImage (sha : Sha256) (base64 : Bytes → String) (expectedPcr0 : String) : Image :=
  ⟨{ sampleSecrets with sha := sha, base64 := base64 }, expectedPcr0, samplePcr0⟩

/-- The enclave that comes up. -/
def sampleEnclave (image : Image) : Instance :=
  ⟨image.crates.platform image.expectedPcr0 (List.replicate 32 1) (List.replicate 32 2), .boot⟩

/-- An enclave comes up and publishes a document. -/
def sampleEvents : List Fleet.Event := [.boot 3 sampleAnswers, .attest 0 issuedDocument]

def sampleFleet (image : Image) : Fleet := ⟨[sampleEnclave image], [issuedDocument]⟩

theorem sampleEvents_run (sha : Sha256) (base64 : Bytes → String) (expectedPcr0 : String) :
    Run (sampleImage sha base64 expectedPcr0).step .empty sampleEvents
      (sampleFleet (sampleImage sha base64 expectedPcr0)) := by
  generalize himage : sampleImage sha base64 expectedPcr0 = image
  have hboot : image.step .empty (.boot 3 sampleAnswers) = some ⟨[sampleEnclave image], []⟩ := by
    subst himage
    rfl
  have hrequest : issuedDocument.request = (sampleEnclave image).platform.attestationRequest := by
    subst himage
    rfl
  have hpcr0 : (0, image.pcr0) ∈ issuedDocument.pcrs := by
    subst himage
    exact List.mem_cons_self
  have hattest : image.step ⟨[sampleEnclave image], []⟩ (.attest 0 issuedDocument) =
      some (sampleFleet image) := by
    simp only [Image.step, List.getElem?_cons_zero, Option.bind_eq_bind, Option.bind_some]
    rw [if_pos ⟨hrequest, hpcr0⟩]
    rfl
  exact .snoc (.snoc .nil hboot) hattest

def sampleConfig : PZDRClientConfig := ⟨hexEncode samplePcr0, some samplePem, none⟩

/-- This image was built with its own measurement. -/
theorem published_accepted_iff_fresh : ∃ (image : Image) (f : Fleet) (out : AttestationOut),
    Run image.step .empty sampleEvents f ∧
    Sdk.verifyAttestation issuedNode (fun _ => none) sampleConfig sampleDate (some out.toJson) =
      some () := by
  have hrun := sampleEvents_run .firstBytes (fun bs => .ofList (base64Chars bs)) (hexEncode samplePcr0)
  generalize himage : sampleImage .firstBytes (fun bs => .ofList (base64Chars bs))
    (hexEncode samplePcr0) = image at hrun
  obtain ⟨out, hout⟩ : ∃ out, (sampleEnclave image).platform.publishAttestation
      (fun _ _ => some issuedBytes) 1 = some out := ⟨_, rfl⟩
  have hdoc : issuedNode.fromBase64 (image.crates.base64 issuedBytes) = issuedBytes := by
    simp [issuedNode, ← himage, sampleImage]
  have hbuilt : image.pcr0 = samplePcr0 ∧ image.expectedPcr0 = hexEncode samplePcr0 := by
    rw [← himage]
    exact ⟨rfl, rfl⟩
  have hkeys : ∀ seed : Bytes, seed.length = 32 → (image.crates.publicKey seed).length = 32 ∧
      (image.crates.verifyingKey seed).length = 32 := by
    rw [← himage]
    intro seed h
    exact ⟨h, h⟩
  have hrequest : issuedDocument.request = (sampleEnclave image).platform.attestationRequest := by
    rw [← himage]
    rfl
  refine ⟨image, _, out, hrun, (published_accepted_iff image hrun issuedNode _ sampleConfig sampleDate
    readsBindings_issued hkeys ?_ List.mem_cons_self hrequest ?_ genuine_issued hdoc rfl hout).mpr
    ⟨⟨?_, ?_⟩, ?_, ?_⟩⟩
  · rw [hbuilt.1]
    exact List.length_replicate
  · rw [hbuilt.1]
    exact List.mem_cons_self
  · exact Sdk.isHexText_hexEncode samplePcr0
  · rw [hbuilt.1]
    exact toLower_hexEncode samplePcr0
  · rw [hbuilt.1, hbuilt.2]
    exact toLower_hexEncode samplePcr0
  · decide

end Audit
end Pzdr
