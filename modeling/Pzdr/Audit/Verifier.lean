import Pzdr.Audit.Freshness
import Pzdr.Audit.Published

/-!
# Audit.Verifier

The documents that the NSM issues, as `parse_and_verify` of `crates/nitro-attestation` reads them.

* `parse_document`: every such document is parsed, into what the NSM has put into it.
* `verified_rooted`: with the measurement of the image pinned, a document that is accepted was asked
  for by an enclave of the image, and says its keys.
-/

namespace Pzdr
namespace Audit

open Cbor Nitro
open Enclave (canonicalJson)

/-! ## Parsing -/

/-- The parsed document says what the NSM has put into it. -/
structure Describes (v : VerifiedAttestation) (d : Document) : Prop where
  moduleId : v.moduleId = d.moduleId
  digest : v.digest = "SHA384"
  timestamp : v.timestampMs = d.timestamp.toInt
  pcrs : ∀ (n : Nat) (text : String),
    v.pcrs[n]? = some text ↔
      ∃ b, (∃ i : Fin 32, i.val = n ∧ (i, b) ∈ d.pcrs) ∧ hexEncode b = text
  chain : v.certificateChain = d.certificate :: d.cabundle
  publicKey : v.publicKey = d.publicKey
  userData : v.userData = d.userData
  nonce : v.nonce = d.nonce

section Parse

variable {d : Document}

theorem asBytes_ofBytes? (o : Option Bytes) : (Document.ofBytes? o).asBytes = o := by
  cases o <;> rfl

theorem binds_pcrs {n : Nat} {b : Bytes} :
    Binds d.entries n b ↔ ∃ i : Fin 32, i.val = n ∧ (i, b) ∈ d.pcrs := by
  constructor
  · rintro ⟨pmap, hpcrs, j, hj, hmem⟩
    obtain rfl : pmap = d.pcrEntries := by simpa [Document.entries] using hpcrs
    obtain ⟨⟨i, b'⟩, he, heq⟩ := List.mem_map.mp hmem
    simp only [Prod.mk.injEq, Value.integer.injEq, Value.bytes.injEq] at heq
    obtain ⟨rfl, rfl⟩ := heq
    have hval : (i.val : Int) = n := hj
    exact ⟨i, by omega, he⟩
  · rintro ⟨i, rfl, h⟩
    exact ⟨d.pcrEntries, by simp [Document.entries], Document.pcrIndex i, rfl,
      List.mem_map.mpr ⟨_, h, rfl⟩⟩

theorem asI64_ofInt64 (t : Int64) : asI64 (Integer.ofInt64 t).val = t.toInt := by
  rw [Integer.val_ofInt64]
  exact asI64_eq t.le_toInt t.toInt_lt

theorem describes_of_parsePayload {v : VerifiedAttestation} (h : parsePayload d.entries = .ok v) :
    Describes v d := by
  have hregular := regular_entries d
  obtain ⟨_, hfinish⟩ := (parsePayload_ok hregular.keys.text).mp h
  obtain ⟨hmodule, hdigest, htimestamp, _, _, hkey, hdata, hnonce⟩ := Fields.finish_ok.mp hfinish
  have hfind : ∀ key w, (.text key, w) ∈ d.entries → find Value.asText d.entries key = some w :=
    fun _ _ => (find_text hregular.keys).mpr
  simp only [Fields.read, hfind "module_id" (.text d.moduleId) (by simp [Document.entries]),
    hfind "digest" (.text "SHA384") (by simp [Document.entries]),
    hfind "timestamp" (.integer (.ofInt64 d.timestamp)) (by simp [Document.entries]),
    hfind "public_key" (Document.ofBytes? d.publicKey) (by simp [Document.entries]),
    hfind "user_data" (Document.ofBytes? d.userData) (by simp [Document.entries]),
    hfind "nonce" (Document.ofBytes? d.nonce) (by simp [Document.entries]),
    Option.bind_some, asBytes_ofBytes?] at hmodule hdigest htimestamp hkey hdata hnonce
  refine ⟨(Option.some.inj hmodule).symm, (Option.some.inj hdigest).symm, ?_, ?_,
    parsed_chain hregular h, hkey, hdata, hnonce⟩
  · rw [← asI64_ofInt64]
    exact (Option.some.inj htimestamp).symm
  · intro n text
    rw [(parsePayload_ok_of hregular.keys h).2]
    simp only [← binds_pcrs]
    refine getElem?_pcrs hregular.keys ?_ n text
    rintro k b ⟨pmap, hpcrs, j, rfl, hmem⟩
    obtain rfl : pmap = d.pcrEntries := by simpa [Document.entries] using hpcrs
    obtain ⟨e, _, heq⟩ := List.mem_map.mp hmem
    simp only [Prod.mk.injEq, Value.integer.injEq] at heq
    rw [← heq.1]
    exact Int.natCast_nonneg _

theorem parse_document (d : Document) : ∃ v, parsePayload d.entries = .ok v ∧ Describes v d := by
  have hregular := regular_entries d
  obtain ⟨v, hv⟩ := (complete_iff hregular.keys).mp
    ⟨hregular.text, hregular.moduleId, ⟨"SHA384", by simp [Document.entries]⟩, _,
      stamps_entries.mpr rfl⟩
  exact ⟨v, hv, describes_of_parsePayload hv⟩

end Parse

/-! ## The attested enclave -/

section Verified

variable {Name Key Sig : Type} [DecidableEq Name] {C : Cose} {X : X509 Name Key Sig}
  {docBytes rootPem : Bytes} {nowMs maxSkewSecs : Int} {clock : Option Nat}

/-- Amazon's side: the keys that lead to this root have signed documents that the NSM has issued, and
no others. -/
def Signs (C : Cose) (X : X509 Name Key Sig) (rootPem : Bytes) (issued : List Document) : Prop :=
  ∀ docBytes cose leafDer cabundle clock, C.fromSlice docBytes = .ok cose →
    verifyChain X leafDer cabundle rootPem clock = .ok () →
    verifyCoseSignature C X cose leafDer = .ok () →
    ∃ d ∈ issued, ∃ payload, cose.payload = some payload ∧ C.fromReader payload = .ok (.map d.entries)

theorem verified_document {issued : List Document} (hX : Signs C X rootPem issued)
    {expectedPcr0Hex : Option String} {v : VerifiedAttestation}
    (h : parseAndVerify C X docBytes rootPem nowMs maxSkewSecs expectedPcr0Hex clock = .ok v) :
    ∃ d ∈ issued, Describes v d := by
  obtain ⟨hparse, hsignature, _⟩ := parseAndVerify_ok.mp h
  simp only [verifySignature, Except.bind_eq_ok, Except.mapError_eq_ok] at hsignature
  obtain ⟨cose, hcose, hsignature⟩ := hsignature
  cases hchain : v.certificateChain with
  | nil =>
    rw [hchain] at hsignature
    cases hsignature
  | cons leafDer cabundle =>
    obtain ⟨hpath, hverified⟩ :=
      (verifySignature_cons hcose hchain).mp (parseAndVerify_ok.mp h).2.1
    obtain ⟨d, hd, payload, hpayload, hentries⟩ := hX docBytes cose leafDer cabundle clock hcose
      hpath hverified
    rw [parse_eq_parsePayload hcose hpayload hentries] at hparse
    exact ⟨d, hd, describes_of_parsePayload hparse⟩

theorem verified_rooted (image : Image) {es : List Fleet.Event} {f : Fleet}
    (hrun : Run image.step .empty es f) (C : Cose) (X : X509 Name Key Sig)
    (hX : Signs C X rootPem f.issued) {pcr0Hex : String}
    (hpinned : pcr0Hex.toLower = hexEncode image.pcr0) {v : VerifiedAttestation}
    (h : parseAndVerify C X docBytes rootPem nowMs maxSkewSecs (some pcr0Hex) clock = .ok v) :
    ∃ inst ∈ f.instances, image.Hosts inst ∧ ∃ d ∈ f.issued, Describes v d ∧
      v.publicKey = some inst.platform.channelPk ∧
      v.userData = some (canonicalJson inst.platform.attestationBinding) ∧ v.nonce = none ∧
      |(asI64 (nowMs - d.timestamp.toInt)).tdiv 1000| ≤ maxSkewSecs ∧
      (InI64 (nowMs - d.timestamp.toInt) →
        |nowMs - d.timestamp.toInt| < (maxSkewSecs + 1) * 1000) := by
  have hf := Image.reachable_sound hrun
  obtain ⟨d, hd, hdescribes⟩ := verified_document hX h
  obtain ⟨_, _, hfresh, hmatches⟩ := parseAndVerify_ok.mp h
  obtain ⟨got, hgot, heq⟩ := assertMeasurementMatches_ok.mp (hmatches pcr0Hex rfl)
  obtain ⟨b, ⟨i, hi, hb⟩, rfl⟩ := (hdescribes.pcrs 0 got).mp hgot
  obtain rfl : i = 0 := Fin.ext hi
  rw [toLower_hexEncode, hpinned] at heq
  obtain rfl := hexEncode_injective heq
  obtain ⟨inst, hinst, hrequest⟩ := hf.asked d hd hb
  obtain ⟨hdata, hnonce, hkey⟩ : d.userData = some (canonicalJson inst.platform.attestationBinding) ∧
      d.nonce = none ∧ d.publicKey = some inst.platform.channelPk := by
    simpa [Document.request, Enclave.Platform.attestationRequest] using hrequest
  refine ⟨inst, hinst, hf.hosted inst hinst, d, hd, hdescribes, hdescribes.publicKey.trans hkey,
    hdescribes.userData.trans hdata, hdescribes.nonce.trans hnonce, ?_⟩
  rw [assertFresh_ok, hdescribes.timestamp] at hfresh
  refine ⟨hfresh, ?_⟩
  intro hfits
  rwa [asI64_eq hfits.1 hfits.2, abs_tdiv_le_iff] at hfresh

end Verified

/-! ## A document -/

def issuedCose : CoseSign1 :=
  ⟨sampleHeader, some .es384, some issuedPayload, issuedSign1.signature⟩

/-- The crates on one document. -/
def issuedCrates : Cose where
  fromSlice bs := if bs = issuedBytes then .ok issuedCose else .error ""
  fromReader bs := if bs = issuedPayload then .ok (.map issuedDocument.entries) else .error ""
  tbsData cose aad := cborItem (.array [.text "Signature1", .bytes cose.protectedBytes, .bytes aad,
    .bytes (cose.payload.getD [])])
  display _ := ""

theorem fromReader_issued :
    issuedCrates.fromReader issuedPayload = .ok (.map issuedDocument.entries) := by
  simp [issuedCrates]

theorem signs_issued : Signs issuedCrates sampleX509 (Utf8.encode samplePem.toList)
    [issuedDocument] := by
  intro docBytes cose leafDer cabundle clock hcose _ _
  simp only [issuedCrates] at hcose
  split at hcose
  · cases hcose
    exact ⟨issuedDocument, List.mem_cons_self, issuedPayload, rfl, fromReader_issued⟩
  · cases hcose

theorem verifyCoseSignature_issued :
    verifyCoseSignature issuedCrates sampleX509 issuedCose sampleLeaf.raw = .ok () := by
  have hlength : issuedSign1.signature.length = 96 := length_sampleSign _ _
  have hsig : sampleX509.signatureFromSlice issuedSign1.signature = .ok issuedSign1.signature := by
    simp only [sampleX509, if_pos hlength]
  have htbs : issuedCrates.tbsData issuedCose [] = issuedMessage := rfl
  refine verifyCoseSignature_ok.mpr ⟨rfl, sampleLeaf, sampleLeaf.spki, issuedSign1.signature,
    fromDer_sampleLeaf, rfl, hsig, ?_⟩
  rw [htbs]
  exact beq_self_eq_true issuedSign1.signature

theorem parseAndVerify_issued : ∃ v, parseAndVerify issuedCrates sampleX509 issuedBytes
    (Utf8.encode samplePem.toList) sampleDate.ms 300 (some (hexEncode samplePcr0))
    (systemClock sampleDate) = .ok v := by
  obtain ⟨v, hv, hdescribes⟩ := parse_document issuedDocument
  have hcose : issuedCrates.fromSlice issuedBytes = .ok issuedCose := by simp [issuedCrates]
  have hpool : decodeBundle sampleX509 0 [sampleRoot.raw] = .ok [sampleRoot] := rfl
  have hpath := (verifyChain_iff decodeRoot_sample).mpr
    ⟨1, [sampleLeaf], rfl, pathOf_sample hpool, trusted_sample⟩
  refine ⟨v, parseAndVerify_ok.mpr ⟨?_, ?_, ?_, ?_⟩⟩
  · exact (parse_eq_parsePayload hcose rfl fromReader_issued).trans hv
  · exact (verifySignature_cons hcose hdescribes.chain).mpr ⟨hpath, verifyCoseSignature_issued⟩
  · rw [assertFresh_ok, hdescribes.timestamp]
    decide
  · rintro _ ⟨rfl⟩
    exact assertMeasurementMatches_ok.mpr
      ⟨_, (hdescribes.pcrs 0 _).mpr ⟨samplePcr0, ⟨0, rfl, List.mem_cons_self⟩, rfl⟩, rfl⟩

theorem verified_rooted_issued : ∃ (image : Image) (f : Fleet) (inst : Instance)
    (v : VerifiedAttestation), Run image.step .empty sampleEvents f ∧
    parseAndVerify issuedCrates sampleX509 issuedBytes (Utf8.encode samplePem.toList) sampleDate.ms
      300 (some (hexEncode samplePcr0)) (systemClock sampleDate) = .ok v ∧
    inst ∈ f.instances ∧ v.publicKey = some inst.platform.channelPk := by
  have hrun := sampleEvents_run .firstBytes hexEncode "00"
  obtain ⟨v, hv⟩ := parseAndVerify_issued
  obtain ⟨inst, hinst, _, _, _, _, hkey, _⟩ := verified_rooted (sampleImage .firstBytes hexEncode "00") hrun
    issuedCrates sampleX509 signs_issued (toLower_hexEncode samplePcr0) hv
  exact ⟨_, _, inst, v, hrun, hv, hinst, hkey⟩

end Audit
end Pzdr
