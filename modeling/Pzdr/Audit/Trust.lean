import Pzdr.Audit.Published
import Pzdr.Audit.Receipt
import Pzdr.Audit.Request

/-!
# Audit.Trust

What a client can rely on that pins the root certificate and the measurement of the image, and
nothing else. The attestation it is given may be any value, and anyone may have had documents signed
for other images.

* `attestation_rooted`: the keys of an accepted attestation are those of an enclave of the image.
* `call_sealed`: the request of a call can be decrypted by such an enclave, which finds the prompt.
* `evidence_rooted`: a proof and a receipt that are accepted under the attested key are in the ledger
  of such an enclave.
-/

namespace Pzdr
namespace Audit

open Cbor
open Enclave (Consistent Crates Platform SignedProof canonicalJson object object_get? object_plain)
open Enclave.Platform (entryBytes)
open Sdk (AttestationEnvelope Date Draws Gateway JsVal NitroVerificationOptions Node
  PZDRClientConfig ProcessOptions VerifiedNitroDocument entryBytesOf prop requestBody sigStructure
  verifyNitroAttestation verifyReceipt)

section

variable {Key : Type}

/-- Amazon's side: the keys that lead to this root have signed the documents that the NSM has issued,
and no others. -/
def Issues (N : Node Key) (rootPem : String) (issued : List Document) : Prop :=
  ∀ leafDer bundle now leaf key cose,
    Sdk.validateCertificatePath N leafDer bundle rootPem now = .ok leaf → leaf.publicKey = some key →
    N.verifySignature (N.encodeCanonical (sigStructure cose)) key cose.signature = some true →
    ∃ d ∈ issued, N.decodeFirstSync cose.payloadBytes = some (.map d.entries)

end

/-! ## The attested keys -/

section Attested

variable {Key : Type} {N : Node Key} {image : Image} {f : Fleet}

/-- An accepted document is one that the NSM has issued, and says what the NSM put into it. -/
theorem accepted_document {attestation : AttestationEnvelope} {options : NitroVerificationOptions}
    {clock : Date} {r : VerifiedNitroDocument}
    (hN : Issues N (options.awsRootPem.getD Sdk.awsNitroRootPemCommercial) f.issued)
    (h : verifyNitroAttestation N attestation options clock = .ok r) :
    ∃ d ∈ f.issued, ∃ pcr0 channelPk data binding key, (0, pcr0) ∈ d.pcrs ∧
      (hexEncode pcr0).toLower = options.expectedPcr0.toLower ∧ r.measurement = hexEncode pcr0 ∧
      r.timestampMs = d.timestamp.toInt ∧
      |(options.now.getD clock).ms - d.timestamp.toInt| ≤ options.maxAgeSeconds.getD 300 * 1000 ∧
      d.publicKey = some channelPk ∧ d.userData = some data ∧ N.parse data = some binding ∧
      r.channelPublicKeyHex = hexEncode channelPk ∧
      r.channelPublicKeyHex = attestation.channelPublicKeyHex.toLower ∧
      prop (some binding) "proof_verifier_key_hex" = some key ∧
      r.proofVerifierKeyHex = (Sdk.stringOrEmpty key).toLower ∧
      r.proofVerifierKeyHex = attestation.proofVerifierKeyHex.toLower := by
  obtain ⟨cose, payload, hpayload, hsignature, htimestamp, hmeasurement, hkeys⟩ :=
    Sdk.verifyNitroAttestation_parts h
  obtain ⟨leafDer, bundle, leaf, key, hleaf, hkey, hverified⟩ := Sdk.checkSignature_parts hsignature
  obtain ⟨d, hd, hdecode⟩ := hN leafDer bundle _ leaf key cose hleaf hkey hverified
  -- the payload that is read is the one that was signed
  obtain rfl := Option.some.inj (hdecode.symm.trans hpayload)
  obtain ⟨⟨v, hv, ht⟩, hage⟩ := Sdk.checkTimestamp_parts htimestamp
  obtain ⟨pcrs, pcr0, hpcrs, hpcr0, hpinned, hr⟩ := Sdk.checkMeasurement_parts hmeasurement
  obtain ⟨channelPk, data, binding, key, hpublic, hdata, hbinding, hchannel, hadvertised, hproof,
    hproofKey, hproofAdvertised⟩ := Sdk.checkKeys_parts hkeys
  rw [mapGet_entries (v := .integer (.ofInt64 d.timestamp)) (by simp [Document.entries]),
    Except.ok.injEq] at hv
  subst hv
  rw [Sdk.toNumber, Integer.val_ofInt64, Option.some.injEq] at ht
  rw [mapGet_entries (v := .map d.pcrEntries) (by simp [Document.entries]), Except.ok.injEq] at hpcrs
  subst hpcrs
  rw [mapGet_entries (v := Document.ofBytes? d.publicKey) (by simp [Document.entries])] at hpublic
  rw [mapGet_entries (v := Document.ofBytes? d.userData) (by simp [Document.entries])] at hdata
  refine ⟨d, hd, pcr0, channelPk, data, binding, key, mapGet_pcrEntries hpcr0, hpinned, hr, ht.symm,
    ?_, ?_, ?_, hbinding, hchannel, hadvertised, hproof, hproofKey, hproofAdvertised⟩
  · rw [ht]
    exact hage
  · exact ofBytes?_bytes (Option.some.inj (Except.ok.inj hpublic))
  · exact ofBytes?_bytes (Option.some.inj (Except.ok.inj hdata))

/-- The document was asked for by this enclave, and the attestation advertises its keys. -/
structure AttestedBy (image : Image) (inst : Instance) (d : Document)
    (attestation : AttestationEnvelope) (r : VerifiedNitroDocument) : Prop where
  asked : d.request = inst.platform.attestationRequest
  verified : r = ⟨hexEncode image.pcr0, d.timestamp.toInt, hexEncode inst.platform.channelPk,
    hexEncode inst.platform.proofPk⟩
  channelKey : attestation.channelPublicKeyHex.toLower = hexEncode inst.platform.channelPk
  proofKey : attestation.proofVerifierKeyHex.toLower = hexEncode inst.platform.proofPk

theorem attestedBy_of_accepted (hf : image.Sound f) {attestation : AttestationEnvelope}
    {options : NitroVerificationOptions} {clock : Date} {r : VerifiedNitroDocument}
    (hN : Issues N (options.awsRootPem.getD Sdk.awsNitroRootPemCommercial) f.issued)
    (hparse : ReadsBindings N) (hpinned : options.expectedPcr0.toLower = hexEncode image.pcr0)
    (h : verifyNitroAttestation N attestation options clock = .ok r) :
    ∃ inst ∈ f.instances, ∃ d ∈ f.issued, AttestedBy image inst d attestation r ∧
      |(options.now.getD clock).ms - d.timestamp.toInt| ≤
        options.maxAgeSeconds.getD 300 * 1000 := by
  obtain ⟨d, hd, pcr0, channelPk, data, binding, key, hpcr0, heq, hm, ht, hage, hpublic, hdata, hbinding,
    hchannel, hadvertised, hkey, hproof, hproofAdvertised⟩ := accepted_document hN h
  rw [toLower_hexEncode, hpinned] at heq
  obtain rfl := hexEncode_injective heq
  obtain ⟨inst, hinst, hrequest⟩ := hf.asked d hd hpcr0
  -- the document has what the enclave asked for
  obtain ⟨hasked, _, hpk⟩ : d.userData = some (canonicalJson inst.platform.attestationBinding) ∧
      d.nonce = none ∧ d.publicKey = some inst.platform.channelPk := by
    simpa [Document.request, Platform.attestationRequest] using hrequest
  obtain rfl := Option.some.inj (hpublic.symm.trans hpk)
  obtain rfl := Option.some.inj (hdata.symm.trans hasked)
  obtain rfl := Option.some.inj (hbinding.symm.trans (hparse inst.platform))
  have hread : prop (some inst.platform.attestationBinding) "proof_verifier_key_hex" =
      some (some (.str (hexEncode inst.platform.proofPk))) :=
    prop_object (by simp) rfl
  obtain rfl := Option.some.inj (hkey.symm.trans hread)
  have htext : Sdk.stringOrEmpty (some (.str (hexEncode inst.platform.proofPk))) =
      hexEncode inst.platform.proofPk := rfl
  rw [htext, toLower_hexEncode] at hproof
  refine ⟨inst, hinst, d, hd, ⟨hrequest, ?_, ?_, ?_⟩, hage⟩
  · cases r
    simp only [VerifiedNitroDocument.mk.injEq]
    exact ⟨hm, ht, hchannel, hproof⟩
  · rw [← hadvertised, hchannel]
  · rw [← hproofAdvertised, hproof]

theorem attestation_rooted (image : Image) {es : List Fleet.Event} {f : Fleet}
    (hrun : Run image.step .empty es f) (N : Node Key) (attestation : AttestationEnvelope)
    (options : NitroVerificationOptions) (clock : Date)
    (hN : Issues N (options.awsRootPem.getD Sdk.awsNitroRootPemCommercial) f.issued)
    (hparse : ReadsBindings N) (hpinned : options.expectedPcr0.toLower = hexEncode image.pcr0)
    {r : VerifiedNitroDocument} (h : verifyNitroAttestation N attestation options clock = .ok r) :
    ∃ inst ∈ f.instances, image.Hosts inst ∧ ∃ d ∈ f.issued,
      AttestedBy image inst d attestation r ∧
      |(options.now.getD clock).ms - d.timestamp.toInt| ≤
        options.maxAgeSeconds.getD 300 * 1000 := by
  have hf := Image.reachable_sound hrun
  obtain ⟨inst, hinst, hd⟩ := attestedBy_of_accepted hf hN hparse hpinned h
  exact ⟨inst, hinst, hf.hosted inst hinst, hd⟩

/-! ## A call -/

/-- The libraries of the image and of the SDK follow one specification each. -/
structure Interoperates (crates : Crates) (D : Sdk.Platform) : Prop where
  fromHex : ∀ text bs, String.toLower text = hexEncode bs → D.fromHex (some (.str text)) = some bs
  scalarmult : ∀ secret seed, secret.length = 32 → seed.length = 32 →
    D.scalarmult secret (crates.publicKey seed) =
      some (crates.diffieHellman seed (D.scalarmultBase secret))
  publicKey : ∀ secret, secret.length = 32 → (D.scalarmultBase secret).length = 32
  hkdf : ∀ salt ikm info length, length ≤ 255 * 32 →
    crates.hkdf salt ikm info length = some (D.hkdf ikm salt info length) ∧
      (D.hkdf ikm salt info length).length = length
  aead : ∀ key nonce message, key.length = 32 → nonce.length = 24 →
    crates.aeadOpen key nonce [] (D.aeadEncrypt message nonce key) = some message

/-- An enclave of the image has the image's crates, and a channel key that agrees with clients. -/
theorem Interoperates.agrees {D : Sdk.Platform} (h : Interoperates image.crates D) {inst : Instance}
    (hhosts : image.Hosts inst) :
    Agrees inst.platform D ∧ inst.platform.sha = image.crates.sha := by
  obtain ⟨fd, answers, hnew⟩ := hhosts.1
  obtain ⟨channelSeed, proofSeed, hchannel, _, hplatform⟩ := Enclave.new_ready hnew
  rw [hplatform]
  refine ⟨⟨?_, ?_, h.publicKey, h.hkdf, h.aead⟩, rfl⟩
  · intro bs
    exact h.fromHex _ bs (toLower_hexEncode bs)
  · intro secret hsecret
    exact h.scalarmult secret channelSeed hsecret hchannel

variable {bufferText : Json → Option String} {config : PZDRClientConfig} {clock : Date}

/-- The fields of a value that the client accepts as an attestation. -/
theorem attested_fields (hf : image.Sound f) {attestation : JsVal}
    (hN : Issues N (config.awsNitroRootPem.getD Sdk.awsNitroRootPemCommercial) f.issued)
    (hparse : ReadsBindings N) (hpinned : config.expectedPcr0.toLower = hexEncode image.pcr0)
    (h : Sdk.verifyAttestation N bufferText config clock attestation = some ()) :
    ∃ inst ∈ f.instances, ∃ channelText proofText,
      prop attestation "channel_public_key_hex" = some (some (.str channelText)) ∧
      channelText.toLower = hexEncode inst.platform.channelPk ∧
      prop attestation "proof_verifier_key_hex" = some (some (.str proofText)) ∧
      proofText.toLower = hexEncode inst.platform.proofPk := by
  obtain ⟨envelope, r, hr, hchannel, hproof⟩ := Sdk.verifyAttestation_some h
  obtain ⟨inst, hinst, d, _, hattested, _⟩ := attestedBy_of_accepted hf hN hparse hpinned hr
  exact ⟨inst, hinst, _, _, hchannel, hattested.channelKey, hproof, hattested.proofKey⟩

theorem call_sealed (image : Image) {es : List Fleet.Event} {f : Fleet}
    (hrun : Run image.step .empty es f) (N : Node Key) (bufferText : Json → Option String)
    (config : PZDRClientConfig) (clock : Date)
    (hN : Issues N (config.awsNitroRootPem.getD Sdk.awsNitroRootPemCommercial) f.issued)
    (hparse : ReadsBindings N) (hpinned : config.expectedPcr0.toLower = hexEncode image.pcr0)
    (D : Sdk.Platform)
    (hD : ∀ attestation, D.verifyAttestation attestation =
      Sdk.verifyAttestation N bufferText config clock attestation)
    (hcrates : Interoperates image.crates D) (gateway : Gateway) (options : ProcessOptions)
    (draws : Draws) (hsecret : draws.clientSecret.length = 32) (hnonce : draws.nonce.length = 24)
    {body : Json} (h : requestBody image.crates.sha D gateway options draws = some body) :
    ∃ inst ∈ f.instances, image.Hosts inst ∧
      body = (clientRequest inst.platform D options draws).toJson ∧
      inst.platform.decrypt (clientRequest inst.platform D options draws) = .ok options.payload ∧
      inst.platform.checkCommitment (clientRequest inst.platform D options draws) options.payload =
        .ok draws.salt := by
  have hf := Image.reachable_sound hrun
  simp only [requestBody, Option.bind_eq_bind, Option.bind_eq_some_iff] at h
  obtain ⟨attestation, _, _, hverified, channelText, hchannel, channelPublic, hpublic, shared, hshared,
    h⟩ := h
  rw [hD] at hverified
  obtain ⟨inst, hinst, text, _, htext, hlower, _⟩ :=
    attested_fields hf hN hparse hpinned hverified
  obtain ⟨hagrees, hsha⟩ := hcrates.agrees (hf.hosted inst hinst)
  -- the public key that is decoded is the enclave's, in whatever case it is written
  rw [htext, Option.some.injEq] at hchannel
  rw [← hchannel, hcrates.fromHex _ _ hlower, Option.some.injEq] at hpublic
  rw [← hpublic, hagrees.scalarmult _ hsecret, Option.some.injEq] at hshared
  refine ⟨inst, hinst, hf.hosted inst hinst, ?_, decrypt_clientRequest hagrees hsecret hnonce,
    checkCommitment_clientRequest⟩
  rw [← Option.some.inj h, ← hshared, ← hsha]
  rfl

/-! ## Its evidence -/

/-- The entry of the ledger that an accepted receipt is about. -/
theorem receipt_entry {P : Platform} {D : Sdk.Platform} {s : Enclave.State} (h : Consistent P s)
    (hunf : Unforgeable P D s) {proof receipt keyHex : JsVal} {index : Nat}
    (hkey : D.fromHex keyHex = some P.proofPk)
    (hsha : P.sha.CollisionFreeOn (Sdk.receiptInputs P.sha proof receipt ++ hashedInputs P s))
    (hindex : prop receipt "index" = some (some (.num index)))
    (hv : verifyReceipt P.sha D proof receipt keyHex = some true) :
    ∃ e, s.entries[index]? = some e ∧ entryBytes e = entryBytesOf proof := by
  obtain ⟨_, checkpoint, _, index', size, auditPath, rootHex, hcheckpoint, hsigned, _, _, hindex',
    hsize, hpath, hroot, hincl⟩ := Sdk.verifyReceipt_iff.mp hv
  obtain ⟨origin, c, hm, hsize', hroot', _⟩ := verifyCheckpoint_signed h hunf hkey hsigned
  obtain rfl := Option.some.inj (hindex.symm.trans hindex')
  obtain rfl := Option.some.inj (hsize'.symm.trans hsize)
  obtain rfl := Option.some.inj (hroot'.symm.trans hroot)
  obtain ⟨root, hhead, hhex⟩ := h.heads origin c hm
  obtain ⟨hashes, pathHex, rfl, hpathHex, hincl⟩ := Sdk.checkInclusion_num hincl
  obtain ⟨hlt, path, root', hp, hr, hwalk⟩ := (Sdk.verifyInclusion_iff _ _).mp hincl
  have hne : root ≠ [] := by
    rw [(rootAt_entries h hhead).2]
    exact List.ne_nil_of_length_pos (by rw [P.sha.length_root]; decide)
  rw [hhex, Sdk.hexToBytes_hexEncode hne, Option.some.injEq] at hr
  subst hr
  rw [Sdk.receiptInputs_eq P.sha hcheckpoint hindex hsize' hpath hpathHex hp] at hsha
  obtain ⟨e, he, hleaf⟩ := leafHash_eq_of_walk h hhead hlt
    (hsha.mono (List.subset_cons_self _ _)) hwalk
  have hinput := hsha _ (by simp) _ (List.mem_append_right _
    (leafInput_mem_hashedInputs (List.mem_of_getElem? he))) hleaf
  exact ⟨e, he, (List.cons.inj hinput).2.symm⟩

theorem evidence_rooted (image : Image) {es : List Fleet.Event} {f : Fleet}
    (hrun : Run image.step .empty es f) (N : Node Key) (bufferText : Json → Option String)
    (config : PZDRClientConfig) (clock : Date)
    (hN : Issues N (config.awsNitroRootPem.getD Sdk.awsNitroRootPemCommercial) f.issued)
    (hparse : ReadsBindings N) (hpinned : config.expectedPcr0.toLower = hexEncode image.pcr0)
    (D : Sdk.Platform) (hcrates : Interoperates image.crates D)
    (hunf : ∀ inst ∈ f.instances, Unforgeable inst.platform D inst.state)
    {attestation keyHex proof receipt : JsVal} {index : Nat}
    (hattestation : Sdk.verifyAttestation N bufferText config clock attestation = some ())
    (hkey : prop attestation "proof_verifier_key_hex" = some keyHex)
    (hindex : prop receipt "index" = some (some (.num index)))
    (hsha : ∀ inst ∈ f.instances, image.crates.sha.CollisionFreeOn
      (Sdk.receiptInputs image.crates.sha proof receipt ++ hashedInputs inst.platform inst.state))
    (hv : verifyReceipt image.crates.sha D proof receipt keyHex = some true) :
    ∃ inst ∈ f.instances, image.Hosts inst ∧ D.fromHex keyHex = some inst.platform.proofPk ∧
      ∃ e, inst.state.entries[index]? = some e ∧ entryBytes e = entryBytesOf proof ∧
        ∃ session ∈ inst.state.sessions, session.Recorded e := by
  have hf := Image.reachable_sound hrun
  obtain ⟨inst, hinst, _, text, _, _, htext, hlower⟩ :=
    attested_fields hf hN hparse hpinned hattestation
  have hhosts := hf.hosted inst hinst
  obtain ⟨_, hinstSha⟩ := hcrates.agrees hhosts
  rw [htext, Option.some.injEq] at hkey
  have hproofPk : D.fromHex keyHex = some inst.platform.proofPk := by
    rw [← hkey, hcrates.fromHex _ _ hlower]
  obtain ⟨events, hreached⟩ := hhosts.2
  have h := Enclave.reachable_consistent hreached
  obtain ⟨e, he, hbytes⟩ := receipt_entry h (hunf inst hinst) hproofPk
    (hinstSha ▸ hsha inst hinst) hindex (hinstSha ▸ hv)
  exact ⟨inst, hinst, hhosts, hproofPk, e, he, hbytes, h.entries e (List.mem_of_getElem? he)⟩

end Attested

/-! ## An enclave behind a parent

The image says nothing of its measurement, and the parent puts it into the attestation. -/

theorem issues_issued : Issues issuedNode samplePem [issuedDocument] := by
  intro leafDer bundle now leaf key cose _ _ hverified
  have hmsg : issuedNode.encodeCanonical (sigStructure cose) = issuedMessage := by
    simp only [issuedNode, Option.some.injEq, Bool.and_eq_true, beq_iff_eq] at hverified
    exact hverified.1
  have hpayload : cose.payloadBytes = issuedPayload := by
    by_contra hne
    have hnil : issuedNode.encodeCanonical (sigStructure cose) = [] :=
      if_neg (fun h => hne h.2)
    rw [hnil] at hmsg
    have hhead : issuedMessage.head? = some 0x84 := rfl
    rw [← hmsg] at hhead
    cases hhead
  exact ⟨issuedDocument, List.mem_cons_self, hpayload ▸ decodeFirstSync_issued.2.1⟩

def relayedImage : Image := sampleImage separatingPlatform.sha hexEncode "00"

theorem relayed_run : Run relayedImage.step .empty sampleEvents (sampleFleet relayedImage) :=
  sampleEvents_run separatingPlatform.sha hexEncode "00"

def relayedEnvelope : AttestationEnvelope where
  nitroAttestationB64 := .ofList (base64Chars issuedBytes)
  measurement := hexEncode samplePcr0
  channelPublicKeyHex := hexEncode (List.replicate 32 1)
  proofVerifierKeyHex := hexEncode (List.replicate 32 2)
  bindingFormat := some Sdk.bindingFormatV1

def relayedAttestation : Json := .obj [
  ("nitro_attestation_b64", .str relayedEnvelope.nitroAttestationB64),
  ("measurement", .str relayedEnvelope.measurement),
  ("channel_public_key_hex", .str relayedEnvelope.channelPublicKeyHex),
  ("proof_verifier_key_hex", .str relayedEnvelope.proofVerifierKeyHex),
  ("binding_format", .str Sdk.bindingFormatV1)]

theorem relayed_accepted : ∃ r,
    verifyNitroAttestation issuedNode relayedEnvelope sampleConfig.options sampleDate = .ok r := by
  have hdoc : issuedNode.fromBase64 relayedEnvelope.nitroAttestationB64 = issuedBytes := by
    simp [issuedNode, relayedEnvelope]
  have hrequest : issuedDocument.request = (Enclave.samplePlatform []).attestationRequest := rfl
  refine (genuine_accepted_iff sampleConfig.options sampleDate genuine_issued hdoc
    readsBindings_issued hrequest List.length_replicate List.length_replicate List.mem_cons_self
    List.length_replicate).mpr ⟨⟨?_, ?_⟩, ?_, ?_, rfl, ?_, ?_⟩
  · exact Sdk.isHexText_hexEncode samplePcr0
  · exact toLower_hexEncode samplePcr0
  · decide
  · exact toLower_hexEncode samplePcr0
  · exact toLower_hexEncode _
  · exact toLower_hexEncode _

theorem verifyAttestation_relayed : Sdk.verifyAttestation issuedNode (fun _ => none) sampleConfig
    sampleDate (some relayedAttestation) = some () := by
  have henvelope : Sdk.envelopeOf (fun _ => none) (some relayedAttestation) =
      some relayedEnvelope := rfl
  exact (verifyAttestation_iff henvelope).mpr relayed_accepted

theorem attestation_rooted_relayed : ∃ (f : Fleet) (inst : Instance) (r : VerifiedNitroDocument),
    Run relayedImage.step .empty sampleEvents f ∧
    verifyNitroAttestation issuedNode relayedEnvelope sampleConfig.options sampleDate = .ok r ∧
    inst ∈ f.instances ∧ relayedImage.Hosts inst ∧
    r.proofVerifierKeyHex = hexEncode inst.platform.proofPk := by
  obtain ⟨r, hr⟩ := relayed_accepted
  obtain ⟨inst, hinst, hhosts, d, _, hattested, _⟩ := attestation_rooted relayedImage relayed_run
    issuedNode relayedEnvelope sampleConfig.options sampleDate issues_issued readsBindings_issued
    (toLower_hexEncode samplePcr0) hr
  refine ⟨_, inst, r, relayed_run, hr, hinst, hhosts, ?_⟩
  rw [hattested.verified]

/-- The libraries of a client that has pinned this image. -/
def pinningSdk (signed : List Bytes) : Sdk.Platform :=
  { Sdk.samplePlatform signed with
    fromHex := fun v => (Sdk.asString v).bind (fun text => hexDecode text.toLower)
    verifyAttestation := Sdk.verifyAttestation issuedNode (fun _ => none) sampleConfig sampleDate
    scalarmult := fun secret _ => some secret }

theorem interoperates_pinning (signed : List Bytes) :
    Interoperates relayedImage.crates (pinningSdk signed) where
  fromHex text bs h := by
    show hexDecode text.toLower = some bs
    rw [h, hexDecode_hexEncode]
  scalarmult _ _ _ _ := rfl
  publicKey _ h := h
  hkdf _ _ _ _ _ := ⟨rfl, List.length_replicate⟩
  aead _ _ _ _ _ := rfl

/-- A call with the relayed attestation. -/
def relayedOptions : ProcessOptions := { sampleOptions with attestation := some relayedAttestation }

theorem call_sealed_relayed : ∃ (f : Fleet) (inst : Instance) (body : Json),
    Run relayedImage.step .empty sampleEvents f ∧ inst ∈ f.instances ∧
    requestBody relayedImage.crates.sha (pinningSdk []) ⟨none, fun _ _ => none⟩ relayedOptions
      sampleDraws = some body ∧
    body = (clientRequest inst.platform (pinningSdk []) relayedOptions sampleDraws).toJson := by
  obtain ⟨body, hbody⟩ : ∃ body, requestBody relayedImage.crates.sha (pinningSdk [])
      ⟨none, fun _ _ => none⟩ relayedOptions sampleDraws = some body := by
    have hhosts := (Image.reachable_sound relayed_run).hosted _ List.mem_cons_self
    exact ⟨_, requestBody_eq ((interoperates_pinning []).agrees hhosts).1 List.length_replicate rfl
      verifyAttestation_relayed rfl⟩
  obtain ⟨inst, hinst, _, hsealed, _⟩ := call_sealed relayedImage relayed_run issuedNode
    (fun _ => none) sampleConfig sampleDate issues_issued readsBindings_issued
    (toLower_hexEncode samplePcr0) (pinningSdk []) (fun _ => rfl) (interoperates_pinning [])
    ⟨none, fun _ _ => none⟩ relayedOptions sampleDraws List.length_replicate List.length_replicate
    hbody
  exact ⟨_, inst, body, relayed_run, hinst, hbody, hsealed⟩

/-- The enclave's libraries read the evidence. -/
theorem reads_pinning (s : Enclave.State) :
    Reads separatingPlatform (pinningSdk (s.signed.map Enclave.Message.bytes)) s := by
  have h := separating_reads s
  refine ⟨?_, h.atob, h.bufferFromBase64, h.verify⟩
  intro bs
  exact (interoperates_pinning _).fromHex _ _ (toLower_hexEncode bs)

/-- The enclave has served two requests, and the receipt is that of the second one. -/
theorem evidence_rooted_relayed : ∃ (f : Fleet) (inst : Instance) (proof receipt : Json),
    Run relayedImage.step .empty (sampleEvents ++ (servedEvents []).map (.enclave 0)) f ∧
    inst ∈ f.instances ∧ inst.state.entries.length = 2 ∧
    verifyReceipt relayedImage.crates.sha (pinningSdk (inst.state.signed.map Enclave.Message.bytes))
      (some proof) (some receipt) (some (.str relayedEnvelope.proofVerifierKeyHex)) = some true ∧
    ∃ e, inst.state.entries[1]? = some e ∧ entryBytes e = entryBytesOf (some proof) := by
  obtain ⟨s, first, _, root, hrun, _, hentries, hsessions⟩ := servedEvents_run separatingPlatform []
  have h := Enclave.reachable_consistent hrun
  have hmem := hsessions ▸ List.mem_cons_of_mem _ List.mem_cons_self
  have hv := answer_verifies (reads_pinning s) h hmem rfl
  rw [Platform.response_get?_proof, Platform.response_get?_receipt] at hv
  have hfleet : Run relayedImage.step .empty (sampleEvents ++ (servedEvents []).map (.enclave 0))
      ⟨[⟨separatingPlatform, s⟩], [issuedDocument]⟩ :=
    relayed_run.append (@Image.enclave_run relayedImage (sampleFleet relayedImage) 0
      (sampleEnclave relayedImage) rfl (servedEvents []) s hrun)
  have hone : ∀ inst ∈ [(⟨separatingPlatform, s⟩ : Instance)], inst = ⟨separatingPlatform, s⟩ := by
    intro inst hinst
    exact List.mem_singleton.mp hinst
  have hunf : ∀ inst ∈ [(⟨separatingPlatform, s⟩ : Instance)], Unforgeable inst.platform
      (pinningSdk (s.signed.map Enclave.Message.bytes)) inst.state := by
    intro inst hinst
    rw [hone inst hinst]
    exact sample_unforgeable [] s
  obtain ⟨receipt, hreceipt⟩ : ∃ receipt, malformedReceipt separatingPlatform root
      (separatingPlatform.sha.log.leafHash (entryBytes first)) = receipt := ⟨_, rfl⟩
  have hsha : ∀ inst ∈ [(⟨separatingPlatform, s⟩ : Instance)],
      relayedImage.crates.sha.CollisionFreeOn (Sdk.receiptInputs relayedImage.crates.sha
        (some (malformedProof separatingPlatform).toJson) (some receipt) ++
          hashedInputs inst.platform inst.state) := by
    intro inst hinst
    rw [hone inst hinst, ← hreceipt]
    exact evidence_collisionFree h hentries hmem
  have hindex : prop (some receipt) "index" = some (some (.num (1 : Nat))) := by
    rw [← hreceipt]
    exact prop_object (by simp) rfl
  rw [hreceipt] at hv
  obtain ⟨inst, hinst, _, _, e, he, hbytes, _⟩ := evidence_rooted relayedImage hfleet issuedNode
    (fun _ => none) sampleConfig sampleDate issues_issued readsBindings_issued
    (toLower_hexEncode samplePcr0) (pinningSdk (s.signed.map Enclave.Message.bytes))
    (interoperates_pinning _) hunf verifyAttestation_relayed rfl hindex hsha hv
  obtain rfl := hone inst hinst
  exact ⟨_, _, _, _, hfleet, hinst, by rw [hentries]; rfl, hv, e, he, hbytes⟩

end Audit
end Pzdr
