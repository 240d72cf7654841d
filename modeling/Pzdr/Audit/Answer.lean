import Pzdr.Audit.Signed
import Pzdr.Log.Inclusion

/-!
# Audit.Answer

The enclave's own answers pass the checks of the SDK: the two programs write one statement as the
same bytes, and the receipt's path leads from the entry to the signed head (`answer_verifies`).
-/

namespace Pzdr
namespace Audit

open Enclave
open Platform (entryBytes encodeHashes)
open Sdk (prop verifyProof verifyCheckpoint verifyReceipt encodeCanonical entryBytesOf hexToBytes
  JsVal)

/-- The SDK's libraries read what those of the enclave have written. -/
structure Reads (P : Platform) (D : Sdk.Platform) (s : State) : Prop where
  fromHex : ∀ bs, D.fromHex (some (.str (hexEncode bs))) = some bs
  atob : ∀ bs, D.atob (some (.str (P.base64 bs))) = some bs
  bufferFromBase64 : ∀ bs, D.bufferFromBase64 (some (.str (P.base64 bs))) = some bs
  verify : ∀ m ∈ s.signed, D.verifyDetached (P.sign m.bytes) m.bytes P.proofPk = some true

variable {P : Platform} {D : Sdk.Platform} {s : State}

theorem prop_object {fields : List (String × Json)} (h : (fields.map Prod.fst).Nodup)
    {key : String} {v : Json} (hv : fields.lookup key = some v) :
    prop (some (object fields)) key = some (some v) := by
  rw [← hv, ← object_get? h]
  rfl

theorem encodeCanonical_plain {v : Json} (h : Plain v) :
    encodeCanonical (some v) = canonicalJson v := by
  rw [encodeCanonical, Sdk.canonicalJSON, h.canonicalText_utf16Le]
  rfl

theorem verifyProof_signProof (hD : Reads P D s) (h : Consistent P s) {statement : ProofStatement}
    (hm : .proof statement ∈ s.signed) :
    verifyProof D (some (P.signProof statement).toJson)
      (some (.str (hexEncode P.proofPk))) = some true := by
  have hstatement : prop (some (P.signProof statement).toJson) "statement" =
      some (some statement.toJson) := prop_object (SignedProof.nodup_fields _) rfl
  have hsignature : prop (some (P.signProof statement).toJson) "signature_b64" =
      some (some (.str (P.base64 (P.sign (canonicalJson statement.toJson))))) :=
    prop_object (SignedProof.nodup_fields _) rfl
  rw [verifyProof, hstatement, hsignature]
  simp only [Option.bind_eq_bind, Option.bind_some, hD.atob, hD.fromHex, encodeCanonical_plain
    (ProofStatement.plain (h.wellFormed hm))]
  exact hD.verify _ hm

theorem CheckpointStatement.toJson_eq (c : CheckpointStatement) : c.toJson =
    .obj [("root_hex", .str c.rootHex), ("size", .num c.size), ("timestamp", .num c.timestamp)] := by
  simp [CheckpointStatement.toJson, CheckpointStatement.fields, object, Json.sortFields, codePointLe]

/-- The SDK writes the three properties of a checkpoint as the enclave writes the statement. -/
theorem canonicalRecord_checkpoint (c : CheckpointStatement) :
    Utf8.encode (Sdk.canonicalRecord [("root_hex", some (.str c.rootHex)),
      ("size", some (.num c.size)), ("timestamp", some (.num c.timestamp))]) =
      canonicalJson c.toJson := by
  rw [← encodeCanonical_plain c.plain, encodeCanonical, Sdk.canonicalJSON,
    CheckpointStatement.toJson_eq, ← Sdk.canonicalRecord_map_some]
  rfl

theorem verifyCheckpoint_signCheckpoint (hD : Reads P D s) {origin : Origin} {size now : Nat}
    {root : Bytes} (hm : .checkpoint origin (Platform.checkpointStatement size root now) ∈ s.signed) :
    verifyCheckpoint D (some (P.signCheckpoint size root now).toJson)
      (some (.str (hexEncode P.proofPk))) = some true := by
  have hprop : ∀ key v, List.lookup key [("size", Json.num size),
      ("root_hex", .str (hexEncode root)), ("timestamp", .num now),
      ("checkpoint_signature_b64", .str (P.signCheckpoint size root now).checkpointSignatureB64)] =
        some v → prop (some (P.signCheckpoint size root now).toJson) key = some (some v) := by
    intro key v hv
    exact prop_object (by simp) hv
  have hrecord := canonicalRecord_checkpoint (Platform.checkpointStatement size root now)
  rw [verifyCheckpoint, hprop "root_hex" _ rfl, hprop "size" _ rfl, hprop "timestamp" _ rfl,
    hprop "checkpoint_signature_b64" _ rfl]
  simp only [Platform.checkpointStatement] at hrecord
  simp only [Option.bind_eq_bind, Option.bind_some, hD.bufferFromBase64, hD.fromHex, hrecord,
    Platform.signCheckpoint, Platform.checkpointStatement]
  exact hD.verify _ hm

/-! ## Receipts -/

theorem mapM_asString (texts : List String) :
    (texts.map Json.str).mapM (fun h => Sdk.asString (some h)) = some texts := by
  induction texts with
  | nil => rfl
  | cons text texts ih =>
    rw [List.map_cons, List.mapM_cons, ih]
    rfl

/-- The hashes of a ledger are digests, and so are its roots and the hashes on its paths. -/
theorem length_inclusion {ledger : TransparencyLog Bytes} {index : Nat} {path : List Bytes}
    (hleaves : ∀ x ∈ ledger.leaves, x.length = 32)
    (hpath : ledger.inclusionPath P.sha.log index = some path) : ∀ x ∈ path, x.length = 32 := by
  rw [TransparencyLog.inclusionPath] at hpath
  split at hpath
  · rename_i hi
    cases hpath
    intro x hx
    rw [inclusion_eq _ _ hi, List.mem_reverse] at hx
    exact Merkle.siblings_of_forall (P := fun x : Bytes => x.length = 32) _ _ (P.sha.length_hash _)
      P.sha.length_nodeHash _ hleaves x hx
  · cases hpath

theorem length_ledgerRoot {ledger : TransparencyLog Bytes}
    (hleaves : ∀ x ∈ ledger.leaves, x.length = 32) : (ledger.root P.sha.log).length = 32 := by
  rw [TransparencyLog.root, mth_eq_root]
  exact Merkle.root_of_forall (P := fun x : Bytes => x.length = 32) _ _ (P.sha.length_hash _)
    P.sha.length_nodeHash hleaves

theorem checkInclusion_path {ledger : TransparencyLog Bytes} {index : Nat} {leaf : Bytes}
    {path : List Bytes} (hleaves : ∀ x ∈ ledger.leaves, x.length = 32)
    (hleaf : ledger.leafAt index = some leaf)
    (hpath : ledger.inclusionPath P.sha.log index = some path) :
    Sdk.checkInclusion P.sha D leaf (some (.num index)) (some (.num ledger.size))
      (some (encodeHashes path)) (some (.str (hexEncode (ledger.root P.sha.log)))) = some true := by
  have hi : index < ledger.size := (List.getElem?_eq_some_iff.mp hleaf).1
  have hwalk := Log.inclusionPath_walk P.sha.log ledger hleaf
  have hincl : path = inclusion P.sha.log ledger.leaves index := by
    rw [TransparencyLog.inclusionPath, ← TransparencyLog.size, if_pos hi] at hpath
    exact (Option.some.inj hpath).symm
  rw [← hincl] at hwalk
  have hverify := (Sdk.verifyInclusion_iff P.sha.log hexToBytes).mpr ⟨hi, path,
    ledger.root P.sha.log,
    Sdk.mapM_hexToBytes (fun x hx => ne_nil_of_length (length_inclusion hleaves hpath x hx)),
    Sdk.hexToBytes_hexEncode (ne_nil_of_length (length_ledgerRoot hleaves)), hwalk⟩
  simp only [Sdk.checkInclusion]
  rw [if_neg (by omega)]
  simp only [Platform.encodeHashes_eq, mapM_asString, Option.bind_eq_bind, Option.bind_some]
  exact hverify

theorem entryBytesOf_proof (h : Consistent P s) {session : Session} (hs : session ∈ s.sessions)
    {proof : SignedProof} (hstage : session.stage.proof? = some proof) :
    entryBytesOf (some proof.toJson) = entryBytes proof :=
  encodeCanonical_plain (SignedProof.plain (h.wellFormed
    ((h.proofs _).mpr ⟨session, hs, proof, hstage, rfl⟩)))

/-- In every reachable state, the proof and the receipt of every answer are accepted. -/
theorem answer_verifies (hD : Reads P D s) (h : Consistent P s) {session : Session}
    (hs : session ∈ s.sessions) {proof : SignedProof} {response : Json}
    (hdone : session.stage = .done proof response) :
    verifyReceipt P.sha D (response.get? "proof") (response.get? "receipt")
      (some (.str (hexEncode P.proofPk))) = some true := by
  obtain ⟨ledger, index, now, totalUs, receipt, hprefix, hleaf, hm, hr, rfl⟩ :=
    h.answers session hs proof response hdone
  rw [Platform.response_get?_proof, Platform.response_get?_receipt]
  have hstage : session.stage.proof? = some proof := by rw [hdone]; rfl
  have hsigned : .proof proof.statement ∈ s.signed :=
    (h.proofs _).mpr ⟨session, hs, proof, hstage, rfl⟩
  have hproof : verifyProof D (some proof.toJson) (some (.str (hexEncode P.proofPk))) =
      some true := by
    obtain ⟨_, _, _, _, rfl⟩ := h.sessions session hs proof hstage
    exact verifyProof_signProof hD h hsigned
  have hleaves : ∀ x ∈ ledger.leaves, x.length = 32 := by
    intro x hx
    have hx' := hprefix.subset hx
    rw [h.leaves] at hx'
    obtain ⟨e, _, rfl⟩ := List.mem_map.mp hx'
    exact P.sha.length_leafHash _
  simp only [Platform.inclusionAnswer, Option.bind_eq_bind, Option.bind_eq_some_iff, hleaf,
    Option.some.injEq, exists_eq_left', Option.pure_def] at hr
  obtain ⟨path, hpath, rfl⟩ := hr
  rw [Sdk.verifyReceipt_iff, entryBytesOf_proof h hs hstage]
  exact ⟨hproof, _, _, _, _, _, _, prop_object (by simp) rfl, verifyCheckpoint_signCheckpoint hD hm,
    prop_object (by simp) rfl, (toLower_hexEncode _).symm, prop_object (by simp) rfl,
    prop_object (by simp) rfl, prop_object (by simp) rfl, prop_object (by simp) rfl,
    checkInclusion_path hleaves hleaf hpath⟩

theorem answer_plain (h : Consistent P s) {session : Session} (hs : session ∈ s.sessions)
    {proof : SignedProof} {response : Json} (hdone : session.stage = .done proof response) :
    Plain response := by
  obtain ⟨_, _, _, totalUs, _, _, _, _, hr, rfl⟩ := h.answers session hs proof response hdone
  refine Platform.response_plain totalUs (h.wellFormed ?_) (Platform.inclusionAnswer_plain hr)
  exact (h.proofs _).mpr ⟨session, hs, proof, by rw [hdone]; rfl, rfl⟩

/-! ## The sample platforms -/

theorem sample_reads (requests : List InferenceRequest) (s : State) :
    Reads (samplePlatform requests) (Sdk.samplePlatform (s.signed.map Message.bytes)) s := by
  constructor
  · exact hexDecode_hexEncode
  · exact hexDecode_hexEncode
  · exact hexDecode_hexEncode
  · intro m hm
    have hc : (s.signed.map Message.bytes).contains m.bytes = true := by
      rw [List.contains_iff_mem]
      exact List.mem_map_of_mem hm
    show some (m.bytes == m.bytes && _) = some true
    rw [hc, beq_self_eq_true, Bool.and_self]

theorem sample_unforgeable (requests : List InferenceRequest) (s : State) :
    Unforgeable (samplePlatform requests) (Sdk.samplePlatform (s.signed.map Message.bytes)) s := by
  intro signature message h
  have hc := (Bool.and_eq_true _ _ ▸ Option.some.inj h).2
  rw [List.contains_iff_mem] at hc
  exact List.mem_map.mp hc

end Audit
end Pzdr
