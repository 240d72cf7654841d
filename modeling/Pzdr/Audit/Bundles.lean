import Pzdr.Audit.Bundle
import Pzdr.Log.Reference

/-!
# Audit.Bundles

Bundles that pass `verify-bundle`. A bundle that presents a log (`Presents`: its checkpoint is the
signed head, its inclusion and consistency proofs are those of the log, and every listed proof stands
the checks on its own) passes. So does every bundle about the enclave's ledger, at any time of any
run (`ledger_passes`).
-/

namespace Pzdr
namespace Audit

open Log
open Tools (Bundle inclusionItem consistencyItem dictGet truthy fromhexOf iterate asInt)
open Tools.Platform (failIf)

/-- The proof stands the checks that do not look at the log. -/
structure ProofPasses (T : Tools.Platform) (b : Bundle) (proof : Json) : Prop where
  signature : ∃ msg, T.checkProofSignature proof (.str b.keyHex) = some (true, msg)
  statement : ∃ stmt errorCode, proof.get? "statement" = some stmt ∧
    T.checkStatementInvariants stmt = some [] ∧ stmt.get? "error_code" = some errorCode
  policy : T.checkPolicy proof b.policy = some []
  attestation : Tools.Platform.checkAttestationBinding b.attestation proof (.str b.measurement)
    (.str b.keyHex) = some []

/-- The bundle is about the log with these entries. -/
structure Presents (T : Tools.Platform) (b : Bundle) (entries : List Bytes) : Prop where
  key : b.keyHex ≠ ""
  size : b.checkpoint.get? "size" = some (.num entries.length)
  root : b.checkpoint.get? "root_hex" = some (.str (hexEncode (headOf T.sha entries)))
  signature : T.checkCheckpointSignature b.checkpoint (.str b.keyHex) = some true
  inclusions : ∀ item ∈ b.inclusions, ∃ i path proof,
    entries[i]? = some (Tools.canonicalJson proof) ∧
    (Tools.TransparencyLog.ofEntries T.sha.log entries).inclusion T.sha.log i = some path ∧
    item = inclusionItem i (T.sha.log.leafHash (Tools.canonicalJson proof)) path proof ∧
    ProofPasses T b proof
  consistency : ∀ t ∈ b.consistency, ∃ m proof, 0 < m ∧ m ≤ entries.length ∧
    (Tools.TransparencyLog.ofEntries T.sha.log entries).consistency T.sha.log m = some proof ∧
    t = consistencyItem m (hexEncode (headOf T.sha (entries.take m))) entries.length
      (hexEncode (headOf T.sha entries)) proof

/-! ## A bundle that presents a log -/

section Presented

variable {T : Tools.Platform} {b : Bundle} {entries : List Bytes}

/-- The reference log's inclusion proof of an entry is accepted. -/
theorem inclusion_accepted {i : Nat} {entry : Bytes} {path : List String}
    (hentry : entries[i]? = some entry)
    (hpath : (Tools.TransparencyLog.ofEntries T.sha.log entries).inclusion T.sha.log i = some path) :
    ∃ hashes, path = hashes.map hexEncode ∧
      Tools.verifyInclusion T.sha.log (T.sha.log.leafHash entry) i entries.length hashes
        (headOf T.sha entries) = true := by
  obtain ⟨hi, _⟩ := List.getElem?_eq_some_iff.mp hentry
  obtain ⟨hashes, hincl, hpath'⟩ := inclusion_agrees T.sha.log entries hi
  rw [hpath, Option.some.injEq] at hpath'
  refine ⟨hashes, hpath', (Tools.verifyInclusion_iff _).mpr ⟨hi, ?_⟩⟩
  have hleaf : (Enclave.TransparencyLog.ofEntries T.sha.log entries).leafAt i =
      some (T.sha.log.leafHash entry) := by
    rw [Enclave.TransparencyLog.leafAt, Enclave.TransparencyLog.ofEntries_leaves,
      List.getElem?_map, hentry, Option.map_some]
  have hwalk := inclusionPath_walk T.sha.log _ hleaf
  rw [Enclave.TransparencyLog.inclusionPath, Enclave.TransparencyLog.ofEntries_leaves,
    List.length_map, if_pos hi, Option.some.injEq] at hincl
  rw [Enclave.TransparencyLog.ofEntries_leaves, hincl, Enclave.TransparencyLog.size,
    Enclave.TransparencyLog.ofEntries_leaves, List.length_map, Enclave.TransparencyLog.root,
    Enclave.TransparencyLog.ofEntries_leaves, Enclave.mth_eq_root] at hwalk
  exact hwalk

/-- Its consistency proof from an earlier size is accepted. -/
theorem consistency_accepted {m : Nat} {proof : List String} (hpos : 0 < m)
    (hm : m ≤ entries.length)
    (hproof : (Tools.TransparencyLog.ofEntries T.sha.log entries).consistency T.sha.log m =
      some proof) :
    ∃ hashes, proof = hashes.map hexEncode ∧
      Tools.verifyConsistency T.sha.log m (headOf T.sha (entries.take m)) entries.length
        (headOf T.sha entries) hashes = some true := by
  obtain ⟨hashes, hpath, hproof'⟩ := consistency_agrees T.sha.log entries hpos hm
  rw [hproof, Option.some.injEq] at hproof'
  refine ⟨hashes, hproof', (tools_verifyConsistency_iff _).mpr ?_⟩
  have hsize : (Enclave.TransparencyLog.ofEntries T.sha.log entries).size = entries.length := by
    rw [Enclave.TransparencyLog.size, Enclave.TransparencyLog.ofEntries_leaves, List.length_map]
  obtain ⟨r, p, hr, hp, haccepts⟩ := consistencyPath_accepts T.sha.log
    (Enclave.TransparencyLog.ofEntries T.sha.log entries) (hm.trans_eq hsize.symm)
  rw [hpath, Option.some.injEq] at hp
  subst hp
  rw [Enclave.TransparencyLog.rootAt, Enclave.TransparencyLog.ofEntries_leaves, List.length_map,
    if_pos hm, Option.some.injEq, Enclave.mth_eq_root, ← List.map_take] at hr
  rw [hsize, Enclave.TransparencyLog.root, Enclave.TransparencyLog.ofEntries_leaves,
    Enclave.mth_eq_root, ← hr] at haccepts
  exact haccepts

theorem truthy_keyHex (h : b.keyHex ≠ "") : truthy (.str b.keyHex) = true := by
  simp [truthy, h]

theorem Presents.inclusionOk (h : Presents T b entries) {item : Json} (hitem : item ∈ b.inclusions) :
    T.inclusionOk b.checkpoint (headOf T.sha entries) (.str b.keyHex) item = some true := by
  obtain ⟨i, path, proof, hentry, hpath, rfl, hproof⟩ := h.inclusions item hitem
  obtain ⟨hashes, rfl, haccepted⟩ := inclusion_accepted hentry hpath
  obtain ⟨msg, hsignature⟩ := hproof.signature
  obtain ⟨stmt, errorCode, hstmt, _, herror⟩ := hproof.statement
  have hhashes := iterate_hashes hashes
  have hprove : (inclusionItem i (T.sha.log.leafHash (Tools.canonicalJson proof))
      (hashes.map hexEncode) proof).get? "proof" = some proof := rfl
  have hleaf : (inclusionItem i (T.sha.log.leafHash (Tools.canonicalJson proof))
      (hashes.map hexEncode) proof).get? "leaf_hash_hex" =
        some (.str (hexEncode (T.sha.log.leafHash (Tools.canonicalJson proof)))) := rfl
  have hindex : (inclusionItem i (T.sha.log.leafHash (Tools.canonicalJson proof))
      (hashes.map hexEncode) proof).get? "index" = some (.num i) := rfl
  have hpaths : (inclusionItem i (T.sha.log.leafHash (Tools.canonicalJson proof))
      (hashes.map hexEncode) proof).get? "audit_path" =
        some (.arr ((hashes.map hexEncode).map .str)) := rfl
  rw [iterate, Option.bind_some] at hhashes
  simp only [Tools.Platform.inclusionOk, hprove, hleaf, hindex, hpaths, Option.bind_eq_bind,
    Option.bind_some, Tools.Platform.entryBytes, Option.any_some, Tools.pyEq_str, beq_self_eq_true,
    Bool.not_true, Bool.false_eq_true, if_false, iterate, hhashes, asInt, h.size,
    truthy_keyHex h.key, if_true, hsignature, Option.map_some, hstmt, herror, haccepted,
    Option.pure_def, Bool.and_true]

theorem Presents.consistencyOk (h : Presents T b entries) {t : Json} (ht : t ∈ b.consistency) :
    T.consistencyOk t = some true := by
  obtain ⟨m, proof, hpos, hm, hproof, rfl⟩ := h.consistency t ht
  obtain ⟨hashes, rfl, haccepted⟩ := consistency_accepted hpos hm hproof
  rw [Tools.Platform.consistencyOk, readTransition_consistencyItem]
  exact haccepted

/-- A bundle that presents a log passes. -/
theorem Presents.passes (h : Presents T b entries) : T.cmdVerifyBundle b.toJson = some true := by
  have hcp : b.toJson.get? "checkpoint" = some b.checkpoint := rfl
  have hkey : dictGet b.toJson "proof_verifier_key_hex" = some (.str b.keyHex) := rfl
  have hinclusions : b.toJson.get? "inclusions" = some (.arr b.inclusions) := rfl
  have hconsistency : b.toJson.get? "consistency" = some (.arr b.consistency) := rfl
  have hpolicy : b.toJson.get? "policy" = some b.policy := rfl
  have hattestation : b.toJson.get? "attestation" = some b.attestation := rfl
  have hpcr0 : dictGet b.toJson "expected_pcr0" = some (.str b.measurement) := rfl
  have hproof : ∀ item ∈ b.inclusions, ∃ proof, item.get? "proof" = some proof ∧
      ProofPasses T b proof := by
    intro item hitem
    obtain ⟨i, path, proof, _, _, rfl, hproof⟩ := h.inclusions item hitem
    exact ⟨proof, rfl, hproof⟩
  refine Tools.Platform.cmdVerifyBundle_of hkey hinclusions rfl ?_ ?_ ?_ ?_ ?_
  · refine Tools.Platform.allOk_iff.mpr ⟨rfl, ?_⟩
    intro item hitem
    obtain ⟨proof, hget, hproof⟩ := hproof item hitem
    obtain ⟨msg, hsignature⟩ := hproof.signature
    obtain ⟨stmt, _, hstmt, hinvariants, _⟩ := hproof.statement
    simp [Tools.Platform.proofOk, hget, hsignature, hstmt, hinvariants]
  · have hor : Tools.pyOr (.str b.keyHex) (.str b.keyHex) = .str b.keyHex := by
      rw [Tools.pyOr, if_pos (truthy_keyHex h.key)]
    rw [Tools.Platform.cmdVerifyInclusion_eq hcp h.root (fromhexOf_hexEncode _) hkey hinclusions rfl,
      hor, h.signature]
    exact Tools.Platform.allOk_iff.mpr ⟨rfl, fun item hitem => h.inclusionOk hitem⟩
  · rw [Tools.Platform.cmdVerifyConsistency, hconsistency]
    exact Tools.Platform.allOk_iff.mpr ⟨rfl, fun t ht => h.consistencyOk ht⟩
  · rw [Tools.Platform.policyOk, hpolicy]
    refine Tools.Platform.allOk_iff.mpr ⟨rfl, ?_⟩
    intro item hitem
    obtain ⟨proof, hget, hproof⟩ := hproof item hitem
    simp [hget, hproof.policy]
  · rw [Tools.Platform.attestationOk, hattestation, hpcr0]
    refine Tools.Platform.allOk_iff.mpr ⟨rfl, ?_⟩
    intro item hitem
    obtain ⟨proof, hget, hproof⟩ := hproof item hitem
    simp [hget, hproof.attestation]

end Presented

theorem exists_mapM {α β : Type*} {f : α → Option β} : ∀ {xs : List α}, (∀ x ∈ xs, ∃ y, f x = some y) →
    ∃ ys, xs.mapM f = some ys ∧ ys.length = xs.length ∧ ∀ y ∈ ys, ∃ x ∈ xs, f x = some y := by
  intro xs
  induction xs with
  | nil =>
    intro _
    exact ⟨[], rfl, rfl, by simp⟩
  | cons x xs ih =>
    intro h
    rw [List.forall_mem_cons] at h
    obtain ⟨y, hy⟩ := h.1
    obtain ⟨ys, hys, hlen, hmem⟩ := ih h.2
    refine ⟨y :: ys, by simp [hy, hys], by simp [hlen], ?_⟩
    rw [List.forall_mem_cons]
    refine ⟨⟨x, List.mem_cons_self, hy⟩, ?_⟩
    intro z hz
    obtain ⟨w, hw, hwz⟩ := hmem z hz
    exact ⟨w, List.mem_cons_of_mem _ hw, hwz⟩

/-! ## The enclave's ledger -/

section Ledger

open Enclave (AttestationOut Event Platform SignedProof State)
open Enclave.Platform (entryBytes)

/-- The inclusion proof of an entry, from the enclave's log with these entries. -/
def ledgerItem (P : Platform) (entries : List SignedProof) (i : Nat) : Option Json := do
  let proof ← entries[i]?
  let path ← (Enclave.TransparencyLog.ofEntries P.sha.log
    (entries.map entryBytes)).inclusionPath P.sha.log i
  return inclusionItem i (P.sha.log.leafHash (entryBytes proof)) (path.map hexEncode) proof.toJson

/-- The consistency proof from an earlier size. -/
def ledgerTransition (P : Platform) (entries : List SignedProof) (m : Nat) : Option Json := do
  let log := Enclave.TransparencyLog.ofEntries P.sha.log (entries.map entryBytes)
  let fromRoot ← log.rootAt P.sha.log m
  let path ← log.consistencyPath P.sha.log m
  return consistencyItem m (hexEncode fromRoot) log.size (hexEncode (log.root P.sha.log))
    (path.map hexEncode)

/-- What an auditor puts together about the ledger with these entries. -/
def ledgerBundle (P : Platform) (att : AttestationOut) (entries : List SignedProof) (now : Nat)
    (indices sizes : List Nat) : Option Bundle := do
  let log := Enclave.TransparencyLog.ofEntries P.sha.log (entries.map entryBytes)
  return {
    keyHex := hexEncode P.proofPk
    measurement := P.expectedPcr0
    attestation := att.toJson
    policy := Tools.defaultPolicyDocument
    checkpoint := (P.signCheckpoint log.size (log.root P.sha.log) now).toJson
    inclusions := ← indices.mapM (ledgerItem P entries)
    consistency := ← sizes.mapM (ledgerTransition P entries) }

variable {P : Platform} {T : Tools.Platform} {s : State} {entries : List SignedProof}

theorem root_enclave (es : List Bytes) :
    (Enclave.TransparencyLog.ofEntries P.sha.log es).root P.sha.log = headOf P.sha es := by
  rw [Enclave.TransparencyLog.root, Enclave.TransparencyLog.ofEntries_leaves, Enclave.mth_eq_root]
  rfl

theorem size_enclave (es : List Bytes) :
    (Enclave.TransparencyLog.ofEntries P.sha.log es).size = es.length := by
  rw [Enclave.TransparencyLog.size, Enclave.TransparencyLog.ofEntries_leaves, List.length_map]

theorem rootAt_enclave {es : List Bytes} {m : Nat} (hm : m ≤ es.length) :
    (Enclave.TransparencyLog.ofEntries P.sha.log es).rootAt P.sha.log m =
      some (headOf P.sha (es.take m)) := by
  rw [Enclave.TransparencyLog.rootAt, Enclave.TransparencyLog.ofEntries_leaves, List.length_map,
    if_pos hm, Enclave.mth_eq_root, ← List.map_take]
  rfl

/-- Every entry of the ledger stands the checks that do not look at the log. -/
theorem proofPasses_entry (h : Enclave.Consistent P s) (hT : ToolReads P T s) {b : Bundle}
    (hkey : b.keyHex = hexEncode P.proofPk) (hmeasurement : b.measurement = P.expectedPcr0)
    {att : AttestationOut} (hatt : Names P att.toJson) (hattestation : b.attestation = att.toJson)
    (hpolicy : b.policy = Tools.defaultPolicyDocument) {proof : SignedProof}
    (hproof : proof ∈ s.entries) : ProofPasses T b proof.toJson := by
  obtain ⟨session, hs, response, hdone⟩ := h.entries proof hproof
  have hstage : session.stage.proof? = some proof := by rw [hdone]; rfl
  have hsigned : .proof proof.statement ∈ s.signed :=
    (h.proofs _).mpr ⟨session, hs, proof, hstage, rfl⟩
  obtain ⟨counter, taken, proofId, sessionId, rfl⟩ := h.sessions session hs proof hstage
  constructor
  · rw [hkey]
    exact ⟨_, checkProofSignature_signProof hT hsigned⟩
  · exact ⟨_, _, signProof_statement _, checkStatementInvariants_statement T _ _ _ _ _ _,
      (Enclave.object_get? (Enclave.ProofStatement.nodup_fields _) _).trans rfl⟩
  · rw [hpolicy]
    exact checkPolicy_statement hT.sha _ _ _ _ _ _
  · rw [hattestation, hmeasurement, hkey]
    exact checkAttestationBinding_names hatt (names_statement _ _ _ _ _ _) (.inr rfl)

theorem exists_ledgerItem {i : Nat} (hi : i < entries.length) :
    ∃ proof path, entries[i]? = some proof ∧
      (Tools.TransparencyLog.ofEntries P.sha.log (entries.map entryBytes)).inclusion P.sha.log i =
        some path ∧
      ledgerItem P entries i =
        some (inclusionItem i (P.sha.log.leafHash (entryBytes proof)) path proof.toJson) := by
  obtain ⟨proof, hproof⟩ : ∃ proof, entries[i]? = some proof :=
    ⟨_, List.getElem?_eq_getElem hi⟩
  obtain ⟨hashes, hpath, hpath'⟩ := inclusion_agrees P.sha.log (entries.map entryBytes)
    (by rwa [List.length_map])
  refine ⟨proof, _, hproof, hpath', ?_⟩
  rw [ledgerItem, hproof, Option.bind_eq_bind, Option.bind_some, hpath]
  rfl

theorem exists_ledgerTransition {m : Nat} (hpos : 0 < m) (hm : m ≤ entries.length) :
    ∃ proof, (Tools.TransparencyLog.ofEntries P.sha.log (entries.map entryBytes)).consistency
        P.sha.log m = some proof ∧
      ledgerTransition P entries m = some (consistencyItem m
        (hexEncode (headOf P.sha ((entries.map entryBytes).take m))) entries.length
        (hexEncode (headOf P.sha (entries.map entryBytes))) proof) := by
  have hlen : m ≤ (entries.map entryBytes).length := by rwa [List.length_map]
  obtain ⟨hashes, hpath, hpath'⟩ := consistency_agrees P.sha.log (entries.map entryBytes) hpos hlen
  refine ⟨_, hpath', ?_⟩
  rw [ledgerTransition, rootAt_enclave hlen, Option.bind_eq_bind, Option.bind_some, hpath,
    Option.bind_eq_bind, Option.bind_some, size_enclave, root_enclave, List.length_map]
  rfl

/-- The bundle about the ledger as it was when a checkpoint was signed. -/
theorem exists_ledgerBundle (h : Enclave.Consistent P s) (hT : ToolReads P T s)
    {att : AttestationOut} (hatt : Names P att.toJson) {origin : Enclave.Origin}
    {c : Enclave.CheckpointStatement} (hc : .checkpoint origin c ∈ s.signed)
    (indices sizes : List Nat) (hindices : ∀ i ∈ indices, i < c.size)
    (hsizes : ∀ m ∈ sizes, 0 < m ∧ m ≤ c.size) :
    ∃ b, ledgerBundle P att (s.entries.take c.size) c.timestamp indices sizes = some b ∧
      b.inclusions.length = indices.length ∧ b.consistency.length = sizes.length ∧
      Presents T b ((s.entries.take c.size).map entryBytes) := by
  obtain ⟨root, hhead, hhex⟩ := h.heads origin c hc
  obtain ⟨hle, hroot⟩ := rootAt_entries h hhead
  have hlen : (s.entries.take c.size).length = c.size := by
    rw [List.length_take, Nat.min_eq_left hle]
  have hsigned : .checkpoint origin (Enclave.Platform.checkpointStatement c.size root c.timestamp) ∈
      s.signed := by
    rw [Enclave.Platform.checkpointStatement, ← hhex]
    exact hc
  obtain ⟨inclusions, hinclusions, hcount, hitem⟩ :=
    @exists_mapM _ _ (ledgerItem P (s.entries.take c.size)) indices (by
      intro i hi
      obtain ⟨_, _, _, _, hitem⟩ := exists_ledgerItem (P := P) (by rw [hlen]; exact hindices i hi)
      exact ⟨_, hitem⟩)
  obtain ⟨consistency, hconsistency, hcount', htransition⟩ :=
    @exists_mapM _ _ (ledgerTransition P (s.entries.take c.size)) sizes (by
      intro m hm
      obtain ⟨hpos, hmle⟩ := hsizes m hm
      obtain ⟨_, _, htransition⟩ := exists_ledgerTransition (P := P) hpos (by rw [hlen]; exact hmle)
      exact ⟨_, htransition⟩)
  refine ⟨_, by rw [ledgerBundle, hinclusions, Option.bind_eq_bind, Option.bind_some, hconsistency]
                rfl, hcount, hcount', ?_⟩
  refine ⟨hexEncode_ne_empty hT.key, ?_, ?_, ?_, ?_, ?_⟩
  · exact (signCheckpoint_get? rfl).trans (by rw [size_enclave])
  · rw [hT.sha]
    exact (signCheckpoint_get? rfl).trans (by rw [root_enclave])
  · rw [size_enclave, root_enclave, List.length_map, hlen]
    rw [hroot] at hsigned
    exact checkCheckpointSignature_signCheckpoint hT hsigned
  · intro item hmem
    obtain ⟨i, hi, hsome⟩ := hitem item hmem
    obtain ⟨proof, path, hproof, hpath, heq⟩ :=
      exists_ledgerItem (P := P) (by rw [hlen]; exact hindices i hi)
    obtain rfl := Option.some.inj (heq.symm.trans hsome)
    refine ⟨i, path, proof.toJson, ?_, by rw [hT.sha, hpath], by rw [hT.sha]; rfl, ?_⟩
    · rw [List.getElem?_map, hproof]
      rfl
    · exact proofPasses_entry h hT rfl rfl hatt rfl rfl
        (List.mem_of_mem_take (List.mem_of_getElem? hproof))
  · intro t ht
    obtain ⟨m, hm, hsome⟩ := htransition t ht
    obtain ⟨hpos, hmle⟩ := hsizes m hm
    obtain ⟨proof, hproof, heq⟩ :=
      exists_ledgerTransition (P := P) hpos (by rw [hlen]; exact hmle)
    obtain rfl := Option.some.inj (heq.symm.trans hsome)
    refine ⟨m, proof, hpos, ?_, by rw [hT.sha, hproof], ?_⟩
    · rw [List.length_map, hlen]
      exact hmle
    · rw [hT.sha, List.length_map]

end Ledger

open Enclave in
theorem ledger_passes (P : Platform) (T : Tools.Platform) {es : List Event} {s : State}
    (hrun : Run P.step State.boot es s) (hT : ToolReads P T s)
    {generateAttestation : Bytes → Bytes → Option Bytes} {published : Nat} {att : AttestationOut}
    (hatt : P.publishAttestation generateAttestation published = some att) {origin : Origin}
    {c : CheckpointStatement} (hc : .checkpoint origin c ∈ s.signed) (indices sizes : List Nat)
    (hindices : ∀ i ∈ indices, i < c.size) (hsizes : ∀ m ∈ sizes, 0 < m ∧ m ≤ c.size) :
    ∃ b, ledgerBundle P att (s.entries.take c.size) c.timestamp indices sizes = some b ∧
      b.inclusions.length = indices.length ∧ b.consistency.length = sizes.length ∧
      T.cmdVerifyBundle b.toJson = some true := by
  obtain ⟨b, hb, hinclusions, hconsistency, hpresents⟩ :=
    exists_ledgerBundle (reachable_consistent hrun) hT (names_publishAttestation hatt) hc indices
      sizes hindices hsizes
  exact ⟨b, hb, hinclusions, hconsistency, hpresents.passes⟩

theorem served_signed (P : Enclave.Platform) : ∃ s origin c,
    Run P.step Enclave.State.boot (servedEvents []) s ∧ .checkpoint origin c ∈ s.signed ∧
    c.size = 2 :=
  ⟨_, _, _, Run.of_foldlM rfl, List.mem_of_getElem? (i := 3) rfl, rfl⟩

/-- The second entry's path and the proof from the first size have a hash in them. -/
theorem ledger_passes_served : ∃ s att, ∃ c : Enclave.CheckpointStatement, ∃ b,
    Run (Enclave.samplePlatform []).step Enclave.State.boot (servedEvents []) s ∧
    ledgerBundle (Enclave.samplePlatform []) att (s.entries.take c.size) c.timestamp [0, 1] [1, 2] =
      some b ∧ b.inclusions.length = 2 ∧ b.consistency.length = 2 ∧
    (sampleTool (s.signed.map Enclave.Message.bytes)).cmdVerifyBundle b.toJson = some true := by
  obtain ⟨s, origin, c, hrun, hc, hsize⟩ := served_signed (Enclave.samplePlatform [])
  obtain ⟨att, hatt⟩ : ∃ att, (Enclave.samplePlatform []).publishAttestation
      (fun userData _ => some userData) 1 = some att := ⟨_, rfl⟩
  obtain ⟨b, hb, hinclusions, hconsistency, hpass⟩ :=
    ledger_passes (Enclave.samplePlatform []) _ hrun (sample_toolReads s) hatt hc [0, 1] [1, 2]
      (by simp [hsize]) (by simp [hsize])
  exact ⟨s, att, c, b, hrun, hb, hinclusions, hconsistency, hpass⟩

end Audit
end Pzdr
