import Pzdr.Audit.Receipt
import Pzdr.Audit.Reply
import Pzdr.Enclave.Attestation
import Pzdr.Tools.Verify

/-!
# Audit.Auditor

The enclave's own answers pass the checks of the auditor's tool, on success and on every failure
(`answer_audited`). The tool looks at the statement's contents, so the proof goes through the ways a
request can end: every code of a failure is a text that counts as true, and no failure carries a
result.
-/

namespace Pzdr
namespace Audit

open Enclave
open Platform (entryBytes encodeHashes)
open Tools (dictGet truthy fromhexOf iterate asInt)
open Tools.Platform (failIf)

/-- The tool's libraries read what those of the enclave have written. -/
structure ToolReads (P : Platform) (T : Tools.Platform) (s : State) : Prop where
  sha : T.sha = P.sha
  key : P.proofPk.length = 32
  b64decode : ∀ bs, T.b64decode (.str (P.base64 bs)) = some bs
  verify : ∃ ed25519, T.ed25519 = some ed25519 ∧
    ∀ m ∈ s.signed, ed25519 P.proofPk (P.sign m.bytes) m.bytes = true

variable {P : Platform} {T : Tools.Platform} {s : State}

theorem dictGet_object {fields : List (String × Json)} (h : (fields.map Prod.fst).Nodup)
    (key : String) : dictGet (object fields) key = some ((fields.lookup key).getD .null) := by
  rw [← object_get? h]
  rfl

/-- `v or {}` is `v` for an object that is not empty. -/
theorem pyOr_object {fields : List (String × Json)} (h : fields ≠ []) (w : Json) :
    Tools.pyOr (object fields) w = object fields := by
  have hne : Json.sortFields codePointLe fields ≠ [] := by
    intro hnil
    have := (Json.sortFields_perm codePointLe fields).length_eq
    rw [hnil] at this
    exact h (List.length_eq_zero_iff.mp this.symm)
  have : truthy (object fields) = true := by
    simp [object, truthy, hne]
  rw [Tools.pyOr, if_pos this]

theorem hexEncode_ne_empty {bs : Bytes} (h : bs.length = 32) : hexEncode bs ≠ "" := by
  intro hempty
  have := hexDecode_hexEncode bs
  rw [hempty] at this
  exact ne_nil_of_length h (Option.some.inj this).symm

theorem truthy_key (hT : ToolReads P T s) : truthy (.str (hexEncode P.proofPk)) = true := by
  simp [truthy, hexEncode_ne_empty hT.key]

/-! ## Signatures -/

theorem verify_signed (hT : ToolReads P T s) {m : Message} (hm : m ∈ s.signed) :
    T.verify (.str (hexEncode P.proofPk)) (P.sign m.bytes) m.bytes = true := by
  obtain ⟨ed25519, hed, hverify⟩ := hT.verify
  rw [Tools.Platform.verify, hed, fromhexOf, Tools.fromhex_hexEncode]
  exact hverify m hm

theorem isNone_ed25519 (hT : ToolReads P T s) : T.ed25519.isNone = false := by
  obtain ⟨ed25519, hed, _⟩ := hT.verify
  rw [hed]
  rfl

theorem signProof_get? (statement : ProofStatement) {key : String} {v : Json}
    (h : (P.signProof statement).fields.lookup key = some v) :
    (P.signProof statement).toJson.get? key = some v := by
  rw [SignedProof.toJson, object_get? (SignedProof.nodup_fields _), h]

theorem signProof_statement (statement : ProofStatement) :
    (P.signProof statement).toJson.get? "statement" = some statement.toJson :=
  signProof_get? statement rfl

theorem checkProofSignature_signProof (hT : ToolReads P T s) {statement : ProofStatement}
    (hm : .proof statement ∈ s.signed) :
    T.checkProofSignature (P.signProof statement).toJson (.str (hexEncode P.proofPk)) =
      some (true, Tools.Platform.signerMessage (.str (hexEncode P.proofPk))) := by
  rw [Tools.Platform.checkProofSignature, isNone_ed25519 hT, if_neg (by simp),
    truthy_key hT, if_neg (by simp), signProof_statement, signProof_get? statement rfl]
  simp only [Option.bind_eq_bind, Option.bind_some, Platform.signProof, hT.b64decode]
  exact if_pos (verify_signed hT hm)

theorem signCheckpoint_get? {size : Nat} {root : Bytes} {now : Nat} {key : String} {v : Json}
    (h : List.lookup key [("size", Json.num size), ("root_hex", .str (hexEncode root)),
      ("timestamp", .num now), ("checkpoint_signature_b64", .str (P.base64 (P.sign
        (canonicalJson (Platform.checkpointStatement size root now).toJson))))] = some v) :
    (P.signCheckpoint size root now).toJson.get? key = some v := by
  rw [← h]
  exact object_get? (by simp) key

/-- The tool writes the three values of a checkpoint as the enclave writes the statement. -/
theorem checkpointMsg_signCheckpoint (size : Nat) (root : Bytes) (now : Nat) :
    Tools.Platform.checkpointMsg (P.signCheckpoint size root now).toJson =
      some (canonicalJson (Platform.checkpointStatement size root now).toJson) := by
  rw [Tools.Platform.checkpointMsg, signCheckpoint_get? rfl, signCheckpoint_get? rfl,
    signCheckpoint_get? rfl, CheckpointStatement.toJson_eq]
  rfl

theorem checkCheckpointSignature_signCheckpoint (hT : ToolReads P T s) {origin : Origin}
    {size now : Nat} {root : Bytes}
    (hm : .checkpoint origin (Platform.checkpointStatement size root now) ∈ s.signed) :
    T.checkCheckpointSignature (P.signCheckpoint size root now).toJson
      (.str (hexEncode P.proofPk)) = some true := by
  have hin : Tools.pyIn "checkpoint_signature_b64" (P.signCheckpoint size root now).toJson =
      some true := Tools.pyIn_of_get? (signCheckpoint_get? rfl)
  rw [Tools.Platform.checkCheckpointSignature, isNone_ed25519 hT, truthy_key hT,
    if_neg (by simp), hin, signCheckpoint_get? rfl, checkpointMsg_signCheckpoint]
  simp only [Option.bind_eq_bind, Option.bind_some, hT.b64decode]
  exact congrArg some (verify_signed hT hm)

/-! ## The statement -/

theorem statement_dictGet (statement : ProofStatement) (key : String) :
    dictGet statement.toJson key = some ((statement.fields.lookup key).getD .null) :=
  dictGet_object statement.nodup_fields key

theorem checkStatementInvariants_of {statement : ProofStatement}
    (hversion : statement.proofVersion = 3)
    (h : (if statement.success then
        Tools.Platform.checkSuccess statement.toJson
          (Tools.pyOr statement.zeroizationReport (.obj []))
      else Tools.Platform.checkFailure statement.toJson) = some []) :
    T.checkStatementInvariants statement.toJson = some [] := by
  have hz : dictGet statement.toJson "zeroization_report" = some statement.zeroizationReport :=
    statement_dictGet statement _
  have hs : dictGet statement.toJson "success" = some (.bool statement.success) :=
    statement_dictGet statement _
  have hv : dictGet statement.toJson "proof_version" = some (.num (3 : Nat)) := by
    rw [← hversion]
    exact statement_dictGet statement _
  have hb : Tools.Platform.isTrue (.bool statement.success) = statement.success := by
    cases statement.success <;> rfl
  rw [Tools.Platform.checkStatementInvariants, hz, hs, hv]
  simp only [Option.bind_eq_bind, Option.bind_some, hb]
  simpa [failIf] using h

/-- No statement of a failure lacks a code or carries a result. -/
theorem checkFailure_statement {code commitment processor tenant : String} {inputWiped : Bool}
    {counter now : Nat} {proofId sessionId : Bytes} (hcode : code ≠ "") :
    Tools.Platform.checkFailure (P.statement (.failed code commitment processor inputWiped) tenant
      counter now proofId sessionId).toJson = some [] := by
  have hresult : dictGet (P.statement (.failed code commitment processor inputWiped) tenant counter
      now proofId sessionId).toJson "result_hash_hex" = some .null := statement_dictGet _ _
  have herror : dictGet (P.statement (.failed code commitment processor inputWiped) tenant counter
      now proofId sessionId).toJson "error_code" = some (.str code) := statement_dictGet _ _
  rw [Tools.Platform.checkFailure, hresult, herror]
  simp [failIf, truthy, hcode]

theorem checkSuccess_statement {commitment processor tenant : String} {upstreamResp : Json}
    {counter now : Nat} {proofId sessionId : Bytes} :
    Tools.Platform.checkSuccess (P.statement (.succeeded commitment processor upstreamResp) tenant
      counter now proofId sessionId).toJson
      (Tools.pyOr (Platform.zeroizationReport true true) (.obj [])) = some [] := by
  have hgovernance : dictGet (P.statement (.succeeded commitment processor upstreamResp) tenant
      counter now proofId sessionId).toJson "output_governance" =
      some (object [("retention_policy", .str "returned-only"), ("expires_at", .num now)]) :=
    statement_dictGet _ _
  have hresult : dictGet (P.statement (.succeeded commitment processor upstreamResp) tenant counter
      now proofId sessionId).toJson "result_hash_hex" =
      some (.str (hexEncode (P.sha.hash (toVec upstreamResp)))) := statement_dictGet _ _
  have hdecision : dictGet (P.statement (.succeeded commitment processor upstreamResp) tenant
      counter now proofId sessionId).toJson "policy_decision" =
      some (P.policyDecision true "allowed" tenant processor) := statement_dictGet _ _
  have hhash := hexEncode_ne_empty (P.sha.length_hash (toVec upstreamResp))
  rw [Tools.Platform.checkSuccess, hgovernance, hresult, hdecision, Platform.zeroizationReport,
    Platform.policyDecision]
  simp [Tools.Platform.checkBuffers, pyOr_object, dictGet_object, List.lookup, failIf, truthy, hhash]

theorem checkStatementInvariants_statement (T : Tools.Platform) (body : Bytes) (tenant : String)
    (counter now : Nat) (proofId sessionId : Bytes) :
    T.checkStatementInvariants
      (P.statement (P.decide body) tenant counter now proofId sessionId).toJson = some [] := by
  cases hd : P.decide body with
  | failed code commitment processor inputWiped =>
    have hcode : code ≠ "" := by
      rintro rfl
      simpa using Platform.decide_failed hd
    exact checkStatementInvariants_of rfl (checkFailure_statement hcode)
  | succeeded commitment processor upstreamResp =>
    exact checkStatementInvariants_of rfl checkSuccess_statement

/-! ## Policy and attestation -/

theorem policyHash_default (hsha : T.sha = P.sha) :
    T.policyHash Tools.defaultPolicyDocument = Policy.defaultV1.policyHash P.sha := by
  have hsources : Tools.ssnPattern.source = "\\b\\d\x7b3\x7d-\\d\x7b2\x7d-\\d\x7b4\x7d\\b" ∧
      Tools.panPattern.source = "\\b\\d\x7b16\x7d\\b" := by decide
  have hsorted : Policy.defaultV1.toJson.sortKeys codePointLe =
      Tools.defaultPolicyDocument.sortKeys codePointLe := by
    rw [Tools.defaultPolicyDocument, hsources.1, hsources.2]
    simp [Policy.toJson, Policy.defaultV1, object, Json.sortKeys_obj, Json.sortFields, codePointLe,
      Json.sortKeys, Json.sortKeysFields, Json.sortKeysAll]
  rw [Tools.Platform.policyHash, Policy.policyHash, hsha, Tools.canonicalJson, canonicalJson_eq,
    canonicalBytes, canonicalBytes, canonicalText, canonicalText, hsorted]

/-- A decision that allows exactly the successes passes the policy check. -/
theorem policyDecision_dictGet (P : Platform) (allow : Bool) (reason tenant processor : String) :
    dictGet (P.policyDecision allow reason tenant processor) "policy_hash" =
        some (.str (Policy.defaultV1.policyHash P.sha)) ∧
      dictGet (P.policyDecision allow reason tenant processor) "allow" = some (.bool allow) :=
  ⟨dictGet_object (by simp) _, dictGet_object (by simp) _⟩

theorem checkPolicy_of (hsha : T.sha = P.sha) {statement : ProofStatement}
    {reason tenant processor : String}
    (h : statement.policyDecision = P.policyDecision statement.success reason tenant processor) :
    T.checkPolicy (P.signProof statement).toJson Tools.defaultPolicyDocument = some [] := by
  have hdecision : dictGet statement.toJson "policy_decision" =
      some (P.policyDecision statement.success reason tenant processor) := by
    rw [← h]
    exact statement_dictGet statement _
  have hs : dictGet statement.toJson "success" = some (.bool statement.success) :=
    statement_dictGet statement _
  have hdecided : Tools.pyOr (P.policyDecision statement.success reason tenant processor) (.obj []) =
      P.policyDecision statement.success reason tenant processor := pyOr_object (by simp) _
  obtain ⟨hhash, hallow⟩ := policyDecision_dictGet P statement.success reason tenant processor
  rw [Tools.Platform.checkPolicy, signProof_statement]
  simp only [Option.bind_eq_bind, Option.bind_some, hdecision, hdecided, hhash, hs, hallow,
    policyHash_default hsha]
  cases statement.success <;> simp [failIf, truthy, Tools.Platform.isTrue]

theorem checkPolicy_statement (hsha : T.sha = P.sha) (outcome : Outcome) (tenant : String)
    (counter now : Nat) (proofId sessionId : Bytes) :
    T.checkPolicy (P.signProof (P.statement outcome tenant counter now proofId sessionId)).toJson
      Tools.defaultPolicyDocument = some [] := by
  cases outcome with
  | failed code commitment processor inputWiped => exact checkPolicy_of hsha rfl
  | succeeded commitment processor upstreamResp => exact checkPolicy_of hsha rfl

/-- The object names the enclave's measurement and its two keys. -/
structure Names (P : Platform) (v : Json) : Prop where
  measurement : dictGet v "measurement" = some (.str P.expectedPcr0)
  channelPublicKey : dictGet v "channel_public_key_hex" = some (.str (hexEncode P.channelPk))
  proofVerifierKey : dictGet v "proof_verifier_key_hex" = some (.str (hexEncode P.proofPk))

theorem names_statement (outcome : Outcome) (tenant : String) (counter now : Nat)
    (proofId sessionId : Bytes) :
    Names P (P.statement outcome tenant counter now proofId sessionId).toJson := by
  cases outcome <;>
    exact ⟨statement_dictGet _ _, statement_dictGet _ _, statement_dictGet _ _⟩

theorem names_publishAttestation {generateAttestation : Bytes → Bytes → Option Bytes} {now : Nat}
    {att : AttestationOut} (h : P.publishAttestation generateAttestation now = some att) :
    Names P att.toJson := by
  obtain ⟨doc, _, hatt⟩ := Option.bind_eq_some_iff.mp h
  cases hatt
  exact ⟨rfl, rfl, rfl⟩

theorem checkAttestationBinding_names {att : Json} {statement : ProofStatement}
    (hatt : Names P att) (hstatement : Names P statement.toJson) {expectedPcr0 : Json}
    (hpcr0 : expectedPcr0 = .null ∨ expectedPcr0 = .str P.expectedPcr0) :
    Tools.Platform.checkAttestationBinding att (P.signProof statement).toJson expectedPcr0
      (.str (hexEncode P.proofPk)) = some [] := by
  rw [Tools.Platform.checkAttestationBinding, signProof_statement]
  simp only [Option.bind_eq_bind, Option.bind_some, hatt.measurement, hatt.channelPublicKey,
    hatt.proofVerifierKey, hstatement.measurement, hstatement.channelPublicKey,
    hstatement.proofVerifierKey]
  rcases hpcr0 with rfl | rfl <;> simp [failIf, truthy]

/-! ## Receipts -/

theorem mapM_fromhexOf (hashes : List Bytes) :
    (hashes.map (fun h => Json.str (hexEncode h))).mapM fromhexOf = some hashes := by
  induction hashes with
  | nil => rfl
  | cons h hashes ih =>
    rw [List.map_cons, List.mapM_cons, ih, fromhexOf, Tools.fromhex_hexEncode]
    rfl

/-- The receipt's values are integers and hexadecimal texts, and `verify_inclusion` accepts them. -/
def InclusionAccepted (sha : Sha256) (proof receipt cp : Json) : Prop :=
  ∃ index size hashes path rootHex root,
    receipt.get? "leaf_hash_hex" =
      some (.str (hexEncode (sha.log.leafHash (Tools.Platform.entryBytes proof)))) ∧
    (receipt.get? "index").bind asInt = some index ∧ (cp.get? "size").bind asInt = some size ∧
    (receipt.get? "audit_path").bind iterate = some hashes ∧ hashes.mapM fromhexOf = some path ∧
    cp.get? "root_hex" = some rootHex ∧ fromhexOf rootHex = some root ∧
    Tools.verifyInclusion sha.log (sha.log.leafHash (Tools.Platform.entryBytes proof)) index size
      path root = true

theorem inclusionAccepted_answer {ledger : TransparencyLog Bytes} {index now : Nat}
    {proof : SignedProof} {receipt : Json}
    (hleaf : ledger.leafAt index = some (P.sha.log.leafHash (entryBytes proof)))
    (hr : P.inclusionAnswer ledger index now = some receipt) :
    receipt.get? "checkpoint" =
      some (P.signCheckpoint ledger.size (ledger.root P.sha.log) now).toJson ∧
    InclusionAccepted P.sha proof.toJson receipt
      (P.signCheckpoint ledger.size (ledger.root P.sha.log) now).toJson := by
  simp only [Platform.inclusionAnswer, Option.bind_eq_bind, Option.bind_eq_some_iff, hleaf,
    Option.some.injEq, exists_eq_left', Option.pure_def] at hr
  obtain ⟨path, hpath, rfl⟩ := hr
  have hi : index < ledger.size := (List.getElem?_eq_some_iff.mp hleaf).1
  have hincl : path = inclusion P.sha.log ledger.leaves index := by
    rw [TransparencyLog.inclusionPath, ← TransparencyLog.size, if_pos hi] at hpath
    exact (Option.some.inj hpath).symm
  have hwalk := Log.inclusionPath_walk P.sha.log ledger hleaf
  rw [← hincl] at hwalk
  refine ⟨object_get? (by simp) _, index, ledger.size, _, path, _, ledger.root P.sha.log,
    object_get? (by simp) _, ?_, ?_, ?_, mapM_fromhexOf path, signCheckpoint_get? rfl,
    Tools.fromhex_hexEncode _, (Tools.verifyInclusion_iff P.sha.log).mpr ⟨hi, hwalk⟩⟩
  · rw [object_get? (by simp)]
    rfl
  · rw [signCheckpoint_get? rfl]
    rfl
  · rw [object_get? (by simp)]
    rfl

/-! ## Every answer -/

theorem answer_audited (P : Platform) (D : Sdk.Platform) (T : Tools.Platform) {es : List Event}
    {s : State} (hrun : Run P.step State.boot es s) (hD : Reads P D s) (hT : ToolReads P T s)
    {generateAttestation : Bytes → Bytes → Option Bytes} {published : Nat} {att : AttestationOut}
    (hatt : P.publishAttestation generateAttestation published = some att) {session : Session}
    (hs : session ∈ s.sessions) {proof : SignedProof} {response : Json}
    (hdone : session.stage = .done proof response) :
    ∃ p receipt stmt cp msg, response.get? "proof" = some p ∧
      response.get? "receipt" = some receipt ∧ p.get? "statement" = some stmt ∧
      receipt.get? "checkpoint" = some cp ∧
      Sdk.verifyReceipt P.sha D (some p) (some receipt) (some (.str (hexEncode P.proofPk))) =
        some true ∧
      T.checkProofSignature p (.str (hexEncode P.proofPk)) = some (true, msg) ∧
      T.checkCheckpointSignature cp (.str (hexEncode P.proofPk)) = some true ∧
      InclusionAccepted P.sha p receipt cp ∧ T.checkStatementInvariants stmt = some [] ∧
      T.checkPolicy p Tools.defaultPolicyDocument = some [] ∧
      ∀ expectedPcr0, expectedPcr0 = .null ∨ expectedPcr0 = .str P.expectedPcr0 →
        Tools.Platform.checkAttestationBinding att.toJson p expectedPcr0
          (.str (hexEncode P.proofPk)) = some [] := by
  have h := reachable_consistent hrun
  have hv := answer_verifies hD h hs hdone
  obtain ⟨ledger, index, now, totalUs, receipt, _, hleaf, hm, hr, rfl⟩ :=
    h.answers session hs proof response hdone
  have hstage : session.stage.proof? = some proof := by rw [hdone]; rfl
  have hsigned : .proof proof.statement ∈ s.signed :=
    (h.proofs _).mpr ⟨session, hs, proof, hstage, rfl⟩
  obtain ⟨counter, taken, proofId, sessionId, rfl⟩ := h.sessions session hs proof hstage
  obtain ⟨hcp, hinclusion⟩ := inclusionAccepted_answer hleaf hr
  rw [Platform.response_get?_proof, Platform.response_get?_receipt] at hv ⊢
  exact ⟨_, receipt, _, _, _, rfl, rfl, signProof_statement _, hcp, hv,
    checkProofSignature_signProof hT hsigned, checkCheckpointSignature_signCheckpoint hT hm,
    hinclusion, checkStatementInvariants_statement T _ _ _ _ _ _,
    checkPolicy_statement hT.sha _ _ _ _ _ _,
    fun _ hpcr0 => checkAttestationBinding_names (names_publishAttestation hatt)
      (names_statement _ _ _ _ _ _) hpcr0⟩

/-- Libraries for the sample enclave: a signature is the message, and texts are hexadecimal. -/
def sampleTool (signed : List Bytes) : Tools.Platform where
  sha := (samplePlatform []).sha
  ed25519 := some (fun _ sig msg => sig == msg && signed.contains msg)
  verifyError := ""
  b64decode v := match v with
    | .str s => hexDecode s
    | _ => none
  repr v := .ofList v.print
  str v := .ofList v.print

theorem sample_toolReads {requests : List InferenceRequest} (s : State) :
    ToolReads (samplePlatform requests) (sampleTool (s.signed.map Message.bytes)) s := by
  refine ⟨rfl, rfl, hexDecode_hexEncode, _, rfl, ?_⟩
  intro m hm
  have hc : (s.signed.map Message.bytes).contains m.bytes = true := by
    rw [List.contains_iff_mem]
    exact List.mem_map_of_mem hm
  show (m.bytes == m.bytes && _) = true
  rw [hc, beq_self_eq_true, Bool.and_self]

/-- A request that is answered, and a malformed one. -/
theorem answer_audited_served : ∃ s accepted refused att,
    Run (samplePlatform [earlierRequest]).step State.boot
      (servedEvents (toVec earlierRequest.toJson)) s ∧
    (samplePlatform [earlierRequest]).publishAttestation (fun userData _ => some userData) 1 =
      some att ∧
    s.entries = [accepted, refused] ∧ accepted.statement.success = true ∧
    refused.statement.success = false ∧ ∀ p ∈ s.entries,
      (sampleTool (s.signed.map Message.bytes)).checkPolicy p.toJson Tools.defaultPolicyDocument =
        some [] ∧
      Tools.Platform.checkAttestationBinding att.toJson p.toJson (.str "00")
        (.str (hexEncode (samplePlatform [earlierRequest]).proofPk)) = some [] := by
  obtain ⟨upstreamResp, hdecide⟩ := earlierRequest_decide
  obtain ⟨s, proof, receipt, root, hrun, hproof, hentries, hsessions⟩ :=
    servedEvents_run (samplePlatform [earlierRequest]) (toVec earlierRequest.toJson)
  obtain ⟨att, hatt⟩ : ∃ att, (samplePlatform [earlierRequest]).publishAttestation
      (fun userData _ => some userData) 1 = some att := ⟨_, rfl⟩
  have haudited := @answer_audited (samplePlatform [earlierRequest]) _ _ _ s hrun
    (sample_reads _ s) (sample_toolReads s) _ _ _ hatt
  refine ⟨s, proof, _, att, hrun, hatt, hentries, ?_, ?_, ?_⟩
  · rw [hproof, hdecide]
    rfl
  · have hparse : (samplePlatform [earlierRequest]).parseRequest [] = none := by
      refine List.find?_eq_none.mpr fun req _ => ?_
      rw [toVec, InferenceRequest.toJson, Json.print_obj, Json.printRecord]
      exact Bool.false_ne_true
    have hmalformed : (samplePlatform [earlierRequest]).decide [] =
        .failed "malformed_request" "" "gateway" false := by
      simp only [Platform.decide, hparse]
    rw [malformedProof, hmalformed]
    rfl
  · intro p hp
    rw [hentries, List.mem_cons, List.mem_singleton] at hp
    obtain ⟨session, response, hs, hdone, hget⟩ : ∃ session response, session ∈ s.sessions ∧
        session.stage = .done p response ∧ response.get? "proof" = some p.toJson := by
      rw [hsessions]
      rcases hp with rfl | rfl
      · exact ⟨_, _, List.mem_cons_self, rfl, Platform.response_get?_proof _ _ _ _⟩
      · exact ⟨_, _, List.mem_cons_of_mem _ List.mem_cons_self, rfl,
          Platform.response_get?_proof _ _ _ _⟩
    obtain ⟨p', _, _, _, _, hget', _, _, _, _, _, _, _, _, hpolicy, hbinding⟩ := haudited hs hdone
    obtain rfl := Option.some.inj (hget.symm.trans hget')
    exact ⟨hpolicy, hbinding _ (.inr rfl)⟩

end Audit
end Pzdr
