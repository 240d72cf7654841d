import Pzdr.Audit.Bundles
import Pzdr.Audit.Policy

/-!
# Audit.Script

The generator and the verifier of `tools/` agree: every bundle that the generator makes passes
`verify-bundle`, for any script of sessions, any sizes and any sample (`generate_passes`). The log
after `n` sessions is the reference log of the first `n` proofs, and the roots remembered on the way
are those of its prefixes (`Generated`).
-/

namespace Pzdr
namespace Audit

open Log
open Tools (Bundle dictGet truthy)
open Tools.Platform (failIf)

/-! ## The reference signer -/

/-- The tool's libraries verify and read what those of the signer have written. -/
structure SignerReads (T : Tools.Platform) (signer : Tools.Signer) : Prop where
  key : signer.publicKey.length = 32
  b64decode : ∀ bs, T.b64decode (.str (signer.b64encode bs)) = some bs
  verify : ∃ ed25519, T.ed25519 = some ed25519 ∧
    ∀ msg, ed25519 signer.publicKey (signer.sign msg) msg = true

section Signer

variable {T : Tools.Platform} {signer : Tools.Signer} {args : Tools.StatementArgs} {stmt : Json}

theorem SignerReads.isNone_ed25519 (h : SignerReads T signer) : T.ed25519.isNone = false := by
  obtain ⟨ed25519, hed, _⟩ := h.verify
  rw [hed]
  rfl

theorem SignerReads.verify_sign (h : SignerReads T signer) (msg : Bytes) :
    T.verify (.str (hexEncode signer.publicKey)) (signer.sign msg) msg = true := by
  obtain ⟨ed25519, hed, hverify⟩ := h.verify
  rw [Tools.Platform.verify, hed, fromhexOf_hexEncode]
  exact hverify msg

theorem SignerReads.truthy_key (h : SignerReads T signer) :
    truthy (.str (hexEncode signer.publicKey)) = true := by
  simp [truthy, hexEncode_ne_empty h.key]

theorem checkProofSignature_sign (h : SignerReads T signer) (stmt : Json) : ∃ msg,
    T.checkProofSignature (Tools.signProof signer stmt) (.str (hexEncode signer.publicKey)) =
      some (true, msg) := by
  have hstatement : (Tools.signProof signer stmt).get? "statement" = some stmt := rfl
  have hsignature : (Tools.signProof signer stmt).get? "signature_b64" =
      some (.str (signer.b64encode (signer.sign (Tools.canonicalJson stmt)))) := rfl
  rw [Tools.Platform.checkProofSignature, h.isNone_ed25519, if_neg (by simp), h.truthy_key,
    if_neg (by simp), hstatement, hsignature]
  simp [h.b64decode, h.verify_sign]

theorem checkCheckpointSignature_sign (h : SignerReads T signer) (size : Nat) (rootHex : String)
    (timestamp : Nat) :
    T.checkCheckpointSignature (Tools.signCheckpoint signer size rootHex timestamp)
      (.str (hexEncode signer.publicKey)) = some true := by
  have hsignature : (Tools.signCheckpoint signer size rootHex timestamp).get?
      "checkpoint_signature_b64" = some (.str (signer.b64encode (signer.sign (Tools.canonicalJson
        (.obj [("root_hex", .str rootHex), ("size", .num size), ("timestamp", .num timestamp)]))))) :=
    rfl
  have hmsg : Tools.Platform.checkpointMsg (Tools.signCheckpoint signer size rootHex timestamp) =
      some (Tools.canonicalJson (.obj [("root_hex", .str rootHex), ("size", .num size),
        ("timestamp", .num timestamp)])) := rfl
  rw [Tools.Platform.checkCheckpointSignature, h.isNone_ed25519, h.truthy_key, if_neg (by simp),
    Tools.pyIn_of_get? hsignature, hsignature, hmsg]
  simp [h.b64decode, h.verify_sign]

/-- What the checks read of a statement that `build_statement` has built. -/
structure Built (T : Tools.Platform) (args : Tools.StatementArgs) (stmt : Json) : Prop where
  success : dictGet stmt "success" = some (.bool args.success)
  version : dictGet stmt "proof_version" = some (.num 3)
  report : dictGet stmt "zeroization_report" = some (Tools.Platform.zeroization args.success)
  governance : dictGet stmt "output_governance" = some (Tools.Platform.governance args)
  resultHash : dictGet stmt "result_hash_hex" =
    some (if args.success then Tools.optional args.resultHashHex else .null)
  errorCode : dictGet stmt "error_code" = some (Tools.optional args.errorCode)
  decision : ∃ d, dictGet stmt "policy_decision" = some d ∧ truthy d = true ∧
    dictGet d "allow" = some (.bool args.success) ∧
    dictGet d "policy_hash" = some (.str (T.policyHash args.policy))
  measurement : dictGet stmt "measurement" = some (.str args.measurement)
  channelKey : dictGet stmt "channel_public_key_hex" = some (.str args.channelPkHex)
  proofKey : dictGet stmt "proof_verifier_key_hex" = some (Tools.optional args.proofVerifierKeyHex)
  code : stmt.get? "error_code" = some (Tools.optional args.errorCode)

theorem built_of_buildStatement (h : T.buildStatement args = some stmt) : Built T args stmt := by
  obtain ⟨decision, hdecision, hstmt⟩ := Option.bind_eq_some_iff.mp h
  simp only [Tools.Platform.decision, Option.bind_eq_bind, Option.bind_eq_some_iff] at hdecision
  obtain ⟨_, _, _, _, hfields⟩ := hdecision
  cases Option.some.inj hfields
  cases Option.some.inj hstmt
  exact ⟨rfl, rfl, rfl, rfl, rfl, rfl, ⟨_, rfl, rfl, rfl, rfl⟩, rfl, rfl, rfl, rfl⟩

/-- A success has a result and a failure has a code. -/
def Documented (args : Tools.StatementArgs) : Prop :=
  if args.success then ∃ r, args.resultHashHex = some r ∧ r ≠ ""
  else ∃ e, args.errorCode = some e ∧ e ≠ ""

theorem checkStatementInvariants_built (h : Built T args stmt) (hargs : Documented args) :
    T.checkStatementInvariants stmt = some [] := by
  obtain ⟨decision, hdecision, htrue, hallow, _⟩ := h.decision
  have hd : Tools.pyOr decision (.obj []) = decision := by rw [Tools.pyOr, if_pos htrue]
  rw [Tools.Platform.checkStatementInvariants, h.report, h.success, h.version]
  cases hs : args.success with
  | false =>
    rw [Documented, hs, if_neg (by simp)] at hargs
    obtain ⟨e, he, hne⟩ := hargs
    simp [Tools.Platform.isTrue, Tools.Platform.checkFailure, h.resultHash, h.errorCode, hs, he,
      Tools.optional, failIf, truthy, hne]
  | true =>
    rw [Documented, hs, if_pos rfl] at hargs
    obtain ⟨r, hr, hne⟩ := hargs
    have hz : Tools.pyOr (Tools.Platform.zeroization true) (.obj []) =
        Tools.Platform.zeroization true := rfl
    have hg : Tools.pyOr (Tools.Platform.governance args) (.obj []) =
        Tools.Platform.governance args := by
      rw [Tools.Platform.governance, if_pos hs]
      rfl
    have hretention : dictGet (Tools.Platform.governance args) "retention_policy" =
        some (.str "returned-only") := by
      rw [Tools.Platform.governance, if_pos hs]
      rfl
    have hbuffers : Tools.Platform.checkBuffers (Tools.Platform.zeroization true)
        (Tools.Platform.governance args) = some [] := by
      have hinput : dictGet (Tools.Platform.zeroization true) "input_buffer_wiped" =
          some (.bool true) := rfl
      have hresponse : dictGet (Tools.Platform.zeroization true) "response_buffer_wiped" =
          some (.bool false) := rfl
      have hreturned : dictGet (Tools.Platform.zeroization true) "response_buffer_returned" =
          some (.bool true) := rfl
      simp [Tools.Platform.checkBuffers, hinput, hretention, hresponse, hreturned, failIf, truthy]
    simp [Tools.Platform.isTrue, Tools.Platform.checkSuccess, hz, h.governance, hg, hbuffers,
      h.resultHash, hdecision, hd, hallow, hs, hr, Tools.optional, failIf, truthy, hne]

theorem checkPolicy_built (h : Built T args stmt) :
    T.checkPolicy (Tools.signProof signer stmt) args.policy = some [] := by
  obtain ⟨decision, hdecision, htrue, hallow, hhash⟩ := h.decision
  have hstatement : (Tools.signProof signer stmt).get? "statement" = some stmt := rfl
  have hd : Tools.pyOr decision (.obj []) = decision := by rw [Tools.pyOr, if_pos htrue]
  rw [Tools.Platform.checkPolicy, hstatement]
  simp only [Option.bind_eq_bind, Option.bind_some, hdecision, hd, hhash, h.success, hallow]
  cases args.success <;> simp [failIf, truthy, Tools.Platform.isTrue]

theorem checkAttestationBinding_built (h : Built T args stmt) {att : Json} {key : String}
    (hkey : args.proofVerifierKeyHex = some key)
    (hmeasurement : dictGet att "measurement" = some (.str args.measurement))
    (hchannel : dictGet att "channel_public_key_hex" = some (.str args.channelPkHex))
    (hproof : dictGet att "proof_verifier_key_hex" = some (.str key)) :
    Tools.Platform.checkAttestationBinding att (Tools.signProof signer stmt)
      (.str args.measurement) (.str key) = some [] := by
  have hstatement : (Tools.signProof signer stmt).get? "statement" = some stmt := rfl
  rw [Tools.Platform.checkAttestationBinding, hstatement]
  simp [hmeasurement, hchannel, hproof, h.measurement, h.channelKey, h.proofKey, hkey,
    Tools.optional, failIf]

end Signer

/-! ## The generator -/

section Generator

variable {T : Tools.Platform} {t : Tools.UnicodeTables} {signer : Tools.Signer}
  {checkpointSizes : List Nat} {s : Tools.Progress}

theorem root_ofEntries (entries : List Bytes) :
    (Tools.TransparencyLog.ofEntries T.sha.log entries).root T.sha.log = headOf T.sha entries := by
  rw [Tools.TransparencyLog.ofEntries_eq, Tools.TransparencyLog.root, Tools.merkleRoot_eq,
    Enclave.mth_eq_root]
  rfl

theorem append_ofEntries (entries : List Bytes) (entry : Bytes) :
    (Tools.TransparencyLog.ofEntries T.sha.log entries).append T.sha.log entry =
      (Tools.TransparencyLog.ofEntries T.sha.log (entries ++ [entry]), entries.length) := by
  simp [Tools.TransparencyLog.append]

theorem size_ofEntries (entries : List Bytes) :
    (Tools.TransparencyLog.ofEntries T.sha.log entries).size = entries.length := by
  simp [Tools.TransparencyLog.size]

/-- What all sessions of a script have in common. -/
theorem sessionArgs_common (T : Tools.Platform) (t : Tools.UnicodeTables) (signer : Tools.Signer)
    (counter : Nat) (session : Tools.Session) :
    (T.sessionArgs t signer counter session).policy = Tools.defaultPolicyDocument ∧
    (T.sessionArgs t signer counter session).measurement = Tools.measurement ∧
    (T.sessionArgs t signer counter session).channelPkHex = T.channelPkHex ∧
    (T.sessionArgs t signer counter session).proofVerifierKeyHex =
      some (hexEncode signer.publicKey) := by
  dsimp only [Tools.Platform.sessionArgs]
  split <;> exact ⟨rfl, rfl, rfl, rfl⟩

theorem exists_statement (T : Tools.Platform) (t : Tools.UnicodeTables) (signer : Tools.Signer)
    (counter : Nat) (session : Tools.Session) :
    ∃ stmt, T.buildStatement (T.sessionArgs t signer counter session) = some stmt := by
  obtain ⟨hpolicy, _⟩ := sessionArgs_common T t signer counter session
  have hid : Tools.defaultPolicyDocument.get? "policy_id" = some (.str "pzdr-default") := rfl
  have hversion : Tools.defaultPolicyDocument.get? "policy_version" = some (.num 1) := rfl
  simp [Tools.Platform.buildStatement, Tools.Platform.decision, hpolicy, hid, hversion]

theorem documented_sessionArgs (T : Tools.Platform) (t : Tools.UnicodeTables) (signer : Tools.Signer)
    (counter : Nat) (session : Tools.Session) :
    Documented (T.sessionArgs t signer counter session) := by
  dsimp only [Tools.Platform.sessionArgs]
  split
  · exact ⟨_, rfl, hexEncode_ne_empty (T.sha.length_hash _)⟩
  · refine ⟨_, rfl, ?_⟩
    split <;> simp

/-- The entries of the log so far. -/
def entriesOf (s : Tools.Progress) : List Bytes := s.proofs.map Tools.canonicalJson

/-- The state of the loop after `n` sessions. -/
structure Generated (T : Tools.Platform) (t : Tools.UnicodeTables) (signer : Tools.Signer)
    (checkpointSizes : List Nat) (n : Nat) (s : Tools.Progress) : Prop where
  count : s.proofs.length = n
  log : s.log = Tools.TransparencyLog.ofEntries T.sha.log (entriesOf s)
  proofs : ∀ p ∈ s.proofs, ∃ counter session stmt,
    T.buildStatement (T.sessionArgs t signer counter session) = some stmt ∧
      p = Tools.signProof signer stmt
  sizes : s.earlyCheckpoints.map Prod.fst = (List.range' 1 n).filter (· ∈ checkpointSizes)
  roots : ∀ early ∈ s.earlyCheckpoints,
    early.2 = hexEncode (headOf T.sha ((entriesOf s).take early.1))

theorem Generated.early_le {n : Nat} (h : Generated T t signer checkpointSizes n s)
    {early : Nat × String} (hmem : early ∈ s.earlyCheckpoints) : 0 < early.1 ∧ early.1 ≤ n := by
  have hsize : early.1 ∈ s.earlyCheckpoints.map Prod.fst := List.mem_map_of_mem hmem
  rw [h.sizes, List.mem_filter, List.mem_range'_1] at hsize
  omega

theorem Generated.step {n : Nat} (h : Generated T t signer checkpointSizes n s)
    (counted : Tools.Session × Nat) : ∃ s',
    T.generateStep t signer checkpointSizes s counted = some s' ∧
      Generated T t signer checkpointSizes (n + 1) s' := by
  obtain ⟨stmt, hstmt⟩ := exists_statement T t signer counted.2 counted.1
  have hmake : T.makeSession t signer counted.2 counted.1 s.log =
      some (Tools.TransparencyLog.ofEntries T.sha.log
        (entriesOf s ++ [Tools.canonicalJson (Tools.signProof signer stmt)]), (entriesOf s).length,
        Tools.signProof signer stmt) := by
    simp only [Tools.Platform.makeSession, hstmt, h.log, Option.bind_eq_bind, Option.bind_some,
      append_ofEntries]
    rfl
  have hlen : (entriesOf s).length = n := by rw [entriesOf, List.length_map, h.count]
  refine ⟨_, by rw [Tools.Platform.generateStep, hmake]; rfl, ?_⟩
  have hentries : ∀ early, entriesOf ⟨Tools.TransparencyLog.ofEntries T.sha.log
      (entriesOf s ++ [Tools.canonicalJson (Tools.signProof signer stmt)]),
      s.proofs ++ [Tools.signProof signer stmt], early⟩ =
      entriesOf s ++ [Tools.canonicalJson (Tools.signProof signer stmt)] := by
    intro early
    simp [entriesOf]
  constructor
  · simp [h.count]
  · rw [hentries]
  · intro p hp
    rcases List.mem_append.mp hp with hp | hp
    · exact h.proofs p hp
    · exact ⟨_, _, stmt, hstmt, List.mem_singleton.mp hp⟩
  · rw [size_ofEntries, List.length_append, hlen, List.length_singleton, List.range'_concat,
      List.filter_append, ← h.sizes]
    split
    · next hin => simp [Nat.add_comm 1 n, hin]
    · next hin => simp [Nat.add_comm 1 n, hin]
  · rw [hentries]
    have hold : ∀ early ∈ s.earlyCheckpoints, early.2 = hexEncode (headOf T.sha
        ((entriesOf s ++ [Tools.canonicalJson (Tools.signProof signer stmt)]).take early.1)) := by
      intro early hmem
      rw [List.take_append_of_le_length (by rw [hlen]; exact (h.early_le hmem).2)]
      exact h.roots early hmem
    split
    · intro early hmem
      rcases List.mem_append.mp hmem with hmem | hmem
      · exact hold early hmem
      · rw [List.mem_singleton.mp hmem, size_ofEntries, List.take_length, root_ofEntries]
    · exact hold

/-- A listed proof of the script stands the checks that do not look at the log. -/
theorem proofPasses_script (hreads : SignerReads T signer) {b : Bundle}
    (hkey : b.keyHex = hexEncode signer.publicKey) (hmeasurement : b.measurement = Tools.measurement)
    (hattestation : b.attestation = T.attestation signer)
    (hpolicy : b.policy = Tools.defaultPolicyDocument) {counter : Nat} {session : Tools.Session}
    {stmt : Json} (hstmt : T.buildStatement (T.sessionArgs t signer counter session) = some stmt) :
    ProofPasses T b (Tools.signProof signer stmt) := by
  have hbuilt := built_of_buildStatement hstmt
  obtain ⟨hdefault, hpcr0, hchannel, hproof⟩ := sessionArgs_common T t signer counter session
  constructor
  · rw [hkey]
    exact checkProofSignature_sign hreads stmt
  · exact ⟨stmt, _, rfl, checkStatementInvariants_built hbuilt
      (documented_sessionArgs T t signer counter session), hbuilt.code⟩
  · rw [hpolicy, ← hdefault]
    exact checkPolicy_built hbuilt
  · have hbinding := @checkAttestationBinding_built T signer _ _ hbuilt (T.attestation signer) _ hproof
      (by rw [hpcr0]; rfl) (by rw [hchannel]; rfl) rfl
    rw [hattestation, hmeasurement, hkey, ← hpcr0]
    exact hbinding

/-- The loop runs through. -/
theorem exists_generated (T : Tools.Platform) (t : Tools.UnicodeTables) (signer : Tools.Signer)
    (checkpointSizes : List Nat) (counted : List (Tools.Session × Nat)) : ∃ s,
    counted.foldlM (T.generateStep t signer checkpointSizes) ⟨.new, [], []⟩ = some s ∧
      Generated T t signer checkpointSizes counted.length s := by
  have hinit : Generated T t signer checkpointSizes 0 ⟨.new, [], []⟩ :=
    ⟨rfl, rfl, by simp, by simp, by simp⟩
  have hstep : ∀ (done : List (Tools.Session × Nat)) s next,
      Generated T t signer checkpointSizes done.length s → ∃ s',
        T.generateStep t signer checkpointSizes s next = some s' ∧
          Generated T t signer checkpointSizes (done ++ [next]).length s' := by
    intro done s next hs
    rw [List.length_append, List.length_singleton]
    exact hs.step next
  obtain ⟨s, hrun, hs⟩ := Run.exists_of_invariant
    (I := fun done s => Generated T t signer checkpointSizes done.length s) hinit hstep counted
  exact ⟨s, Run.iff_foldlM.mp hrun, hs⟩

end Generator

theorem generate_passes (T : Tools.Platform) (t : Tools.UnicodeTables) (signer : Tools.Signer)
    (hreads : SignerReads T signer) (sessions : List Tools.Session) (checkpointSizes : List Nat)
    (sample : Nat → List Nat) (hsample : ∀ i ∈ sample sessions.length, i < sessions.length) :
    ∃ b, T.generate t signer sessions checkpointSizes sample = some b ∧
      b.inclusions.length = (sample sessions.length).length ∧
      b.consistency.length =
        (List.range' 1 sessions.length).countP (fun size => decide (size ∈ checkpointSizes)) ∧
      T.cmdVerifyBundle b.toJson = some true := by
  obtain ⟨s, hs, h⟩ := exists_generated T t signer checkpointSizes (sessions.zipIdx 1)
  rw [List.length_zipIdx] at h
  have hlen : (entriesOf s).length = sessions.length := by rw [entriesOf, List.length_map, h.count]
  have hsize : s.log.size = sessions.length := by rw [h.log, size_ofEntries, hlen]
  -- the listed proofs
  obtain ⟨inclusions, hinclusions, hcount, hitem⟩ :=
    @exists_mapM _ _ (T.sampleItem s) (sample sessions.length) (by
      intro i hi
      obtain ⟨proof, hproof⟩ : ∃ proof, s.proofs[i]? = some proof :=
        ⟨_, List.getElem?_eq_getElem (by rw [h.count]; exact hsample i hi)⟩
      obtain ⟨path, _, hpath⟩ := inclusion_agrees T.sha.log (entriesOf s)
        (by rw [hlen]; exact hsample i hi)
      exact ⟨_, by rw [Tools.Platform.sampleItem, hproof, h.log, Option.bind_eq_bind,
        Option.bind_some, hpath]; rfl⟩)
  -- the transitions
  obtain ⟨consistency, hconsistency, hcount', htransition⟩ :=
    @exists_mapM _ _ (T.earlyItem s) s.earlyCheckpoints (by
      intro early hearly
      obtain ⟨hpos, hle⟩ := h.early_le hearly
      obtain ⟨path, _, hpath⟩ := consistency_agrees T.sha.log (entriesOf s) hpos
        (by rw [hlen]; exact hle)
      exact ⟨_, by rw [Tools.Platform.earlyItem, h.log, hpath]; rfl⟩)
  refine ⟨_, by
    rw [Tools.Platform.generate, hs, Option.bind_eq_bind, Option.bind_some, hsize, hinclusions,
      Option.bind_eq_bind, Option.bind_some, hconsistency]
    rfl, hcount, ?_, ?_⟩
  · rw [hcount', List.countP_eq_length_filter, ← h.sizes, List.length_map]
  refine @Presents.passes _ _ (entriesOf s) ⟨hexEncode_ne_empty hreads.key, ?_, ?_,
    checkCheckpointSignature_sign hreads _ _ _, ?_, ?_⟩
  · rw [hlen]
    rfl
  · rw [h.log, root_ofEntries]
    rfl
  · intro item hmem
    obtain ⟨i, hi, hsome⟩ := hitem item hmem
    simp only [Tools.Platform.sampleItem, Option.bind_eq_bind, Option.bind_eq_some_iff] at hsome
    obtain ⟨proof, hproof, path, hpath, heq⟩ := hsome
    obtain ⟨counter, session, stmt, hstmt, rfl⟩ := h.proofs proof (List.mem_of_getElem? hproof)
    refine ⟨i, path, _, ?_, ?_, (Option.some.inj heq).symm,
      proofPasses_script hreads rfl rfl rfl rfl hstmt⟩
    · rw [entriesOf, List.getElem?_map, hproof, Option.map_some]
    · rw [← h.log, hpath]
  · intro t ht
    obtain ⟨early, hearly, hsome⟩ := htransition t ht
    simp only [Tools.Platform.earlyItem, Option.bind_eq_bind, Option.bind_eq_some_iff] at hsome
    obtain ⟨proof, hproof, heq⟩ := hsome
    obtain ⟨hpos, hle⟩ := h.early_le hearly
    refine ⟨early.1, proof, hpos, by rw [hlen]; exact hle, by rw [← h.log, hproof], ?_⟩
    rw [← Option.some.inj heq, h.roots early hearly, hlen, hsize, h.log, root_ofEntries]

/-- A signature is the message, and texts are hexadecimal. -/
def sampleSigner : Tools.Signer := ⟨id, List.replicate 32 2, hexEncode⟩

def scriptTool : Tools.Platform :=
  { sampleTool [] with ed25519 := some (fun _ sig msg => sig == msg) }

theorem sample_signerReads : SignerReads scriptTool sampleSigner :=
  ⟨rfl, hexDecode_hexEncode, _, rfl, fun msg => beq_self_eq_true msg⟩

theorem generate_passes_main : ∃ b, scriptTool.main arabicTables sampleSigner = some b ∧
    b.inclusions.length = 5 ∧ b.consistency.length = 2 ∧
      scriptTool.cmdVerifyBundle b.toJson = some true :=
  generate_passes scriptTool arabicTables sampleSigner sample_signerReads Tools.scriptedSessions
    [4, 8] (fun finalSize => [0, 2, 4, 7, finalSize - 1]) (by decide)

end Audit
end Pzdr
