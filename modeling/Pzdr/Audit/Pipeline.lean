import Pzdr.Audit.Heads

/-!
# Audit.Pipeline

What the request pipeline decides. A body is accepted if it passes all stages (`Accepts`), and else
fails at one of them (`FailsAt`); the constructors of `FailsAt` are in the order of the stages, and
each says that all stages before it have passed.

* `accepts_or_failsAt`: there is no other way through the stages.
* `pipeline_decides`: in any interleaving with other requests and queries a call signs one proof, a
  success for an accepted body and else a failure with the code of the stage.
-/

namespace Pzdr
namespace Audit

open Enclave
open Platform (commitmentInput)

/-! ## The stages -/

section Stages

variable (P : Platform)

/-- The fields of the channel are hexadecimal, and the client's key and the nonce as long as they
have to be. -/
structure ChannelFields (req : InferenceRequest) (clientPub ciphertext nonce : Bytes) : Prop where
  clientPubHex : hexDecode req.clientPubHex = some clientPub
  ciphertextHex : hexDecode req.ciphertextHex = some ciphertext
  nonceHex : hexDecode req.nonceHex = some nonce
  length_clientPub : clientPub.length = 32
  length_nonce : nonce.length = 24

/-- HKDF gives a key of any length up to 255 digests. -/
def Expands : Prop :=
  ∀ salt ikm info n, n ≤ 255 * 32 → ∃ key, P.hkdf salt ikm info n = some key ∧ key.length = n

/-- The decryption under the key of the channel with this client. -/
def channelOpen (clientPub ciphertext nonce : Bytes) : Option Bytes :=
  (P.hkdf (Utf8.encode "pzdr-channel-v1".toList) (P.diffieHellman clientPub)
    (Utf8.encode "channel-aead".toList) 32).bind
      (fun aeadKey => P.aeadOpen aeadKey nonce [] ciphertext)

def AeadOpens (req : InferenceRequest) (plaintext : Bytes) : Prop :=
  ∃ clientPub ciphertext nonce, ChannelFields req clientPub ciphertext nonce ∧
    channelOpen P clientPub ciphertext nonce = some plaintext

/-- The commitment to the plaintext under a salt. -/
def commitmentOf (req : InferenceRequest) (plaintext salt : Bytes) : String :=
  hexEncode (P.sha.hash (commitmentInput plaintext salt req.commitmentContext))

def policyVerdict (req : InferenceRequest) (plaintext : Bytes) : Except String Unit :=
  Policy.defaultV1.evaluate plaintext (req.processorId.getD "gateway")

/-- The AEAD opens on what the body says. -/
def Opened (body : Bytes) : Prop :=
  ∃ req plaintext, P.parseRequest body = some req ∧ AeadOpens P req plaintext

/-- The body passes all stages. -/
def Accepts (body : Bytes) : Prop :=
  ∃ req plaintext salt, P.parseRequest body = some req ∧ AeadOpens P req plaintext ∧
    hexDecode req.commitmentSaltHex = some salt ∧
    commitmentOf P req plaintext salt = req.commitmentHex ∧
    policyVerdict req plaintext = .ok ()

/-- The first stage that the body does not pass, by its code. -/
inductive FailsAt (body : Bytes) : String → Prop where
  | parse : P.parseRequest body = none → FailsAt body "malformed_request"
  | fields {req : InferenceRequest} : P.parseRequest body = some req →
      (∀ clientPub ciphertext nonce, ¬ ChannelFields req clientPub ciphertext nonce) →
      FailsAt body "channel_decrypt_failed"
  | aead {req : InferenceRequest} {clientPub ciphertext nonce : Bytes} :
      P.parseRequest body = some req → ChannelFields req clientPub ciphertext nonce →
      channelOpen P clientPub ciphertext nonce = none →
      FailsAt body "channel_decrypt_failed"
  | salt {req : InferenceRequest} {plaintext : Bytes} :
      P.parseRequest body = some req → AeadOpens P req plaintext →
      hexDecode req.commitmentSaltHex = none →
      FailsAt body "invalid_commitment_salt"
  | commitment {req : InferenceRequest} {plaintext salt : Bytes} :
      P.parseRequest body = some req → AeadOpens P req plaintext →
      hexDecode req.commitmentSaltHex = some salt →
      commitmentOf P req plaintext salt ≠ req.commitmentHex →
      FailsAt body "commitment_mismatch"
  | policy {req : InferenceRequest} {plaintext salt : Bytes} {reason : String} :
      P.parseRequest body = some req → AeadOpens P req plaintext →
      hexDecode req.commitmentSaltHex = some salt →
      commitmentOf P req plaintext salt = req.commitmentHex →
      policyVerdict req plaintext = .error reason →
      FailsAt body reason

end Stages

variable {P : Platform} {req : InferenceRequest} {plaintext : Bytes} {body : Bytes}

theorem ChannelFields.unique {clientPub ciphertext nonce clientPub' ciphertext' nonce' : Bytes}
    (h : ChannelFields req clientPub ciphertext nonce)
    (h' : ChannelFields req clientPub' ciphertext' nonce') :
    clientPub = clientPub' ∧ ciphertext = ciphertext' ∧ nonce = nonce' :=
  ⟨Option.some.inj (h.clientPubHex.symm.trans h'.clientPubHex),
    Option.some.inj (h.ciphertextHex.symm.trans h'.ciphertextHex),
    Option.some.inj (h.nonceHex.symm.trans h'.nonceHex)⟩

theorem accepts_or_failsAt (P : Platform) (body : Bytes) :
    Accepts P body ∨ ∃ code, FailsAt P body code := by
  cases hparse : P.parseRequest body with
  | none => exact .inr ⟨_, .parse hparse⟩
  | some req =>
    by_cases hfields : ∃ clientPub ciphertext nonce, ChannelFields req clientPub ciphertext nonce
    · obtain ⟨clientPub, ciphertext, nonce, hfields⟩ := hfields
      cases hopen : channelOpen P clientPub ciphertext nonce with
      | none => exact .inr ⟨_, .aead hparse hfields hopen⟩
      | some plaintext =>
        have hplain : AeadOpens P req plaintext := ⟨_, _, _, hfields, hopen⟩
        cases hsalt : hexDecode req.commitmentSaltHex with
        | none => exact .inr ⟨_, .salt hparse hplain hsalt⟩
        | some salt =>
          by_cases hcommitment : commitmentOf P req plaintext salt = req.commitmentHex
          · cases hpolicy : policyVerdict req plaintext with
            | error reason => exact .inr ⟨_, .policy hparse hplain hsalt hcommitment hpolicy⟩
            | ok _ => exact .inl ⟨req, plaintext, salt, hparse, hplain, hsalt, hcommitment, hpolicy⟩
          · exact .inr ⟨_, .commitment hparse hplain hsalt hcommitment⟩
    · simp only [not_exists] at hfields
      exact .inr ⟨_, .fields hparse hfields⟩

/-! ## The decision -/

theorem decrypt_of_fields (hexpands : Expands P) {clientPub ciphertext nonce : Bytes}
    (h : ChannelFields req clientPub ciphertext nonce) : P.decrypt req =
      (channelOpen P clientPub ciphertext nonce).elim (.error "channel_decrypt_failed") .ok := by
  obtain ⟨key, hkey, hlength⟩ := hexpands (Utf8.encode "pzdr-channel-v1".toList)
    (P.diffieHellman clientPub) (Utf8.encode "channel-aead".toList) 32 (by norm_num)
  have hopen : channelOpen P clientPub ciphertext nonce = P.aeadOpen key nonce [] ciphertext := by
    rw [channelOpen, hkey, Option.bind_some]
  rw [hopen]
  unfold Platform.decrypt
  cases haead : P.aeadOpen key nonce [] ciphertext with
  | none =>
    simp only [h.clientPubHex, h.ciphertextHex, h.nonceHex, h.length_clientPub, h.length_nonce,
      hkey, hlength, haead, ne_eq, not_true_eq_false, if_false, Option.elim_none]
  | some plaintext =>
    simp only [h.clientPubHex, h.ciphertextHex, h.nonceHex, h.length_clientPub, h.length_nonce,
      hkey, hlength, haead, ne_eq, not_true_eq_false, if_false, Option.elim_some]

theorem decrypt_of_not_fields
    (h : ∀ clientPub ciphertext nonce, ¬ ChannelFields req clientPub ciphertext nonce) :
    P.decrypt req = .error "channel_decrypt_failed" := by
  unfold Platform.decrypt
  split
  · rfl
  · rename_i clientPub hclientPub
    split
    · rfl
    · rename_i ciphertext hciphertext
      split
      · rfl
      · rename_i nonce hnonce
        split
        · rfl
        · rename_i hlengthPub
          split
          · rfl
          · rename_i hlengthNonce
            exact absurd ⟨hclientPub, hciphertext, hnonce, not_not.mp hlengthPub,
              not_not.mp hlengthNonce⟩ (h clientPub ciphertext nonce)

theorem decrypt_of_opens (hexpands : Expands P) (h : AeadOpens P req plaintext) :
    P.decrypt req = .ok plaintext := by
  obtain ⟨clientPub, ciphertext, nonce, hfields, hopen⟩ := h
  rw [decrypt_of_fields hexpands hfields, hopen, Option.elim_some]

/-- An accepted body reaches the upstream model, with its plaintext. -/
theorem decideTraced_of_accepts (hexpands : Expands P) (h : Accepts P body) :
    ∃ commitment processor upstreamResp plaintext,
      P.decideTraced body = (.succeeded commitment processor upstreamResp, [plaintext]) := by
  obtain ⟨req, plaintext, salt, hparse, hopens, hsalt, hcommitment, hpolicy⟩ := h
  obtain ⟨upstreamResp, hupstream⟩ : ∃ v, callUpstream P.sha plaintext = .ok v := ⟨_, rfl⟩
  refine ⟨req.commitmentHex, req.processorId.getD "gateway", upstreamResp, plaintext, ?_⟩
  rw [commitmentOf] at hcommitment
  rw [policyVerdict] at hpolicy
  simp only [Platform.decideTraced, hparse, decrypt_of_opens hexpands hopens,
    Platform.checkCommitment, hsalt, hcommitment, ne_eq, not_true_eq_false, if_false, hpolicy,
    hupstream]

/-- A body that fails does not. -/
theorem decideTraced_of_failsAt (hexpands : Expands P) {code : String} (h : FailsAt P body code) :
    ∃ commitment processor wiped,
      P.decideTraced body = (.failed code commitment processor wiped, []) ∧
      (wiped = true ↔ Opened P body) := by
  have hunique : ∀ {req req'}, P.parseRequest body = some req → P.parseRequest body = some req' →
      req = req' := fun h h' => Option.some.inj (h.symm.trans h')
  cases h with
  | parse hparse =>
    refine ⟨"", "gateway", false, by simp only [Platform.decideTraced, hparse], ?_⟩
    simp [Opened, hparse]
  | @fields req hparse hfields =>
    refine ⟨req.commitmentHex, req.processorId.getD "gateway", false, ?_, ?_⟩
    · simp only [Platform.decideTraced, hparse, decrypt_of_not_fields hfields]
    · simp only [Bool.false_eq_true, false_iff]
      rintro ⟨req', plaintext, hparse', clientPub, ciphertext, nonce, hfields', _⟩
      rw [← hunique hparse hparse'] at hfields'
      exact hfields _ _ _ hfields'
  | @aead req clientPub ciphertext nonce hparse hfields hopen =>
    refine ⟨req.commitmentHex, req.processorId.getD "gateway", false, ?_, ?_⟩
    · simp only [Platform.decideTraced, hparse, decrypt_of_fields hexpands hfields, hopen,
        Option.elim_none]
    · simp only [Bool.false_eq_true, false_iff]
      rintro ⟨req', plaintext, hparse', _, _, _, hfields', hopen'⟩
      rw [← hunique hparse hparse'] at hfields'
      obtain ⟨rfl, rfl, rfl⟩ := hfields.unique hfields'
      rw [hopen] at hopen'
      cases hopen'
  | @salt req plaintext hparse hopens hsalt =>
    refine ⟨req.commitmentHex, req.processorId.getD "gateway", true, ?_, ?_⟩
    · simp only [Platform.decideTraced, hparse, decrypt_of_opens hexpands hopens,
        Platform.checkCommitment, hsalt]
    · exact iff_of_true rfl ⟨req, plaintext, hparse, hopens⟩
  | @commitment req plaintext salt hparse hopens hsalt hcommitment =>
    refine ⟨req.commitmentHex, req.processorId.getD "gateway", true, ?_, ?_⟩
    · rw [commitmentOf] at hcommitment
      simp only [Platform.decideTraced, hparse, decrypt_of_opens hexpands hopens,
        Platform.checkCommitment, hsalt, ne_eq, hcommitment, not_false_eq_true, if_true]
    · exact iff_of_true rfl ⟨req, plaintext, hparse, hopens⟩
  | @policy req plaintext salt reason hparse hopens hsalt hcommitment hpolicy =>
    refine ⟨req.commitmentHex, req.processorId.getD "gateway", true, ?_, ?_⟩
    · rw [commitmentOf] at hcommitment
      rw [policyVerdict] at hpolicy
      simp only [Platform.decideTraced, hparse, decrypt_of_opens hexpands hopens,
        Platform.checkCommitment, hsalt, hcommitment, ne_eq, not_true_eq_false, if_false, hpolicy]
    · exact iff_of_true rfl ⟨req, plaintext, hparse, hopens⟩

/-! ## A call among others -/

/-- The number of proofs that the session signs in these events. -/
def signings (sid : Nat) (es : List Event) : Nat :=
  es.countP (fun e => match e with
    | .signProof i _ _ _ => i == sid
    | _ => false)

/-- How far the session of a call has come: it signs one proof, of the decision about its body. -/
structure Progress (P : Platform) (body : Bytes) (tenant : String) (sid : Nat) (es : List Event)
    (s : State) (session : Session) : Prop where
  found : s.sessions[sid]? = some session
  body_eq : session.body = body
  tenant_eq : session.tenant = tenant
  unsigned : session.stage.proof? = none → signings sid es = 0
  signed : ∀ proof, session.stage.proof? = some proof → signings sid es = 1 ∧
    Message.proof proof.statement ∈ s.signed ∧ ∃ counter now proofId sessionId,
      proof = P.signProof (P.statement (P.decide body) tenant counter now proofId sessionId)

theorem signings_append (sid : Nat) (es es' : List Event) :
    signings sid (es ++ es') = signings sid es + signings sid es' :=
  List.countP_append

namespace Progress

variable {tenant : String} {sid : Nat} {es : List Event} {s s' : State} {session : Session}
  {e : Event}

/-- The session may go on, but not to another proof. -/
theorem keep (h : Progress P body tenant sid es s session) {stage : Stage}
    (hfound : s'.sessions[sid]? = some { session with stage := stage })
    (hstage : stage.proof? = session.stage.proof?) (hsigned : s.signed ⊆ s'.signed)
    (hnone : signings sid [e] = 0) :
    Progress P body tenant sid (es ++ [e]) s' { session with stage := stage } := by
  refine ⟨hfound, h.body_eq, h.tenant_eq, ?_, ?_⟩
  · intro hproof
    rw [signings_append, hnone, h.unsigned (hstage ▸ hproof)]
  · intro proof hproof
    obtain ⟨hone, hmem, hdecided⟩ := h.signed proof (hstage ▸ hproof)
    rw [signings_append, hnone]
    exact ⟨hone, hsigned hmem, hdecided⟩

/-- Other sessions and the queries leave the session as it is. -/
theorem other (h : Progress P body tenant sid es s session)
    (hfound : s'.sessions[sid]? = s.sessions[sid]?) (hsigned : s.signed ⊆ s'.signed)
    (hnone : signings sid [e] = 0) : Progress P body tenant sid (es ++ [e]) s' session :=
  h.keep (hfound.trans h.found) rfl hsigned hnone

theorem fetchAdd {i : Nat} (h : Progress P body tenant sid es s session)
    (hstep : P.step s (.fetchAdd i) = some s') :
    ∃ session', Progress P body tenant sid (es ++ [.fetchAdd i]) s' session' := by
  obtain ⟨x, hx, hstage, rfl⟩ := Platform.step_fetchAdd hstep
  by_cases hi : i = sid
  · subst hi
    obtain rfl := Option.some.inj (hx.symm.trans h.found)
    have hlt := (List.getElem?_eq_some_iff.mp hx).1
    exact ⟨_, h.keep (List.getElem?_set_self hlt) (by rw [hstage]; rfl) (List.Subset.refl _) rfl⟩
  · exact ⟨session, h.other (List.getElem?_set_ne hi) (List.Subset.refl _) rfl⟩

theorem signProof {i now : Nat} {proofId sessionId : Bytes}
    (h : Progress P body tenant sid es s session)
    (hstep : P.step s (.signProof i now proofId sessionId) = some s') :
    ∃ session', Progress P body tenant sid (es ++ [.signProof i now proofId sessionId]) s'
      session' := by
  obtain ⟨x, counter, hx, hstage, rfl⟩ := Platform.step_signProof hstep
  by_cases hi : i = sid
  · subst hi
    obtain rfl := Option.some.inj (hx.symm.trans h.found)
    have hlt := (List.getElem?_eq_some_iff.mp hx).1
    have hzero : signings i es = 0 := h.unsigned (by rw [hstage]; rfl)
    refine ⟨_, List.getElem?_set_self hlt, h.body_eq, h.tenant_eq, ?_, ?_⟩
    · intro hproof
      cases hproof
    · intro proof hproof
      cases hproof
      refine ⟨?_, List.mem_append_right _ (List.mem_singleton.mpr rfl), counter, now, proofId,
        sessionId, ?_⟩
      · rw [signings_append, hzero]
        simp [signings]
      · rw [h.body_eq, h.tenant_eq]
  · refine ⟨session, h.other (List.getElem?_set_ne hi) (List.subset_append_left _ _) ?_⟩
    simp [signings, hi]

theorem append {i now totalUs : Nat} (h : Progress P body tenant sid es s session)
    (hstep : P.step s (.append i now totalUs) = some s') :
    ∃ session', Progress P body tenant sid (es ++ [.append i now totalUs]) s' session' := by
  obtain ⟨x, proof, receipt, hx, hstage, _, rfl⟩ := Platform.step_append hstep
  by_cases hi : i = sid
  · subst hi
    obtain rfl := Option.some.inj (hx.symm.trans h.found)
    have hlt := (List.getElem?_eq_some_iff.mp hx).1
    exact ⟨_, h.keep (List.getElem?_set_self hlt) (by rw [hstage]; rfl)
      (List.subset_append_left _ _) rfl⟩
  · exact ⟨session, h.other (List.getElem?_set_ne hi) (List.subset_append_left _ _) rfl⟩

theorem step (h : Progress P body tenant sid es s session) (hstep : P.step s e = some s') :
    ∃ session', Progress P body tenant sid (es ++ [e]) s' session' := by
  cases e with
  | request b t =>
    cases hstep
    have hlt := (List.getElem?_eq_some_iff.mp h.found).1
    exact ⟨session, h.other (List.getElem?_append_left hlt) (List.Subset.refl _) rfl⟩
  | fetchAdd i => exact h.fetchAdd hstep
  | signProof i now proofId sessionId => exact h.signProof hstep
  | append i now totalUs => exact h.append hstep
  | _ =>
    obtain ⟨ms, rfl, _⟩ := step_query hstep trivial
    exact ⟨session, h.other rfl (List.subset_append_left _ _) rfl⟩

end Progress

/-- The session of a call, after any events that follow its arrival. -/
theorem progress_run {tenant : String} {s s' : State} {es : List Event}
    (h : Run P.step s (.request body tenant :: es) s') :
    ∃ session, Progress P body tenant s.sessions.length es s' session := by
  obtain ⟨s₁, hs₁, hrun⟩ := Run.cons_iff.mp h
  cases hs₁
  refine hrun.trace_invariant (I := fun es s' => ∃ session,
    Progress P body tenant s.sessions.length es s' session) ?_ ?_
  · refine ⟨⟨body, tenant, .received⟩, List.getElem?_concat_length, rfl, rfl, fun _ => rfl, ?_⟩
    intro proof hproof
    cases hproof
  · rintro es t e t' hstep ⟨session, hprogress⟩
    exact hprogress.step hstep

/-! ## A session can go on -/

section Enabled

variable {s : State} {sid : Nat} {session : Session}

theorem fetchAdd_enabled (hfound : s.sessions[sid]? = some session)
    (hstage : session.stage = .received) :
    ∃ s' counter, P.step s (.fetchAdd sid) = some s' ∧
      s'.sessions[sid]? = some { session with stage := .counted counter } := by
  obtain ⟨s', hstep⟩ : ∃ s', P.step s (.fetchAdd sid) = some s' := by
    simp [Platform.step, hfound, hstage]
  obtain ⟨x, hx, _, rfl⟩ := Platform.step_fetchAdd hstep
  obtain rfl := Option.some.inj (hx.symm.trans hfound)
  exact ⟨_, _, hstep, List.getElem?_set_self (List.getElem?_eq_some_iff.mp hx).1⟩

theorem signProof_enabled {counter : Nat} (hfound : s.sessions[sid]? = some session)
    (hstage : session.stage = .counted counter) (now : Nat) (proofId sessionId : Bytes) :
    ∃ s' proof, P.step s (.signProof sid now proofId sessionId) = some s' ∧
      s'.sessions[sid]? = some { session with stage := .signed proof } := by
  obtain ⟨s', hstep⟩ : ∃ s', P.step s (.signProof sid now proofId sessionId) = some s' := by
    simp [Platform.step, hfound, hstage]
  obtain ⟨x, _, hx, _, rfl⟩ := Platform.step_signProof hstep
  obtain rfl := Option.some.inj (hx.symm.trans hfound)
  exact ⟨_, _, hstep, List.getElem?_set_self (List.getElem?_eq_some_iff.mp hx).1⟩

/-- The ledger has the entry that was just appended, so there is a receipt. -/
theorem append_enabled {proof : SignedProof} (hfound : s.sessions[sid]? = some session)
    (hstage : session.stage = .signed proof) (now totalUs : Nat) :
    ∃ s' response, P.step s (.append sid now totalUs) = some s' ∧
      s'.sessions[sid]? = some { session with stage := .done proof response } := by
  have hleaf : (s.ledger.append P.sha.log (Platform.entryBytes proof)).1.leafAt s.ledger.size =
      some (P.sha.log.leafHash (Platform.entryBytes proof)) := by
    simp [TransparencyLog.leafAt, TransparencyLog.append, TransparencyLog.size]
  have hindex : (s.ledger.append P.sha.log (Platform.entryBytes proof)).2 = s.ledger.size := rfl
  obtain ⟨receipt, hreceipt, _⟩ := inclusionAnswer_leaf (P := P) hleaf now
  obtain ⟨s', hstep⟩ : ∃ s', P.step s (.append sid now totalUs) = some s' := by
    simp [Platform.step, hfound, hstage, hindex, hreceipt]
  obtain ⟨x, proof', _, hx, hstage', _, rfl⟩ := Platform.step_append hstep
  obtain rfl := Option.some.inj (hx.symm.trans hfound)
  obtain rfl := Stage.signed.inj (hstage'.symm.trans hstage)
  exact ⟨_, _, hstep, List.getElem?_set_self (List.getElem?_eq_some_iff.mp hx).1⟩

end Enabled

theorem call_completes (P : Platform) (s : State) (body : Bytes) (tenant : String) (now : Nat)
    (proofId sessionId : Bytes) (nowHead totalUs : Nat) : ∃ s' proof response,
      Run P.step s [.request body tenant, .fetchAdd s.sessions.length,
        .signProof s.sessions.length now proofId sessionId,
        .append s.sessions.length nowHead totalUs] s' ∧
      s'.sessions[s.sessions.length]? = some ⟨body, tenant, .done proof response⟩ := by
  obtain ⟨s₂, counter, hs₂, hfound₂⟩ := @fetchAdd_enabled P
    { s with sessions := s.sessions ++ [⟨body, tenant, .received⟩] } s.sessions.length _
    List.getElem?_concat_length rfl
  obtain ⟨s₃, proof, hs₃, hfound₃⟩ := signProof_enabled hfound₂ rfl now proofId sessionId
  obtain ⟨s₄, response, hs₄, hfound₄⟩ := append_enabled hfound₃ rfl nowHead totalUs
  refine ⟨s₄, proof, response, ?_, hfound₄⟩
  simp only [Run.cons_iff]
  exact ⟨_, rfl, s₂, hs₂, s₃, hs₃, s₄, hs₄, .nil⟩
/-! ## What is signed -/

theorem statement_succeeded {outcome : Outcome} {tenant : String} {counter timestamp : Nat}
    {proofId sessionId : Bytes} :
    (P.statement outcome tenant counter timestamp proofId sessionId).success = true ↔
      ∃ commitment processor upstreamResp,
        outcome = .succeeded commitment processor upstreamResp := by
  cases outcome <;> simp [Platform.statement]

theorem zeroizationReport_wiped (inputWiped responseReturned : Bool) :
    (Platform.zeroizationReport inputWiped responseReturned).get? "input_buffer_wiped" =
      some (.bool inputWiped) :=
  object_get? (by simp) _

theorem FailsAt.unique (hexpands : Expands P) {code code' : String} (h : FailsAt P body code)
    (h' : FailsAt P body code') : code = code' := by
  obtain ⟨_, _, _, hfailed, _⟩ := decideTraced_of_failsAt hexpands h
  obtain ⟨_, _, _, hfailed', _⟩ := decideTraced_of_failsAt hexpands h'
  rw [hfailed] at hfailed'
  cases hfailed'
  rfl

theorem FailsAt.not_accepts (hexpands : Expands P) {code : String} (h : FailsAt P body code) :
    ¬ Accepts P body := by
  intro haccepts
  obtain ⟨_, _, _, _, hsucceeded⟩ := decideTraced_of_accepts hexpands haccepts
  obtain ⟨_, _, _, hfailed, _⟩ := decideTraced_of_failsAt hexpands h
  cases (Prod.mk.inj (hsucceeded.symm.trans hfailed)).1

theorem pipeline_decides (P : Platform) (hexpands : Expands P) (s : State) (body : Bytes)
    (tenant : String) :
    (∀ now proofId sessionId nowHead totalUs, ∃ s' proof response,
      Run P.step s [.request body tenant, .fetchAdd s.sessions.length,
        .signProof s.sessions.length now proofId sessionId,
        .append s.sessions.length nowHead totalUs] s' ∧
      s'.sessions[s.sessions.length]? = some ⟨body, tenant, .done proof response⟩) ∧
    ∀ es s' session proof response, Run P.step s (.request body tenant :: es) s' →
      s'.sessions[s.sessions.length]? = some session → session.stage = .done proof response →
      signings s.sessions.length es = 1 ∧ Message.proof proof.statement ∈ s'.signed ∧
      (proof.statement.success = true ↔ Accepts P body) ∧
      (¬ Accepts P body → ∃ code wiped, (∀ c, FailsAt P body c ↔ c = code) ∧
        proof.statement.errorCode = some code ∧
        (P.decideTraced body).2 = [] ∧
        proof.statement.resultHashHex = none ∧
        proof.statement.zeroizationReport.get? "input_buffer_wiped" = some (.bool wiped) ∧
        (wiped = true ↔ Opened P body)) := by
  refine ⟨call_completes P s body tenant, ?_⟩
  intro es s' session proof response hrun hfound hdone
  obtain ⟨session', hprogress⟩ := progress_run hrun
  obtain rfl := Option.some.inj (hfound.symm.trans hprogress.found)
  obtain ⟨hone, hmem, counter, now, proofId, sessionId, rfl⟩ :=
    hprogress.signed proof (by rw [hdone]; rfl)
  have hstatement : ∀ statement, (P.signProof statement).statement = statement := fun _ => rfl
  refine ⟨hone, hmem, ?_, ?_⟩
  · rw [hstatement, statement_succeeded]
    constructor
    · rintro ⟨commitment, processor, upstreamResp, hsucceeded⟩
      rcases accepts_or_failsAt P body with haccepts | ⟨code, hfails⟩
      · exact haccepts
      · obtain ⟨_, _, _, hfailed, _⟩ := decideTraced_of_failsAt hexpands hfails
        rw [← P.decideTraced_fst, hfailed] at hsucceeded
        cases hsucceeded
    · intro haccepts
      obtain ⟨commitment, processor, upstreamResp, _, hsucceeded⟩ :=
        decideTraced_of_accepts hexpands haccepts
      exact ⟨commitment, processor, upstreamResp, by rw [← P.decideTraced_fst, hsucceeded]⟩
  · intro hrejected
    obtain ⟨code, hfails⟩ := (accepts_or_failsAt P body).resolve_left hrejected
    obtain ⟨commitment, processor, wiped, hfailed, hwiped⟩ := decideTraced_of_failsAt hexpands hfails
    have hdecide : P.decide body = .failed code commitment processor wiped := by
      rw [← P.decideTraced_fst, hfailed]
    rw [hstatement, hdecide, hfailed]
    refine ⟨code, wiped, ?_, rfl, rfl, rfl, zeroizationReport_wiped wiped false, hwiped⟩
    intro c
    constructor
    · exact fun h => h.unique hexpands hfails
    · rintro rfl
      exact hfails

theorem expands_sample (requests : List InferenceRequest) : Expands (samplePlatform requests) := by
  intro salt ikm info n _
  exact ⟨List.replicate n 0, rfl, List.length_replicate⟩

/-- The request of a client that names this processor. -/
def processorRequest (processor : String) : InferenceRequest :=
  sampleRequest [0x61] [0x62] "default" processor

theorem opens_processorRequest (requests : List InferenceRequest) (processor : String) :
    AeadOpens (samplePlatform requests) (processorRequest processor) [0x61] :=
  ⟨List.replicate 32 3, [0x61], List.replicate 24 4,
    ⟨hexDecode_hexEncode _, hexDecode_hexEncode _, hexDecode_hexEncode _, List.length_replicate,
      List.length_replicate⟩, rfl⟩

/-- A request for the gateway is accepted; one for another processor is opened, and denied by the
policy. -/
theorem pipeline_decides_processors : ∃ (s s' : State) (accepted denied : SignedProof),
    Message.proof accepted.statement ∈ s.signed ∧ accepted.statement.success = true ∧
    Message.proof denied.statement ∈ s'.signed ∧ denied.statement.success = false ∧
    denied.statement.errorCode = some "processor_not_allowed" ∧
    denied.statement.zeroizationReport.get? "input_buffer_wiped" = some (.bool true) := by
  let requests := [processorRequest "gateway", processorRequest "elsewhere"]
  have hparse : ∀ req ∈ requests,
      (samplePlatform requests).parseRequest (toVec req.toJson) = some req :=
    fun _ => sample_parseRequest
  have hopens := opens_processorRequest requests
  have hcommitment : ∀ processor, commitmentOf (samplePlatform requests) (processorRequest processor)
      [0x61] [0x62] = (processorRequest processor).commitmentHex := fun _ => rfl
  have haccepts : Accepts (samplePlatform requests) (toVec (processorRequest "gateway").toJson) :=
    ⟨_, [0x61], [0x62], hparse _ (by simp [requests]), hopens _, hexDecode_hexEncode _,
      hcommitment _, rfl⟩
  have hdenied : FailsAt (samplePlatform requests) (toVec (processorRequest "elsewhere").toJson)
      "processor_not_allowed" :=
    .policy (hparse _ (by simp [requests])) (hopens _) (hexDecode_hexEncode _) (hcommitment _) rfl
  have hrejected : ¬ Accepts (samplePlatform requests)
      (toVec (processorRequest "elsewhere").toJson) :=
    hdenied.not_accepts (expands_sample requests)
  have hopened : Opened (samplePlatform requests) (toVec (processorRequest "elsewhere").toJson) :=
    ⟨_, _, hparse _ (by simp [requests]), hopens _⟩
  have hcall := pipeline_decides (samplePlatform requests) (expands_sample requests) State.boot
  obtain ⟨s, proof, response, hrun, hfound⟩ :=
    (hcall (toVec (processorRequest "gateway").toJson) "demo").1 0 [] [] 0 0
  obtain ⟨_, hmem, hsuccess, _⟩ := (hcall _ "demo").2 _ s _ proof response hrun hfound rfl
  obtain ⟨s', proof', response', hrun', hfound'⟩ :=
    (hcall (toVec (processorRequest "elsewhere").toJson) "demo").1 0 [] [] 0 0
  obtain ⟨_, hmem', hsuccess', hfailure⟩ :=
    (hcall _ "demo").2 _ s' _ proof' response' hrun' hfound' rfl
  obtain ⟨code, wiped, hcode, herror, _, _, hreport, hwiped⟩ := hfailure hrejected
  refine ⟨s, s', proof, proof', hmem, hsuccess.mpr haccepts, hmem', ?_, ?_, ?_⟩
  · rw [← Bool.not_eq_true, hsuccess']
    exact hrejected
  · rw [herror, (hcode _).mp hdenied]
  · rw [hreport, hwiped.mpr hopened]

end Audit
end Pzdr
