import Pzdr.Enclave.Machine

/-!
# Enclave.Invariant

What holds in every state the enclave can reach, in any interleaving.

* `Consistent`: the ledger holds the hashes of its entries, every checkpoint that was signed is the
  head of the first `size` of them, every entry is the proof of a finished request, and the signed
  statements are those of the sessions.
* `reachable_consistent`: all runs keep it.
* `entries_run`: the entries are only ever appended to.
-/

namespace Pzdr
namespace Enclave

namespace TransparencyLog

variable {H : Type} (S : LogHash H)

/-- An append leaves every earlier head as it was. -/
theorem rootAt_append {log : TransparencyLog H} {entry : Bytes} {size : Nat} {root : H}
    (h : log.rootAt S size = some root) : (log.append S entry).1.rootAt S size = some root := by
  rw [rootAt] at h ⊢
  split at h
  · rename_i hle
    rw [append, if_pos (by simp; omega), List.take_append_of_le_length hle]
    exact h
  · cases h

theorem rootAt_size (log : TransparencyLog H) : log.rootAt S log.size = some (log.root S) := by
  rw [rootAt, size, if_pos (Nat.le_refl _), List.take_length, root]

theorem le_size_of_rootAt {log : TransparencyLog H} {size : Nat} {root : H}
    (h : log.rootAt S size = some root) : size ≤ log.size := by
  rw [rootAt] at h
  split at h
  · assumption
  · cases h

theorem size_append (log : TransparencyLog H) (entry : Bytes) :
    (log.append S entry).1.size = log.size + 1 := by
  simp [append, size]

end TransparencyLog

variable {P : Platform}

/-! ## Sessions -/

/-- The proof of a session that has signed one. -/
def Stage.proof? : Stage → Option SignedProof
  | .signed proof => some proof
  | .done proof _ => some proof
  | _ => none

/-- The proof of a session is the one signed for what was decided about its body. -/
def Session.Honest (P : Platform) (session : Session) : Prop :=
  ∀ proof, session.stage.proof? = some proof → ∃ counter now proofId sessionId,
    proof = P.signProof
      (P.statement (P.decide session.body) session.tenant counter now proofId sessionId)

/-- The session has signed this statement. -/
def Session.Proves (session : Session) (statement : ProofStatement) : Prop :=
  ∃ proof, session.stage.proof? = some proof ∧ proof.statement = statement

/-- The session of an entry: it is done, and this is its proof. -/
def Session.Recorded (session : Session) (proof : SignedProof) : Prop :=
  ∃ response, session.stage = .done proof response

/-- The session was answered with its proof and with a receipt, for a head of the ledger that was
signed and has the proof under it. -/
def Session.Answered (P : Platform) (s : State) (session : Session) : Prop :=
  ∀ proof response, session.stage = .done proof response → ∃ ledger index now totalUs receipt,
    ledger.leaves <+: s.ledger.leaves ∧
    ledger.leafAt index = some (P.sha.log.leafHash (Platform.entryBytes proof)) ∧
    P.headMessage .append ledger now ∈ s.signed ∧
    P.inclusionAnswer ledger index now = some receipt ∧
    response = Platform.response (P.decide session.body) proof receipt totalUs

theorem Session.Answered.mono {s s' : State} {session : Session} (h : session.Answered P s)
    (hleaves : s.ledger.leaves <+: s'.ledger.leaves) (hsigned : s.signed ⊆ s'.signed) :
    session.Answered P s' := by
  intro proof response hd
  obtain ⟨ledger, index, now, totalUs, receipt, hl, hleaf, hm, hr⟩ := h proof response hd
  exact ⟨ledger, index, now, totalUs, receipt, hl.trans hleaves, hleaf, hsigned hm, hr⟩

theorem mem_set_of_getElem? {α : Type*} {xs : List α} {i : Nat} {x y z : α}
    (hi : xs[i]? = some x) (hz : z ∈ xs) (hne : z ≠ x) : z ∈ xs.set i y := by
  obtain ⟨j, hj⟩ := List.mem_iff_getElem?.mp hz
  have hij : i ≠ j := by
    intro h
    subst h
    rw [hi, Option.some.injEq] at hj
    exact hne hj.symm
  exact List.mem_iff_getElem?.mpr ⟨j, by rw [List.getElem?_set_ne hij, hj]⟩

theorem mem_set_self_of_getElem? {α : Type*} {xs : List α} {i : Nat} {x y : α}
    (hi : xs[i]? = some x) : y ∈ xs.set i y := by
  obtain ⟨hlt, _⟩ := List.getElem?_eq_some_iff.mp hi
  exact List.mem_iff_getElem?.mpr ⟨i, by rw [List.getElem?_set_self hlt]⟩

theorem forall_mem_set {α : Type*} {xs : List α} {i : Nat} {y : α} {q : α → Prop}
    (h : ∀ x ∈ xs, q x) (hy : q y) : ∀ x ∈ xs.set i y, q x := by
  intro x hx
  rcases List.mem_or_eq_of_mem_set hx with hx | rfl
  · exact h x hx
  · exact hy

/-! ## The invariant -/

structure Consistent (P : Platform) (s : State) : Prop where
  leaves : s.ledger.leaves = s.entries.map (fun p => P.sha.log.leafHash (Platform.entryBytes p))
  heads : ∀ origin c, Message.checkpoint origin c ∈ s.signed → ∃ root,
    s.ledger.rootAt P.sha.log c.size = some root ∧ c.rootHex = hexEncode root
  sessions : ∀ session ∈ s.sessions, session.Honest P
  entries : ∀ proof ∈ s.entries, ∃ session ∈ s.sessions, session.Recorded proof
  proofs : ∀ statement, Message.proof statement ∈ s.signed ↔
    ∃ session ∈ s.sessions, session.Proves statement
  answers : ∀ session ∈ s.sessions, session.Answered P s

theorem consistent_boot : Consistent P State.boot := by
  constructor
  · rfl
  · intro origin c h
    cases h
  · intro session h
    cases h
  · intro proof h
    cases h
  · intro statement
    simp [State.boot]
  · intro session h
    cases h

theorem Consistent.size_eq {s : State} (h : Consistent P s) :
    s.entries.length = s.ledger.size := by
  rw [TransparencyLog.size, h.leaves, List.length_map]

theorem Consistent.wellFormed {s : State} (h : Consistent P s) {statement : ProofStatement}
    (hm : .proof statement ∈ s.signed) : statement.WellFormed := by
  obtain ⟨session, hs, proof, hp, rfl⟩ := (h.proofs statement).mp hm
  obtain ⟨_, _, _, _, rfl⟩ := h.sessions session hs proof hp
  exact P.statement_wellFormed _ _ _ _ _ _

/-- A session that is not done can change without an entry losing its session. -/
theorem recorded_set {s : State} (h : Consistent P s) {sid : Nat} {session session' : Session}
    (hs : s.sessions[sid]? = some session)
    (hstage : ∀ proof response, session.stage ≠ .done proof response) :
    ∀ proof ∈ s.entries, ∃ x ∈ s.sessions.set sid session', x.Recorded proof := by
  intro proof hp
  obtain ⟨x, hx, response, hr⟩ := h.entries proof hp
  refine ⟨x, mem_set_of_getElem? hs hx ?_, response, hr⟩
  intro heq
  rw [heq] at hr
  exact hstage proof response hr

/-- A session that keeps its proof keeps the statements of all. -/
theorem proves_set {xs : List Session} {sid : Nat} {session session' : Session}
    (hs : xs[sid]? = some session) (hkeep : session'.stage.proof? = session.stage.proof?)
    (statement : ProofStatement) : (∃ x ∈ xs.set sid session', x.Proves statement) ↔
      ∃ x ∈ xs, x.Proves statement := by
  constructor
  · rintro ⟨x, hx, hp⟩
    rcases List.mem_or_eq_of_mem_set hx with hx | rfl
    · exact ⟨x, hx, hp⟩
    · rw [Session.Proves, hkeep] at hp
      exact ⟨session, List.mem_of_getElem? hs, hp⟩
  · rintro ⟨x, hx, hp⟩
    by_cases heq : x = session
    · subst heq
      rw [Session.Proves, ← hkeep] at hp
      exact ⟨session', mem_set_self_of_getElem? hs, hp⟩
    · exact ⟨x, mem_set_of_getElem? hs hx heq, hp⟩

/-- A session that signs its proof adds the statement. -/
theorem proves_set_signed {xs : List Session} {sid : Nat} {session session' : Session}
    {proof : SignedProof} (hs : xs[sid]? = some session) (hnone : session.stage.proof? = none)
    (hsome : session'.stage.proof? = some proof) (statement : ProofStatement) :
    (∃ x ∈ xs.set sid session', x.Proves statement) ↔
      (∃ x ∈ xs, x.Proves statement) ∨ statement = proof.statement := by
  constructor
  · rintro ⟨x, hx, hp⟩
    rcases List.mem_or_eq_of_mem_set hx with hx | rfl
    · exact .inl ⟨x, hx, hp⟩
    · obtain ⟨proof', hp', rfl⟩ := hp
      rw [hsome, Option.some.injEq] at hp'
      exact .inr (by rw [hp'])
  · rintro (⟨x, hx, proof', hp, rfl⟩ | rfl)
    · refine ⟨x, mem_set_of_getElem? hs hx ?_, proof', hp, rfl⟩
      intro heq
      rw [heq, hnone] at hp
      cases hp
    · exact ⟨session', mem_set_self_of_getElem? hs, proof, hsome, rfl⟩

/-- Signing heads of the ledger keeps the invariant. -/
theorem Consistent.sign {s : State} (h : Consistent P s) {ms : List Message}
    (hms : ∀ m ∈ ms, ∃ origin c root, m = .checkpoint origin c ∧
      s.ledger.rootAt P.sha.log c.size = some root ∧ c.rootHex = hexEncode root) :
    Consistent P { s with signed := s.signed ++ ms } := by
  refine ⟨h.leaves, ?_, h.sessions, h.entries, ?_, ?_⟩
  · intro origin c hm
    rcases List.mem_append.mp hm with hm | hm
    · exact h.heads origin c hm
    · obtain ⟨origin', c', root, heq, hroot⟩ := hms _ hm
      cases heq
      exact ⟨root, hroot⟩
  · intro statement
    rw [← h.proofs statement, List.mem_append]
    refine or_iff_left ?_
    intro hm
    obtain ⟨_, _, _, heq, _⟩ := hms _ hm
    cases heq
  · intro session hs
    exact (h.answers session hs).mono List.prefix_rfl (List.subset_append_left _ _)

theorem headMessage_spec (origin : Origin) (ledger : TransparencyLog Bytes) (now : Nat) :
    ∃ origin' c root, P.headMessage origin ledger now = .checkpoint origin' c ∧
      ledger.rootAt P.sha.log c.size = some root ∧ c.rootHex = hexEncode root :=
  ⟨origin, _, ledger.root P.sha.log, rfl, ledger.rootAt_size P.sha.log, rfl⟩

/-- The queries of the ledger. -/
def Event.IsQuery : Event → Prop
  | .ledgerRoot _ => True
  | .ledgerProof _ _ => True
  | .ledgerConsistency _ _ _ => True
  | _ => False

/-- A query only signs heads of the ledger. -/
theorem step_query {s s' : State} {e : Event} (hstep : P.step s e = some s') (hq : e.IsQuery) :
    ∃ ms, s' = { s with signed := s.signed ++ ms } ∧ ∀ m ∈ ms, ∃ origin c root,
      m = .checkpoint origin c ∧ s.ledger.rootAt P.sha.log c.size = some root ∧
        c.rootHex = hexEncode root := by
  have hsame : s = { s with signed := s.signed ++ [] } := by rw [List.append_nil]
  cases e with
  | request body tenant => cases hq
  | fetchAdd sid => cases hq
  | signProof sid now proofId sessionId => cases hq
  | append sid now totalUs => cases hq
  | ledgerRoot now =>
    cases hstep
    refine ⟨_, rfl, ?_⟩
    rw [List.forall_mem_singleton]
    exact headMessage_spec _ _ _
  | ledgerProof idx now =>
    rcases Platform.step_ledgerProof hstep with rfl | rfl
    · exact ⟨[], hsame, by simp⟩
    · refine ⟨_, rfl, ?_⟩
      rw [List.forall_mem_singleton]
      exact headMessage_spec _ _ _
  | ledgerConsistency fromSize nowFrom nowTo =>
    rcases Platform.step_ledgerConsistency hstep with rfl | ⟨fromRoot, hroot, rfl⟩
    · exact ⟨[], hsame, by simp⟩
    · refine ⟨_, rfl, ?_⟩
      rw [List.forall_mem_cons, List.forall_mem_singleton]
      exact ⟨⟨_, _, fromRoot, rfl, hroot, rfl⟩, headMessage_spec _ _ _⟩

theorem Consistent.fetchAdd {s s' : State} (h : Consistent P s) {sid : Nat}
    (hstep : P.step s (.fetchAdd sid) = some s') : Consistent P s' := by
  obtain ⟨session, hs, hstage, rfl⟩ := Platform.step_fetchAdd hstep
  refine ⟨h.leaves, h.heads, forall_mem_set h.sessions ?_, recorded_set h hs ?_, ?_,
    forall_mem_set (fun x hx => (h.answers x hx).mono List.prefix_rfl (List.Subset.refl _)) ?_⟩
  · intro proof hp
    cases hp
  · intro proof response hd
    rw [hd] at hstage
    cases hstage
  · intro statement
    refine (h.proofs statement).trans (proves_set hs ?_ statement).symm
    rw [hstage]
    rfl
  · intro proof response hd
    cases hd

theorem Consistent.signProof {s s' : State} (h : Consistent P s) {sid now : Nat}
    {proofId sessionId : Bytes}
    (hstep : P.step s (.signProof sid now proofId sessionId) = some s') : Consistent P s' := by
  obtain ⟨session, counter, hs, hstage, rfl⟩ := Platform.step_signProof hstep
  refine ⟨h.leaves, ?_, forall_mem_set h.sessions ?_, recorded_set h hs ?_, ?_,
    forall_mem_set (fun x hx => (h.answers x hx).mono List.prefix_rfl
      (List.subset_append_left _ _)) ?_⟩
  · intro origin c hm
    simp only [List.mem_append, List.mem_singleton, reduceCtorEq, or_false] at hm
    exact h.heads origin c hm
  · intro proof hp
    cases hp
    exact ⟨counter, now, proofId, sessionId, rfl⟩
  · intro proof response hd
    rw [hd] at hstage
    cases hstage
  · intro statement
    have hproof : ∀ proof, Stage.proof? (.signed proof) = some proof := fun _ => rfl
    refine Iff.trans ?_ (proves_set_signed hs ?_ (hproof _) statement).symm
    · rw [← h.proofs statement, List.mem_append, List.mem_singleton, Message.proof.injEq]
      rfl
    · rw [hstage]
      rfl
  · intro proof response hd
    cases hd

theorem Consistent.append {s s' : State} (h : Consistent P s) {sid now totalUs : Nat}
    (hstep : P.step s (.append sid now totalUs) = some s') : Consistent P s' := by
  obtain ⟨session, proof, receipt, hs, hstage, hr, rfl⟩ := Platform.step_append hstep
  refine ⟨?_, ?_, forall_mem_set h.sessions ?_, ?_, ?_,
    forall_mem_set (fun x hx => (h.answers x hx).mono (List.prefix_append _ _)
      (List.subset_append_left _ _)) ?_⟩
  · simp only [TransparencyLog.append, h.leaves, List.map_append, List.map_cons, List.map_nil]
  · intro origin c hm
    rcases List.mem_append.mp hm with hm | hm
    · obtain ⟨root, hroot, hhex⟩ := h.heads origin c hm
      exact ⟨root, TransparencyLog.rootAt_append _ hroot, hhex⟩
    · rw [List.mem_singleton] at hm
      cases hm
      exact ⟨_, TransparencyLog.rootAt_size _ _, rfl⟩
  · intro proof' hp
    cases hp
    exact h.sessions session (List.mem_of_getElem? hs) proof (by rw [hstage]; rfl)
  · intro p hp
    rcases List.mem_append.mp hp with hp | hp
    · refine recorded_set h hs ?_ p hp
      intro proof' response hd
      rw [hd] at hstage
      cases hstage
    · rw [List.mem_singleton] at hp
      subst hp
      exact ⟨_, mem_set_self_of_getElem? hs, _, rfl⟩
  · intro statement
    refine Iff.trans ?_ (proves_set hs ?_ statement).symm
    · rw [← h.proofs statement, List.mem_append, List.mem_singleton]
      refine or_iff_left ?_
      intro hm
      cases hm
    · rw [hstage]
      rfl
  · intro proof' response hd
    cases hd
    refine ⟨_, _, now, totalUs, receipt, List.prefix_rfl, ?_, List.mem_append_right _ (List.mem_singleton.mpr rfl),
      hr, rfl⟩
    simp [TransparencyLog.leafAt, TransparencyLog.append, TransparencyLog.size]

theorem Consistent.step {s s' : State} {e : Event} (h : Consistent P s)
    (hstep : P.step s e = some s') : Consistent P s' := by
  cases e with
  | request body tenant =>
    cases hstep
    refine ⟨h.leaves, h.heads, ?_, ?_, ?_, ?_⟩
    · rw [List.forall_mem_append]
      refine ⟨h.sessions, ?_⟩
      intro session hs proof hp
      rw [List.mem_singleton] at hs
      subst hs
      cases hp
    · intro proof hp
      obtain ⟨session, hs, hr⟩ := h.entries proof hp
      exact ⟨session, List.mem_append_left _ hs, hr⟩
    · intro statement
      rw [h.proofs statement]
      constructor
      · rintro ⟨session, hs, hp⟩
        exact ⟨session, List.mem_append_left _ hs, hp⟩
      · rintro ⟨session, hs, hp⟩
        rcases List.mem_append.mp hs with hs | hs
        · exact ⟨session, hs, hp⟩
        · rw [List.mem_singleton] at hs
          subst hs
          obtain ⟨_, hp, _⟩ := hp
          cases hp
    · rw [List.forall_mem_append]
      refine ⟨fun session hs => (h.answers session hs).mono List.prefix_rfl
        (List.Subset.refl _), ?_⟩
      intro session hs proof response hd
      rw [List.mem_singleton] at hs
      subst hs
      cases hd
  | fetchAdd sid => exact h.fetchAdd hstep
  | signProof sid now proofId sessionId => exact h.signProof hstep
  | append sid now totalUs => exact h.append hstep
  | _ =>
    obtain ⟨ms, rfl, hms⟩ := step_query hstep trivial
    exact h.sign hms

/-- The entries are only ever appended to. -/
theorem entries_step {s s' : State} {e : Event} (hstep : P.step s e = some s') :
    s.entries <+: s'.entries := by
  cases e with
  | request body tenant =>
    cases hstep
    exact List.prefix_rfl
  | fetchAdd sid =>
    obtain ⟨_, _, _, rfl⟩ := Platform.step_fetchAdd hstep
    exact List.prefix_rfl
  | signProof sid now proofId sessionId =>
    obtain ⟨_, _, _, _, rfl⟩ := Platform.step_signProof hstep
    exact List.prefix_rfl
  | append sid now totalUs =>
    obtain ⟨_, _, _, _, _, _, rfl⟩ := Platform.step_append hstep
    exact List.prefix_append _ _
  | _ =>
    obtain ⟨ms, rfl, _⟩ := step_query hstep trivial
    exact List.prefix_rfl

theorem entries_run {s s' : State} {es : List Event} (h : Run P.step s es s') :
    s.entries <+: s'.entries :=
  h.invariant (I := fun t => s.entries <+: t.entries) List.prefix_rfl
    (fun _ _ _ hstep hpre => hpre.trans (entries_step hstep))

theorem reachable_consistent {es : List Event} {s : State}
    (h : Run P.step State.boot es s) : Consistent P s :=
  h.invariant consistent_boot (fun _ _ _ hstep hs => hs.step hstep)

end Enclave
end Pzdr
