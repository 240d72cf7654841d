import Pzdr.Enclave.Invariant
import Pzdr.Ticket

/-!
# Enclave.Sessions

The sessions of a run: the counters they take, the entries they append and the receipts they get.

* `tickets_run`: with fewer than `2^64` sessions the counter does not wrap, and the sessions are the
  clients of a ticket desk.
* `Numbered`: every finished session has one entry, and its receipt has the index of this entry.
* `reachable_numbered`: all runs keep it.
-/

namespace Pzdr
namespace Enclave

variable {P : Platform}

theorem statement_counter (outcome : Outcome) (tenant : String) (counter timestamp : Nat)
    (proofId sessionId : Bytes) :
    (P.statement outcome tenant counter timestamp proofId sessionId).counter = counter := by
  cases outcome <;> rfl

/-! ## The ticket desk -/

def Session.client (session : Session) : Ticket.Client :=
  match session.stage with
  | .received => .waiting
  | .counted counter => .holding counter
  | .signed proof => .holding proof.statement.counter
  | .done proof _ => .recorded proof.statement.counter

/-- The counters of a state. -/
def tickets (s : State) : Ticket.Desk where
  issued := s.counter
  clients := s.sessions.map Session.client
  log := s.entries.map (fun proof => proof.statement.counter)

def ticketEvent? : Event → Option Ticket.Event
  | .request _ _ => some .arrive
  | .fetchAdd sid => some (.draw sid)
  | .append sid _ _ => some (.record sid)
  | _ => none

theorem clients_getElem? {s : State} {sid : Nat} {session : Session}
    (hs : s.sessions[sid]? = some session) : (tickets s).clients[sid]? = some session.client := by
  rw [tickets, List.getElem?_map, hs]
  rfl

theorem length_clients (s : State) : (tickets s).clients.length = s.sessions.length := by
  rw [tickets, List.length_map]

/-- The counter does not wrap while a session has yet to take it. -/
theorem counter_succ_mod {s : State} {sid : Nat} {session : Session}
    (hi : Ticket.Issued (tickets s)) (hN : s.sessions.length < 2 ^ 64)
    (hs : s.sessions[sid]? = some session) (hstage : session.stage = .received) :
    (s.counter + 1) % 2 ^ 64 = s.counter + 1 := by
  have hwaiting : (tickets s).clients[sid]? = some .waiting := by
    rw [clients_getElem? hs, Session.client, hstage]
  have hlt := hi.issued_lt hwaiting
  rw [length_clients] at hlt
  have hcounter : (tickets s).issued = s.counter := rfl
  exact Nat.mod_eq_of_lt (by omega)

/-- A step of the enclave is a step of the desk, or leaves the desk as it is. -/
theorem tickets_step {s s' : State} {e : Event} (hi : Ticket.Issued (tickets s))
    (hN : s.sessions.length < 2 ^ 64) (hstep : P.step s e = some s') :
    (ticketEvent? e = none ∧ tickets s' = tickets s) ∨
      ∃ v, ticketEvent? e = some v ∧ Ticket.step (tickets s) v = some (tickets s') := by
  cases e with
  | request body tenant =>
    cases hstep
    refine .inr ⟨_, rfl, ?_⟩
    simp [Ticket.step, tickets, Session.client]
  | fetchAdd sid =>
    obtain ⟨session, hs, hstage, rfl⟩ := Platform.step_fetchAdd hstep
    refine .inr ⟨_, rfl, ?_⟩
    rw [counter_succ_mod hi hN hs hstage, Ticket.step, clients_getElem? hs, Session.client, hstage]
    simp [tickets, Platform.setStage, Session.client]
  | signProof sid now proofId sessionId =>
    obtain ⟨session, counter, hs, hstage, rfl⟩ := Platform.step_signProof hstep
    refine .inl ⟨rfl, ?_⟩
    have hget := clients_getElem? hs
    rw [Session.client, hstage] at hget
    obtain ⟨hlt, hget⟩ := List.getElem?_eq_some_iff.mp hget
    have hkeep := List.set_getElem_self hlt
    rw [hget] at hkeep
    simp only [tickets, Platform.setStage, Session.client, Platform.signProof, List.map_set,
      statement_counter]
    congr 1
  | append sid now totalUs =>
    obtain ⟨session, proof, receipt, hs, hstage, _, rfl⟩ := Platform.step_append hstep
    refine .inr ⟨_, rfl, ?_⟩
    rw [Ticket.step, clients_getElem? hs, Session.client, hstage]
    simp [tickets, Platform.setStage, Session.client]
  | _ =>
    obtain ⟨ms, rfl, _⟩ := step_query hstep trivial
    exact .inl ⟨rfl, rfl⟩

/-- Sessions are not lost. -/
theorem length_sessions_le {s s' : State} {e : Event} (hstep : P.step s e = some s') :
    s.sessions.length ≤ s'.sessions.length := by
  cases e with
  | request body tenant =>
    cases hstep
    simp
  | fetchAdd sid =>
    obtain ⟨_, _, _, rfl⟩ := Platform.step_fetchAdd hstep
    simp [Platform.setStage]
  | signProof sid now proofId sessionId =>
    obtain ⟨_, _, _, _, rfl⟩ := Platform.step_signProof hstep
    simp [Platform.setStage]
  | append sid now totalUs =>
    obtain ⟨_, _, _, _, _, _, rfl⟩ := Platform.step_append hstep
    simp [Platform.setStage]
  | _ =>
    obtain ⟨ms, rfl, _⟩ := step_query hstep trivial
    exact Nat.le_refl _

theorem tickets_run {s s' : State} {es : List Event} (hi : Ticket.Issued (tickets s))
    (hrun : Run P.step s es s') (hN : s'.sessions.length < 2 ^ 64) :
    Run Ticket.step (tickets s) (es.filterMap ticketEvent?) (tickets s') := by
  induction hrun with
  | nil => exact .nil
  | snoc run hstep ih =>
    have hN' := (length_sessions_le hstep).trans_lt hN
    have hrun' := ih hN'
    rw [List.filterMap_append]
    have hissued := hrun'.invariant hi (fun _ _ _ hstep hd => hd.step hstep)
    rcases tickets_step hissued hN' hstep with ⟨hnone, heq⟩ | ⟨v, hsome, hv⟩
    · rw [List.filterMap_cons_none hnone, List.filterMap_nil, List.append_nil, heq]
      exact hrun'
    · rw [List.filterMap_cons_some hsome, List.filterMap_nil]
      exact hrun'.snoc hv

theorem reachable_tickets {es : List Event} {s : State} (h : Run P.step State.boot es s)
    (hN : s.sessions.length < 2 ^ 64) : Ticket.Issued (tickets s) := by
  have hboot : Ticket.Issued (tickets State.boot) := Ticket.issued_empty
  exact Ticket.reachable_issued (tickets_run hboot h hN)

/-! ## Entries and receipts -/

/-- The proof of a session that has been answered. -/
def Session.finished? (session : Session) : Option SignedProof :=
  match session.stage with
  | .done proof _ => some proof
  | _ => none

/-- The receipt in the answer of a session has the index and the leaf hash of its proof. -/
def Session.Indexed (P : Platform) (s : State) (session : Session) : Prop :=
  ∀ proof response, session.stage = .done proof response → ∃ (receipt : Json) (index : Nat),
    response.get? "receipt" = some receipt ∧ receipt.get? "index" = some (.num index) ∧
    receipt.get? "leaf_hash_hex" =
      some (.str (hexEncode (P.sha.log.leafHash (Platform.entryBytes proof)))) ∧
    s.entries[index]? = some proof

theorem Session.Indexed.mono {P : Platform} {s s' : State} {session : Session}
    (h : session.Indexed P s) (hentries : s.entries <+: s'.entries) : session.Indexed P s' := by
  intro proof response hd
  obtain ⟨receipt, index, hr, hi, hl, he⟩ := h proof response hd
  obtain ⟨rest, hrest⟩ := hentries
  refine ⟨receipt, index, hr, hi, hl, ?_⟩
  rw [← hrest, List.getElem?_append_left (List.getElem?_eq_some_iff.mp he).1]
  exact he

structure Numbered (P : Platform) (s : State) : Prop where
  finished : (s.sessions.filterMap Session.finished?).Perm s.entries
  indexed : ∀ session ∈ s.sessions, session.Indexed P s

theorem numbered_boot : Numbered P State.boot := by
  constructor
  · exact List.Perm.refl _
  · intro session h
    cases h

theorem finished_set {xs : List Session} {sid : Nat} {session session' : Session}
    (hs : xs[sid]? = some session) (hkeep : session'.finished? = session.finished?) :
    ((xs.set sid session').filterMap Session.finished?).Perm
      (xs.filterMap Session.finished?) := by
  obtain ⟨rest, hold, hnew⟩ := Ticket.filterMap_set_perm Session.finished? hs session'
  rw [hkeep] at hnew
  exact hnew.trans hold.symm

theorem Numbered.fetchAdd {s s' : State} (h : Numbered P s) {sid : Nat}
    (hstep : P.step s (.fetchAdd sid) = some s') : Numbered P s' := by
  obtain ⟨session, hs, hstage, rfl⟩ := Platform.step_fetchAdd hstep
  refine ⟨(finished_set hs ?_).trans h.finished,
    forall_mem_set (fun x hx => (h.indexed x hx).mono List.prefix_rfl) ?_⟩
  · rw [Session.finished?, Session.finished?, hstage]
  · intro proof response hd
    cases hd

theorem Numbered.signProof {s s' : State} (h : Numbered P s) {sid now : Nat}
    {proofId sessionId : Bytes}
    (hstep : P.step s (.signProof sid now proofId sessionId) = some s') : Numbered P s' := by
  obtain ⟨session, counter, hs, hstage, rfl⟩ := Platform.step_signProof hstep
  refine ⟨(finished_set hs ?_).trans h.finished,
    forall_mem_set (fun x hx => (h.indexed x hx).mono List.prefix_rfl) ?_⟩
  · rw [Session.finished?, Session.finished?, hstage]
  · intro proof response hd
    cases hd

theorem Numbered.append {s s' : State} (hc : Consistent P s) (h : Numbered P s)
    {sid now totalUs : Nat} (hstep : P.step s (.append sid now totalUs) = some s') :
    Numbered P s' := by
  obtain ⟨session, proof, receipt, hs, hstage, hr, rfl⟩ := Platform.step_append hstep
  refine ⟨?_, forall_mem_set (fun x hx => (h.indexed x hx).mono (List.prefix_append _ _)) ?_⟩
  · obtain ⟨rest, hold, hnew⟩ := Ticket.filterMap_set_perm Session.finished? hs
      { session with
        stage := .done proof (Platform.response (P.decide session.body) proof receipt totalUs) }
    have hnone : session.finished? = none := by rw [Session.finished?, hstage]
    rw [hnone] at hold
    refine hnew.trans ?_
    show (proof :: rest).Perm (s.entries ++ [proof])
    exact (List.perm_append_singleton _ _).symm.trans
      ((hold.symm.trans h.finished).append_right _)
  · intro proof' response hd
    cases hd
    simp only [Platform.inclusionAnswer, Option.bind_eq_bind, Option.bind_eq_some_iff,
      Option.pure_def, Option.some.injEq] at hr
    obtain ⟨leaf, hleaf, path, _, rfl⟩ := hr
    have hlast : leaf = P.sha.log.leafHash (Platform.entryBytes proof) := by
      simpa [TransparencyLog.leafAt, TransparencyLog.append, TransparencyLog.size] using hleaf.symm
    refine ⟨_, s.ledger.size, Platform.response_get?_receipt _ _ _ _, object_get? (by simp) _, ?_, ?_⟩
    · rw [← hlast]
      exact object_get? (by simp) _
    · rw [← hc.size_eq]
      simp

theorem Numbered.step {s s' : State} {e : Event} (hc : Consistent P s) (h : Numbered P s)
    (hstep : P.step s e = some s') : Numbered P s' := by
  cases e with
  | request body tenant =>
    cases hstep
    constructor
    · rw [List.filterMap_append]
      exact (List.append_nil _).symm ▸ h.finished
    · rw [List.forall_mem_append]
      refine ⟨h.indexed, ?_⟩
      intro session hs proof response hd
      rw [List.mem_singleton] at hs
      subst hs
      cases hd
  | fetchAdd sid => exact h.fetchAdd hstep
  | signProof sid now proofId sessionId => exact h.signProof hstep
  | append sid now totalUs => exact h.append hc hstep
  | _ =>
    obtain ⟨ms, rfl, _⟩ := step_query hstep trivial
    exact ⟨h.finished, h.indexed⟩

theorem reachable_numbered {es : List Event} {s : State}
    (h : Run P.step State.boot es s) : Numbered P s := by
  refine (h.invariant (I := fun s => Consistent P s ∧ Numbered P s)
    ⟨consistent_boot, numbered_boot⟩ ?_).2
  intro s e s' hstep hs
  exact ⟨hs.1.step hstep, hs.2.step hs.1 hstep⟩

end Enclave
end Pzdr
