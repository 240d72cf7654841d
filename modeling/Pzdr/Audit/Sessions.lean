import Pzdr.Enclave.Sessions

/-!
# Audit.Sessions

What the ledger says about the sessions of a run.

* `sessions_recorded_once`: when all sessions have finished, each of them has one entry, the counters
  in the entries are `1` to their number, and the receipts point at the sessions' own entries.
* `ledger_counters`: the order of the counters is that of the ledger for sessions that follow each
  other, and need not be for sessions that overlap (`ledger_overtaken`).
-/

namespace Pzdr
namespace Audit

open Enclave

/-- The body and the tenant of a request. -/
def request? : Event → Option (Bytes × String)
  | .request body tenant => some (body, tenant)
  | _ => none

/-- The index in the receipt of a session. -/
def receiptIndex? (session : Session) : Option Json :=
  match session.stage with
  | .done _ response => (response.get? "receipt").bind (fun receipt => receipt.get? "index")
  | _ => none

variable {P : Platform} {s : State}

/-- A session keeps its request. -/
theorem requests_set {xs : List Session} {sid : Nat} {session : Session}
    (hs : xs[sid]? = some session) (stage : Stage) :
    (xs.set sid { session with stage := stage }).map (fun x => (x.body, x.tenant)) =
      xs.map (fun x => (x.body, x.tenant)) := by
  obtain ⟨hlt, rfl⟩ := List.getElem?_eq_some_iff.mp hs
  have hkeep : (xs.map (fun x => (x.body, x.tenant)))[sid]? =
      some (xs[sid].body, xs[sid].tenant) := by
    rw [List.getElem?_map, hs]
    rfl
  obtain ⟨hlt', hkeep⟩ := List.getElem?_eq_some_iff.mp hkeep
  rw [List.map_set, ← hkeep, List.set_getElem_self]

/-- The sessions are those of the requests, in their order. -/
theorem sessions_requests {es : List Event} (h : Run P.step State.boot es s) :
    s.sessions.map (fun session => (session.body, session.tenant)) = es.filterMap request? := by
  refine h.trace_invariant (I := fun es s =>
    s.sessions.map (fun session => (session.body, session.tenant)) = es.filterMap request?) rfl ?_
  intro es s e s' hstep ih
  rw [List.filterMap_append, ← ih]
  cases e with
  | request body tenant =>
    cases hstep
    rw [List.map_append]
    rfl
  | fetchAdd sid =>
    obtain ⟨session, hs, _, rfl⟩ := Platform.step_fetchAdd hstep
    exact (requests_set hs _).trans (List.append_nil _).symm
  | signProof sid now proofId sessionId =>
    obtain ⟨session, _, hs, _, rfl⟩ := Platform.step_signProof hstep
    exact (requests_set hs _).trans (List.append_nil _).symm
  | append sid now totalUs =>
    obtain ⟨session, _, _, hs, _, _, rfl⟩ := Platform.step_append hstep
    exact (requests_set hs _).trans (List.append_nil _).symm
  | _ =>
    obtain ⟨ms, rfl, _⟩ := step_query hstep trivial
    exact (List.append_nil _).symm

/-! ## Finished runs -/

/-- Every session has been answered. -/
def AllDone (s : State) : Prop :=
  ∀ session ∈ s.sessions, ∃ proof response, session.stage = .done proof response

theorem length_finished (h : AllDone s) :
    (s.sessions.filterMap Session.finished?).length = s.sessions.length := by
  rw [List.filterMap_length_eq_length]
  intro session hs
  obtain ⟨proof, response, hd⟩ := h session hs
  rw [Session.finished?, hd]
  rfl

theorem client_of_allDone (h : AllDone s) : ∀ a ∈ (tickets s).clients, ∃ t, a = .recorded t := by
  intro a ha
  obtain ⟨session, hs, rfl⟩ := List.mem_map.mp ha
  obtain ⟨proof, response, hd⟩ := h session hs
  exact ⟨proof.statement.counter, by rw [Session.client, hd]⟩

/-- Sessions with one index would have one entry, and so one counter. -/
theorem nodup_receiptIndex (hn : Numbered P s) (hi : Ticket.Issued (tickets s)) (h : AllDone s) :
    (s.sessions.map receiptIndex?).Nodup := by
  have hpair := hi.pairwise
  rw [tickets, List.pairwise_map] at hpair
  rw [List.Nodup, List.pairwise_map]
  refine hpair.imp_of_mem ?_
  intro x y hx hy hne heq
  obtain ⟨proof, response, hd⟩ := h x hx
  obtain ⟨proof', response', hd'⟩ := h y hy
  obtain ⟨receipt, index, hr, hi, _, he⟩ := hn.indexed x hx proof response hd
  obtain ⟨receipt', index', hr', hi', _, he'⟩ := hn.indexed y hy proof' response' hd'
  rw [receiptIndex?, receiptIndex?, hd, hd'] at heq
  dsimp only at heq
  rw [hr, hr', Option.bind_some, Option.bind_some, hi, hi', Option.some.injEq, Json.num.injEq,
    Int.natCast_inj] at heq
  rw [heq, he', Option.some.injEq] at he
  refine hne proof.statement.counter ?_ proof'.statement.counter ?_ (by rw [he])
  · rw [Session.client, hd]
    rfl
  · rw [Session.client, hd']
    rfl

theorem sessions_recorded_once (P : Platform) {es : List Event} {s : State}
    (hrun : Run P.step State.boot es s) (hN : (es.filterMap request?).length < 2 ^ 64)
    (hdone : AllDone s) :
    s.sessions.map (fun session => (session.body, session.tenant)) = es.filterMap request? ∧
    s.ledger.size = (es.filterMap request?).length ∧
    (s.sessions.filterMap Session.finished?).Perm s.entries ∧
    (s.entries.map (fun proof => proof.statement.counter)).Perm
      (List.range' 1 (es.filterMap request?).length) ∧
    (∀ session ∈ s.sessions, session.Honest P ∧ session.Indexed P s) ∧
    (s.sessions.map receiptIndex?).Nodup := by
  have hc := reachable_consistent hrun
  have hn := reachable_numbered hrun
  have hreq := sessions_requests hrun
  have hlen : s.sessions.length = (es.filterMap request?).length := by
    rw [← hreq, List.length_map]
  rw [← hlen] at hN ⊢
  have hi := reachable_tickets hrun hN
  refine ⟨hreq, ?_, hn.finished, ?_, fun session hs => ⟨hc.sessions session hs, hn.indexed session hs⟩,
    nodup_receiptIndex hn hi hdone⟩
  · rw [← hc.size_eq, ← hn.finished.length_eq, length_finished hdone]
  · have hperm := hi.log_perm (client_of_allDone hdone)
    rwa [length_clients] at hperm

/-- Two malformed requests: the first to take its counter is the second to append. -/
def overtakingEvents : List Event := [
  .request [] "demo", .request [] "demo", .fetchAdd 0, .fetchAdd 1, .signProof 0 1 [] [],
  .signProof 1 1 [] [], .append 1 1 5, .append 0 1 5]

theorem overtakingEvents_run : ∃ s proof₁ proof₂ response₁ response₂,
    Run (samplePlatform []).step State.boot overtakingEvents s ∧
    s.sessions = [⟨[], "demo", .done proof₁ response₁⟩, ⟨[], "demo", .done proof₂ response₂⟩] ∧
    s.entries = [proof₂, proof₁] ∧ proof₁.statement.counter = 1 ∧ proof₂.statement.counter = 2 :=
  ⟨_, _, _, _, _, Run.of_foldlM rfl, rfl, rfl, rfl, rfl⟩

theorem sessions_recorded_once_overtaking : ∃ s,
    Run (samplePlatform []).step State.boot overtakingEvents s ∧ s.ledger.size = 2 ∧
    (s.entries.map (fun proof => proof.statement.counter)).Perm [1, 2] := by
  obtain ⟨s, proof₁, proof₂, response₁, response₂, hrun, hsessions, _⟩ := overtakingEvents_run
  have hdone : AllDone s := by
    intro session hs
    rw [hsessions] at hs
    simp only [List.mem_cons, List.not_mem_nil, or_false] at hs
    rcases hs with rfl | rfl
    · exact ⟨proof₁, response₁, rfl⟩
    · exact ⟨proof₂, response₂, rfl⟩
  obtain ⟨_, hsize, _, hcounters, _⟩ :=
    sessions_recorded_once (samplePlatform []) hrun (by decide) hdone
  exact ⟨s, hrun, hsize, hcounters⟩

/-! ## The order of the ledger -/

/-- The session has not taken its counter, if it has come at all. -/
def Fresh (s : State) (sid : Nat) : Prop :=
  ∀ session, s.sessions[sid]? = some session → session.stage = .received

/-- The counter of a session that has yet to append its proof. -/
def pending? (session : Session) : Option Nat :=
  match session.stage with
  | .counted counter => some counter
  | .signed proof => some proof.statement.counter
  | _ => none

/-- The ledger's lock goes to the session with the smallest counter. -/
def InOrder (s : State) : Event → Prop
  | .append sid _ _ => ∀ session c, s.sessions[sid]? = some session → pending? session = some c →
      ∀ session' ∈ s.sessions, ∀ c', pending? session' = some c' → c ≤ c'
  | _ => True

theorem client_holding_iff (session : Session) (c : Nat) :
    session.client = .holding c ↔ pending? session = some c := by
  unfold Session.client pending?
  cases session.stage <;> simp

theorem client_recorded {session : Session} {proof : SignedProof}
    (h : session.finished? = some proof) : session.client = .recorded proof.statement.counter := by
  unfold Session.finished? at h
  split at h
  · rename_i stage hstage
    cases h
    rw [Session.client, hstage]
  · cases h

theorem fresh_tickets {sid : Nat} (h : Fresh s sid) : Ticket.Fresh (tickets s) sid := by
  intro a ha
  rw [tickets, List.getElem?_map, Option.map_eq_some_iff] at ha
  obtain ⟨session, hs, rfl⟩ := ha
  rw [Session.client, h session hs]

theorem inOrder_tickets {e : Event} {v : Ticket.Event} (h : InOrder s e)
    (hv : ticketEvent? e = some v) : Ticket.InOrder (tickets s) v := by
  cases e with
  | append sid now totalUs =>
    cases hv
    intro t ht t' ht'
    rw [tickets, List.getElem?_map, Option.map_eq_some_iff] at ht
    obtain ⟨session, hs, hc⟩ := ht
    obtain ⟨session', hs', hc'⟩ := List.mem_map.mp ht'
    exact h session t hs ((client_holding_iff _ _).mp hc) session' hs' t'
      ((client_holding_iff _ _).mp hc')
  | request body tenant =>
    cases hv
    trivial
  | fetchAdd sid =>
    cases hv
    trivial
  | _ => cases hv

theorem reachable_sorted {es : List Event} (h : Run P.step State.boot es s)
    (hin : Run.Guarded P.step State.boot InOrder es) (hN : s.sessions.length < 2 ^ 64) :
    Ticket.Sorted (tickets s) := by
  refine (h.guarded_invariant (I := fun s => s.sessions.length < 2 ^ 64 →
    Ticket.Issued (tickets s) ∧ Ticket.Sorted (tickets s)) ?_ ?_ hin hN).2
  · intro _
    exact ⟨Ticket.issued_empty, Ticket.sorted_empty⟩
  · intro s e s' hstep hord ih hN'
    have hN := (length_sessions_le hstep).trans_lt hN'
    obtain ⟨hi, hsorted⟩ := ih hN
    rcases tickets_step hi hN hstep with ⟨_, heq⟩ | ⟨v, hv, hdesk⟩
    · rw [heq]
      exact ⟨hi, hsorted⟩
    · exact ⟨hi.step hdesk, hsorted.step hi (inOrder_tickets hord hv) hdesk⟩

theorem counter_getElem? {i : Nat} {proof : SignedProof} (h : s.entries[i]? = some proof) :
    (tickets s).log[i]? = some proof.statement.counter := by
  rw [tickets, List.getElem?_map, h]
  rfl

theorem ledger_counters (P : Platform) {es es' : List Event} {s s' : State}
    (hrun : Run P.step State.boot es s) (hrun' : Run P.step s es' s')
    (hN : s'.sessions.length < 2 ^ 64) :
    (s'.entries.map (fun proof => proof.statement.counter)).Nodup ∧
    (∀ (i j sid : Nat) (proof proof' : SignedProof) (session : Session),
      s.entries[i]? = some proof → Fresh s sid →
      s'.sessions[sid]? = some session → session.finished? = some proof' →
      s'.entries[j]? = some proof' →
      proof.statement.counter < proof'.statement.counter ∧ i < j) ∧
    (Run.Guarded P.step State.boot InOrder (es ++ es') →
      (s'.entries.map (fun proof => proof.statement.counter)).Pairwise (· < ·)) := by
  have hall := hrun.append hrun'
  have hlen : s.sessions.length ≤ s'.sessions.length :=
    hrun'.invariant (I := fun t => s.sessions.length ≤ t.sessions.length) (Nat.le_refl _)
      (fun _ _ _ hstep hle => hle.trans (length_sessions_le hstep))
  have hissued := reachable_tickets hrun (hlen.trans_lt hN)
  refine ⟨(reachable_tickets hall hN).nodup_log, ?_, fun hin => (reachable_sorted hall hin hN).log⟩
  intro i j sid proof proof' session hi hfresh hs hfinished hj
  have hclient := clients_getElem? hs
  rw [client_recorded hfinished] at hclient
  exact Ticket.log_before hissued (Ticket.run_since (tickets_run hissued hrun' hN))
    (counter_getElem? hi) (fresh_tickets hfresh) hclient rfl (counter_getElem? hj)

/-- One malformed request, and then another. -/
def firstEvents : List Event := [.request [] "demo", .fetchAdd 0, .signProof 0 1 [] [], .append 0 1 5]

def secondEvents : List Event := [.request [] "demo", .fetchAdd 1, .signProof 1 1 [] [], .append 1 1 5]

theorem inTurn_run : ∃ s s' proof proof' session,
    Run (samplePlatform []).step State.boot firstEvents s ∧
    Run (samplePlatform []).step s secondEvents s' ∧ s.sessions.length = 1 ∧
    s'.sessions.length = 2 ∧ s.entries[0]? = some proof ∧ s'.sessions[1]? = some session ∧
    session.finished? = some proof' ∧ s'.entries[1]? = some proof' :=
  ⟨_, _, _, _, _, Run.of_foldlM rfl, Run.of_foldlM rfl, rfl, rfl, rfl, rfl, rfl, rfl⟩

theorem ledger_counters_in_turn : ∃ s s' proof proof',
    Run (samplePlatform []).step State.boot firstEvents s ∧
    Run (samplePlatform []).step s secondEvents s' ∧ s.entries[0]? = some proof ∧
    s'.entries[1]? = some proof' ∧ proof.statement.counter < proof'.statement.counter := by
  obtain ⟨s, s', proof, proof', session, hrun, hrun', hlen, hlen', hi, hs, hfinished, hj⟩ :=
    inTurn_run
  have hfresh : Fresh s 1 := by
    intro session hs
    rw [List.getElem?_eq_none (by omega)] at hs
    cases hs
  obtain ⟨_, hbefore, _⟩ := ledger_counters (samplePlatform []) hrun hrun' (by omega)
  exact ⟨s, s', proof, proof', hrun, hrun', hi, hj,
    (hbefore 0 1 1 proof proof' session hi hfresh hs hfinished hj).1⟩

/-- Sessions that overlap: the second to take its counter is the first to append. -/
theorem ledger_overtaken : ∃ s, Run (samplePlatform []).step State.boot overtakingEvents s ∧
    ¬ (s.entries.map (fun proof => proof.statement.counter)).Pairwise (· < ·) := by
  obtain ⟨s, proof₁, proof₂, response₁, response₂, hrun, _, hentries, h₁, h₂⟩ := overtakingEvents_run
  refine ⟨s, hrun, ?_⟩
  rw [hentries]
  simp [h₁, h₂]

end Audit
end Pzdr
