import Pzdr.Enclave.Server
import Pzdr.Proxy.Handlers

/-!
# Pzdr.Gateway

The parent's proxy and the enclave together. HTTP requests arrive at the proxy, which opens one
connection to the enclave for each of them whose body is within the limit of the extractor; connections
can be refused, frames can be cut short in both directions, and the proxy can give up at any time. Other
programs on the parent can connect to the enclave as well (`foreign`).

* `Linked`: the enclave is in a state its server can reach, every exchange has a connection of its
  own, which carries the frame of its request, and has ended the way `do_forward` ends for what came
  back on this connection; the counters of the proxy count the exchanges.
* `reachable_linked`: all runs keep it.
-/

namespace Pzdr
namespace Gateway

open Proxy

/-- The two programs with their crates, and the address of the enclave. -/
structure Deployment where
  enclave : Enclave.Platform
  codec : Enclave.Codec
  crates : Crates
  address : AppState

/-- How far a request has come in `do_forward`. -/
inductive Stage (Headers : Type) where
  | received
  | connected (c : Nat)
  | ended (c : Option Nat) (connection : Connection) (result : Outcome Headers)

structure Exchange (Headers : Type) where
  request : HttpRequest
  stage : Stage Headers

structure State (Headers : Type) where
  server : Enclave.Server
  exchanges : List (Exchange Headers)
  metrics : Metrics

def State.boot (Headers : Type) : State Headers := ⟨.boot, [], ⟨0, 0, []⟩⟩

inductive Event where
  | http (request : HttpRequest)
  | connect (x sent : Nat) (ending : String)
  | foreign (stream : Stream)
  | serve (e : Enclave.ServerEvent)
  | finish (x : Nat) (connection : Connection) (elapsedMs : Nat)

section Stages

variable {Headers : Type}

/-- The connection of an exchange, by the number of the enclave's call. -/
def Stage.call? : Stage Headers → Option Nat
  | .received => none
  | .connected c => some c
  | .ended c _ _ => c

/-- The round trip can end like this: what is read is what the enclave has written, or less. -/
def Stage.allows (server : Enclave.Server) : Stage Headers → Connection → Bool
  | .received, .refused _ => true
  | .received, .timedOut => true
  | .connected _, .writeFailed _ => true
  | .connected _, .timedOut => true
  | .connected c, .replied stream =>
    (server.calls[c]?).any (fun call => stream.bytes.isPrefixOf call.output)
  | _, _ => false

def Stage.isEnded : Stage Headers → Bool
  | .ended _ _ _ => true
  | _ => false

def Stage.isFailed : Stage Headers → Bool
  | .ended _ _ (.failed _) => true
  | _ => false

def Exchange.setStage (exchange : Exchange Headers) (stage : Stage Headers) : Exchange Headers :=
  { exchange with stage := stage }

end Stages

namespace Deployment

variable (D : Deployment)

/-- One step; `none` if the event cannot happen in this state. -/
def step (s : State D.crates.Headers) : Event → Option (State D.crates.Headers)
  | .http request =>
    if request.body.length ≤ bodyLimit then
      some { s with
        exchanges := s.exchanges ++ [⟨request, .received⟩]
        metrics := { s.metrics with requests := s.metrics.requests + 1 } }
    -- the client gets 413, and `do_forward` is not called
    else some s
  | .connect x sent ending => do
    let exchange ← s.exchanges[x]?
    match exchange.stage with
    | .received =>
      let frame := writeFramed (exchange.request.text D.crates)
      let server ← D.enclave.serverStep D.codec s.server (.accept ⟨frame.take sent, ending⟩)
      some { s with
        server := server
        exchanges := s.exchanges.set x (exchange.setStage (.connected s.server.calls.length)) }
    | _ => none
  | .foreign stream => do
    let server ← D.enclave.serverStep D.codec s.server (.accept stream)
    some { s with server := server }
  | .serve e =>
    if e.isAccept then none
    else do
      let server ← D.enclave.serverStep D.codec s.server e
      some { s with server := server }
  | .finish x connection elapsedMs => do
    let exchange ← s.exchanges[x]?
    if exchange.stage.allows s.server connection then
      let result := outcome D.crates D.address connection
      some { s with
        exchanges := s.exchanges.set x
          (exchange.setStage (.ended exchange.stage.call? connection result))
        metrics := settle D.crates s.metrics elapsedMs result }
    else none

/-! ## What each step does -/

section Inversion

variable {D} {s s' : State D.crates.Headers} {x : Nat}

theorem step_http {request : HttpRequest} (h : D.step s (.http request) = some s') :
    s' = s ∨ request.body.length ≤ bodyLimit ∧ s' = { s with
      exchanges := s.exchanges ++ [⟨request, .received⟩]
      metrics := { s.metrics with requests := s.metrics.requests + 1 } } := by
  rw [step] at h
  split at h
  · rename_i hbody
    exact .inr ⟨hbody, (Option.some.inj h).symm⟩
  · exact .inl (Option.some.inj h).symm

theorem step_connect {sent : Nat} {ending : String}
    (h : D.step s (.connect x sent ending) = some s') :
    ∃ exchange server, s.exchanges[x]? = some exchange ∧ exchange.stage = .received ∧
      D.enclave.serverStep D.codec s.server
        (.accept ⟨(writeFramed (exchange.request.text D.crates)).take sent, ending⟩) =
          some server ∧
      s' = { s with
        server := server
        exchanges := s.exchanges.set x (exchange.setStage (.connected s.server.calls.length)) } := by
  simp only [step, Option.bind_eq_bind, Option.bind_eq_some_iff] at h
  obtain ⟨exchange, hx, h⟩ := h
  split at h
  · rename_i hstage
    rw [Option.bind_eq_some_iff] at h
    obtain ⟨server, hserver, h⟩ := h
    exact ⟨exchange, server, hx, hstage, hserver, (Option.some.inj h).symm⟩
  · cases h

theorem step_foreign {stream : Stream} (h : D.step s (.foreign stream) = some s') :
    ∃ server, D.enclave.serverStep D.codec s.server (.accept stream) = some server ∧
      s' = { s with server := server } := by
  simp only [step, Option.bind_eq_bind, Option.bind_eq_some_iff] at h
  obtain ⟨server, hserver, h⟩ := h
  exact ⟨server, hserver, (Option.some.inj h).symm⟩

theorem step_serve {e : Enclave.ServerEvent} (h : D.step s (.serve e) = some s') :
    e.isAccept = false ∧ ∃ server, D.enclave.serverStep D.codec s.server e = some server ∧
      s' = { s with server := server } := by
  rw [step] at h
  split at h
  · cases h
  · rename_i haccept
    rw [Option.bind_eq_bind, Option.bind_eq_some_iff] at h
    obtain ⟨server, hserver, h⟩ := h
    exact ⟨by simpa using haccept, server, hserver, (Option.some.inj h).symm⟩

theorem step_finish {connection : Connection} {elapsedMs : Nat}
    (h : D.step s (.finish x connection elapsedMs) = some s') :
    ∃ exchange, s.exchanges[x]? = some exchange ∧
      exchange.stage.allows s.server connection = true ∧
      s' = { s with
        exchanges := s.exchanges.set x (exchange.setStage
          (.ended exchange.stage.call? connection (outcome D.crates D.address connection)))
        metrics := settle D.crates s.metrics elapsedMs
          (outcome D.crates D.address connection) } := by
  simp only [step, Option.bind_eq_bind, Option.bind_eq_some_iff] at h
  obtain ⟨exchange, hx, h⟩ := h
  split at h
  · rename_i hallows
    exact ⟨exchange, hx, hallows, (Option.some.inj h).symm⟩
  · cases h

end Inversion

end Deployment

/-! ## The counters -/

section Counters

variable {D : Deployment} {s s' : State D.crates.Headers}

/-- The counters of the proxy count its exchanges. -/
structure Counted (s : State D.crates.Headers) : Prop where
  requests : s.metrics.requests = s.exchanges.length
  latencies : s.metrics.latencyMs.length = s.exchanges.countP (fun x => x.stage.isEnded)
  errors : s.metrics.errors = s.exchanges.countP (fun x => x.stage.isFailed)

theorem countP_set_other {α : Type*} {p : α → Bool} {xs : List α} {i : Nat} {x y : α}
    (hx : xs[i]? = some x) (hp : p x = false) :
    (xs.set i y).countP p = xs.countP p + if p y then 1 else 0 := by
  obtain ⟨hlt, rfl⟩ := List.getElem?_eq_some_iff.mp hx
  rw [List.countP_set hlt, hp]
  simp

theorem Stage.not_ended {Headers : Type} {server : Enclave.Server} {stage : Stage Headers}
    {connection : Connection} (h : stage.allows server connection = true) :
    stage.isEnded = false ∧ stage.isFailed = false := by
  cases stage with
  | ended c connection result => cases h
  | _ => exact ⟨rfl, rfl⟩

theorem Counted.step (h : Counted s) {e : Event} (hstep : D.step s e = some s') : Counted s' := by
  cases e with
  | http request =>
    rcases Deployment.step_http hstep with rfl | ⟨_, rfl⟩
    · exact h
    obtain ⟨hrequests, hlatencies, herrors⟩ := h
    refine ⟨?_, ?_, ?_⟩
    · simp [hrequests]
    · simp [hlatencies, Stage.isEnded]
    · simp [herrors, Stage.isFailed]
  | connect x sent ending =>
    obtain ⟨exchange, server, hx, hstage, _, rfl⟩ := Deployment.step_connect hstep
    refine ⟨?_, ?_, ?_⟩
    · simp [h.requests]
    · rw [countP_set_other hx (by rw [hstage]; rfl)]
      exact h.latencies
    · rw [countP_set_other hx (by rw [hstage]; rfl)]
      exact h.errors
  | foreign stream =>
    obtain ⟨server, _, rfl⟩ := Deployment.step_foreign hstep
    exact ⟨h.requests, h.latencies, h.errors⟩
  | serve e =>
    obtain ⟨_, server, _, rfl⟩ := Deployment.step_serve hstep
    exact ⟨h.requests, h.latencies, h.errors⟩
  | finish x connection elapsedMs =>
    obtain ⟨exchange, hx, hallows, rfl⟩ := Deployment.step_finish hstep
    obtain ⟨hended, hfailed⟩ := Stage.not_ended hallows
    refine ⟨?_, ?_, ?_⟩
    · simp [settle, h.requests]
    · rw [countP_set_other hx hended]
      simp [settle, h.latencies, Exchange.setStage, Stage.isEnded]
    · rw [countP_set_other hx hfailed]
      generalize outcome D.crates D.address connection = result
      cases result <;> simp [settle, h.errors, Exchange.setStage, Stage.isFailed]

theorem reachable_counted {es : List Event} (h : Run D.step (State.boot D.crates.Headers) es s) :
    Counted s :=
  h.invariant ⟨rfl, rfl, rfl⟩ (fun _ _ _ hstep hs => hs.step hstep)

end Counters

/-! ## Exchanges and connections -/

section Links

/-- The calls of the enclave, in a later state. -/
def Follows (server server' : Enclave.Server) : Prop :=
  ∀ (c : Nat) call, server.calls[c]? = some call →
    ∃ call', server'.calls[c]? = some call' ∧ call.Continues call'

/-- The connection of the exchange carries the frame of its request, and the exchange has ended the
way `do_forward` ends for what came back on this connection. -/
structure Exchange.Sound (D : Deployment) (server : Enclave.Server)
    (exchange : Exchange D.crates.Headers) : Prop where
  sent : ∀ c, exchange.stage.call? = some c → ∃ call sent ending, server.calls[c]? = some call ∧
    call.stream = ⟨(writeFramed (exchange.request.text D.crates)).take sent, ending⟩
  ended : ∀ c connection result, exchange.stage = .ended c connection result →
    result = outcome D.crates D.address connection ∧
      ∀ stream, connection = .replied stream → ∃ n call, c = some n ∧
        server.calls[n]? = some call ∧ stream.bytes <+: call.output

structure Linked (D : Deployment) (s : State D.crates.Headers) : Prop where
  server : ∃ es, Run (D.enclave.serverStep D.codec) Enclave.Server.boot es s.server
  exchanges : ∀ exchange ∈ s.exchanges, exchange.Sound D s.server
  distinct : (s.exchanges.filterMap (fun x => x.stage.call?)).Nodup

variable {D : Deployment} {s s' : State D.crates.Headers} {server server' : Enclave.Server}

theorem Exchange.Sound.mono {exchange : Exchange D.crates.Headers} (h : exchange.Sound D server)
    (hfollows : Follows server server') : exchange.Sound D server' := by
  constructor
  · intro c hc
    obtain ⟨call, sent, ending, hcall, hstream⟩ := h.sent c hc
    obtain ⟨call', hcall', hcontinues⟩ := hfollows c call hcall
    exact ⟨call', sent, ending, hcall', hcontinues.1.trans hstream⟩
  · intro c connection result hstage
    obtain ⟨hresult, hreplied⟩ := h.ended c connection result hstage
    refine ⟨hresult, ?_⟩
    intro stream hstream
    obtain ⟨n, call, hn, hcall, houtput⟩ := hreplied stream hstream
    obtain ⟨call', hcall', hcontinues⟩ := hfollows n call hcall
    exact ⟨n, call', hn, hcall', houtput.trans hcontinues.output⟩

/-- The server takes a step, and the exchanges stay as they are. -/
theorem Linked.serve (h : Linked D s) {e : Enclave.ServerEvent}
    (hserver : D.enclave.serverStep D.codec s.server e = some server) :
    Linked D { s with server := server } := by
  obtain ⟨es, hrun⟩ := h.server
  refine ⟨⟨_, hrun.snoc hserver⟩, ?_, h.distinct⟩
  intro exchange hmem
  exact (h.exchanges exchange hmem).mono (fun c call => Enclave.calls_step hserver)

theorem Linked.connect (h : Linked D s) {x sent : Nat} {ending : String}
    (hstep : D.step s (.connect x sent ending) = some s') : Linked D s' := by
  obtain ⟨exchange, server, hx, hstage, hserver, rfl⟩ := Deployment.step_connect hstep
  have hlinked := h.serve hserver
  have hcalls : server.calls[s.server.calls.length]? =
      some ⟨⟨(writeFramed (exchange.request.text D.crates)).take sent, ending⟩, .accepted⟩ := by
    cases hserver
    exact List.getElem?_concat_length
  refine ⟨hlinked.server, Enclave.forall_mem_set hlinked.exchanges ?_, ?_⟩
  · constructor
    · intro c hc
      cases hc
      exact ⟨_, sent, ending, hcalls, rfl⟩
    · intro c connection result hended
      cases hended
  -- every older connection has a smaller number
  · obtain ⟨rest, hold, hnew⟩ := Ticket.filterMap_set_perm
      (fun x : Exchange D.crates.Headers => x.stage.call?) hx
      (exchange.setStage (.connected s.server.calls.length))
    have hnone : exchange.stage.call? = none := by rw [hstage]; rfl
    rw [hnone] at hold
    rw [hnew.nodup_iff]
    refine List.nodup_cons.mpr ⟨?_, hold.nodup_iff.mp h.distinct⟩
    intro hmem
    obtain ⟨other, hother, hcall⟩ := List.mem_filterMap.mp (hold.mem_iff.mpr hmem)
    obtain ⟨call, _, _, hget, _⟩ := (h.exchanges other hother).sent _ hcall
    exact Nat.lt_irrefl _ (List.getElem?_eq_some_iff.mp hget).1

theorem Linked.finish (h : Linked D s) {x elapsedMs : Nat} {connection : Connection}
    (hstep : D.step s (.finish x connection elapsedMs) = some s') : Linked D s' := by
  obtain ⟨exchange, hx, hallows, rfl⟩ := Deployment.step_finish hstep
  have hsound := h.exchanges exchange (List.mem_of_getElem? hx)
  refine ⟨h.server, Enclave.forall_mem_set h.exchanges ?_, ?_⟩
  · constructor
    · exact hsound.sent
    · intro c connection' result hended
      cases hended
      refine ⟨rfl, ?_⟩
      rintro stream rfl
      cases hstage : exchange.stage with
      | connected n =>
        rw [hstage, Stage.allows] at hallows
        cases hcall : s.server.calls[n]? with
        | none =>
          rw [hcall] at hallows
          cases hallows
        | some call =>
          rw [hcall, Option.any_some, List.isPrefixOf_iff_prefix] at hallows
          exact ⟨n, call, rfl, hcall, hallows⟩
      | _ =>
        rw [hstage] at hallows
        cases hallows
  · obtain ⟨rest, hold, hnew⟩ := Ticket.filterMap_set_perm
      (fun x : Exchange D.crates.Headers => x.stage.call?) hx
      (exchange.setStage
        (.ended exchange.stage.call? connection (outcome D.crates D.address connection)))
    exact (hnew.trans hold.symm).nodup_iff.mpr h.distinct

theorem Linked.step (h : Linked D s) {e : Event} (hstep : D.step s e = some s') :
    Linked D s' := by
  cases e with
  | http request =>
    rcases Deployment.step_http hstep with rfl | ⟨_, rfl⟩
    · exact h
    refine ⟨h.server, ?_, ?_⟩
    · rw [List.forall_mem_append]
      refine ⟨h.exchanges, ?_⟩
      intro exchange hmem
      rw [List.mem_singleton] at hmem
      subst hmem
      constructor
      · intro c hc
        cases hc
      · intro c connection result hended
        cases hended
    · rw [List.filterMap_append]
      exact (List.append_nil _).symm ▸ h.distinct
  | connect x sent ending => exact h.connect hstep
  | foreign stream =>
    obtain ⟨server, hserver, rfl⟩ := Deployment.step_foreign hstep
    exact h.serve hserver
  | serve e =>
    obtain ⟨_, server, hserver, rfl⟩ := Deployment.step_serve hstep
    exact h.serve hserver
  | finish x connection elapsedMs => exact h.finish hstep

theorem linked_boot (D : Deployment) : Linked D (State.boot D.crates.Headers) :=
  ⟨⟨[], .nil⟩, by simp [State.boot], List.nodup_nil⟩

theorem reachable_linked {es : List Event} (h : Run D.step (State.boot D.crates.Headers) es s) :
    Linked D s :=
  h.invariant (linked_boot D) (fun _ _ _ hstep hs => hs.step hstep)

/-- Every connection of the enclave is that of an exchange. -/
def Owned (s : State D.crates.Headers) : Prop :=
  ∀ c, c < s.server.calls.length → ∃ exchange ∈ s.exchanges, exchange.stage.call? = some c

theorem Owned.step (h : Owned s) {e : Event} (hforeign : ∀ stream, e ≠ .foreign stream)
    (hstep : D.step s e = some s') : Owned s' := by
  cases e with
  | http request =>
    rcases Deployment.step_http hstep with rfl | ⟨_, rfl⟩
    · exact h
    intro c hc
    obtain ⟨exchange, hmem, hcall⟩ := h c hc
    exact ⟨exchange, List.mem_append_left _ hmem, hcall⟩
  | connect x sent ending =>
    obtain ⟨exchange, server, hx, hstage, hserver, rfl⟩ := Deployment.step_connect hstep
    cases hserver
    intro c hc
    have hlt : c < s.server.calls.length + 1 := by simpa using hc
    by_cases hnew : c = s.server.calls.length
    · exact ⟨_, Enclave.mem_set_self_of_getElem? hx, by rw [hnew]; rfl⟩
    · obtain ⟨other, hmem, hcall⟩ := h c (by omega)
      refine ⟨other, Enclave.mem_set_of_getElem? hx hmem ?_, hcall⟩
      rintro rfl
      rw [hstage] at hcall
      cases hcall
  | foreign stream => exact absurd rfl (hforeign stream)
  | serve e =>
    obtain ⟨haccept, server, hserver, rfl⟩ := Deployment.step_serve hstep
    intro c hc
    exact h c (by rwa [Enclave.length_calls_step hserver haccept] at hc)
  | finish x connection elapsedMs =>
    obtain ⟨exchange, hx, _, rfl⟩ := Deployment.step_finish hstep
    intro c hc
    obtain ⟨other, hmem, hcall⟩ := h c hc
    by_cases heq : other = exchange
    · subst heq
      exact ⟨_, Enclave.mem_set_self_of_getElem? hx, hcall⟩
    · exact ⟨other, Enclave.mem_set_of_getElem? hx hmem heq, hcall⟩

/-- Without other programs on the parent. -/
theorem reachable_owned {es : List Event} (h : Run D.step (State.boot D.crates.Headers) es s)
    (hforeign : ∀ stream, Event.foreign stream ∉ es) : Owned s := by
  refine h.trace_invariant (I := fun es s => (∀ stream, Event.foreign stream ∉ es) → Owned s)
    ?_ ?_ hforeign
  · intro _ c hc
    exact absurd hc (Nat.not_lt_zero c)
  · intro es s e s' hstep ih hforeign
    refine (ih fun stream hmem => hforeign stream (List.mem_append_left _ hmem)).step ?_ hstep
    rintro stream rfl
    exact hforeign stream (List.mem_append_right _ List.mem_cons_self)

end Links

end Gateway
end Pzdr
