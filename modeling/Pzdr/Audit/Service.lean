import Pzdr.Audit.Pipeline
import Pzdr.Enclave.Server
import Pzdr.Proxy.Forward

/-!
# Audit.Service

What a client of the enclave can rely on, whatever the other connections send.

* `server_recorded`: the entries of the ledger and the inference requests that were answered belong
  to each other, one to one.
* `server_completes`: from every reachable state the open calls can be finished, and then the ledger
  has one entry for each connection that brought an inference request.
-/

namespace Pzdr
namespace Audit

open Enclave

variable {P : Platform} {codec : Codec} {s s' : Server} {c : Nat} {call : Call}

/-! ## Entries and calls -/

/-- The call brought an inference request, and its reply has the receipt of entry `i`, which is the
proof for this very request. -/
def RecordedAt (P : Platform) (codec : Codec) (s : Server) (c i : Nat) : Prop :=
  ∃ call env sid body tenant written session proof response,
    s.calls[c]? = some call ∧ codec.receive call.stream = .ok env ∧
    codec.inference? env = some (body, tenant) ∧
    call.phase = .replied env (some sid) (P.jsonResp 200 response) written ∧
    s.enclave.sessions[sid]? = some session ∧ session.stage = .done proof response ∧
    response.get? "proof" = some proof.toJson ∧
    (response.get? "receipt").bind (fun receipt => Platform.getU64 receipt "index") = some i ∧
    s.enclave.entries[i]? = some proof ∧
    ∃ counter now proofId sessionId, proof = P.signProof
      (P.statement (P.decide body) tenant counter now proofId sessionId)

/-- The session of a reply, and its position. -/
theorem RecordedAt.position {i : Nat} (h : RecordedAt P codec s c i) :
    ∃ call sid session, s.calls[c]? = some call ∧ call.sid? = some sid ∧
      s.enclave.sessions[sid]? = some session ∧ session.position? = some i := by
  obtain ⟨call, env, sid, _, _, _, session, proof, response, hcall, _, _, hphase, hs, hstage, _,
    hindex, _⟩ := h
  exact ⟨call, sid, session, hcall, by rw [Call.sid?, hphase], hs,
    by rw [Session.position?, hstage]; exact hindex⟩

/-- The reply to an inference is the response of its session, whose proof is an entry. -/
theorem session_of_replied (h : Serves P codec s) (hcall : s.calls[c]? = some call)
    {env : VsockEnvelope} {sid : Nat} {resp : VsockResponse} {written : Option (Except String Unit)}
    (hphase : call.phase = .replied env (some sid) resp written) :
    ∃ session proof response i, s.enclave.sessions[sid]? = some session ∧
      codec.inference? env = some (session.body, session.tenant) ∧
      session.stage = .done proof response ∧ resp = P.jsonResp 200 response ∧
      response.get? "proof" = some proof.toJson ∧
      (response.get? "receipt").bind (fun receipt => Platform.getU64 receipt "index") = some i ∧
      s.enclave.entries[i]? = some proof ∧ ∃ counter now proofId sessionId, proof = P.signProof
        (P.statement (P.decide session.body) session.tenant counter now proofId sessionId) := by
  obtain ⟨es, hrun⟩ := h.enclave
  have hsound := h.calls c call hcall
  rw [Call.Sound, hphase] at hsound
  obtain ⟨_, session, proof, response, hs, hinference, hstage, hresp⟩ := hsound
  have hmem := List.mem_of_getElem? hs
  obtain ⟨receipt, i, hreceipt, hindex, _, hentry⟩ :=
    (reachable_numbered hrun).indexed session hmem proof response hstage
  obtain ⟨_, _, _, _, _, _, _, _, _, hresponse⟩ :=
    (reachable_consistent hrun).answers session hmem proof response hstage
  refine ⟨session, proof, response, i, hs, hinference, hstage, hresp, ?_, ?_, hentry, ?_⟩
  · rw [hresponse, Platform.response_get?_proof]
  · simp [hreceipt, Platform.getU64, hindex]
  · exact (reachable_consistent hrun).sessions session hmem proof (by rw [hstage]; rfl)

/-- A session that is done gives the reply of its call a position. -/
theorem recordedAt_of_done (h : Serves P codec s) (hcall : s.calls[c]? = some call) {sid : Nat}
    {session : Session} (hsid : call.sid? = some sid)
    (hs : s.enclave.sessions[sid]? = some session) {proof : SignedProof} {response : Json}
    (hstage : session.stage = .done proof response) : ∃ i, RecordedAt P codec s c i := by
  have hsound := h.calls c call hcall
  rw [Call.sid?] at hsid
  rw [Call.Sound] at hsound
  split at hsid
  · rename_i env sid' hphase
    obtain rfl := Option.some.inj hsid
    rw [hphase] at hsound
    obtain ⟨_, x, hx, _, hunfinished⟩ := hsound
    obtain rfl := Option.some.inj (hx.symm.trans hs)
    rw [Session.finished?, hstage] at hunfinished
    cases hunfinished
  · rename_i env sid' resp written hphase
    subst hsid
    rw [hphase] at hsound
    obtain ⟨x, proof', response', i, hx, hinference, hdone, rfl, hproof, hreceipt, hentry, hhonest⟩ :=
      session_of_replied h hcall hphase
    exact ⟨i, call, env, sid, x.body, x.tenant, written, x, proof', response', hcall, hsound.1,
      hinference, hphase, hx, hdone, hproof, hreceipt, hentry, hhonest⟩
  · cases hsid

theorem RecordedAt.index_unique {i j : Nat} (hi : RecordedAt P codec s c i)
    (hj : RecordedAt P codec s c j) : j = i := by
  obtain ⟨_, _, x, hx, hsid, hs, hposition⟩ := hi.position
  obtain ⟨_, _, y, hy, hsid', hs', hposition'⟩ := hj.position
  obtain rfl := Option.some.inj (hx.symm.trans hy)
  obtain rfl := Option.some.inj (hsid.symm.trans hsid')
  obtain rfl := Option.some.inj (hs.symm.trans hs')
  exact Option.some.inj (hposition'.symm.trans hposition)

theorem RecordedAt.call_unique (h : Serves P codec s) {c' i : Nat} (hi : RecordedAt P codec s c i)
    (hj : RecordedAt P codec s c' i) : c' = c := by
  obtain ⟨es, hrun⟩ := h.enclave
  obtain ⟨x, sid, session, hx, hsid, hs, hposition⟩ := hi.position
  obtain ⟨y, sid', session', hy, hsid', hs', hposition'⟩ := hj.position
  obtain rfl := (reachable_positioned hrun).place_unique hs' hs hposition' hposition
  exact h.numbers.place_unique hy hx hsid' hsid

/-- Every position is that of a session, and every session is that of a call. -/
theorem exists_recordedAt (h : Serves P codec s) {i : Nat} (hi : i < s.enclave.ledger.size) :
    ∃ c, RecordedAt P codec s c i := by
  obtain ⟨es, hrun⟩ := h.enclave
  rw [← (reachable_consistent hrun).size_eq] at hi
  obtain ⟨sid, session, hs, hposition⟩ := (reachable_positioned hrun).exists_place hi
  obtain ⟨c, call, hcall, hsid⟩ := h.numbers.exists_place (List.getElem?_eq_some_iff.mp hs).1
  obtain ⟨proof, response, hstage⟩ : ∃ proof response, session.stage = .done proof response := by
    rw [Session.position?] at hposition
    split at hposition
    · rename_i hstage
      exact ⟨_, _, hstage⟩
    · cases hposition
  obtain ⟨j, hj⟩ := recordedAt_of_done h hcall hsid hs hstage
  obtain ⟨x, sid', y, hx, hsid', hy, hposition'⟩ := hj.position
  obtain rfl := Option.some.inj (hx.symm.trans hcall)
  obtain rfl := Option.some.inj (hsid'.symm.trans hsid)
  obtain rfl := Option.some.inj (hy.symm.trans hs)
  obtain rfl := Option.some.inj (hposition'.symm.trans hposition)
  exact ⟨c, hj⟩

theorem server_recorded (P : Platform) (codec : Codec) {es : List ServerEvent} {s : Server}
    (hrun : Run (P.serverStep codec) Server.boot es s) :
    (∀ (c : Nat) call env sid resp written, s.calls[c]? = some call →
      call.phase = .replied env sid resp written → (codec.inference? env).isSome = true →
      ∃! i, RecordedAt P codec s c i) ∧
    ∀ i, i < s.enclave.ledger.size → ∃! c, RecordedAt P codec s c i := by
  have hserves := reachable_serves hrun
  constructor
  · intro c call env sid resp written hcall hphase hinference
    have hsound := hserves.calls c call hcall
    rw [Call.Sound, hphase] at hsound
    cases sid with
    | none =>
      rw [hsound.2.1] at hinference
      cases hinference
    | some sid =>
      obtain ⟨_, session, proof, response, hs, _, hstage, _⟩ := hsound
      obtain ⟨i, hi⟩ := recordedAt_of_done hserves hcall (by rw [Call.sid?, hphase]) hs hstage
      exact ⟨i, hi, fun j hj => hi.index_unique hj⟩
  · intro i hi
    obtain ⟨c, hc⟩ := exists_recordedAt hserves hi
    exact ⟨c, hc, fun c' hc' => hc.call_unique hserves hc'⟩

/-! ## Open calls can be finished -/

/-- `handle_conn` has returned. -/
def Call.Over (call : Call) : Prop :=
  match call.phase with
  | .refused _ => True
  | .replied _ _ _ written => written.isSome = true
  | _ => False

/-- Only the call `c` moves, and no connection is accepted. -/
structure Advances (P : Platform) (codec : Codec) (c : Nat) (s s' : Server) : Prop where
  run : ∃ es, Run (P.serverStep codec) s es s' ∧ ∀ stream, ServerEvent.accept stream ∉ es
  streams : s'.calls.map Call.stream = s.calls.map Call.stream
  others : ∀ c', c' ≠ c → s'.calls[c']? = s.calls[c']?

theorem Advances.refl (s : Server) : Advances P codec c s s :=
  ⟨⟨[], .nil, by simp⟩, rfl, fun _ _ => rfl⟩

theorem Advances.trans {s'' : Server} (h : Advances P codec c s s')
    (h' : Advances P codec c s' s'') : Advances P codec c s s'' := by
  obtain ⟨es, hrun, haccept⟩ := h.run
  obtain ⟨es', hrun', haccept'⟩ := h'.run
  refine ⟨⟨es ++ es', hrun.append hrun', ?_⟩, h'.streams.trans h.streams,
    fun c' hc' => (h'.others c' hc').trans (h.others c' hc')⟩
  intro stream hmem
  rcases List.mem_append.mp hmem with hmem | hmem
  · exact haccept stream hmem
  · exact haccept' stream hmem

theorem streams_set (hcall : s.calls[c]? = some call) (phase : Phase) :
    (s.calls.set c { call with phase := phase }).map Call.stream =
      s.calls.map Call.stream := by
  refine List.ext_getElem? (fun i => ?_)
  rw [List.getElem?_map, List.getElem?_map, List.getElem?_set]
  split
  · next heq =>
    subst heq
    rw [hcall]
    split
    · rfl
    · next hlt => exact absurd (List.getElem?_eq_some_iff.mp hcall).1 hlt
  · rfl

/-- A step that changes the phase of its call. -/
theorem advances_step {e : ServerEvent} (haccept : ∀ stream, e ≠ .accept stream)
    (hcall : s.calls[c]? = some call) {phase : Phase} {enclave : State}
    (hstep : P.serverStep codec s e =
      some { s.setPhase c call phase with enclave := enclave }) :
    Advances P codec c s { s.setPhase c call phase with enclave := enclave } := by
  refine ⟨⟨[e], .snoc .nil hstep, ?_⟩, streams_set hcall phase, ?_⟩
  · intro stream hmem
    exact haccept stream (List.mem_singleton.mp hmem).symm
  · intro c' hc'
    exact List.getElem?_set_ne (Ne.symm hc')

theorem calls_setPhase (hcall : s.calls[c]? = some call) (phase : Phase) :
    (s.setPhase c call phase).calls[c]? = some { call with phase := phase } :=
  List.getElem?_set_self (List.getElem?_eq_some_iff.mp hcall).1

/-- The call can be finished by steps of its own. -/
def Closes (P : Platform) (codec : Codec) (c : Nat) (s : Server) : Prop :=
  ∃ s' call', Advances P codec c s s' ∧ s'.calls[c]? = some call' ∧ Call.Over call'

theorem Closes.of_advances (h : Advances P codec c s s') (h' : Closes P codec c s') :
    Closes P codec c s := by
  obtain ⟨s'', call', hadvances, hover⟩ := h'
  exact ⟨s'', call', h.trans hadvances, hover⟩

theorem closes_replied (hcall : s.calls[c]? = some call) {env : VsockEnvelope} {sid : Option Nat}
    {resp : VsockResponse} {written : Option (Except String Unit)}
    (hphase : call.phase = .replied env sid resp written) : Closes P codec c s := by
  cases written with
  | some result => exact ⟨s, call, .refl s, hcall, by rw [Call.Over, hphase]; rfl⟩
  | none =>
    have hstep : P.serverStep codec s (.write c (.ok ())) =
        some (s.setPhase c call (.replied env sid resp (some (.ok ())))) := by
      simp [Platform.serverStep, hcall, hphase]
    exact ⟨_, _, advances_step (by simp) hcall hstep, calls_setPhase hcall _, rfl⟩

theorem query_enabled (now nowTo : Nat) (env : VsockEnvelope) (enclave : State) :
    ∃ enclave', ((queryEvent? now nowTo env).toList).foldlM P.step enclave = some enclave' := by
  cases hquery : queryEvent? now nowTo env with
  | none => exact ⟨enclave, rfl⟩
  | some e =>
    have hsome : ∃ enclave', P.step enclave e = some enclave' := by
      have hisQuery := queryEvent?_isQuery hquery
      cases e with
      | ledgerRoot now => exact ⟨_, rfl⟩
      | ledgerProof idx now =>
        simp only [Platform.step]
        split <;> exact ⟨_, rfl⟩
      | ledgerConsistency fromSize nowFrom nowTo =>
        simp only [Platform.step]
        split <;> exact ⟨_, rfl⟩
      | _ => cases hisQuery
    obtain ⟨enclave', hstep⟩ := hsome
    exact ⟨enclave', by simp [hstep]⟩

theorem closes_dispatching (hcall : s.calls[c]? = some call) {env : VsockEnvelope}
    (hphase : call.phase = .dispatching env) : Closes P codec c s := by
  obtain ⟨enclave, hquery⟩ := query_enabled (P := P) 0 0 env s.enclave
  have hstep : P.serverStep codec s (.answer c (fun _ _ => none) "" 0 0) = some
      { s.setPhase c call (.replied env none
          (P.answer codec (fun _ _ => none) "" s.enclave.ledger 0 0 env) none) with
        enclave := enclave } := by
    rw [Platform.serverStep, hcall, Option.bind_eq_bind, Option.bind_some, hphase]
    dsimp only
    rw [hquery]
    rfl
  exact .of_advances (advances_step (by simp) hcall hstep)
    (closes_replied (calls_setPhase hcall _) rfl)

section Sessions

variable {env : VsockEnvelope} {sid : Nat} {session : Session}
  (hcall : s.calls[c]? = some call) (hphase : call.phase = .processing env sid)
  (hs : s.enclave.sessions[sid]? = some session)

include hcall hphase

/-- A session that goes on leaves its call where it is. -/
theorem work_enabled (work : Work) {enclave : State} {session' : Session}
    (hstep : P.step s.enclave (work.event sid) = some enclave)
    (hs' : enclave.sessions[sid]? = some session') (hunfinished : session'.finished? = none) :
    Advances P codec c s { s with enclave := enclave } := by
  refine ⟨⟨[.work c work], .snoc .nil ?_, by simp⟩, rfl, fun _ _ => rfl⟩
  rw [Session.finished?] at hunfinished
  cases hstage : session'.stage with
  | done proof response =>
    rw [hstage] at hunfinished
    cases hunfinished
  | _ => simp [Platform.serverStep, hcall, hphase, hstep, hs', hstage]

include hs

theorem closes_signed {proof : SignedProof} (hstage : session.stage = .signed proof) :
    Closes P codec c s := by
  obtain ⟨enclave, response, hstep, hs'⟩ := append_enabled (P := P) hs hstage 0 0
  have hserver : P.serverStep codec s (.work c (.append 0 0)) = some
      { s.setPhase c call (.replied env (some sid)
          (P.dispatch (codec.handlers (.error "") (.ok response)) enclave.ledger 0 0 env) none) with
        enclave := enclave } := by
    simp [Platform.serverStep, hcall, hphase, Work.event, hstep, hs']
  exact .of_advances (advances_step (by simp) hcall hserver)
    (closes_replied (calls_setPhase hcall _) rfl)

theorem closes_counted {counter : Nat} (hstage : session.stage = .counted counter) :
    Closes P codec c s := by
  obtain ⟨enclave, proof, hstep, hs'⟩ := signProof_enabled (P := P) hs hstage 0 [] []
  exact .of_advances (work_enabled hcall hphase (.signProof 0 [] []) hstep hs' rfl)
    (closes_signed hcall hphase hs' rfl)

theorem closes_received (hstage : session.stage = .received) : Closes P codec c s := by
  obtain ⟨enclave, counter, hstep, hs'⟩ := fetchAdd_enabled (P := P) hs hstage
  exact .of_advances (work_enabled hcall hphase .fetchAdd hstep hs' rfl)
    (closes_counted hcall hphase hs' rfl)

end Sessions

theorem closes_accepted (hcall : s.calls[c]? = some call) (hphase : call.phase = .accepted) :
    Closes P codec c s := by
  cases hreceive : codec.receive call.stream with
  | error e =>
    have hstep : P.serverStep codec s (.read c) = some (s.setPhase c call (.refused e)) := by
      simp [Platform.serverStep, hcall, hphase, hreceive]
    exact ⟨_, _, advances_step (by simp) hcall hstep, calls_setPhase hcall _, trivial⟩
  | ok env =>
    cases hinference : codec.inference? env with
    | none =>
      have hstep : P.serverStep codec s (.read c) =
          some (s.setPhase c call (.dispatching env)) := by
        simp [Platform.serverStep, hcall, hphase, hreceive, hinference]
      exact .of_advances (advances_step (by simp) hcall hstep)
        (closes_dispatching (calls_setPhase hcall _) rfl)
    | some request =>
      obtain ⟨body, tenant⟩ := request
      have hstep : P.serverStep codec s (.read c) = some
          { s.setPhase c call (.processing env s.enclave.sessions.length) with
            enclave := { s.enclave with
              sessions := s.enclave.sessions ++ [⟨body, tenant, .received⟩] } } := by
        simp [Platform.serverStep, hcall, hphase, hreceive, hinference, Platform.step]
      exact .of_advances (advances_step (by simp) hcall hstep)
        (closes_received (calls_setPhase hcall _) rfl List.getElem?_concat_length rfl)

theorem closes_of_serves (h : Serves P codec s) (hcall : s.calls[c]? = some call) :
    Closes P codec c s := by
  have hsound := h.calls c call hcall
  rw [Call.Sound] at hsound
  cases hphase : call.phase with
  | accepted => exact closes_accepted hcall hphase
  | refused e => exact ⟨s, call, .refl s, hcall, by rw [Call.Over, hphase]; trivial⟩
  | dispatching env => exact closes_dispatching hcall hphase
  | processing env sid =>
    rw [hphase] at hsound
    obtain ⟨_, session, hs, _, hunfinished⟩ := hsound
    cases hstage : session.stage with
    | received => exact closes_received hcall hphase hs hstage
    | counted counter => exact closes_counted hcall hphase hs hstage
    | signed proof => exact closes_signed hcall hphase hs hstage
    | done proof response =>
      rw [Session.finished?, hstage] at hunfinished
      cases hunfinished
  | replied env sid resp written => exact closes_replied hcall hphase

/-- The first `n` calls are finished one after the other. -/
theorem close_calls (h : Serves P codec s) (n : Nat) (hn : n ≤ s.calls.length) :
    ∃ es s', Run (P.serverStep codec) s es s' ∧ (∀ stream, ServerEvent.accept stream ∉ es) ∧
      s'.calls.map Call.stream = s.calls.map Call.stream ∧
      ∀ c, c < n → ∃ call, s'.calls[c]? = some call ∧ Call.Over call := by
  induction n with
  | zero => exact ⟨[], s, .nil, by simp, rfl, by simp⟩
  | succ n ih =>
    obtain ⟨es, s', hrun, haccept, hstreams, hover⟩ := ih (by omega)
    have hserves : Serves P codec s' := hrun.invariant h (fun _ _ _ hstep hs => hs.step hstep)
    have hlength : s'.calls.length = s.calls.length := by simpa using congrArg List.length hstreams
    have hlt : n < s'.calls.length := by omega
    obtain ⟨s'', call, hadvances, hcall, hcallover⟩ :=
      closes_of_serves hserves (List.getElem?_eq_getElem hlt)
    obtain ⟨es', hrun', haccept'⟩ := hadvances.run
    refine ⟨es ++ es', s'', hrun.append hrun', ?_, hadvances.streams.trans hstreams, ?_⟩
    · intro stream hmem
      rcases List.mem_append.mp hmem with hmem | hmem
      · exact haccept stream hmem
      · exact haccept' stream hmem
    · intro c hc
      by_cases hcn : c = n
      · subst hcn
        exact ⟨call, hcall, hcallover⟩
      · obtain ⟨call', hcall', hover'⟩ := hover c (by omega)
        exact ⟨call', (hadvances.others c hcn).trans hcall', hover'⟩

/-- The connection brings an inference request. -/
def brings (codec : Codec) (stream : Stream) : Bool :=
  match codec.receive stream with
  | .ok env => (codec.inference? env).isSome
  | .error _ => false

theorem sid?_of_over (h : Serves P codec s) (hcall : s.calls[c]? = some call)
    (hover : Call.Over call) : call.sid?.isSome = brings codec call.stream := by
  have hsound := h.calls c call hcall
  rw [Call.Sound] at hsound
  rw [Call.Over] at hover
  rw [Call.sid?, brings]
  cases hphase : call.phase with
  | refused e =>
    rw [hphase] at hsound
    rw [hsound]
    rfl
  | replied env sid resp written =>
    rw [hphase] at hsound
    cases sid with
    | none =>
      obtain ⟨hreceive, hinference, _⟩ := hsound
      rw [hreceive]
      simp [hinference]
    | some sid =>
      obtain ⟨hreceive, session, _, _, _, hinference, _⟩ := hsound
      rw [hreceive]
      simp [hinference]
  | _ =>
    rw [hphase] at hover
    exact hover.elim

/-- When all calls are over, all sessions have been recorded. -/
theorem size_of_over (h : Serves P codec s) (hover : ∀ call ∈ s.calls, Call.Over call) :
    s.enclave.ledger.size = s.calls.countP (fun call => brings codec call.stream) := by
  obtain ⟨es, hrun⟩ := h.enclave
  have hpositions : s.enclave.sessions.countP (fun session => session.position?.isSome) =
      s.enclave.sessions.length := by
    rw [List.countP_eq_length]
    intro session hmem
    obtain ⟨sid, hs⟩ := List.mem_iff_getElem?.mp hmem
    obtain ⟨c, call, hcall, hsid⟩ := h.numbers.exists_place (List.getElem?_eq_some_iff.mp hs).1
    have hcallover := hover call (List.mem_of_getElem? hcall)
    have hsound := h.calls c call hcall
    rw [Call.Sound] at hsound
    rw [Call.sid?] at hsid
    rw [Call.Over] at hcallover
    split at hsid
    · rename_i hphase
      rw [hphase] at hcallover
      exact hcallover.elim
    · rename_i hphase
      subst hsid
      rw [hphase] at hsound
      obtain ⟨_, x, proof, response, hx, _, hstage, _⟩ := hsound
      obtain rfl := Option.some.inj (hx.symm.trans hs)
      obtain ⟨receipt, i, hreceipt, hindex, _⟩ :=
        (reachable_numbered hrun).indexed x hmem proof response hstage
      simp [Session.position?, hstage, hreceipt, Platform.getU64, hindex]
    · cases hsid
  have hcount := h.numbers.count
  rw [(reachable_positioned hrun).count, (reachable_consistent hrun).size_eq] at hpositions
  rw [hpositions, ← hcount]
  refine List.countP_congr ?_
  intro call hmem
  obtain ⟨c, hcall⟩ := List.mem_iff_getElem?.mp hmem
  rw [sid?_of_over h hcall (hover call hmem)]

theorem finish (h : Serves P codec s) : ∃ es s', Run (P.serverStep codec) s es s' ∧
    (∀ stream, ServerEvent.accept stream ∉ es) ∧
    s'.calls.map Call.stream = s.calls.map Call.stream ∧
    (∀ call ∈ s'.calls, Call.Over call) ∧
    s'.enclave.ledger.size = s.calls.countP (fun call => brings codec call.stream) := by
  obtain ⟨es, s', hrun, haccept, hstreams, hover⟩ := close_calls h s.calls.length (Nat.le_refl _)
  have hlength : s'.calls.length = s.calls.length := by simpa using congrArg List.length hstreams
  have hall : ∀ call ∈ s'.calls, Call.Over call := by
    intro call hmem
    obtain ⟨c, hcall⟩ := List.mem_iff_getElem?.mp hmem
    have hlt := (List.getElem?_eq_some_iff.mp hcall).1
    obtain ⟨call', hcall', hcallover⟩ := hover c (by omega)
    obtain rfl := Option.some.inj (hcall'.symm.trans hcall)
    exact hcallover
  have hserves : Serves P codec s' := hrun.invariant h (fun _ _ _ hstep hs => hs.step hstep)
  refine ⟨es, s', hrun, haccept, hstreams, hall, ?_⟩
  have hbrings : ∀ calls : List Call, calls.countP (fun call => brings codec call.stream) =
      (calls.map Call.stream).countP (brings codec) := by
    intro calls
    rw [List.countP_map]
    rfl
  rw [size_of_over hserves hall, hbrings, hstreams, ← hbrings]

theorem server_completes (P : Platform) (codec : Codec) {es : List ServerEvent} {s : Server}
    (hrun : Run (P.serverStep codec) Server.boot es s) :
    ∃ es' s', Run (P.serverStep codec) s es' s' ∧ (∀ stream, ServerEvent.accept stream ∉ es') ∧
      s'.calls.map Call.stream = s.calls.map Call.stream ∧
      (∀ call ∈ s'.calls, Call.Over call) ∧
      s'.enclave.ledger.size = s.calls.countP (fun call => brings codec call.stream) :=
  finish (reachable_serves hrun)

/-! ## Two connections -/

def postEnvelope : VsockEnvelope := ⟨"POST", "/v1/gateway/inference", [], ""⟩

/-- The crates on one envelope. -/
def sampleCodec : Codec where
  fromSlice bytes :=
    if bytes = toVec (Proxy.envelopeJson postEnvelope) then .ok postEnvelope
    else .error "expected value at line 1 column 1"
  base64Decode text := if text = "" then some [] else none

def postStream : Stream :=
  ⟨Proxy.writeFramed (toVec (Proxy.envelopeJson postEnvelope)), "early eof"⟩

theorem receive_post : sampleCodec.receive postStream = .ok postEnvelope := by
  have hlen : (toVec (Proxy.envelopeJson postEnvelope)).length ≤ maxFrame := by decide
  refine (Codec.receive_frame hlen _).trans ?_
  simp [sampleCodec]

theorem brings_post : brings sampleCodec postStream = true := by
  rw [brings, receive_post]
  rfl

/-- The connection that comes second is read first and takes the first number. -/
def postEvents : List ServerEvent := [
  .accept postStream, .accept postStream, .read 1, .read 0, .work 1 .fetchAdd]

def postServer : Server where
  enclave := { State.boot with
    counter := 1
    sessions := [⟨[], "demo", .counted 1⟩, ⟨[], "demo", .received⟩] }
  calls := [⟨postStream, .processing postEnvelope 1⟩, ⟨postStream, .processing postEnvelope 0⟩]

theorem post_run :
    Run ((samplePlatform []).serverStep sampleCodec) Server.boot postEvents postServer := by
  have hinference : sampleCodec.inference? postEnvelope = some ([], "demo") := by
    simp [Codec.inference?, sampleCodec, postEnvelope]
  apply Run.of_foldlM
  simp [postEvents, postServer, Platform.serverStep, receive_post, hinference, Server.boot, State.boot,
    Platform.step, Server.setPhase, Work.event, Platform.setStage]

theorem server_recorded_post : ∃ es s,
    Run ((samplePlatform []).serverStep sampleCodec) Server.boot (postEvents ++ es) s ∧
      s.enclave.ledger.size = 2 ∧
      ∀ i < 2, ∃! c, RecordedAt (samplePlatform []) sampleCodec s c i := by
  obtain ⟨es, s, hrun, _, _, _, hsize⟩ := finish (reachable_serves post_run)
  have htwo : s.enclave.ledger.size = 2 := by
    rw [hsize]
    simp [postServer, brings_post]
  exact ⟨es, s, post_run.append hrun, htwo, fun i hi =>
    (server_recorded (samplePlatform []) sampleCodec (post_run.append hrun)).2 i (htwo ▸ hi)⟩

theorem server_completes_post : ∃ es s,
    Run ((samplePlatform []).serverStep sampleCodec) Server.boot (postEvents ++ es) s ∧
      s.enclave.ledger.size = 2 ∧ ∀ call ∈ s.calls, Call.Over call := by
  obtain ⟨es, s, hrun, _, _, hover, hsize⟩ :=
    server_completes (samplePlatform []) sampleCodec post_run
  refine ⟨es, s, post_run.append hrun, ?_, hover⟩
  rw [hsize]
  simp [postServer, brings_post]

end Audit
end Pzdr
