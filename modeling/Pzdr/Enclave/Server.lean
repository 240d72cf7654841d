import Pzdr.Enclave.Dispatch
import Pzdr.Enclave.Sessions
import Pzdr.Numbering

/-!
# Enclave.Server

`handle_conn` of `services/pzdr-enclave/src/main.rs`, for any number of connections at once. Every
connection brings any bytes; an event is one step of one call of `handle_conn`, or a step of the
session that the call has opened.

* `Serves`: the shared state is one the machine of `Enclave.Machine` can reach, its sessions belong
  to the calls that brought an inference request, one each, and what a call replies is what
  `dispatch` gives for the envelope of this very call.
* `reachable_serves`: all runs keep it.
-/

namespace Pzdr
namespace Enclave

/-! ## The machine, seen from one session -/

/-- `receipt.index` of the answer of a session. -/
def Session.position? (session : Session) : Option Nat :=
  match session.stage with
  | .done _ response =>
    (response.get? "receipt").bind (fun receipt => Platform.getU64 receipt "index")
  | _ => none

/-- The session whose step an event is. -/
def Event.sid? : Event → Option Nat
  | .fetchAdd sid => some sid
  | .signProof sid _ _ _ => some sid
  | .append sid _ _ => some sid
  | _ => none

section Machine

variable {P : Platform} {s s' : State} {e : Event}

theorem sessions_step (hstep : P.step s e = some s') {sid : Nat} {session : Session}
    (hs : s.sessions[sid]? = some session) (hother : e.sid? ≠ some sid) :
    s'.sessions[sid]? = some session := by
  have hset : ∀ {i : Nat} {y : Session}, some i ≠ some sid →
      (s.sessions.set i y)[sid]? = some session := by
    intro i y hne
    rw [List.getElem?_set_ne (fun heq => hne (congrArg some heq))]
    exact hs
  cases e with
  | request body tenant =>
    cases hstep
    exact (List.getElem?_append_left (List.getElem?_eq_some_iff.mp hs).1).trans hs
  | fetchAdd i =>
    obtain ⟨_, _, _, rfl⟩ := Platform.step_fetchAdd hstep
    exact hset hother
  | signProof i now proofId sessionId =>
    obtain ⟨_, _, _, _, rfl⟩ := Platform.step_signProof hstep
    exact hset hother
  | append i now totalUs =>
    obtain ⟨_, _, _, _, _, _, rfl⟩ := Platform.step_append hstep
    exact hset hother
  | _ =>
    obtain ⟨ms, rfl, _⟩ := step_query hstep trivial
    exact hs

/-- A session keeps its request. -/
theorem session_step (hstep : P.step s e = some s') {sid : Nat} (hown : e.sid? = some sid) :
    ∃ session session', s.sessions[sid]? = some session ∧ s'.sessions[sid]? = some session' ∧
      session'.body = session.body ∧ session'.tenant = session.tenant ∧
      s'.sessions.length = s.sessions.length := by
  cases e with
  | fetchAdd i =>
    obtain rfl := Option.some.inj hown
    obtain ⟨session, hs, _, rfl⟩ := Platform.step_fetchAdd hstep
    exact ⟨session, _, hs, List.getElem?_set_self (List.getElem?_eq_some_iff.mp hs).1, rfl, rfl,
      List.length_set⟩
  | signProof i now proofId sessionId =>
    obtain rfl := Option.some.inj hown
    obtain ⟨session, _, hs, _, rfl⟩ := Platform.step_signProof hstep
    exact ⟨session, _, hs, List.getElem?_set_self (List.getElem?_eq_some_iff.mp hs).1, rfl, rfl,
      List.length_set⟩
  | append i now totalUs =>
    obtain rfl := Option.some.inj hown
    obtain ⟨session, _, _, hs, _, _, rfl⟩ := Platform.step_append hstep
    exact ⟨session, _, hs, List.getElem?_set_self (List.getElem?_eq_some_iff.mp hs).1, rfl, rfl,
      List.length_set⟩
  | _ => cases hown

theorem leaves_step (hstep : P.step s e = some s') : s.ledger.leaves <+: s'.ledger.leaves := by
  cases e with
  | request body tenant =>
    cases hstep
    exact List.prefix_rfl
  | fetchAdd sid =>
    obtain ⟨_, _, _, rfl⟩ := Platform.step_fetchAdd hstep
    exact List.prefix_rfl
  | signProof sid now proofId sessionId =>
    obtain ⟨_, _, _, _, rfl⟩ := Platform.step_signProof hstep
    exact List.prefix_rfl
  | append sid now totalUs =>
    obtain ⟨_, _, _, _, _, _, rfl⟩ := Platform.step_append hstep
    exact List.prefix_append _ _
  | _ =>
    obtain ⟨ms, rfl, _⟩ := step_query hstep trivial
    exact List.prefix_rfl

/-- The receipts have the indices of all entries, each once. -/
def Positioned (s : State) : Prop :=
  Numbering.Numbers Session.position? s.sessions s.entries.length

theorem Positioned.step (hc : Consistent P s) (h : Positioned s) (hstep : P.step s e = some s') :
    Positioned s' := by
  cases e with
  | request body tenant =>
    cases hstep
    exact h.concat_none rfl
  | fetchAdd sid =>
    obtain ⟨session, hs, hstage, rfl⟩ := Platform.step_fetchAdd hstep
    exact h.set_keep hs (by rw [Session.position?, Session.position?, hstage])
  | signProof sid now proofId sessionId =>
    obtain ⟨session, counter, hs, hstage, rfl⟩ := Platform.step_signProof hstep
    exact h.set_keep hs (by rw [Session.position?, Session.position?, hstage])
  | append sid now totalUs =>
    obtain ⟨session, proof, receipt, hs, hstage, hr, rfl⟩ := Platform.step_append hstep
    have hindex := (Platform.inclusionAnswer_get? hr).1
    have hnone : session.position? = none := by rw [Session.position?, hstage]
    have hnext := Numbering.Numbers.set_next h hs
      (y := { session with
        stage := .done proof (Platform.response (P.decide session.body) proof receipt totalUs) })
      hnone ?_
    · rw [Positioned, List.length_append, List.length_singleton]
      exact hnext
    · simp only [Session.position?, Platform.response_get?_receipt, Option.bind_some,
        Platform.getU64, hindex, hc.size_eq]
  | _ =>
    obtain ⟨ms, rfl, _⟩ := step_query hstep trivial
    exact h

theorem reachable_positioned {es : List Event} (h : Run P.step State.boot es s) :
    Positioned s := by
  refine (h.invariant (I := fun s => Consistent P s ∧ Positioned s)
    ⟨consistent_boot, Numbering.numbers_nil⟩ ?_).2
  intro s e s' hstep hs
  exact ⟨hs.1.step hstep, hs.2.step hs.1 hstep⟩

end Machine

/-! ## The calls -/

/-- The crates of `handle_conn`: JSON and base64. -/
structure Codec where
  fromSlice : Bytes → Except String VsockEnvelope
  base64Decode : String → Option Bytes

/-- How far a call of `handle_conn` has come. A reply is `written` or could not be written. -/
inductive Phase where
  | accepted
  | refused (e : String)
  | dispatching (env : VsockEnvelope)
  | processing (env : VsockEnvelope) (sid : Nat)
  | replied (env : VsockEnvelope) (sid : Option Nat) (resp : VsockResponse)
      (written : Option (Except String Unit))

structure Call where
  stream : Stream
  phase : Phase

/-- The session of an inference request. -/
def Call.sid? (call : Call) : Option Nat :=
  match call.phase with
  | .processing _ sid => some sid
  | .replied _ sid _ _ => sid
  | _ => none

structure Server where
  enclave : State
  calls : List Call

def Server.boot : Server := ⟨State.boot, []⟩

def Server.setPhase (s : Server) (c : Nat) (call : Call) (phase : Phase) : Server :=
  { s with calls := s.calls.set c { call with phase := phase } }

/-- A step of the session of a call. -/
inductive Work where
  | fetchAdd
  | signProof (now : Nat) (proofId sessionId : Bytes)
  | append (now totalUs : Nat)

def Work.event (sid : Nat) : Work → Event
  | .fetchAdd => .fetchAdd sid
  | .signProof now proofId sessionId => .signProof sid now proofId sessionId
  | .append now totalUs => .append sid now totalUs

inductive ServerEvent where
  | accept (stream : Stream)
  | read (c : Nat)
  | answer (c : Nat) (nsm : Bytes → Bytes → Option Bytes) (error : String) (now nowTo : Nat)
  | work (c : Nat) (work : Work)
  | write (c : Nat) (result : Except String Unit)

def ServerEvent.isAccept : ServerEvent → Bool
  | .accept _ => true
  | _ => false

namespace Codec

variable (codec : Codec)

/-- The first two lines of `handle_conn`. -/
def receive (stream : Stream) : Except String VsockEnvelope := do
  let bytes ← readFramed stream
  codec.fromSlice bytes

def handlers (attestation : Except String AttestationOut) (processed : Except String Json) :
    Handlers where
  base64Decode := codec.base64Decode
  publishAttestation := attestation
  processAndDelete _ _ := processed

/-- The body and the tenant with which `dispatch` calls `process_and_delete`. -/
def inference? (env : VsockEnvelope) : Option (Bytes × String) :=
  if env.method = "POST" ∧ env.path = "/v1/gateway/inference" then
    some ((codec.base64Decode env.bodyB64).getD [],
      ((env.headers.lookup "x-tenant-id").bind asStr).getD "demo")
  else none

variable {codec} in
/-- A frame of the parent is taken apart again. -/
theorem receive_frame {bytes : Bytes} (hlen : bytes.length ≤ maxFrame) (ending : String) :
    codec.receive ⟨writeFrame bytes, ending⟩ = codec.fromSlice bytes := by
  have hcarries : Carries ⟨writeFrame bytes, ending⟩ bytes := by
    refine ⟨hlen, [], ?_⟩
    unfold maxFrame at hlen
    rw [writeFrame, Nat.mod_eq_of_lt (by omega), List.append_nil]
  rw [receive, readFramed, readFrame_ok.mpr hcarries]
  rfl

end Codec

/-- The query of the ledger that `dispatch` makes. -/
def queryEvent? (now nowTo : Nat) (env : VsockEnvelope) : Option Event :=
  if env.method = "GET" ∧ env.path = "/v1/ledger/root" then some (.ledgerRoot now)
  else if env.method = "GET" ∧ proofRoute <+: env.path.toList then
    (parseUsize (argument proofRoute env.path)).map (fun idx => .ledgerProof idx now)
  else if env.method = "GET" ∧ consistencyRoute <+: env.path.toList then
    (parseUsize (argument consistencyRoute env.path)).map
      (fun size => .ledgerConsistency size now nowTo)
  else none

/-- The derived serializer. -/
def responseJson (resp : VsockResponse) : Json := .obj [
  ("status", .num resp.status.toNat),
  ("headers", object resp.headers),
  ("body_b64", .str resp.bodyB64)]

/-- The last two lines of `handle_conn`. -/
def replyFrame (resp : VsockResponse) : Bytes := writeFramed (toVec (responseJson resp))

namespace Platform

variable (P : Platform)

/-- `publish_attestation`, for what the NSM device does; `error` is the text of its error. -/
def attest (nsm : Bytes → Bytes → Option Bytes) (error : String) (now : Nat) :
    Except String AttestationOut :=
  match P.publishAttestation nsm now with
  | some att => .ok att
  | none => .error error

/-- What `dispatch` replies to any request but an inference. -/
def answer (codec : Codec) (nsm : Bytes → Bytes → Option Bytes) (error : String)
    (ledger : TransparencyLog Bytes) (now nowTo : Nat) (env : VsockEnvelope) : VsockResponse :=
  P.dispatch (codec.handlers (P.attest nsm error now) (.error "")) ledger now nowTo env

/-- One step; `none` if the event cannot happen in this state. -/
def serverStep (codec : Codec) (s : Server) : ServerEvent → Option Server
  | .accept stream => some { s with calls := s.calls ++ [⟨stream, .accepted⟩] }
  | .read c => do
    let call ← s.calls[c]?
    match call.phase with
    | .accepted =>
      match codec.receive call.stream with
      | .error e => some (s.setPhase c call (.refused e))
      | .ok env =>
        match codec.inference? env with
        | none => some (s.setPhase c call (.dispatching env))
        | some (body, tenant) =>
          let enclave ← P.step s.enclave (.request body tenant)
          some { s.setPhase c call (.processing env s.enclave.sessions.length) with
            enclave := enclave }
    | _ => none
  | .answer c nsm error now nowTo => do
    let call ← s.calls[c]?
    match call.phase with
    | .dispatching env =>
      let resp := P.answer codec nsm error s.enclave.ledger now nowTo env
      let enclave ← ((queryEvent? now nowTo env).toList).foldlM P.step s.enclave
      some { s.setPhase c call (.replied env none resp none) with enclave := enclave }
    | _ => none
  | .work c work => do
    let call ← s.calls[c]?
    match call.phase with
    | .processing env sid =>
      let enclave ← P.step s.enclave (work.event sid)
      let session ← enclave.sessions[sid]?
      match session.stage with
      | .done _ response =>
        let resp := P.dispatch (codec.handlers (.error "") (.ok response)) enclave.ledger 0 0 env
        some { s.setPhase c call (.replied env (some sid) resp none) with enclave := enclave }
      | _ => some { s with enclave := enclave }
    | _ => none
  | .write c result => do
    let call ← s.calls[c]?
    match call.phase with
    | .replied env sid resp none =>
      some (s.setPhase c call (.replied env sid resp (some result)))
    | _ => none

/-! ## What each step does -/

section Inversion

variable {P} {codec : Codec} {s s' : Server} {c : Nat}

theorem serverStep_read (h : P.serverStep codec s (.read c) = some s') :
    ∃ call, s.calls[c]? = some call ∧ call.phase = .accepted ∧
      ((∃ e, codec.receive call.stream = .error e ∧ s' = s.setPhase c call (.refused e)) ∨
        (∃ env, codec.receive call.stream = .ok env ∧ codec.inference? env = none ∧
          s' = s.setPhase c call (.dispatching env)) ∨
        ∃ env body tenant enclave, codec.receive call.stream = .ok env ∧
          codec.inference? env = some (body, tenant) ∧
          P.step s.enclave (.request body tenant) = some enclave ∧
          s' = { s.setPhase c call (.processing env s.enclave.sessions.length) with
            enclave := enclave }) := by
  simp only [serverStep, Option.bind_eq_bind, Option.bind_eq_some_iff] at h
  obtain ⟨call, hcall, h⟩ := h
  refine ⟨call, hcall, ?_⟩
  split at h
  · rename_i hphase
    refine ⟨hphase, ?_⟩
    split at h
    · rename_i e hreceive
      exact .inl ⟨e, hreceive, (Option.some.inj h).symm⟩
    · rename_i env hreceive
      split at h
      · rename_i hnone
        exact .inr (.inl ⟨env, hreceive, hnone, (Option.some.inj h).symm⟩)
      · rename_i body tenant hinference
        rw [Option.bind_eq_some_iff] at h
        obtain ⟨enclave, hstep, h⟩ := h
        exact .inr (.inr ⟨env, body, tenant, enclave, hreceive, hinference, hstep,
          (Option.some.inj h).symm⟩)
  · cases h

theorem serverStep_answer {nsm : Bytes → Bytes → Option Bytes} {error : String} {now nowTo : Nat}
    (h : P.serverStep codec s (.answer c nsm error now nowTo) = some s') :
    ∃ call env enclave, s.calls[c]? = some call ∧ call.phase = .dispatching env ∧
      ((queryEvent? now nowTo env).toList).foldlM P.step s.enclave = some enclave ∧
      s' = { s.setPhase c call (.replied env none
          (P.answer codec nsm error s.enclave.ledger now nowTo env) none) with
        enclave := enclave } := by
  simp only [serverStep, Option.bind_eq_bind, Option.bind_eq_some_iff] at h
  obtain ⟨call, hcall, h⟩ := h
  split at h
  · rename_i env hphase
    rw [Option.bind_eq_some_iff] at h
    obtain ⟨enclave, hstep, h⟩ := h
    exact ⟨call, env, enclave, hcall, hphase, hstep, (Option.some.inj h).symm⟩
  · cases h

theorem serverStep_work {work : Work} (h : P.serverStep codec s (.work c work) = some s') :
    ∃ call env sid enclave session, s.calls[c]? = some call ∧ call.phase = .processing env sid ∧
      P.step s.enclave (work.event sid) = some enclave ∧ enclave.sessions[sid]? = some session ∧
      ((∃ proof response, session.stage = .done proof response ∧
          s' = { s.setPhase c call (.replied env (some sid)
              (P.dispatch (codec.handlers (.error "") (.ok response)) enclave.ledger 0 0 env)
              none) with
            enclave := enclave }) ∨
        (session.finished? = none ∧ s' = { s with enclave := enclave })) := by
  simp only [serverStep, Option.bind_eq_bind, Option.bind_eq_some_iff] at h
  obtain ⟨call, hcall, h⟩ := h
  split at h
  · rename_i env sid hphase
    simp only [Option.bind_eq_some_iff] at h
    obtain ⟨enclave, hstep, session, hs, h⟩ := h
    refine ⟨call, env, sid, enclave, session, hcall, hphase, hstep, hs, ?_⟩
    split at h
    · rename_i proof response hdone
      exact .inl ⟨proof, response, hdone, (Option.some.inj h).symm⟩
    · rename_i hnot
      refine .inr ⟨?_, (Option.some.inj h).symm⟩
      cases hstage : session.stage with
      | done proof response => exact absurd hstage (hnot proof response)
      | _ => simp [Session.finished?, hstage]
  · cases h

theorem serverStep_write {result : Except String Unit}
    (h : P.serverStep codec s (.write c result) = some s') :
    ∃ call env sid resp, s.calls[c]? = some call ∧ call.phase = .replied env sid resp none ∧
      s' = s.setPhase c call (.replied env sid resp (some result)) := by
  simp only [serverStep, Option.bind_eq_bind, Option.bind_eq_some_iff] at h
  obtain ⟨call, hcall, h⟩ := h
  split at h
  · rename_i env sid resp hphase
    exact ⟨call, env, sid, resp, hcall, hphase, (Option.some.inj h).symm⟩
  · cases h

end Inversion

end Platform

/-- What the peer can read from the connection in the end. -/
def Call.output (call : Call) : Bytes :=
  match call.phase with
  | .replied _ _ resp _ => replyFrame resp
  | _ => []

/-- A call keeps its bytes, and what it has replied. -/
def Call.Continues (call call' : Call) : Prop :=
  call'.stream = call.stream ∧ ∀ env sid resp written, call.phase = .replied env sid resp written →
    ∃ written', call'.phase = .replied env sid resp written'

theorem Call.Continues.refl (call : Call) : call.Continues call :=
  ⟨rfl, fun _ _ _ written h => ⟨written, h⟩⟩

theorem Call.Continues.output {call call' : Call} (h : call.Continues call') :
    call.output <+: call'.output := by
  rw [Call.output]
  cases hphase : call.phase with
  | replied env sid resp written =>
    obtain ⟨written', hphase'⟩ := h.2 env sid resp written hphase
    rw [Call.output, hphase']
  | _ => exact List.nil_prefix

section Calls

variable {P : Platform} {codec : Codec} {s s' : Server} {e : ServerEvent} {c : Nat} {call : Call}

/-- A call that has not replied can go to any phase. -/
theorem calls_set {c' : Nat} {call' : Call} (hcall' : s.calls[c']? = some call') {phase : Phase}
    (hreplied : ∀ env sid resp written, call'.phase = .replied env sid resp written →
      ∃ written', phase = .replied env sid resp written')
    (hcall : s.calls[c]? = some call) :
    ∃ call'', (s.setPhase c' call' phase).calls[c]? = some call'' ∧ call.Continues call'' := by
  by_cases hc : c' = c
  · subst hc
    obtain rfl := Option.some.inj (hcall'.symm.trans hcall)
    exact ⟨_, List.getElem?_set_self (List.getElem?_eq_some_iff.mp hcall).1, rfl, hreplied⟩
  · exact ⟨call, (List.getElem?_set_ne hc).trans hcall, .refl call⟩

theorem calls_step (hstep : P.serverStep codec s e = some s') (hcall : s.calls[c]? = some call) :
    ∃ call', s'.calls[c]? = some call' ∧ call.Continues call' := by
  cases e with
  | accept stream =>
    cases hstep
    exact ⟨call, (List.getElem?_append_left (List.getElem?_eq_some_iff.mp hcall).1).trans hcall,
      .refl call⟩
  | read c' =>
    obtain ⟨call', hcall', hphase, ⟨e, _, rfl⟩ | ⟨env, _, _, rfl⟩ | ⟨env, _, _, enclave, _, _, _, rfl⟩⟩ :=
      Platform.serverStep_read hstep
    all_goals exact calls_set hcall' (by simp [hphase]) hcall
  | answer c' nsm error now nowTo =>
    obtain ⟨call', env, enclave, hcall', hphase, _, rfl⟩ := Platform.serverStep_answer hstep
    exact calls_set hcall' (by simp [hphase]) hcall
  | work c' work =>
    obtain ⟨call', env, sid, enclave, session, hcall', hphase, _, _, ⟨_, _, _, rfl⟩ | ⟨_, rfl⟩⟩ :=
      Platform.serverStep_work hstep
    · exact calls_set hcall' (by simp [hphase]) hcall
    · exact ⟨call, hcall, .refl call⟩
  | write c' result =>
    obtain ⟨call', env, sid, resp, hcall', hphase, rfl⟩ := Platform.serverStep_write hstep
    refine calls_set hcall' ?_ hcall
    rw [hphase]
    intro env' sid' resp' written h
    cases h
    exact ⟨_, rfl⟩

/-- Only `accept` makes a new call. -/
theorem length_calls_step (hstep : P.serverStep codec s e = some s') (haccept : e.isAccept = false) :
    s'.calls.length = s.calls.length := by
  cases e with
  | accept stream => cases haccept
  | read c' =>
    obtain ⟨call', _, _, ⟨e, _, rfl⟩ | ⟨env, _, _, rfl⟩ | ⟨env, _, _, enclave, _, _, _, rfl⟩⟩ :=
      Platform.serverStep_read hstep
    all_goals simp [Server.setPhase]
  | answer c' nsm error now nowTo =>
    obtain ⟨call', env, enclave, _, _, _, rfl⟩ := Platform.serverStep_answer hstep
    simp [Server.setPhase]
  | work c' work =>
    obtain ⟨call', env, sid, enclave, session, _, _, _, _, ⟨_, _, _, rfl⟩ | ⟨_, rfl⟩⟩ :=
      Platform.serverStep_work hstep
    · simp [Server.setPhase]
    · rfl
  | write c' result =>
    obtain ⟨call', env, sid, resp, _, _, rfl⟩ := Platform.serverStep_write hstep
    simp [Server.setPhase]

end Calls

/-! ## The invariant -/

/-- A reply to an inference request is the answer of its session; any other reply is the one of
`dispatch`, for the ledger as it was at some moment. -/
def Call.Sound (P : Platform) (codec : Codec) (enclave : State) (call : Call) : Prop :=
  match call.phase with
  | .accepted => True
  | .refused e => codec.receive call.stream = .error e
  | .dispatching env => codec.receive call.stream = .ok env ∧ codec.inference? env = none
  | .processing env sid => codec.receive call.stream = .ok env ∧
      ∃ session, enclave.sessions[sid]? = some session ∧
        codec.inference? env = some (session.body, session.tenant) ∧ session.finished? = none
  | .replied env none resp _ => codec.receive call.stream = .ok env ∧
      codec.inference? env = none ∧ ∃ ledger nsm error now nowTo,
        ledger.leaves <+: enclave.ledger.leaves ∧
        resp = P.answer codec nsm error ledger now nowTo env
  | .replied env (some sid) resp _ => codec.receive call.stream = .ok env ∧
      ∃ session proof response, enclave.sessions[sid]? = some session ∧
        codec.inference? env = some (session.body, session.tenant) ∧
        session.stage = .done proof response ∧ resp = P.jsonResp 200 response

structure Serves (P : Platform) (codec : Codec) (s : Server) : Prop where
  enclave : ∃ es, Run P.step State.boot es s.enclave
  numbers : Numbering.Numbers Call.sid? s.calls s.enclave.sessions.length
  calls : ∀ (c : Nat) (call : Call), s.calls[c]? = some call → call.Sound P codec s.enclave

section Steps

variable {P : Platform} {codec : Codec} {s s' : Server} {enclave enclave' : State} {call : Call}

/-- A call does not notice what happens to other sessions. -/
theorem Call.Sound.mono (h : call.Sound P codec enclave)
    (hleaves : enclave.ledger.leaves <+: enclave'.ledger.leaves)
    (hsessions : ∀ sid session, call.sid? = some sid → enclave.sessions[sid]? = some session →
      enclave'.sessions[sid]? = some session) : call.Sound P codec enclave' := by
  obtain ⟨stream, phase⟩ := call
  cases phase with
  | accepted => trivial
  | refused e => exact h
  | dispatching env => exact h
  | processing env sid =>
    obtain ⟨henv, session, hs, hrest⟩ := h
    exact ⟨henv, session, hsessions sid session rfl hs, hrest⟩
  | replied env sid resp written =>
    cases sid with
    | none =>
      obtain ⟨henv, hinference, ledger, nsm, error, now, nowTo, hledger, hresp⟩ := h
      exact ⟨henv, hinference, ledger, nsm, error, now, nowTo, hledger.trans hleaves, hresp⟩
    | some sid =>
      obtain ⟨henv, session, proof, response, hs, hrest⟩ := h
      exact ⟨henv, session, proof, response, hsessions sid session rfl hs, hrest⟩

/-- The reply to an inference request. -/
theorem dispatch_inference {env : VsockEnvelope} {body : Bytes} {tenant : String}
    (h : codec.inference? env = some (body, tenant)) (attestation : Except String AttestationOut)
    (response : Json) (ledger : TransparencyLog Bytes) (now nowTo : Nat) :
    P.dispatch (codec.handlers attestation (.ok response)) ledger now nowTo env =
      P.jsonResp 200 response := by
  rw [Codec.inference?] at h
  split at h
  · rename_i hpost
    simp [Platform.dispatch, hpost, Codec.handlers]
  · cases h

theorem queryEvent?_isQuery {now nowTo : Nat} {env : VsockEnvelope} {e : Event}
    (h : queryEvent? now nowTo env = some e) : e.IsQuery := by
  rw [queryEvent?] at h
  split at h
  · cases h
    trivial
  split at h
  · obtain ⟨idx, _, rfl⟩ := Option.map_eq_some_iff.mp h
    trivial
  split at h
  · obtain ⟨size, _, rfl⟩ := Option.map_eq_some_iff.mp h
    trivial
  · cases h

/-- A call that is no inference request makes one query at most. -/
theorem answer_run {now nowTo : Nat} {env : VsockEnvelope}
    (h : ((queryEvent? now nowTo env).toList).foldlM P.step enclave = some enclave') :
    ∃ ms, Run P.step enclave (queryEvent? now nowTo env).toList enclave' ∧
      enclave' = { enclave with signed := enclave.signed ++ ms } := by
  have hrun := Run.of_foldlM h
  cases hquery : queryEvent? now nowTo env with
  | none =>
    rw [hquery] at h hrun
    cases h
    exact ⟨[], hrun, by rw [List.append_nil]⟩
  | some e =>
    rw [hquery] at h hrun
    have hstep : P.step enclave e = some enclave' := by simpa using h
    obtain ⟨ms, heq, _⟩ := step_query hstep (queryEvent?_isQuery hquery)
    exact ⟨ms, hrun, heq⟩

theorem leaves_run {es : List Event} (h : Run P.step enclave es enclave') :
    enclave.ledger.leaves <+: enclave'.ledger.leaves :=
  h.invariant (I := fun t => enclave.ledger.leaves <+: t.ledger.leaves) List.prefix_rfl
    (fun _ _ _ hstep hpre => hpre.trans (leaves_step hstep))

/-- One call changes, and the machine makes some steps that no other call notices. -/
theorem Serves.update (h : Serves P codec s) {c : Nat} (hcall : s.calls[c]? = some call)
    {phase : Phase} {es : List Event} (hrun : Run P.step s.enclave es enclave')
    (hnumbers : Numbering.Numbers Call.sid? (s.calls.set c { call with phase := phase })
      enclave'.sessions.length)
    (hkeep : ∀ (c' : Nat) (call' : Call) sid session, c' ≠ c → s.calls[c']? = some call' →
      call'.sid? = some sid → s.enclave.sessions[sid]? = some session →
      enclave'.sessions[sid]? = some session)
    (hsound : Call.Sound P codec enclave' { call with phase := phase }) :
    Serves P codec { s.setPhase c call phase with enclave := enclave' } := by
  obtain ⟨es₀, hrun₀⟩ := h.enclave
  refine ⟨⟨_, hrun₀.append hrun⟩, hnumbers, ?_⟩
  intro c' call' hcall'
  by_cases hc : c' = c
  · subst hc
    have hset : (s.calls.set c' { call with phase := phase })[c']? =
        some { call with phase := phase } :=
      List.getElem?_set_self (List.getElem?_eq_some_iff.mp hcall).1
    obtain rfl := Option.some.inj (hset.symm.trans hcall')
    exact hsound
  · have hset : (s.calls.set c { call with phase := phase })[c']? = s.calls[c']? :=
      List.getElem?_set_ne (Ne.symm hc)
    have hold : s.calls[c']? = some call' := hset.symm.trans hcall'
    exact (h.calls c' call' hold).mono (leaves_run hrun)
      (fun sid session => hkeep c' call' sid session hc hold)

theorem Serves.read (h : Serves P codec s) {c : Nat}
    (hstep : P.serverStep codec s (.read c) = some s') : Serves P codec s' := by
  obtain ⟨call, hcall, hphase, ⟨e, hreceive, rfl⟩ | ⟨env, hreceive, hinference, rfl⟩ |
    ⟨env, body, tenant, enclave, hreceive, hinference, henclave, rfl⟩⟩ :=
      Platform.serverStep_read hstep
  all_goals have hnone : call.sid? = none := by rw [Call.sid?, hphase]
  · exact h.update hcall .nil (h.numbers.set_keep hcall (by rw [hnone]; rfl))
      (fun _ _ _ _ _ _ _ hs => hs) hreceive
  · exact h.update hcall .nil (h.numbers.set_keep hcall (by rw [hnone]; rfl))
      (fun _ _ _ _ _ _ _ hs => hs) ⟨hreceive, hinference⟩
  -- the session is the next one
  · cases henclave
    refine h.update hcall (.snoc .nil (e := .request body tenant) rfl) ?_ ?_ ?_
    · rw [List.length_append]
      exact h.numbers.set_next hcall hnone rfl
    · intro c' call' sid session _ _ _ hs
      exact (List.getElem?_append_left (List.getElem?_eq_some_iff.mp hs).1).trans hs
    · exact ⟨hreceive, _, List.getElem?_concat_length, hinference, rfl⟩

theorem Serves.answer (h : Serves P codec s) {c : Nat} {nsm : Bytes → Bytes → Option Bytes}
    {error : String} {now nowTo : Nat}
    (hstep : P.serverStep codec s (.answer c nsm error now nowTo) = some s') :
    Serves P codec s' := by
  obtain ⟨call, env, enclave, hcall, hphase, henclave, rfl⟩ := Platform.serverStep_answer hstep
  have hsound := h.calls c call hcall
  rw [Call.Sound, hphase] at hsound
  have hnone : call.sid? = none := by rw [Call.sid?, hphase]
  obtain ⟨ms, hrun, rfl⟩ := answer_run henclave
  exact h.update hcall hrun (h.numbers.set_keep hcall (by rw [hnone]; rfl))
    (fun _ _ _ _ _ _ _ hs => hs)
    ⟨hsound.1, hsound.2, s.enclave.ledger, nsm, error, now, nowTo, List.prefix_rfl, rfl⟩

theorem Work.sid?_event (work : Work) (sid : Nat) : (work.event sid).sid? = some sid := by
  cases work <;> rfl

theorem Serves.work (h : Serves P codec s) {c : Nat} {work : Work}
    (hstep : P.serverStep codec s (.work c work) = some s') : Serves P codec s' := by
  obtain ⟨call, env, sid, enclave, session, hcall, hphase, henclave, hs, hcases⟩ :=
    Platform.serverStep_work hstep
  have hsid : call.sid? = some sid := by rw [Call.sid?, hphase]
  have hsound := h.calls c call hcall
  rw [Call.Sound, hphase] at hsound
  obtain ⟨hreceive, session₀, hs₀, hinference, _⟩ := hsound
  -- the session is still the one of this request
  obtain ⟨x, x', hx, hx', hbody, htenant, hlength⟩ :=
    session_step henclave (work.sid?_event sid)
  obtain rfl := Option.some.inj (hx.symm.trans hs₀)
  obtain rfl := Option.some.inj (hx'.symm.trans hs)
  rw [← hbody, ← htenant] at hinference
  have hkeep : ∀ (c' : Nat) (call' : Call) sid' session', c' ≠ c → s.calls[c']? = some call' →
      call'.sid? = some sid' → s.enclave.sessions[sid']? = some session' →
      enclave.sessions[sid']? = some session' := by
    intro c' call' sid' session' hne hcall' hsid' hs'
    refine sessions_step henclave hs' ?_
    rw [work.sid?_event]
    intro heq
    rw [Option.some.inj heq] at hsid
    exact hne (h.numbers.place_unique hcall' hcall hsid' hsid)
  have hrun : Run P.step s.enclave [work.event sid] enclave := .snoc .nil henclave
  have hnumbers : ∀ phase : Phase, Call.sid? { call with phase := phase } = some sid →
      Numbering.Numbers Call.sid? (s.calls.set c { call with phase := phase })
        enclave.sessions.length := by
    intro phase hphase'
    rw [hlength]
    exact h.numbers.set_keep hcall (by rw [hphase', hsid])
  rcases hcases with ⟨proof, response, hdone, rfl⟩ | ⟨hunfinished, rfl⟩
  · exact h.update hcall hrun (hnumbers _ rfl) hkeep
      ⟨hreceive, _, proof, response, hs, hinference, hdone, dispatch_inference hinference _ _ _ _ _⟩
  · have hsame : s = s.setPhase c call (.processing env sid) := by
      obtain ⟨hlt, hget⟩ := List.getElem?_eq_some_iff.mp hcall
      rw [Server.setPhase, ← hphase, ← hget, List.set_getElem_self]
    rw [hsame]
    exact h.update hcall hrun (hnumbers _ rfl) hkeep ⟨hreceive, _, hs, hinference, hunfinished⟩

theorem Serves.write (h : Serves P codec s) {c : Nat} {result : Except String Unit}
    (hstep : P.serverStep codec s (.write c result) = some s') : Serves P codec s' := by
  obtain ⟨call, env, sid, resp, hcall, hphase, rfl⟩ := Platform.serverStep_write hstep
  have hsound := h.calls c call hcall
  have hsid : call.sid? = sid := by rw [Call.sid?, hphase]
  refine h.update hcall .nil (h.numbers.set_keep hcall (by rw [hsid]; rfl))
    (fun _ _ _ _ _ _ _ hs => hs) ?_
  rw [Call.Sound, hphase] at hsound
  cases sid <;> exact hsound

theorem Serves.step (h : Serves P codec s) {e : ServerEvent}
    (hstep : P.serverStep codec s e = some s') : Serves P codec s' := by
  cases e with
  | accept stream =>
    cases hstep
    refine ⟨h.enclave, h.numbers.concat_none rfl, ?_⟩
    intro c call hcall
    rw [List.getElem?_append] at hcall
    split at hcall
    · exact h.calls c call hcall
    · obtain rfl := List.mem_singleton.mp (List.mem_of_getElem? hcall)
      trivial
  | read c => exact h.read hstep
  | answer c nsm error now nowTo => exact h.answer hstep
  | work c work => exact h.work hstep
  | write c result => exact h.write hstep

end Steps

theorem serves_boot (P : Platform) (codec : Codec) : Serves P codec Server.boot := by
  refine ⟨⟨[], .nil⟩, Numbering.numbers_nil, ?_⟩
  intro c call hcall
  simp [Server.boot] at hcall

theorem reachable_serves {P : Platform} {codec : Codec} {es : List ServerEvent} {s : Server}
    (h : Run (P.serverStep codec) Server.boot es s) : Serves P codec s :=
  h.invariant (serves_boot P codec) (fun _ _ _ hstep hs => hs.step hstep)


end Enclave
end Pzdr
