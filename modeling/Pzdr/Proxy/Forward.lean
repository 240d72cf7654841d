import Pzdr.Canonical
import Pzdr.Vsock

/-!
# Proxy.Forward

`do_forward` of `crates/vsock-parent-proxy/src/main.rs`: a request of the load balancer goes to the
enclave in a frame, and the reply comes back as an HTTP response.

Up to the decoded reply every failure is an `AppError`. The response is then built without errors: a
body that is no base64 becomes the empty body, and a status or a header that the HTTP builder rejects
is a panic. `forward_faithful_iff` says for which replies the proxy passes on what it was given.
-/

namespace Pzdr
namespace Proxy

/-- The crates: base64, JSON, and the header map of an HTTP response. `appendHeader` is `none` where
`Builder::header` rejects the header: an illegal name or value, or a full map. -/
structure Crates where
  base64Encode : Bytes → String
  base64Decode : String → Option Bytes
  fromSlice : Bytes → Except String VsockResponse
  Headers : Type
  noHeaders : Headers
  appendHeader : Headers → String → String → Option Headers

structure AppState where
  cid : Nat
  port : Nat

structure Metrics where
  requests : Nat
  errors : Nat
  latencyMs : List Nat

inductive AppError where
  | upstream (detail : String)
  | timeout
  deriving DecidableEq, Repr

/-- The status and the body of `into_response`. -/
def AppError.intoResponse : AppError → Nat × Json
  | .upstream s => (502, Enclave.object [("error", .str "upstream"), ("detail", .str s)])
  | .timeout => (504, Enclave.object [("error", .str "enclave_timeout")])

structure Response (Headers : Type) where
  status : UInt16
  headers : Headers
  body : Bytes

/-- How a request ends. -/
inductive Outcome (Headers : Type) where
  | failed (e : AppError)
  | answered (r : Response Headers)
  | panicked

/-- What the connection to the enclave does within the timeout. -/
inductive Connection where
  | refused (e : String)
  | writeFailed (e : String)
  | timedOut
  | replied (s : Stream)

/-- A request is over: the counters, the frame for the enclave, and how it ended. -/
structure Forwarded (Headers : Type) where
  metrics : Metrics
  frame : Bytes
  outcome : Outcome Headers

/-- `hdr_map.insert`, for a header whose value is text. -/
def insertHeader (map : List (String × Json)) (header : String × Option String) :
    List (String × Json) :=
  match header.2 with
  | some s => (header.1, .str s) :: map.filter (fun h => h.1 ≠ header.1)
  | none => map

def envelopeJson (env : VsockEnvelope) : Json := .obj [
  ("method", .str env.method),
  ("path", .str env.path),
  ("headers", Enclave.object env.headers),
  ("body_b64", .str env.bodyB64)]

section Forward

variable (C : Crates)

/-- The round trip; the text of an error is its outermost context. -/
def roundTrip (state : AppState) : Connection → Except AppError VsockResponse
  | .refused _ => .error (.upstream
      ("vsock connect cid=" ++ toString state.cid ++ " port=" ++ toString state.port))
  | .writeFailed e => .error (.upstream e)
  | .timedOut => .error .timeout
  | .replied s =>
    match readFramed s with
    | .error e => .error (.upstream e)
    | .ok respBytes =>
      match C.fromSlice respBytes with
      | .error _ => .error (.upstream "decode VsockResponse")
      | .ok resp => .ok resp

/-- `Response::builder().status(resp.status)` -/
def startBuilder (status : UInt16) : Option C.Headers :=
  if 100 ≤ status.toNat ∧ status.toNat < 1000 then some C.noHeaders else none

/-- The loop over the headers of the reply; those that are no text are left out. -/
def addHeaders (builder : Option C.Headers) (headers : List (String × Json)) : Option C.Headers :=
  headers.foldl (fun builder h =>
    match h.2 with
    | .str s => builder.bind (fun map => C.appendHeader map h.1 s)
    | _ => builder) builder

/-- The last lines of `do_forward`. -/
def reconstruct (resp : VsockResponse) : Outcome C.Headers :=
  let bodyBytes := (C.base64Decode resp.bodyB64).getD []
  match addHeaders C (startBuilder C resp.status) resp.headers with
  | some headers => .answered ⟨resp.status, headers, bodyBytes⟩
  | none => .panicked

def doForward (state : AppState) (metrics : Metrics) (method path : String)
    (headers : List (String × Option String)) (body : Bytes) (elapsedMs : Nat)
    (connection : Connection) : Forwarded C.Headers :=
  let envelope : VsockEnvelope :=
    ⟨method, path, headers.foldl insertHeader [], C.base64Encode body⟩
  let metrics := { metrics with
    requests := metrics.requests + 1
    latencyMs := metrics.latencyMs ++ [elapsedMs] }
  let frame := writeFramed (Enclave.toVec (envelopeJson envelope))
  match roundTrip C state connection with
  | .error e => ⟨{ metrics with errors := metrics.errors + 1 }, frame, .failed e⟩
  | .ok resp => ⟨metrics, frame, reconstruct C resp⟩

/-! ## What is passed on -/

/-- The connection delivers a frame with this response in it. -/
def Replies (connection : Connection) (resp : VsockResponse) : Prop :=
  ∃ s payload, connection = .replied s ∧ Carries s payload ∧ C.fromSlice payload = .ok resp

/-- A response that HTTP can express. -/
structure WellFormed (resp : VsockResponse) : Prop where
  status : 100 ≤ resp.status.toNat ∧ resp.status.toNat < 1000
  headers : (addHeaders C (some C.noHeaders) resp.headers).isSome = true
  body : (C.base64Decode resp.bodyB64).isSome = true

/-- An error that is counted, or what the enclave replied. -/
def Faithful (connection : Connection) (before : Metrics) (result : Forwarded C.Headers) : Prop :=
  match result.outcome with
  | .failed e => (e.intoResponse.1 = 502 ∨ e.intoResponse.1 = 504) ∧
      result.metrics.errors = before.errors + 1
  | .answered r => ∃ resp body, Replies C connection resp ∧
      C.base64Decode resp.bodyB64 = some body ∧ r.status = resp.status ∧ r.body = body
  | .panicked => False

variable {C} {state : AppState} {connection : Connection} {resp : VsockResponse}

theorem roundTrip_ok : roundTrip C state connection = .ok resp ↔ Replies C connection resp := by
  cases connection with
  | replied s =>
    simp only [roundTrip, Replies, Connection.replied.injEq]
    constructor
    · intro h
      split at h
      · cases h
      · rename_i payload hread
        split at h
        · cases h
        · rename_i resp' hslice
          cases h
          exact ⟨s, payload, rfl, readFrame_ok.mp hread, hslice⟩
    · rintro ⟨_, payload, rfl, hcarries, hslice⟩
      rw [readFramed, readFrame_ok.mpr hcarries]
      simp only [hslice]
  | _ => simp [roundTrip, Replies]

theorem addHeaders_none : ∀ headers : List (String × Json), addHeaders C none headers = none := by
  intro headers
  induction headers with
  | nil => rfl
  | cons h headers ih =>
    rw [addHeaders, List.foldl_cons]
    cases h.2 <;> exact ih

theorem Replies.unique {resp' : VsockResponse} (h : Replies C connection resp)
    (h' : Replies C connection resp') : resp' = resp := by
  have hok : roundTrip C ⟨0, 0⟩ connection = .ok resp := roundTrip_ok.mpr h
  have hok' : roundTrip C ⟨0, 0⟩ connection = .ok resp' := roundTrip_ok.mpr h'
  rw [hok'] at hok
  exact Except.ok.inj hok

/-- A builder without an error has got a status and headers that HTTP allows. -/
theorem addHeaders_startBuilder {map : C.Headers} :
    addHeaders C (startBuilder C resp.status) resp.headers = some map ↔
      (100 ≤ resp.status.toNat ∧ resp.status.toNat < 1000) ∧
        addHeaders C (some C.noHeaders) resp.headers = some map := by
  by_cases hstatus : 100 ≤ resp.status.toNat ∧ resp.status.toNat < 1000
  · rw [startBuilder, if_pos hstatus]
    simp only [hstatus, and_self, true_and]
  · rw [startBuilder, if_neg hstatus, addHeaders_none]
    simp only [hstatus, false_and, reduceCtorEq]

theorem reconstruct_faithful_iff (before after : Metrics) (frame : Bytes)
    (hreplies : Replies C connection resp) :
    Faithful C connection before ⟨after, frame, reconstruct C resp⟩ ↔ WellFormed C resp := by
  constructor
  · intro h
    cases hmap : addHeaders C (startBuilder C resp.status) resp.headers with
    | none =>
      simp only [Faithful, reconstruct, hmap] at h
    | some map =>
      simp only [Faithful, reconstruct, hmap] at h
      obtain ⟨resp', body, hreplies', hbody, _⟩ := h
      rw [hreplies.unique hreplies'] at hbody
      obtain ⟨hstatus, hheaders⟩ := addHeaders_startBuilder.mp hmap
      exact ⟨hstatus, by rw [hheaders]; rfl, by rw [hbody]; rfl⟩
  · intro h
    obtain ⟨map, hheaders⟩ := Option.isSome_iff_exists.mp h.headers
    obtain ⟨body, hbody⟩ := Option.isSome_iff_exists.mp h.body
    have hmap := addHeaders_startBuilder.mpr ⟨h.status, hheaders⟩
    simp only [Faithful, reconstruct, hmap]
    exact ⟨resp, body, hreplies, hbody, rfl, by rw [hbody]; rfl⟩

theorem forward_faithful_iff (C : Crates) (state : AppState) (metrics : Metrics)
    (method path : String) (headers : List (String × Option String)) (body : Bytes)
    (elapsedMs : Nat) (connection : Connection) :
    Faithful C connection metrics
        (doForward C state metrics method path headers body elapsedMs connection) ↔
      ∀ resp, Replies C connection resp → WellFormed C resp := by
  rw [doForward]
  cases htrip : roundTrip C state connection with
  | error e =>
    have hnone : ∀ resp, ¬ Replies C connection resp := by
      intro resp h
      have hok : roundTrip C state connection = .ok resp := roundTrip_ok.mpr h
      rw [htrip] at hok
      cases hok
    constructor
    · intro _ resp h
      exact absurd h (hnone resp)
    · intro _
      cases e with
      | upstream s => exact ⟨.inl rfl, rfl⟩
      | timeout => exact ⟨.inr rfl, rfl⟩
  | ok resp =>
    have hreplies := roundTrip_ok.mp htrip
    simp only [reconstruct_faithful_iff _ _ _ hreplies]
    constructor
    · intro h resp' hreplies'
      rw [hreplies.unique hreplies']
      exact h
    · intro h
      exact h resp hreplies

/-! ## Two replies -/

/-- The JSON text of a reply without headers. -/
def replyText (status bodyB64 : String) : Bytes :=
  Utf8.encode ("\x7b\"status\":" ++ status ++ ",\"headers\":\x7b\x7d,\"body_b64\":\"" ++ bodyB64 ++
    "\"\x7d").toList

example : replyText "200" "!" =
    Enclave.toVec (.obj [("status", .num 200), ("headers", .obj []), ("body_b64", .str "!")]) := by
  decide

/-- The crates on two replies: a body that is no base64, and a status that HTTP does not have. -/
def sampleCrates : Crates where
  base64Encode _ := ""
  base64Decode text := if text = "" then some [] else none
  fromSlice bs :=
    if bs = replyText "200" "!" then .ok ⟨200, [], "!"⟩
    else if bs = replyText "99" "" then .ok ⟨99, [], ""⟩
    else .error "expected value at line 1 column 1"
  Headers := List (String × String)
  noHeaders := []
  appendHeader map name value := some (map ++ [(name, value)])

def sampleForward (reply : Bytes) : Forwarded sampleCrates.Headers :=
  doForward sampleCrates ⟨16, 5000⟩ ⟨0, 0, []⟩ "GET" "/v1/ledger/root" [] [] 1
    (.replied ⟨writeFrame reply, "early eof"⟩)

theorem replies_sample {reply : Bytes} {resp : VsockResponse} (hlen : reply.length ≤ maxFrame)
    (hslice : sampleCrates.fromSlice reply = .ok resp) :
    Replies sampleCrates (.replied ⟨writeFrame reply, "early eof"⟩) resp := by
  refine ⟨_, reply, rfl, ⟨hlen, [], ?_⟩, hslice⟩
  unfold maxFrame at hlen
  rw [writeFrame, Nat.mod_eq_of_lt (by omega), List.append_nil]

/-- The reply whose body is no base64 is answered with an empty body, and the other one is a panic. -/
theorem forward_invents :
    (sampleForward (replyText "200" "!")).outcome = .answered ⟨200, [], []⟩ ∧
      ¬ Faithful sampleCrates (.replied ⟨writeFrame (replyText "200" "!"), "early eof"⟩) ⟨0, 0, []⟩
        (sampleForward (replyText "200" "!")) ∧
      (sampleForward (replyText "99" "")).outcome = .panicked ∧
      ¬ Faithful sampleCrates (.replied ⟨writeFrame (replyText "99" ""), "early eof"⟩) ⟨0, 0, []⟩
        (sampleForward (replyText "99" "")) := by
  have hlen : (replyText "200" "!").length ≤ maxFrame := by decide
  have hbody := replies_sample hlen rfl
  have hanswered : (sampleForward (replyText "200" "!")).outcome = .answered ⟨200, [], []⟩ := rfl
  have hpanicked : (sampleForward (replyText "99" "")).outcome = .panicked := rfl
  refine ⟨hanswered, ?_, hpanicked, ?_⟩
  · intro h
    rw [Faithful, hanswered] at h
    obtain ⟨resp, body, hreplies, hdecode, _⟩ := h
    rw [hbody.unique hreplies] at hdecode
    cases hdecode
  · intro h
    rw [Faithful, hpanicked] at h
    exact h

end Forward

end Proxy
end Pzdr
