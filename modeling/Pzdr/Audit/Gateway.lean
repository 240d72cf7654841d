import Pzdr.Audit.Service
import Pzdr.Gateway
import Pzdr.Json.Read

/-!
# Audit.Gateway

What comes back to an HTTP client through the proxy, in any interleaving of any requests.

* `gateway_counts`: the proxy's counters are the numbers of its exchanges.
* `gateway_answers`: an exchange fails, or its client gets what the enclave replied to this very
  request; the proxy does not panic.
* `gateway_entries`: every entry of the ledger belongs to one exchange, also if its client has
  got an error.
-/

namespace Pzdr
namespace Audit

open Enclave Proxy Gateway

theorem gateway_counts (D : Deployment) {es : List Gateway.Event} {s : Gateway.State D.crates.Headers}
    (hrun : Run D.step (Gateway.State.boot D.crates.Headers) es s) :
    s.metrics.requests = s.exchanges.length ∧
    s.metrics.latencyMs.length = s.exchanges.countP (fun x => x.stage.isEnded) ∧
    s.metrics.errors = s.exchanges.countP (fun x => x.stage.isFailed) ∧
    s.metrics.errors ≤ s.metrics.latencyMs.length ∧
    s.metrics.latencyMs.length ≤ s.metrics.requests := by
  have hcounted := reachable_counted hrun
  refine ⟨hcounted.requests, hcounted.latencies, hcounted.errors, ?_, ?_⟩
  · rw [hcounted.errors, hcounted.latencies]
    refine List.countP_mono_left ?_
    intro exchange _ hfailed
    cases hstage : exchange.stage with
    | ended c connection result => rfl
    | _ =>
      rw [hstage] at hfailed
      cases hfailed
  · rw [hcounted.latencies, hcounted.requests]
    exact List.countP_le_length

/-! ## Frames -/

section Frames

variable {stream : Stream} {payload b : Bytes}

/-- What a reader has found is also there if more follows. -/
theorem carries_extend (h : Carries stream payload) {bytes : Bytes} (hstart : stream.bytes <+: bytes)
    (ending : String) : Carries ⟨bytes, ending⟩ payload := by
  obtain ⟨hmax, rest, hbytes⟩ := h
  obtain ⟨more, rfl⟩ := hstart
  exact ⟨hmax, rest ++ more, by rw [hbytes, List.append_assoc]⟩

/-- A reader that gets a part of a frame reads its payload or nothing. -/
theorem payload_of_frame (hstart : stream.bytes <+: writeFrame b) (hlen : b.length < 2 ^ 32)
    (h : Carries stream payload) : payload = b := by
  have hread : Proxy.readFramed ⟨writeFrame b, ""⟩ = .ok payload :=
    readFrame_ok.mpr (carries_extend h hstart "")
  exact (delivers_iff b "").mpr (.inl hlen) payload hread

end Frames

/-! ## The crates of the two programs -/

/-- The JSON and base64 crates read what they have written, and a content type is a header. -/
structure Agree (D : Deployment) : Prop where
  envelope : ∀ env, TextHeaders env.headers → D.codec.fromSlice (toVec (envelopeJson env)) =
    .ok { env with headers := Json.sortFields codePointLe env.headers }
  response : ∀ resp, TextHeaders resp.headers → D.crates.fromSlice (toVec (responseJson resp)) =
    .ok { resp with headers := Json.sortFields codePointLe resp.headers }
  body : ∀ bytes, D.codec.base64Decode (D.crates.base64Encode bytes) = some bytes
  reply : ∀ bytes, D.crates.base64Decode (D.enclave.base64 bytes) = some bytes
  contentType : ∃ map,
    D.crates.appendHeader D.crates.noHeaders "content-type" "application/json" = some map

section Agreement

variable {D : Deployment} (hagree : Agree D)

include hagree

/-- The envelope that the enclave decodes is the one the proxy has sent. -/
theorem receive_request {request : HttpRequest} (hlen : (request.text D.crates).length < 2 ^ 32)
    {sent : Nat} {ending : String} {env : VsockEnvelope}
    (h : D.codec.receive ⟨(Proxy.writeFramed (request.text D.crates)).take sent, ending⟩ = .ok env) :
    env = { request.envelope D.crates with
      headers := Json.sortFields codePointLe (hdrMap request.headers) } := by
  rw [Codec.receive, Except.bind_eq_ok] at h
  obtain ⟨payload, hread, hslice⟩ := h
  obtain rfl := payload_of_frame (List.take_prefix _ _) hlen (readFrame_ok.mp hread)
  rw [HttpRequest.text, hagree.envelope (request.envelope D.crates)
    (textHeaders_hdrMap request.headers)] at hslice
  exact (Except.ok.inj hslice).symm

/-- A reply of the enclave is an HTTP response. -/
theorem reconstruct_json {status : UInt16} (hstatus : 100 ≤ status.toNat ∧ status.toNat < 1000)
    (v : Json) : ∃ map,
      D.crates.appendHeader D.crates.noHeaders "content-type" "application/json" = some map ∧
      reconstruct D.crates (D.enclave.jsonResp status v) = .answered ⟨status, map, toVec v⟩ := by
  obtain ⟨map, hmap⟩ := hagree.contentType
  refine ⟨map, hmap, ?_⟩
  have hheaders : addHeaders D.crates (startBuilder D.crates status)
      [("content-type", .str "application/json")] = some map := by
    rw [startBuilder, if_pos hstatus]
    exact hmap
  simp only [reconstruct, Platform.jsonResp, hheaders, hagree.reply, Option.getD_some]

/-- A round trip fails, or gives what the enclave has written on this connection. -/
theorem outcome_of_output {stream : Stream} {resp : VsockResponse}
    (hheaders : TextHeaders resp.headers)
    (hlen : (toVec (responseJson resp)).length < 2 ^ 32)
    (hstart : stream.bytes <+: replyFrame resp) :
    (∃ e, outcome D.crates D.address (.replied stream) = .failed e) ∨
      outcome D.crates D.address (.replied stream) = reconstruct D.crates
        { resp with headers := Json.sortFields codePointLe resp.headers } := by
  rw [outcome]
  cases htrip : roundTrip D.crates D.address (.replied stream) with
  | error e => exact .inl ⟨e, rfl⟩
  | ok resp' =>
    obtain ⟨_, payload, heq, hcarries, hslice⟩ := roundTrip_ok.mp htrip
    cases heq
    rw [payload_of_frame hstart hlen hcarries, hagree.response resp hheaders] at hslice
    rw [← Except.ok.inj hslice]
    exact .inr rfl

end Agreement

/-! ## What each route promises -/

/-- The tenant of a request to the proxy. -/
def tenant (headers : List (String × Option String)) : String :=
  (((hdrMap headers).lookup "x-tenant-id").bind asStr).getD "demo"

/-- What the client of a route gets. The ledger of an answer is the one of some moment, so the
present one starts with it. -/
def Promised (D : Deployment) (enclave : Enclave.State) (request : HttpRequest) (status : UInt16)
    (v : Json) : Prop :=
  match request.route with
  | .attestation =>
    (status = 200 ∧ ∃ nsm now att, D.enclave.publishAttestation nsm now = some att ∧
      v = att.toJson) ∨ (status = 500 ∧ ∃ e, v = Platform.errorBody e)
  | .inference => status = 200 ∧ ∃ i proof, enclave.entries[i]? = some proof ∧
      v.get? "proof" = some proof.toJson ∧
      (v.get? "receipt").bind (fun receipt => Platform.getU64 receipt "index") = some i ∧
      ∃ counter now proofId sessionId, proof = D.enclave.signProof (D.enclave.statement
        (D.enclave.decide request.body) (tenant request.headers) counter now proofId sessionId)
  | .ledgerRoot => status = 200 ∧ ∃ ledger now, ledger.leaves <+: enclave.ledger.leaves ∧
      v = D.enclave.ledgerRoot ledger now
  | .proof idx => ∃ ledger now, ledger.leaves <+: enclave.ledger.leaves ∧
      ((status = 200 ∧ D.enclave.inclusionAnswer ledger idx.toNat now = some v) ∨
        (status = 404 ∧ ledger.size ≤ idx.toNat ∧ v = Platform.errorBody "ledger_index_not_found"))
  | .consistency fromSize => ∃ ledger now nowTo, ledger.leaves <+: enclave.ledger.leaves ∧
      ((status = 200 ∧ D.enclave.ledgerConsistency ledger fromSize.toNat now nowTo = some v) ∨
        (status = 400 ∧ ledger.size < fromSize.toNat ∧ v = Platform.errorBody "invalid_tree_size"))

/-- The statuses of the enclave's replies. -/
def IsStatus (status : UInt16) : Prop := status = 200 ∨ status = 400 ∨ status = 404 ∨ status = 500

theorem IsStatus.range {status : UInt16} (h : IsStatus status) :
    100 ≤ status.toNat ∧ status.toNat < 1000 := by
  rcases h with rfl | rfl | rfl | rfl <;> decide

section Routes

variable {D : Deployment} {enclave : Enclave.State} {request : HttpRequest} {env : VsockEnvelope}
  {ledger : TransparencyLog Bytes}

/-- The reply of a route with a number in its path. -/
theorem routeReply_cases (P : Platform) (answer : Nat → Option Json)
    (unanswered invalid : VsockResponse) (n : Nat) :
    (∃ v, answer n = some v ∧ P.routeReply answer unanswered invalid (some n) = P.jsonResp 200 v) ∨
      (answer n = none ∧ P.routeReply answer unanswered invalid (some n) = unanswered) := by
  cases hn : answer n with
  | none => exact .inr ⟨rfl, by rw [Platform.routeReply, hn]⟩
  | some v => exact .inl ⟨v, rfl, Platform.routeReply_answer hn⟩

/-- The number that the proxy has written is read. -/
theorem parseUsize_path {route : List Char} {path : String} (hroute : IsRoute route) {n : UInt64}
    (hpath : IsPath route path n.toNat) : parseUsize (argument route path) = some n.toNat := by
  obtain ⟨ds, htext, hds⟩ := hpath
  refine (parseUsize_argument hroute ?_).mpr ⟨n.toNat_lt, .inl ⟨ds, htext, hds⟩⟩
  rw [htext]
  exact List.prefix_append _ _

/-- A request without an inference gets what its route promises. -/
theorem answer_promised {nsm : Bytes → Bytes → Option Bytes} {error : String} {now nowTo : Nat}
    (hmethod : env.method = request.route.method) (hpath : env.path = request.route.path)
    (hroute : request.route ≠ .inference) (hledger : ledger.leaves <+: enclave.ledger.leaves) :
    ∃ status v, IsStatus status ∧ Promised D enclave request status v ∧
      D.enclave.answer D.codec nsm error ledger now nowTo env = D.enclave.jsonResp status v := by
  unfold Promised
  rw [Platform.answer]
  cases hr : request.route with
  | inference => exact absurd hr hroute
  | attestation =>
    rw [hr, Route.method] at hmethod
    rw [hr, Route.path] at hpath
    cases hatt : D.enclave.publishAttestation nsm now with
    | none =>
      refine ⟨500, _, by simp [IsStatus], .inr ⟨rfl, error, rfl⟩, ?_⟩
      simp [Platform.dispatch, hmethod, hpath, Codec.handlers, Platform.attest, hatt]
    | some att =>
      refine ⟨200, _, .inl rfl, .inl ⟨rfl, nsm, now, att, hatt, rfl⟩, ?_⟩
      simp [Platform.dispatch, hmethod, hpath, Codec.handlers, Platform.attest, hatt]
  | ledgerRoot =>
    rw [hr, Route.method] at hmethod
    rw [hr, Route.path] at hpath
    refine ⟨200, _, .inl rfl, ⟨rfl, ledger, now, hledger, rfl⟩, ?_⟩
    simp [Platform.dispatch, hmethod, hpath]
  | proof idx =>
    have hispath := Route.isPath_proof idx
    rw [hr, Route.method] at hmethod
    rw [← hr, ← hpath] at hispath
    have hstart : proofRoute <+: env.path.toList := by
      obtain ⟨ds, htext, _⟩ := hispath
      rw [htext]
      exact List.prefix_append _ _
    rw [Platform.dispatch_proof hmethod hstart, parseUsize_path isRoute_proof hispath]
    rcases routeReply_cases D.enclave (fun idx => D.enclave.inclusionAnswer ledger idx now)
      (D.enclave.jsonResp 404 (Platform.errorBody "ledger_index_not_found"))
      (D.enclave.jsonResp 400 (Platform.errorBody "invalid_ledger_index")) idx.toNat with ⟨v, hv, hreply⟩ | ⟨hnone, hreply⟩
    · exact ⟨200, v, .inl rfl, ⟨ledger, now, hledger, .inl ⟨rfl, hv⟩⟩, hreply⟩
    · refine ⟨404, _, by simp [IsStatus], ⟨ledger, now, hledger, .inr ⟨rfl, ?_, rfl⟩⟩, hreply⟩
      rw [← Nat.not_lt]
      intro hlt
      obtain ⟨v, hv⟩ := (@Platform.exists_inclusionAnswer D.enclave ledger idx.toNat now).mpr hlt
      rw [hnone] at hv
      cases hv
  | consistency fromSize =>
    have hispath := Route.isPath_consistency fromSize
    rw [hr, Route.method] at hmethod
    rw [← hr, ← hpath] at hispath
    have hstart : consistencyRoute <+: env.path.toList := by
      obtain ⟨ds, htext, _⟩ := hispath
      rw [htext]
      exact List.prefix_append _ _
    rw [Platform.dispatch_consistency hmethod hstart, parseUsize_path isRoute_consistency hispath]
    rcases routeReply_cases D.enclave
      (fun size => D.enclave.ledgerConsistency ledger size now nowTo)
      (D.enclave.jsonResp 400 (Platform.errorBody "invalid_tree_size"))
      (D.enclave.jsonResp 400 (Platform.errorBody "invalid_tree_size")) fromSize.toNat with ⟨v, hv, hreply⟩ | ⟨hnone, hreply⟩
    · exact ⟨200, v, .inl rfl, ⟨ledger, now, nowTo, hledger, .inl ⟨rfl, hv⟩⟩, hreply⟩
    · refine ⟨400, _, by simp [IsStatus], ⟨ledger, now, nowTo, hledger, .inr ⟨rfl, ?_, rfl⟩⟩, hreply⟩
      rw [← Nat.not_le]
      intro hle
      obtain ⟨v, hv⟩ :=
        (@Platform.exists_ledgerConsistency D.enclave ledger fromSize.toNat now nowTo).mpr hle
      rw [hnone] at hv
      cases hv

end Routes

/-! ## What the client gets -/

section Answers

variable {D : Deployment}

/-- The envelope of a request, as the enclave decodes it. -/
def received (D : Deployment) (request : HttpRequest) : VsockEnvelope :=
  { request.envelope D.crates with
    headers := Json.sortFields codePointLe (hdrMap request.headers) }

theorem inference?_received (hagree : Agree D) (request : HttpRequest) :
    D.codec.inference? (received D request) =
      if request.route = .inference then some (request.body, tenant request.headers) else none := by
  have hlookup := Json.lookup_sortFields codePointLe
    (textHeaders_hdrMap request.headers).nodup "x-tenant-id"
  by_cases hroute : request.route = .inference
  · rw [if_pos hroute, Codec.inference?, if_pos]
    · simp [received, HttpRequest.envelope, hagree.body, tenant, hlookup]
    · simp [received, HttpRequest.envelope, hroute, Route.method, Route.path]
  · rw [if_neg hroute, Codec.inference?, if_neg]
    rintro ⟨hmethod, _⟩
    cases hr : request.route <;>
      simp_all [received, HttpRequest.envelope, Route.method]

/-- Nothing has come back. -/
theorem outcome_of_nil {stream : Stream} (hnil : stream.bytes = []) :
    ∃ e, outcome D.crates D.address (.replied stream) = .failed e := by
  rw [outcome]
  cases htrip : roundTrip D.crates D.address (.replied stream) with
  | error e => exact ⟨e, rfl⟩
  | ok resp =>
    obtain ⟨_, payload, heq, ⟨_, rest, hbytes⟩, _⟩ := roundTrip_ok.mp htrip
    cases heq
    have hlen := congrArg List.length hbytes
    simp [hnil] at hlen
    omega

theorem textHeaders_jsonResp (P : Platform) (status : UInt16) (v : Json) :
    TextHeaders (P.jsonResp status v).headers :=
  ⟨by simp [Platform.jsonResp], by simp [Platform.jsonResp]⟩

/-- A round trip whose reply was JSON. -/
theorem outcome_json (hagree : Agree D) {stream : Stream} {status : UInt16} {v : Json}
    (hstatus : IsStatus status)
    (hlen : (toVec (responseJson (D.enclave.jsonResp status v))).length < 2 ^ 32)
    (hstart : stream.bytes <+: replyFrame (D.enclave.jsonResp status v)) :
    (∃ e, outcome D.crates D.address (.replied stream) = .failed e) ∨ ∃ map,
      D.crates.appendHeader D.crates.noHeaders "content-type" "application/json" = some map ∧
      outcome D.crates D.address (.replied stream) = .answered ⟨status, map, toVec v⟩ := by
  rcases outcome_of_output hagree (textHeaders_jsonResp _ status v) hlen hstart with
    hfailed | hreplied
  · exact .inl hfailed
  · obtain ⟨map, hmap, hreconstruct⟩ := reconstruct_json hagree hstatus.range v
    exact .inr ⟨map, hmap, hreplied.trans hreconstruct⟩

/-- The length of what the enclave has replied on a connection fits into the header of a frame. -/
def ReplyFits (server : Server) (c : Nat) : Prop :=
  ∀ call env sid resp written, server.calls[c]? = some call →
    call.phase = .replied env sid resp written → (toVec (responseJson resp)).length < 2 ^ 32

/-- A reply on the connection of a request is the one that its route promises. -/
theorem replied_promised (hagree : Agree D) {server : Server}
    (hserves : Serves D.enclave D.codec server) {request : HttpRequest}
    (hrequest : (request.text D.crates).length < 2 ^ 32) {c sent : Nat} {call : Call}
    {ending : String} (hcall : server.calls[c]? = some call)
    (hstream : call.stream = ⟨(Proxy.writeFramed (request.text D.crates)).take sent, ending⟩)
    {env : VsockEnvelope} {sid : Option Nat} {resp : VsockResponse}
    {written : Option (Except String Unit)} (hphase : call.phase = .replied env sid resp written) :
    ∃ status v, IsStatus status ∧ Promised D server.enclave request status v ∧
      resp = D.enclave.jsonResp status v := by
  have hsound := hserves.calls c call hcall
  rw [Call.Sound, hphase, hstream] at hsound
  have henv : env = received D request := by
    cases sid <;> exact receive_request hagree hrequest hsound.1
  subst henv
  cases sid with
  | none =>
    obtain ⟨_, hinference, ledger, nsm, error, now, nowTo, hledger, rfl⟩ := hsound
    rw [inference?_received hagree] at hinference
    refine answer_promised rfl rfl ?_ hledger
    intro hroute
    rw [if_pos hroute] at hinference
    cases hinference
  | some sid =>
    obtain ⟨session, proof, response, i, _, hinference, _, rfl, hproof, hreceipt, hentry, hhonest⟩ :=
      session_of_replied hserves hcall hphase
    refine ⟨200, response, .inl rfl, ?_, rfl⟩
    rw [inference?_received hagree] at hinference
    split at hinference
    · rename_i hroute
      obtain ⟨hbody, htenant⟩ := Prod.mk.inj (Option.some.inj hinference)
      rw [← hbody, ← htenant] at hhonest
      unfold Promised
      rw [hroute]
      exact ⟨rfl, i, proof, hentry, hproof, hreceipt, hhonest⟩
    · cases hinference

end Answers

/-- The inference request of exchange `x` is entry `i` of the ledger. -/
def RecordedBy (D : Deployment) (s : Gateway.State D.crates.Headers) (x i : Nat) : Prop :=
  ∃ exchange c, s.exchanges[x]? = some exchange ∧ exchange.stage.call? = some c ∧
    exchange.request.route = .inference ∧ RecordedAt D.enclave D.codec s.server c i

theorem gateway_entries (D : Deployment) (hagree : Agree D) {es : List Gateway.Event}
    {s : Gateway.State D.crates.Headers}
    (hrun : Run D.step (Gateway.State.boot D.crates.Headers) es s)
    (hforeign : ∀ stream, Gateway.Event.foreign stream ∉ es)
    (hrequests : ∀ exchange ∈ s.exchanges, (exchange.request.text D.crates).length < 2 ^ 32) :
    (∀ i, i < s.server.enclave.ledger.size → ∃! x, RecordedBy D s x i) ∧
      ∀ x i j, RecordedBy D s x i → RecordedBy D s x j → i = j := by
  have hlinked := reachable_linked hrun
  obtain ⟨_, hserver⟩ := hlinked.server
  have hserves := reachable_serves hserver
  constructor
  · intro i hi
    obtain ⟨c, hc⟩ := exists_recordedAt hserves hi
    obtain ⟨call, _, _, hcall, _⟩ := hc.position
    obtain ⟨exchange, hmem, hown⟩ :=
      reachable_owned hrun hforeign c (List.getElem?_eq_some_iff.mp hcall).1
    obtain ⟨x, hx⟩ := List.mem_iff_getElem?.mp hmem
    refine ⟨x, ⟨exchange, c, hx, hown, ?_, hc⟩, ?_⟩
    -- what the enclave has decoded is the request of this exchange
    · obtain ⟨call', sent, ending, hcall', hstream⟩ :=
        (hlinked.exchanges exchange hmem).sent c hown
      obtain ⟨call'', env, _, body, tenant, _, _, _, _, hcall'', hreceive, hinference, _⟩ := hc
      obtain rfl := Option.some.inj (hcall'.symm.trans hcall)
      obtain rfl := Option.some.inj (hcall''.symm.trans hcall)
      rw [hstream] at hreceive
      rw [receive_request hagree (hrequests exchange hmem) hreceive] at hinference
      have hreceived := inference?_received hagree exchange.request
      rw [received, hinference] at hreceived
      by_contra hroute
      rw [if_neg hroute] at hreceived
      cases hreceived
    · rintro y ⟨exchange', c', hy, hown', _, hc'⟩
      obtain rfl := hc.call_unique hserves hc'
      exact Numbering.place_unique hlinked.distinct hy hx hown' hown
  · rintro x i j ⟨exchange, c, hx, hown, _, hc⟩ ⟨exchange', c', hx', hown', _, hc'⟩
    obtain rfl := Option.some.inj (hx.symm.trans hx')
    obtain rfl := Option.some.inj (hown.symm.trans hown')
    exact hc'.index_unique hc

/-! ## A round trip without faults -/

section RoundTrip

variable {D : Deployment} {s s' : Gateway.State D.crates.Headers}

/-- Steps of the enclave are steps of the whole. -/
theorem lift_run {es : List ServerEvent} {server : Server}
    (h : Run (D.enclave.serverStep D.codec) s.server es server)
    (haccept : ∀ stream, ServerEvent.accept stream ∉ es) :
    Run D.step s (es.map .serve) { s with server := server } := by
  induction h with
  | nil => exact .nil
  | @snoc es server server' e run hstep ih =>
    rw [List.map_append]
    refine (ih fun stream hmem => haccept stream (List.mem_append_left _ hmem)).snoc ?_
    have hisAccept : e.isAccept = false := by
      cases e with
      | accept stream => exact absurd (List.mem_append_right _ List.mem_cons_self) (haccept stream)
      | _ => rfl
    simp [Deployment.step, hisAccept, hstep]

theorem carries_writeFrame {payload : Bytes} (hlen : payload.length ≤ maxFrame) (ending : String) :
    Carries ⟨writeFrame payload, ending⟩ payload := by
  refine ⟨hlen, [], ?_⟩
  unfold maxFrame at hlen
  rw [writeFrame, Nat.mod_eq_of_lt (by omega), List.append_nil]

/-- A call that has got the frame of a request replies. -/
theorem replied_of_closed (hagree : Agree D) {server : Server}
    (hserves : Serves D.enclave D.codec server) {request : HttpRequest}
    (hlen : (request.text D.crates).length ≤ maxFrame) {c : Nat} {call : Call}
    (hcall : server.calls[c]? = some call)
    (hstream : call.stream = ⟨Proxy.writeFramed (request.text D.crates), ""⟩)
    (hover : Call.Over call) :
    ∃ env sid resp written, call.phase = .replied env sid resp written := by
  have hsound := hserves.calls c call hcall
  rw [Call.Sound] at hsound
  rw [Call.Over] at hover
  cases hphase : call.phase with
  | replied env sid resp written => exact ⟨env, sid, resp, written, rfl⟩
  | refused e =>
    rw [hphase, hstream] at hsound
    have hreceive := (@Codec.receive_frame D.codec _ hlen "").symm.trans hsound
    rw [HttpRequest.text, hagree.envelope (request.envelope D.crates)
      (textHeaders_hdrMap request.headers)] at hreceive
    cases hreceive
  | _ =>
    rw [hphase] at hover
    exact hover.elim

/-- The request arrives, and its whole frame is sent. -/
def sentState (s : Gateway.State D.crates.Headers) (request : HttpRequest) :
    Gateway.State D.crates.Headers where
  server := { s.server with calls := s.server.calls ++
    [⟨⟨Proxy.writeFramed (request.text D.crates), ""⟩, .accepted⟩] }
  exchanges := s.exchanges ++ [⟨request, .connected s.server.calls.length⟩]
  metrics := { s.metrics with requests := s.metrics.requests + 1 }

theorem send_run (s : Gateway.State D.crates.Headers) {request : HttpRequest}
    (hbody : request.body.length ≤ bodyLimit) :
    Run D.step s [.http request,
      .connect s.exchanges.length (Proxy.writeFramed (request.text D.crates)).length ""]
      (sentState s request) := by
  refine .snoc (.snoc .nil (if_pos hbody)) ?_
  simp [Deployment.step, Platform.serverStep, Exchange.setStage, sentState]

/-- The proxy reads a whole reply. -/
theorem finish_enabled {x c : Nat} {request : HttpRequest}
    (hx : s.exchanges[x]? = some ⟨request, .connected c⟩) {call : Call} {env : VsockEnvelope}
    {sid : Option Nat} {resp : VsockResponse} {written : Option (Except String Unit)}
    (hcall : s.server.calls[c]? = some call) (hphase : call.phase = .replied env sid resp written)
    (elapsedMs : Nat) :
    D.step s (.finish x (.replied ⟨replyFrame resp, ""⟩) elapsedMs) = some { s with
      exchanges := s.exchanges.set x ⟨request, .ended (some c) (.replied ⟨replyFrame resp, ""⟩)
        (outcome D.crates D.address (.replied ⟨replyFrame resp, ""⟩))⟩
      metrics := settle D.crates s.metrics elapsedMs
        (outcome D.crates D.address (.replied ⟨replyFrame resp, ""⟩)) } := by
  have houtput : call.output = replyFrame resp := by rw [Call.output, hphase]
  simp [Deployment.step, hx, Stage.allows, hcall, houtput, Exchange.setStage, Stage.call?]

theorem round_trip (hagree : Agree D) (hlinked : Gateway.Linked D s) {request : HttpRequest}
    (hbody : request.body.length ≤ bodyLimit) (hlen : (request.text D.crates).length ≤ maxFrame) (elapsedMs : Nat) :
    ∃ es s' call env sid resp written, Run D.step s es s' ∧
      (∀ stream, Gateway.Event.foreign stream ∉ es) ∧
      s'.server.calls[s.server.calls.length]? = some call ∧
      call.phase = .replied env sid resp written ∧
      s'.exchanges = s.exchanges ++ [⟨request, .ended (some s.server.calls.length)
        (.replied ⟨replyFrame resp, ""⟩)
        (outcome D.crates D.address (.replied ⟨replyFrame resp, ""⟩))⟩] := by
  have hsend := send_run s hbody
  have hlinked₁ : Gateway.Linked D (sentState s request) :=
    hsend.invariant hlinked (fun _ _ _ hstep hs => hs.step hstep)
  obtain ⟨_, hserver⟩ := hlinked₁.server
  have hserves := reachable_serves hserver
  -- the enclave finishes the call
  obtain ⟨server, call, hadvances, hcall, hover⟩ :=
    closes_of_serves hserves (c := s.server.calls.length) List.getElem?_concat_length
  obtain ⟨es, hrun, haccept⟩ := hadvances.run
  have hserves' : Serves D.enclave D.codec server :=
    hrun.invariant hserves (fun _ _ _ hstep hs => hs.step hstep)
  have hstream : call.stream = ⟨Proxy.writeFramed (request.text D.crates), ""⟩ := by
    have hstreams := congrArg (fun streams => streams[s.server.calls.length]?) hadvances.streams
    simpa [hcall, sentState] using hstreams
  obtain ⟨env, sid, resp, written, hphase⟩ :=
    replied_of_closed hagree hserves' hlen hcall hstream hover
  -- and the proxy reads the reply
  have hserve := lift_run (s := sentState s request) hrun haccept
  have hfinish := finish_enabled (D := D) (s := { sentState s request with server := server })
    (x := s.exchanges.length) List.getElem?_concat_length hcall hphase elapsedMs
  refine ⟨_, _, call, env, sid, resp, written, (hsend.append hserve).snoc hfinish, by simp, hcall,
    hphase, ?_⟩
  simp [sentState]

/-- A reply that is no larger than the limit of the reader. -/
theorem outcome_of_frame (hagree : Agree D) {resp : VsockResponse}
    (hheaders : TextHeaders resp.headers) (hlen : (toVec (responseJson resp)).length ≤ maxFrame) :
    outcome D.crates D.address (.replied ⟨replyFrame resp, ""⟩) = reconstruct D.crates
      { resp with headers := Json.sortFields codePointLe resp.headers } := by
  have htrip : roundTrip D.crates D.address (.replied ⟨replyFrame resp, ""⟩) =
      .ok { resp with headers := Json.sortFields codePointLe resp.headers } :=
    roundTrip_ok.mpr ⟨_, _, rfl, carries_writeFrame hlen "", hagree.response resp hheaders⟩
  rw [outcome, htrip]

end RoundTrip

def readEnvelope (v : Json) : Option VsockEnvelope :=
  match v.get? "method", v.get? "path", v.get? "headers", v.get? "body_b64" with
  | some (.str method), some (.str path), some (.obj headers), some (.str bodyB64) =>
    some ⟨method, path, headers, bodyB64⟩
  | _, _, _, _ => none

def readResponse (v : Json) : Option VsockResponse :=
  match v.get? "status", v.get? "headers", v.get? "body_b64" with
  | some (.num (.ofNat status)), some (.obj headers), some (.str bodyB64) =>
    if status < 2 ^ 16 then some ⟨.ofNat status, headers, bodyB64⟩ else none
  | _, _, _ => none

/-- A reader of compact JSON in place of `from_slice`. -/
def fromText {α : Type} (decode : Json → Option α) (bytes : Bytes) : Except String α :=
  match ((Utf8.decode? bytes).bind Json.read).bind decode with
  | some x => .ok x
  | none => .error "expected value at line 1 column 1"

def base64Decode (text : String) : Option Bytes :=
  if base64Chars (base64Bytes text.toList) = text.toList then some (base64Bytes text.toList)
  else none

/-- An enclave and a proxy with a reader for what they write. -/
def sampleDeployment : Deployment where
  enclave := ledgerPlatform
  codec := ⟨fromText readEnvelope, base64Decode⟩
  crates := {
    base64Encode := fun bytes => .ofList (base64Chars bytes)
    base64Decode := base64Decode
    fromSlice := fromText readResponse
    Headers := List (String × String)
    noHeaders := []
    appendHeader := fun map name value => some (map ++ [(name, value)]) }
  address := ⟨16, 5000⟩

theorem fromText_toVec {α : Type} (decode : Json → Option α) (v : Json) {x : α}
    (h : decode v = some x) : fromText decode (toVec v) = .ok x := by
  simp [fromText, toVec, Json.read_print, h]

theorem base64Decode_encode (bytes : Bytes) :
    base64Decode (.ofList (base64Chars bytes)) = some bytes := by
  simp [base64Decode, base64Bytes_base64Chars]

theorem readEnvelope_json (env : VsockEnvelope) : readEnvelope (envelopeJson env) =
    some { env with headers := Json.sortFields codePointLe env.headers } := by
  simp [readEnvelope, envelopeJson, object, List.lookup_cons]

theorem readResponse_json (resp : VsockResponse) : readResponse (responseJson resp) =
    some { resp with headers := Json.sortFields codePointLe resp.headers } := by
  have hlt := resp.status.toNat_lt
  simp [readResponse, responseJson, object, List.lookup_cons]
  exact hlt

theorem sample_codec : sampleDeployment.codec.fromSlice = fromText readEnvelope := rfl

theorem sample_crates : sampleDeployment.crates.fromSlice = fromText readResponse := rfl

theorem sample_agree : Agree sampleDeployment := by
  refine ⟨?_, ?_, base64Decode_encode, base64Decode_encode,
    [("content-type", "application/json")], rfl⟩
  · intro env _
    rw [sample_codec]
    exact fromText_toVec readEnvelope (envelopeJson env) (readEnvelope_json env)
  · intro resp _
    rw [sample_crates]
    exact fromText_toVec readResponse (responseJson resp) (readResponse_json resp)

theorem gateway_counts_timeout : ∃ es s,
    Run sampleDeployment.step (Gateway.State.boot sampleDeployment.crates.Headers) es s ∧
      s.exchanges.length = 1 ∧ s.metrics.errors = 1 := by
  have hrun : Run sampleDeployment.step (Gateway.State.boot sampleDeployment.crates.Headers)
      [.http ⟨.ledgerRoot, [], []⟩, .finish 0 .timedOut 30000] _ := .snoc (.snoc .nil rfl) rfl
  have hcounts := gateway_counts sampleDeployment hrun
  exact ⟨_, _, hrun, rfl, hcounts.2.2.1⟩

/-- An inference request whose body is no request. -/
def emptyInference : HttpRequest := ⟨.inference, [], []⟩

theorem emptyInference_length : (emptyInference.text sampleDeployment.crates).length ≤ maxFrame := by
  decide

theorem gateway_entries_inference : ∃ es s,
    Run sampleDeployment.step (Gateway.State.boot sampleDeployment.crates.Headers) es s ∧
      0 < s.server.enclave.ledger.size ∧ ∃! x, RecordedBy sampleDeployment s x 0 := by
  have hlen := emptyInference_length
  obtain ⟨es, s, call, env, sid, resp, written, hrun, hforeign, hcall, hphase, hexchange⟩ :=
    round_trip sample_agree (linked_boot sampleDeployment) (Nat.zero_le _) hlen 1
  have hlt : (emptyInference.text sampleDeployment.crates).length < 2 ^ 32 := by
    unfold maxFrame at hlen
    omega
  have hlinked := reachable_linked hrun
  obtain ⟨_, hserver⟩ := hlinked.server
  obtain ⟨call', sent, ending, hcall', hstream⟩ :=
    (hlinked.exchanges _ (hexchange ▸ List.mem_append_right _ List.mem_cons_self)).sent _ rfl
  obtain rfl := Option.some.inj (hcall'.symm.trans hcall)
  obtain ⟨status, v, _, ⟨_, i, proof, hentry, _⟩, _⟩ :=
    replied_promised sample_agree (reachable_serves hserver) hlt hcall hstream hphase
  obtain ⟨_, hmachine⟩ := (reachable_serves hserver).enclave
  have hsize : 0 < s.server.enclave.ledger.size := by
    have := (List.getElem?_eq_some_iff.mp hentry).1
    rw [← (reachable_consistent hmachine).size_eq]
    omega
  refine ⟨es, s, hrun, hsize,
    (gateway_entries sampleDeployment sample_agree hrun hforeign ?_).1 0 hsize⟩
  intro exchange hmem
  rw [hexchange] at hmem
  obtain rfl := List.mem_singleton.mp hmem
  exact hlt

/-- The device gives no document. -/
def attestationRequest : HttpRequest := ⟨.attestation, [], []⟩

end Audit
end Pzdr
