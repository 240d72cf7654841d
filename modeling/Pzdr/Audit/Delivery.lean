import Pzdr.Audit.Gateway
import Pzdr.Audit.Reply
import Pzdr.Audit.Request
import Pzdr.Json.Width

/-!
# Audit.Delivery

A call of the SDK, from the client through the proxy to the enclave and back.

* `call_delivered`: in any interleaving of any requests, what the client of a call gets from the
  proxy is accepted by its own check of the receipt, is in the ledger, and is about this very call.
* `call_deliverable`: a call whose body is within the proxy's limit can be brought to this end from
  any state.
-/

namespace Pzdr
namespace Audit

open Enclave Proxy Gateway
open Sdk (Draws InferenceResult JsVal ProcessOptions encodeCanonical prop readResult requestBody
  verifyReceipt)

/-- A call of the SDK to this enclave: the client has its channel key, with libraries that agree
with those of the enclave, and the enclave's parser reads the body. -/
structure Calls (P : Platform) (D : Sdk.Platform) (gateway : Sdk.Gateway) (options : ProcessOptions)
    (draws : Draws) (body : Json) : Prop where
  agrees : Agrees P D
  secret : draws.clientSecret.length = 32
  nonce : draws.nonce.length = 24
  sent : requestBody P.sha D gateway options draws = some body
  channel : ∃ attestation,
    (options.attestation <|> Sdk.getAttestation D gateway) = some attestation ∧
    D.verifyAttestation (some attestation) = some () ∧
    prop (some attestation) "channel_public_key_hex" = some (some (.str (hexEncode P.channelPk)))
  parsed : ∀ req : InferenceRequest, body = req.toJson → P.parseRequest (toVec body) = some req

/-- The HTTP request of a call. The tenant's header is there if the call has a tenant, and its value is
text to the proxy; other headers may have been added on the way. -/
structure IsRequest (options : ProcessOptions) (body : Json) (request : HttpRequest) : Prop where
  route : request.route = .inference
  body : request.body = toVec body
  tenant : request.headers.filter (fun header => header.1 == "x-tenant-id") =
    options.tenantHeader.toList.map (fun tenant => ("x-tenant-id", some tenant))

/-- The tenant that a call is recorded for. -/
def tenantId (options : ProcessOptions) : String := options.tenantHeader.getD "demo"

theorem lookup_filter_ne {map : List (String × Json)} {name other : String} (h : name ≠ other) :
    (map.filter (fun x => x.1 ≠ other)).lookup name = map.lookup name := by
  induction map with
  | nil => rfl
  | cons x map ih =>
    by_cases hx : x.1 = other
    · have hname : (name == x.1) = false := by simpa [hx] using h
      rw [List.filter_cons_of_neg (by simpa using hx), ih, List.lookup_cons, hname]
    · rw [List.filter_cons_of_pos (by simpa using hx), List.lookup_cons, List.lookup_cons, ih]

/-- Only the headers of this name decide what stands under it. -/
theorem lookup_foldl_insertHeader (name : String) (headers : List (String × Option String))
    (map : List (String × Json)) : (headers.foldl insertHeader map).lookup name =
      (headers.filter (fun header => header.1 == name)).foldl
        (fun v header => (header.2.map Json.str).or v) (map.lookup name) := by
  induction headers generalizing map with
  | nil => rfl
  | cons header headers ih =>
    rw [List.foldl_cons, ih, insertHeader]
    by_cases hname : header.1 = name
    · subst hname
      rw [List.filter_cons_of_pos (by simp), List.foldl_cons]
      cases header.2 <;> simp
    · rw [List.filter_cons_of_neg (by simpa using hname)]
      cases header.2 with
      | none => rfl
      | some s =>
        have hother : (name == header.1) = false := beq_eq_false_iff_ne.mpr (Ne.symm hname)
        simp only [List.lookup_cons, hother]
        rw [lookup_filter_ne (Ne.symm hname)]

theorem IsRequest.tenant_eq {options : ProcessOptions} {body : Json} {request : HttpRequest}
    (h : IsRequest options body request) : Audit.tenant request.headers = tenantId options := by
  rw [Audit.tenant, hdrMap, lookup_foldl_insertHeader, h.tenant, tenantId]
  cases options.tenantHeader <;> rfl

/-- What the policy says about a call. -/
def verdict (options : ProcessOptions) : Except String Unit :=
  Policy.defaultV1.evaluate options.payload (options.processor.getD "gateway")

/-- The result is evidence about this call, which its client accepts. -/
structure Delivered (P : Platform) (D : Sdk.Platform) (s : Enclave.State) (options : ProcessOptions)
    (draws : Draws) (tenant : String) (result : InferenceResult) : Prop where
  accepted : verifyReceipt P.sha D result.proof result.receipt (some (.str (hexEncode P.proofPk))) =
    some true
  recorded : ∃ i proof, s.entries[i]? = some proof ∧ result.proof = some proof.toJson ∧
    result.receipt.bind (fun receipt => Platform.getU64 receipt "index") = some i ∧
    proof.statement.tenantId = tenant ∧
    proof.statement.commitmentHex = Sdk.commitment P.sha options draws
  allowed : verdict options = .ok () → result.ok = some (.bool true) ∧
    BoundTo P.sha result (Sdk.commitment P.sha options draws)
  denied : ∀ reason, verdict options = .error reason → result.ok = some (.bool false) ∧
    result.error = some (.str reason)

section Call

variable {P : Platform} {D : Sdk.Platform} {gateway : Sdk.Gateway} {options : ProcessOptions}
  {draws : Draws} {body : Json}

theorem Calls.parseRequest (h : Calls P D gateway options draws body) :
    P.parseRequest (toVec body) = some (clientRequest P D options draws) := by
  obtain ⟨attestation, hattestation, hverified, hchannel⟩ := h.channel
  have hbody := requestBody_eq h.agrees h.secret hattestation hverified hchannel
  exact h.parsed _ (Option.some.inj (h.sent.symm.trans hbody))

/-- The enclave decides by the policy alone. -/
theorem Calls.decide (h : Calls P D gateway options draws body) :
    (∃ upstreamResp, verdict options = .ok () ∧
      callUpstream P.sha options.payload = .ok upstreamResp ∧
      P.decide (toVec body) = .succeeded (Sdk.commitment P.sha options draws)
        (options.processor.getD "gateway") upstreamResp) ∨
    ∃ reason, verdict options = .error reason ∧
      P.decide (toVec body) = .failed reason (Sdk.commitment P.sha options draws)
        (options.processor.getD "gateway") true := by
  have hdecide := decide_clientRequest h.agrees h.secret h.nonce h.parseRequest
  cases hverdict : verdict options with
  | ok =>
    rw [verdict] at hverdict
    rw [hverdict] at hdecide
    exact .inl ⟨_, rfl, rfl, hdecide⟩
  | error reason =>
    rw [verdict] at hverdict
    rw [hverdict] at hdecide
    exact .inr ⟨reason, rfl, hdecide⟩

/-- The fields of a response, as the client reads them. -/
theorem readResult_response (outcome : Enclave.Outcome) (proof : SignedProof) (receipt : Json)
    (totalUs : Nat) : ∃ result,
      readResult (some (Platform.response outcome proof receipt totalUs)) = some result ∧
      result.error = (Platform.response outcome proof receipt totalUs).get? "error" := by
  cases outcome <;> exact ⟨_, rfl, rfl⟩

/-- The model response is hashed by the client as by the enclave. -/
theorem encodeCanonical_model {plaintext : Bytes} {upstreamResp : Json}
    (h : callUpstream P.sha plaintext = .ok upstreamResp) (commitment processor : String)
    (proof : SignedProof) (receipt : Json) (totalUs : Nat) :
    encodeCanonical ((Platform.response (.succeeded commitment processor upstreamResp) proof receipt
      totalUs).get? "model_response") = toVec upstreamResp := by
  have hget : (Platform.response (.succeeded commitment processor upstreamResp) proof receipt
      totalUs).get? "model_response" = some upstreamResp := object_get? (by simp) _
  rw [hget, encodeCanonical_plain (callUpstream_plain h).1, (callUpstream_plain h).2]

theorem boundTo_response {result : InferenceResult} {proof : SignedProof} {hash : Bytes}
    (hproof : result.proof = some proof.toJson)
    (hhash : proof.statement.resultHashHex = some (hexEncode (P.sha.hash hash)))
    (hmodel : encodeCanonical result.modelResponse = hash) :
    BoundTo P.sha result proof.statement.commitmentHex := by
  refine ⟨proof.toJson, proof.statement.toJson, hproof, object_get? (SignedProof.nodup_fields _) _,
    object_get? proof.statement.nodup_fields _, ?_⟩
  rw [hmodel]
  have hfield : proof.statement.toJson.get? "result_hash_hex" =
      some (ofString? proof.statement.resultHashHex) :=
    object_get? proof.statement.nodup_fields _
  rw [hfield, hhash]
  rfl

variable {s : Enclave.State}

theorem delivered_of_done (hcall : Calls P D gateway options draws body) (hreads : Reads P D s)
    (h : Consistent P s) {session : Session} (hs : session ∈ s.sessions)
    (hbody : session.body = toVec body) {proof : SignedProof} {response : Json}
    (hdone : session.stage = .done proof response) {i : Nat} (hentry : s.entries[i]? = some proof)
    (hindex : (response.get? "receipt").bind (fun receipt => Platform.getU64 receipt "index") =
      some i) :
    ∃ result, readResult (some response) = some result ∧
      Delivered P D s options draws session.tenant result := by
  have hverified := answer_verifies hreads h hs hdone
  obtain ⟨_, _, _, totalUs, receipt, _, _, _, _, rfl⟩ := h.answers session hs proof response hdone
  obtain ⟨result, hresult, herror⟩ :=
    readResult_response (P.decide session.body) proof receipt totalUs
  obtain ⟨hok, hmodel, hproof, hreceipt⟩ := Sdk.readResult_some hresult
  rw [hproof, hreceipt] at hverified
  rw [hreceipt] at hindex
  rw [Platform.response_get?_proof] at hproof
  obtain ⟨counter, now, proofId, sessionId, rfl⟩ :=
    h.sessions session hs proof (by rw [hdone]; rfl)
  rw [hbody] at hok hmodel herror hproof hentry
  refine ⟨result, hresult, hverified, ⟨i, _, hentry, hproof.symm, hindex, ?_, ?_⟩, ?_, ?_⟩
  · rcases hcall.decide with ⟨_, _, _, hdecide⟩ | ⟨_, _, hdecide⟩ <;> rw [hdecide] <;> rfl
  · rcases hcall.decide with ⟨_, _, _, hdecide⟩ | ⟨_, _, hdecide⟩ <;> rw [hdecide] <;> rfl
  · intro hallowed
    rcases hcall.decide with ⟨upstreamResp, _, hupstream, hdecide⟩ | ⟨_, hdenied, _⟩
    · rw [hdecide] at hok hmodel hproof
      refine ⟨hok.symm.trans (object_get? (by simp) _), boundTo_response hproof.symm rfl ?_⟩
      rw [← hmodel]
      exact encodeCanonical_model hupstream _ _ _ _ _
    · cases hallowed.symm.trans hdenied
  · intro reason hdenied
    rcases hcall.decide with ⟨_, hallowed, _⟩ | ⟨reason', hdenied', hdecide⟩
    · cases hallowed.symm.trans hdenied
    · obtain rfl := Except.error.inj (hdenied.symm.trans hdenied')
      rw [hdecide] at hok herror
      exact ⟨hok.symm.trans (object_get? (by simp) _), herror.trans (object_get? (by simp) _)⟩

end Call

section Reply

variable {G : Deployment} {D : Sdk.Platform} {gateway : Sdk.Gateway} {options : ProcessOptions}
  {draws : Draws} {body : Json}

/-- A reply on the connection of a call. -/
theorem replied_delivered (hagree : Agree G) (hcalls : Calls G.enclave D gateway options draws body)
    {server : Server} (hserves : Serves G.enclave G.codec server)
    (hreads : Reads G.enclave D server.enclave) {request : HttpRequest}
    (hroute : request.route = .inference) (hbody : request.body = toVec body)
    (hrequest : (request.text G.crates).length < 2 ^ 32) {c sent : Nat} {call : Call}
    {ending : String} (hcall : server.calls[c]? = some call)
    (hstream : call.stream = ⟨(Proxy.writeFramed (request.text G.crates)).take sent, ending⟩)
    {env : VsockEnvelope} {sid : Option Nat} {resp : VsockResponse}
    {written : Option (Except String Unit)} (hphase : call.phase = .replied env sid resp written) :
    ∃ v result, resp = G.enclave.jsonResp 200 v ∧ readResult (some v) = some result ∧
      Delivered G.enclave D server.enclave options draws (tenant request.headers) result := by
  have hsound := hserves.calls c call hcall
  rw [Call.Sound, hphase, hstream] at hsound
  have henv : env = received G request := by
    cases sid <;> exact receive_request hagree hrequest hsound.1
  have hinference := inference?_received hagree request
  rw [if_pos hroute, ← henv] at hinference
  cases sid with
  | none => cases hsound.2.1.symm.trans hinference
  | some sid =>
    obtain ⟨session, proof, response, i, hs, hsession, hstage, rfl, _, hreceipt, hentry, _⟩ :=
      session_of_replied hserves hcall hphase
    obtain ⟨hsessionBody, htenant⟩ :=
      Prod.mk.inj (Option.some.inj (hsession.symm.trans hinference))
    obtain ⟨_, hmachine⟩ := hserves.enclave
    obtain ⟨result, hresult, hdelivered⟩ := delivered_of_done hcalls hreads
      (reachable_consistent hmachine) (List.mem_of_getElem? hs) (hsessionBody.trans hbody) hstage
      hentry hreceipt
    exact ⟨response, result, rfl, hresult, htenant ▸ hdelivered⟩

end Reply

theorem call_delivered (G : Deployment) (hagree : Agree G) {es : List Gateway.Event}
    {s : Gateway.State G.crates.Headers}
    (hrun : Run G.step (Gateway.State.boot G.crates.Headers) es s) (D : Sdk.Platform)
    {gateway : Sdk.Gateway} {options : ProcessOptions} {draws : Draws} {body : Json}
    (hcalls : Calls G.enclave D gateway options draws body)
    (hreads : Reads G.enclave D s.server.enclave) {exchange : Exchange G.crates.Headers}
    (hmem : exchange ∈ s.exchanges) (hcall : IsRequest options body exchange.request)
    (hrequest : (exchange.request.text G.crates).length < 2 ^ 32) {c : Option Nat}
    {connection : Connection} {response : Response G.crates.Headers}
    (hended : exchange.stage = .ended c connection (.answered response))
    (hreply : ∀ n, c = some n → ReplyFits s.server n) :
    response.status = 200 ∧ ∃ v result, response.body = toVec v ∧
      (gateway.inference body options.tenantHeader = some v →
        Sdk.process G.enclave.sha D gateway options draws = some result) ∧
      Delivered G.enclave D s.server.enclave options draws (tenantId options) result := by
  have hlinked := reachable_linked hrun
  obtain ⟨_, hserver⟩ := hlinked.server
  have hsound := hlinked.exchanges exchange hmem
  obtain ⟨houtcome, hreplied⟩ := hsound.ended c connection _ hended
  cases connection with
  | replied stream =>
    obtain ⟨n, call, rfl, hget, hstart⟩ := hreplied stream rfl
    obtain ⟨call', sent, ending, hget', hstream⟩ := hsound.sent n (by rw [hended]; rfl)
    obtain rfl := Option.some.inj (hget'.symm.trans hget)
    rw [Call.output] at hstart
    cases hphase : call'.phase with
    | replied env sid resp written =>
      rw [hphase] at hstart
      obtain ⟨v, result, rfl, hresult, hdelivered⟩ := replied_delivered hagree hcalls
        (reachable_serves hserver) hreads hcall.route hcall.body hrequest hget hstream hphase
      rw [hcall.tenant_eq] at hdelivered
      rcases outcome_json hagree (.inl rfl) (hreply n rfl call' _ _ _ _ hget hphase) hstart with
        ⟨e, hfailed⟩ | ⟨map, _, hanswered⟩
      · cases houtcome.trans hfailed
      · obtain rfl := Outcome.answered.inj (houtcome.trans hanswered)
        refine ⟨rfl, v, result, rfl, ?_, hdelivered⟩
        intro hresponse
        rw [Sdk.process_eq _ D gateway hcalls.sent hresponse, hresult]
    | _ =>
      rw [hphase] at hstart
      obtain ⟨e, hfailed⟩ := outcome_of_nil (D := G) (List.prefix_nil.mp hstart)
      cases houtcome.trans hfailed
  | _ => cases houtcome

theorem call_deliverable (G : Deployment) (hagree : Agree G) {es : List Gateway.Event}
    {s : Gateway.State G.crates.Headers}
    (hrun : Run G.step (Gateway.State.boot G.crates.Headers) es s) (D : Sdk.Platform)
    {gateway : Sdk.Gateway} {options : ProcessOptions} {draws : Draws} {body : Json}
    (hcalls : Calls G.enclave D gateway options draws body)
    (hreads : ∀ enclave, Reads G.enclave D enclave) {request : HttpRequest}
    (hcall : IsRequest options body request) (hbody : request.body.length ≤ bodyLimit)
    (hrequest : (request.text G.crates).length ≤ maxFrame) (elapsedMs : Nat) :
    ∃ es' s' v result outcome, Run G.step s es' s' ∧
      s'.exchanges = s.exchanges ++ [⟨request, .ended (some s.server.calls.length)
        (.replied ⟨replyFrame (G.enclave.jsonResp 200 v), ""⟩) outcome⟩] ∧
      ((toVec (responseJson (G.enclave.jsonResp 200 v))).length ≤ maxFrame →
        ∃ map, outcome = .answered ⟨200, map, toVec v⟩) ∧
      (gateway.inference body options.tenantHeader = some v →
        Sdk.process G.enclave.sha D gateway options draws = some result) ∧
      Delivered G.enclave D s'.server.enclave options draws (tenantId options) result := by
  obtain ⟨es', s', call, env, sid, resp, written, hrun', _, hget, hphase, hexchange⟩ :=
    round_trip hagree (reachable_linked hrun) hbody hrequest elapsedMs
  have hlinked := reachable_linked (hrun.append hrun')
  obtain ⟨_, hserver⟩ := hlinked.server
  obtain ⟨call', sent, ending, hget', hstream⟩ :=
    (hlinked.exchanges _ (hexchange ▸ List.mem_append_right _ List.mem_cons_self)).sent _ rfl
  obtain rfl := Option.some.inj (hget'.symm.trans hget)
  have hlt : (request.text G.crates).length < 2 ^ 32 := by
    unfold maxFrame at hrequest
    omega
  obtain ⟨v, result, rfl, hresult, hdelivered⟩ := replied_delivered hagree hcalls
    (reachable_serves hserver) (hreads _) hcall.route hcall.body hlt hget hstream hphase
  rw [hcall.tenant_eq] at hdelivered
  refine ⟨es', s', v, result, _, hrun', hexchange, ?_, ?_, hdelivered⟩
  · intro hlen
    obtain ⟨map, _, hreconstruct⟩ := reconstruct_json hagree (IsStatus.range (.inl rfl)) v
    exact ⟨map, (outcome_of_frame hagree (textHeaders_jsonResp _ 200 v) hlen).trans hreconstruct⟩
  · intro hresponse
    rw [Sdk.process_eq _ D gateway hcalls.sent hresponse, hresult]

/-! ## The first request of an enclave -/

section First

variable {P : Platform} {codec : Codec} {stream : Stream} {env : VsockEnvelope} {body : Bytes}
  {tenant : String}

/-- The proof of an enclave's first request. -/
def firstProof (P : Platform) (body : Bytes) (tenant : String) : SignedProof :=
  P.signProof (P.statement (P.decide body) tenant 1 0 [] [])

/-- The ledger with this proof. -/
def firstLedger (P : Platform) (body : Bytes) (tenant : String) : TransparencyLog Bytes :=
  (TransparencyLog.new.append P.sha.log (Platform.entryBytes (firstProof P body tenant))).1

def firstLeaf (P : Platform) (body : Bytes) (tenant : String) : Bytes :=
  P.sha.log.leafHash (Platform.entryBytes (firstProof P body tenant))

def firstReceipt (P : Platform) (body : Bytes) (tenant : String) : Json := object [
  ("index", .num 0),
  ("leaf_hash_hex", .str (hexEncode (firstLeaf P body tenant))),
  ("audit_path", Platform.encodeHashes []),
  ("checkpoint", (P.signCheckpoint 1 (firstLeaf P body tenant) 0).toJson)]

theorem inclusionAnswer_first : P.inclusionAnswer (firstLedger P body tenant) 0 0 =
    some (firstReceipt P body tenant) := by
  have hleaves : (firstLedger P body tenant).leaves = [firstLeaf P body tenant] := rfl
  simp [Platform.inclusionAnswer, TransparencyLog.leafAt, TransparencyLog.inclusionPath,
    TransparencyLog.root, TransparencyLog.size, hleaves, firstReceipt, mth, inclusion]

/-- A server that serves one request. -/
theorem first_run (hreceive : codec.receive stream = .ok env)
    (hinference : codec.inference? env = some (body, tenant)) :
    ∃ enclave, Run (P.serverStep codec) ⟨Enclave.State.boot, [⟨stream, .accepted⟩]⟩
      [.read 0, .work 0 .fetchAdd, .work 0 (.signProof 0 [] []), .work 0 (.append 0 0)]
      ⟨enclave, [⟨stream, .replied env (some 0) (P.jsonResp 200 (Platform.response (P.decide body)
        (firstProof P body tenant) (firstReceipt P body tenant) 0)) none⟩]⟩ := by
  let proof := firstProof P body tenant
  let received : Enclave.State := { Enclave.State.boot with sessions := [⟨body, tenant, .received⟩] }
  let counted : Enclave.State :=
    { received with counter := 1, sessions := [⟨body, tenant, .counted 1⟩] }
  let signed : Enclave.State :=
    { counted with sessions := [⟨body, tenant, .signed proof⟩], signed := [.proof proof.statement] }
  have hread : P.serverStep codec ⟨Enclave.State.boot, [⟨stream, .accepted⟩]⟩ (.read 0) =
      some ⟨received, [⟨stream, .processing env 0⟩]⟩ := by
    simp [Platform.serverStep, hreceive, hinference, Platform.step, Enclave.State.boot,
      Server.setPhase, received]
  have hcount : P.serverStep codec ⟨received, [⟨stream, .processing env 0⟩]⟩ (.work 0 .fetchAdd) =
      some ⟨counted, [⟨stream, .processing env 0⟩]⟩ := rfl
  have hsign : P.serverStep codec ⟨counted, [⟨stream, .processing env 0⟩]⟩
      (.work 0 (.signProof 0 [] [])) = some ⟨signed, [⟨stream, .processing env 0⟩]⟩ := rfl
  have happend : ∃ enclave, P.serverStep codec ⟨signed, [⟨stream, .processing env 0⟩]⟩
      (.work 0 (.append 0 0)) = some ⟨enclave, [⟨stream, .replied env (some 0) (P.jsonResp 200
        (Platform.response (P.decide body) proof (firstReceipt P body tenant) 0)) none⟩]⟩ := by
    have hlog : P.inclusionAnswer
        (signed.ledger.append P.sha.log (Platform.entryBytes proof)).1
        (signed.ledger.append P.sha.log (Platform.entryBytes proof)).2 0 =
          some (firstReceipt P body tenant) := inclusionAnswer_first
    have hsession : signed.sessions = [⟨body, tenant, .signed proof⟩] := rfl
    simp [Platform.serverStep, Platform.step, Server.setPhase, Work.event, Platform.setStage, hsession,
      hlog, dispatch_inference hinference]
  obtain ⟨enclave, happend⟩ := happend
  exact ⟨enclave, .snoc (.snoc (.snoc (.snoc .nil hread) hcount) hsign) happend⟩

end First

/-! ## Lengths -/

theorem length_toVec_le (v : Json) : (toVec v).length ≤ 4 * v.width := by
  have hencode : ∀ cs : List Char, (Utf8.encode cs).length ≤ 4 * cs.length := by
    intro cs
    induction cs with
    | nil => simp
    | cons c cs ih =>
      have hc := c.utf8Size_le_four
      rw [Utf8.encode_cons, List.length_append, String.length_utf8EncodeChar, List.length_cons]
      omega
  have hprint := Json.length_print_le v
  have htext := hencode v.print
  rw [toVec]
  omega

theorem length_base64Chars_le (bs : Bytes) : (base64Chars bs).length ≤ 4 * bs.length := by
  fun_induction base64Chars bs with
  | case4 a b c bs ih =>
    simp only [List.length_cons]
    omega
  | _ => simp

theorem width_envelope (bodyB64 : String) :
    (envelopeJson ⟨"POST", "/v1/gateway/inference", [("x-tenant-id", .str "acme")], bodyB64⟩).width ≤
      1000 + 6 * bodyB64.length := by
  have hconst : 6 * "x-tenant-id".length + 6 * "acme".length + 6 * "method".length + 6 * "POST".length + 6 * "path".length +
      6 * "/v1/gateway/inference".length + 6 * "headers".length + 6 * "body_b64".length ≤ 900 := by
    decide
  simp only [envelopeJson, Json.width, Json.widthFields, Json.quoteWidth, object,
    Json.widthFields_sortFields]
  omega

theorem width_reply (P : Platform) (v : Json) :
    (responseJson (P.jsonResp 200 v)).width ≤ 1000 + 6 * (P.base64 (toVec v)).length := by
  have hnum : (toString (((200 : UInt16).toNat : Nat) : Int)).length = 3 := by decide
  simp only [responseJson, Platform.jsonResp, object, Json.width, Json.widthFields_sortFields,
    Json.widthFields, Json.quoteWidth, hnum]
  simp only [← String.length_toList]
  simp
  omega

theorem width_statement {P : Platform} {tenant commitment processor : String} {upstreamResp : Json}
    (hmodel : Platform.getStr upstreamResp "model" = some "mock-claude-sonnet-4.5")
    (hin : Platform.getU64 upstreamResp "input_tokens" = some 0)
    (hout : Platform.getU64 upstreamResp "output_tokens" = some 16)
    (hpk : P.channelPk.length = 32) (hproofPk : P.proofPk.length = 32) :
    (P.statement (.succeeded commitment processor upstreamResp) tenant 1 0 [] []).toJson.width ≤
      10000 + 12 * tenant.length + 12 * processor.length + 6 * commitment.length +
        6 * P.expectedPcr0.length := by
  have hnum : (toString ((0 : Nat) : Int)).length = 1 ∧ (toString ((1 : Nat) : Int)).length = 1 ∧
      (toString ((3 : Nat) : Int)).length = 1 ∧ (toString ((16 : Nat) : Int)).length = 2 ∧
      (toString (Policy.defaultV1.policyVersion : Int)).length = 1 := by decide
  have hid : Policy.defaultV1.policyId.length ≤ 100 := by decide
  simp only [ProofStatement.toJson, ProofStatement.fields, Platform.statement,
    Platform.policyDecision, Platform.zeroizationReport, ofString?, ofNat?, object,
    Json.widthFields_sortFields, Json.width, Json.widthFields, Json.quoteWidth, length_hexEncode,
    Sha256.length_hash, Policy.policyHash, hpk, hproofPk, hmodel, hin, hout, Option.getD_none, hnum]
  simp only [← String.length_toList] at hid ⊢
  simp
  omega

theorem width_first {P : Platform} {body : Bytes} {tenant commitment processor : String}
    {upstreamResp : Json} (hdecide : P.decide body = .succeeded commitment processor upstreamResp)
    (hsign : ∀ message, (P.base64 (P.sign message)).length ≤ 256) :
    (Platform.response (P.decide body) (firstProof P body tenant) (firstReceipt P body tenant)
      0).width ≤ 10000 + upstreamResp.width +
        (P.statement (.succeeded commitment processor upstreamResp) tenant 1 0 [] []).toJson.width := by
  have hproof := hsign (canonicalJson
    (P.statement (.succeeded commitment processor upstreamResp) tenant 1 0 [] []).toJson)
  have hhead := hsign (canonicalJson
    (Platform.checkpointStatement 1 (firstLeaf P body tenant) 0).toJson)
  have hleaf : (firstLeaf P body tenant).length = 32 := P.sha.length_leafHash _
  have hnum : (toString ((0 : Nat) : Int)).length = 1 ∧ (toString ((1 : Nat) : Int)).length = 1 ∧
      (toString (0 : Int)).length = 1 := by decide
  rw [firstReceipt, firstProof, hdecide]
  simp only [Platform.response, Platform.signProof, SignedProof.toJson, SignedProof.fields, object,
    Json.widthFields_sortFields, Json.width, Json.widthFields, Json.widthAll, Json.quoteWidth,
    length_hexEncode, Platform.signCheckpoint, SignedCheckpoint.toJson, Platform.encodeHashes,
    List.map_nil, Platform.checkpointStatement, hleaf, hnum] at hhead ⊢
  simp only [← String.length_toList] at hproof hhead ⊢
  simp
  omega

theorem width_upstream {sha : Sha256} {plaintext : Bytes} {upstreamResp : Json}
    (h : callUpstream sha plaintext = .ok upstreamResp) (hlen : plaintext.length = 2) :
    upstreamResp.width ≤ 2000 ∧
      Platform.getStr upstreamResp "model" = some "mock-claude-sonnet-4.5" ∧
      Platform.getU64 upstreamResp "input_tokens" = some 0 ∧
      Platform.getU64 upstreamResp "output_tokens" = some 16 := by
  have hnum : (toString (2 : Nat)).length = 1 ∧ (toString ((2 / 4 : Nat) : Int)).length = 1 ∧
      (toString (16 : Int)).length = 2 := by decide
  cases h
  refine ⟨?_, ?_, ?_, ?_⟩
  · simp only [object, Json.width, Json.widthFields_sortFields, Json.widthFields, Json.quoteWidth,
      hlen, hnum, String.length_append, String.length_ofList, List.length_take]
    simp only [← String.length_toList]
    simp
    omega
  · rw [Platform.getStr, object_get? (by simp)]
    rfl
  · rw [Platform.getU64, object_get? (by simp), hlen]
    rfl
  · rw [Platform.getU64, object_get? (by simp)]
    rfl

/-! ## A call -/

/-- The sample call, for a tenant. -/
def servedOptions : ProcessOptions := { sampleOptions with tenant := some "acme" }

/-- The request of this call. -/
def servedRequest : InferenceRequest :=
  clientRequest (agreeingPlatform []) agreeingSdk servedOptions sampleDraws

/-- A proxy, and an enclave that reads this request. A signature is the start of the message. -/
def servingDeployment : Deployment :=
  { sampleDeployment with
    enclave := { agreeingPlatform [servedRequest] with
      sign := fun message => message.take 64
      base64 := ledgerPlatform.base64 } }

/-- Libraries for this enclave: a signature is the start of the message. -/
def receivingSdk : Sdk.Platform :=
  { agreeingSdk with
    verifyDetached := fun signature message _ => some (signature == message.take 64)
    atob := fun v => (Sdk.asString v).bind base64Decode
    bufferFromBase64 := fun v => (Sdk.asString v).bind base64Decode }

theorem serving_agree : Agree servingDeployment :=
  ⟨sample_agree.envelope, sample_agree.response, sample_agree.body, sample_agree.reply,
    sample_agree.contentType⟩

theorem reads_receiving (enclave : Enclave.State) :
    Reads servingDeployment.enclave receivingSdk enclave := by
  refine ⟨hexDecode_hexEncode, base64Decode_encode, base64Decode_encode, ?_⟩
  intro m _
  exact congrArg some (beq_self_eq_true _)

theorem serving_agrees : Agrees servingDeployment.enclave receivingSdk := by
  have h := sample_agrees [servedRequest]
  exact ⟨h.fromHex, h.scalarmult, h.publicKey, h.hkdf, h.aead⟩

theorem calls_served : Calls servingDeployment.enclave receivingSdk ⟨none, fun _ _ => none⟩
    servedOptions sampleDraws servedRequest.toJson := by
  refine ⟨serving_agrees, List.length_replicate, List.length_replicate, ?_, ⟨_, rfl, rfl, rfl⟩, ?_⟩
  · exact requestBody_eq serving_agrees List.length_replicate rfl rfl rfl
  · intro req hreq
    have hparse : servingDeployment.enclave.parseRequest =
        (agreeingPlatform [servedRequest]).parseRequest := rfl
    rw [← toJson_injective hreq, hparse]
    exact agreeing_parseRequest (List.mem_singleton.mpr rfl)

def servedHttp : HttpRequest :=
  ⟨.inference, [("x-tenant-id", some "acme")], toVec servedRequest.toJson⟩

theorem served_isRequest : IsRequest servedOptions servedRequest.toJson servedHttp := ⟨rfl, rfl, rfl⟩

theorem width_servedRequest : servedRequest.toJson.width ≤ 10000 := by
  simp only [servedRequest, clientRequest, InferenceRequest.toJson, ofString?, Json.width,
    Json.widthFields, Json.quoteWidth, Sdk.commitment, length_hexEncode, Sha256.length_hash]
  decide +kernel

theorem servedHttp_body : servedHttp.body.length ≤ bodyLimit := by
  have hbody : servedHttp.body.length ≤ 4 * servedRequest.toJson.width := length_toVec_le _
  have hrequest := width_servedRequest
  unfold bodyLimit
  omega

theorem servedHttp_length : (servedHttp.text servingDeployment.crates).length ≤ maxFrame := by
  have henvelope : servedHttp.envelope servingDeployment.crates =
      ⟨"POST", "/v1/gateway/inference", [("x-tenant-id", .str "acme")],
        .ofList (base64Chars servedHttp.body)⟩ := rfl
  have htext := length_toVec_le (envelopeJson (servedHttp.envelope servingDeployment.crates))
  have hwidth := width_envelope (.ofList (base64Chars servedHttp.body))
  have hcode := length_base64Chars_le servedHttp.body
  have hbody : servedHttp.body.length ≤ 4 * servedRequest.toJson.width := length_toVec_le _
  have hrequest := width_servedRequest
  rw [String.length_ofList] at hwidth
  rw [HttpRequest.text, henvelope] at *
  unfold maxFrame
  omega

theorem decide_served : ∃ upstreamResp,
    callUpstream servingDeployment.enclave.sha servedOptions.payload = .ok upstreamResp ∧
    servingDeployment.enclave.decide servedHttp.body = .succeeded
      (Sdk.commitment servingDeployment.enclave.sha servedOptions sampleDraws) "gateway" upstreamResp := by
  rcases calls_served.decide with ⟨upstreamResp, _, hupstream, hdecide⟩ | ⟨reason, hdenied, _⟩
  · exact ⟨upstreamResp, hupstream, hdecide⟩
  · cases (show verdict servedOptions = .ok () from rfl).symm.trans hdenied

/-- The reply of the enclave to the sample call, its first one. -/
def servedReply : Json :=
  Platform.response (servingDeployment.enclave.decide servedHttp.body)
    (firstProof servingDeployment.enclave servedHttp.body "acme")
    (firstReceipt servingDeployment.enclave servedHttp.body "acme") 0

theorem servedReply_length :
    (toVec (responseJson (servingDeployment.enclave.jsonResp 200 servedReply))).length ≤ maxFrame := by
  obtain ⟨upstreamResp, hupstream, hdecide⟩ := decide_served
  obtain ⟨hupstreamWidth, hmodel, hin, hout⟩ := width_upstream hupstream rfl
  have hsign : ∀ message, (servingDeployment.enclave.base64
      (servingDeployment.enclave.sign message)).length ≤ 256 := by
    intro message
    have hcode := length_base64Chars_le (message.take 64)
    have htake := List.length_take_le 64 message
    show (String.ofList (base64Chars (message.take 64))).length ≤ 256
    rw [String.length_ofList]
    omega
  have hcommitment : (Sdk.commitment servingDeployment.enclave.sha servedOptions
      sampleDraws).length = 64 := by
    rw [Sdk.commitment, length_hexEncode, Sha256.length_hash]
  have hlengths : "acme".length = 4 ∧ "gateway".length = 7 ∧
      servingDeployment.enclave.expectedPcr0.length = 2 := by decide
  have hwidth : servedReply.width ≤ _ := width_first hdecide hsign
  have hstatement : (servingDeployment.enclave.statement (.succeeded (Sdk.commitment
      servingDeployment.enclave.sha servedOptions sampleDraws) "gateway" upstreamResp) "acme" 1 0 []
      []).toJson.width ≤ _ :=
    width_statement hmodel hin hout List.length_replicate List.length_replicate
  have hbody := length_toVec_le servedReply
  have hcode := length_base64Chars_le (toVec servedReply)
  have htext := length_toVec_le (responseJson (servingDeployment.enclave.jsonResp 200 servedReply))
  have hresponse := width_reply servingDeployment.enclave servedReply
  have hbase64 : (servingDeployment.enclave.base64 (toVec servedReply)).length =
      (base64Chars (toVec servedReply)).length := String.length_ofList
  unfold maxFrame
  omega

theorem served_run : ∃ es s,
    Run servingDeployment.step (Gateway.State.boot servingDeployment.crates.Headers) es s ∧
      (∃ stream env, s.server.calls = [⟨stream, .replied env (some 0)
        (servingDeployment.enclave.jsonResp 200 servedReply) none⟩]) ∧
      s.exchanges = [⟨servedHttp, .ended (some 0)
        (.replied ⟨replyFrame (servingDeployment.enclave.jsonResp 200 servedReply), ""⟩)
        (outcome servingDeployment.crates servingDeployment.address
          (.replied ⟨replyFrame (servingDeployment.enclave.jsonResp 200 servedReply), ""⟩))⟩] := by
  have hreceive : servingDeployment.codec.receive
      ⟨Proxy.writeFramed (servedHttp.text servingDeployment.crates), ""⟩ =
        .ok (received servingDeployment servedHttp) :=
    (Codec.receive_frame servedHttp_length "").trans
      (serving_agree.envelope _ (textHeaders_hdrMap servedHttp.headers))
  have hinference := inference?_received serving_agree servedHttp
  have hroute : servedHttp.route = .inference := rfl
  rw [if_pos hroute] at hinference
  obtain ⟨enclave, hserver⟩ := first_run hreceive hinference
  have hsend := send_run (D := servingDeployment) (Gateway.State.boot _) servedHttp_body
  have hserve := lift_run (s := sentState (D := servingDeployment) (Gateway.State.boot _) servedHttp)
    hserver (by simp)
  have hfinish := finish_enabled (D := servingDeployment)
    (s := { sentState (D := servingDeployment) (Gateway.State.boot _) servedHttp with
      server := ⟨enclave, [⟨⟨Proxy.writeFramed (servedHttp.text servingDeployment.crates), ""⟩,
        .replied (received servingDeployment servedHttp) (some 0)
          (servingDeployment.enclave.jsonResp 200 servedReply) none⟩]⟩ })
    (x := 0) rfl rfl rfl 1
  exact ⟨_, _, (hsend.append hserve).snoc hfinish, ⟨_, _, rfl⟩, rfl⟩

theorem call_delivered_served : ∃ es s result,
    Run servingDeployment.step (Gateway.State.boot servingDeployment.crates.Headers) es s ∧
      (∃ exchange connection response, exchange ∈ s.exchanges ∧ exchange.request = servedHttp ∧
        exchange.stage = .ended (some 0) connection (.answered response)) ∧
      result.ok = some (.bool true) ∧
      Delivered servingDeployment.enclave receivingSdk s.server.enclave servedOptions sampleDraws
        "acme" result := by
  obtain ⟨es, s, hrun, ⟨stream, env, hcalls⟩, hexchanges⟩ := served_run
  have hreply := servedReply_length
  have hrequest := servedHttp_length
  have hlt : (servedHttp.text servingDeployment.crates).length < 2 ^ 32 := by
    unfold maxFrame at hrequest
    omega
  have hfits : ReplyFits s.server 0 := by
    intro call env' sid resp written hcall hphase
    rw [hcalls, List.getElem?_cons_zero] at hcall
    cases hcall
    cases hphase
    unfold maxFrame at hreply
    omega
  obtain ⟨map, _, hreconstruct⟩ :=
    reconstruct_json serving_agree (IsStatus.range (.inl rfl)) servedReply
  have hanswered := (outcome_of_frame serving_agree
    (textHeaders_jsonResp servingDeployment.enclave 200 servedReply) hreply).trans hreconstruct
  rw [hanswered] at hexchanges
  have hmem : _ ∈ s.exchanges := hexchanges ▸ List.mem_cons_self
  obtain ⟨_, v, result, _, _, hdelivered⟩ := call_delivered servingDeployment serving_agree hrun
    receivingSdk calls_served (reads_receiving _) hmem served_isRequest hlt rfl
    (by rintro n ⟨⟩; exact hfits)
  have hallowed : verdict servedOptions = .ok () := rfl
  exact ⟨es, s, result, hrun, ⟨_, _, _, hmem, rfl, rfl⟩, (hdelivered.allowed hallowed).1, hdelivered⟩

theorem call_deliverable_served : ∃ es s v result outcome,
    Run servingDeployment.step (Gateway.State.boot servingDeployment.crates.Headers) es s ∧
      s.exchanges = [⟨servedHttp, .ended (some 0)
        (.replied ⟨replyFrame (servingDeployment.enclave.jsonResp 200 v), ""⟩) outcome⟩] ∧
      Delivered servingDeployment.enclave receivingSdk s.server.enclave servedOptions sampleDraws
        "acme" result := by
  obtain ⟨es, s, v, result, outcome, hrun, hexchange, _, _, hdelivered⟩ := call_deliverable
    servingDeployment serving_agree .nil receivingSdk calls_served reads_receiving served_isRequest
    servedHttp_body servedHttp_length 1
  exact ⟨es, s, v, result, outcome, hrun, hexchange, hdelivered⟩

end Audit
end Pzdr
