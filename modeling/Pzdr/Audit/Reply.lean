import Pzdr.Audit.Answer

/-!
# Audit.Reply

What the SDK knows about a reply of the parent proxy. The proof and the receipt are verified, but
`process` compares neither the commitment nor the result hash with the call they are returned for.

`process_bound_iff`: with an accepted receipt, the returned evidence is about this call exactly when
the parent relayed the statement and the model response of one request with this call's commitment.
`process_replayed` is a parent that answers with an earlier response.
-/

namespace Pzdr
namespace Audit

open Enclave
open Sdk (JsVal InferenceResult Gateway ProcessOptions Draws process requestBody commitment prop
  verifyReceipt encodeCanonical SortsTo)

/-- The statement of the returned proof is about this commitment and about the returned response. -/
def BoundTo (sha : Sha256) (result : InferenceResult) (commitmentHex : String) : Prop :=
  ∃ proof statement, result.proof = some proof ∧ proof.get? "statement" = some statement ∧
    statement.get? "commitment_hex" = some (.str commitmentHex) ∧
    statement.get? "result_hash_hex" =
      some (.str (hexEncode (sha.hash (encodeCanonical result.modelResponse))))

/-- The reply carries, up to the order of keys, the statement and the model response of a successful
session, whose request had the commitment of this body. -/
def Relays (P : Platform) (s : State) (body reply : Json) : Prop :=
  ∃ session ∈ s.sessions, ∃ req processor upstreamResp statement,
    P.parseRequest session.body = some req ∧
    body.get? "commitment_hex" = some (.str req.commitmentHex) ∧
    P.decide session.body = .succeeded req.commitmentHex processor upstreamResp ∧
    session.Proves statement ∧
    SortsTo ((reply.get? "proof").bind (fun proof => proof.get? "statement"))
      (sortKeys statement.toJson) ∧
    SortsTo (reply.get? "model_response") (sortKeys upstreamResp)

/-- The inputs hashed for the result hashes of the sessions. -/
def resultInputs (P : Platform) (s : State) : List Bytes :=
  s.sessions.filterMap (fun session =>
    match P.decide session.body with
    | .succeeded _ _ upstreamResp => some (toVec upstreamResp)
    | .failed _ _ _ _ => none)

variable {P : Platform} {D : Sdk.Platform} {s : State}

theorem mem_resultInputs {session : Session} (hs : session ∈ s.sessions)
    {commitmentHex processor : String} {upstreamResp : Json}
    (h : P.decide session.body = .succeeded commitmentHex processor upstreamResp) :
    toVec upstreamResp ∈ resultInputs P s := by
  refine List.mem_filterMap.mpr ⟨session, hs, ?_⟩
  rw [h]

/-- A value that sorts to an object has its string fields. -/
theorem get?_eq_str_iff {v : Json} {fields : List (String × Json)}
    (hn : (fields.map Prod.fst).Nodup) (hplain : Plain (object fields)) (hv : v.DistinctKeys)
    (h : v.sortKeys utf16Le = sortKeys (object fields)) (key text : String) :
    v.get? key = some (.str text) ↔ fields.lookup key = some (.str text) := by
  have hmap := Json.map_get?_eq_of_sortKeys_eq hv hplain.distinct h key
  rw [object_get? hn] at hmap
  constructor
  · intro hget
    rw [hget, Option.map_some, eq_comm, Option.map_eq_some_iff] at hmap
    obtain ⟨w, hw, hsort⟩ := hmap
    rw [hw, Json.sortKeys_eq_str.mp hsort]
  · intro hget
    rw [hget, Option.map_some, Option.map_eq_some_iff] at hmap
    obtain ⟨w, hw, hsort⟩ := hmap
    rw [hw, Json.sortKeys_eq_str.mp hsort]

theorem encodeCanonical_eq_toVec_iff {x : JsVal} {plaintext : Bytes} {upstreamResp : Json}
    (h : callUpstream P.sha plaintext = .ok upstreamResp) :
    encodeCanonical x = toVec upstreamResp ↔ SortsTo x (sortKeys upstreamResp) := by
  rw [(callUpstream_plain h).2, canonicalJson_eq]
  cases x with
  | none =>
    constructor
    · intro heq
      exact absurd heq.symm (canonicalBytes_ne_nil _ _)
    · rintro ⟨_, hx, _⟩
      cases hx
  | some v =>
    constructor
    · intro heq
      exact ⟨v, rfl, sortKeys_eq_of_canonicalBytes_eq heq⟩
    · rintro ⟨w, hw, hsort⟩
      cases hw
      show Utf8.encode (v.sortKeys utf16Le).print = _
      rw [hsort]
      rfl

/-- The statement of a session that has succeeded, or the missing hash of one that has not. -/
theorem statement_result (h : Consistent P s) {session : Session} (hs : session ∈ s.sessions)
    {statement : ProofStatement} (hp : session.Proves statement) {hash : String}
    (hhash : statement.resultHashHex = some hash) :
    ∃ processor upstreamResp, P.decide session.body =
        .succeeded statement.commitmentHex processor upstreamResp ∧
      hash = hexEncode (P.sha.hash (toVec upstreamResp)) := by
  obtain ⟨proof, hstage, rfl⟩ := hp
  obtain ⟨counter, now, proofId, sessionId, rfl⟩ := h.sessions session hs proof hstage
  cases hd : P.decide session.body with
  | failed code commitmentHex processor inputWiped =>
    rw [hd] at hhash
    cases hhash
  | succeeded commitmentHex processor upstreamResp =>
    rw [hd] at hhash
    cases hhash
    exact ⟨processor, upstreamResp, rfl, rfl⟩

/-- The verified statement of a reply has the text fields of the statement of a session. -/
theorem relays_of_boundTo (h : Consistent P s) (hunf : Unforgeable P D s) {body reply : Json}
    {result : InferenceResult} {keyHex : JsVal} {commitmentHex : String}
    (hkey : D.fromHex keyHex = some P.proofPk) (hdistinct : reply.DistinctKeys)
    (hbody : body.get? "commitment_hex" = some (.str commitmentHex))
    (hmodel : reply.get? "model_response" = result.modelResponse)
    (hproof : reply.get? "proof" = result.proof)
    (hv : Sdk.verifyProof D result.proof keyHex = some true)
    (hsha : P.sha.CollisionFreeOn (encodeCanonical result.modelResponse :: resultInputs P s))
    (hbound : BoundTo P.sha result commitmentHex) : Relays P s body reply := by
  obtain ⟨proof, v, hresult, hstatement, hcommitment, hhash⟩ := hbound
  obtain ⟨m, hm, v', hprop, hbytes⟩ := verifyProof_signed hunf hkey hv
  obtain ⟨_, heq, hget⟩ := Sdk.prop_some hprop
  rw [hresult, Option.some.injEq] at heq
  subst heq
  rw [hstatement, Option.some.injEq] at hget
  subst hget
  have hvd : v.DistinctKeys := (hdistinct.get? (hproof.trans hresult)).get? hstatement
  cases m with
  | checkpoint origin c =>
    -- a checkpoint has no commitment
    have hsort := sortKeys_eq_of_canonicalBytes_eq (hbytes.trans (canonicalJson_eq _))
    rw [get?_eq_str_iff c.nodup_fields c.plain hvd hsort] at hcommitment
    cases hcommitment
  | proof statement =>
    have hsort := sortKeys_eq_of_canonicalBytes_eq (hbytes.trans (canonicalJson_eq _))
    have hfields := get?_eq_str_iff statement.nodup_fields (ProofStatement.plain (h.wellFormed hm))
      hvd hsort
    rw [hfields] at hcommitment hhash
    have hc : statement.commitmentHex = commitmentHex := Json.str.inj (Option.some.inj hcommitment)
    cases hres : statement.resultHashHex with
    | none =>
      have hnull : ofString? statement.resultHashHex = .str _ := Option.some.inj hhash
      rw [hres] at hnull
      cases hnull
    | some hash =>
      have hstr : ofString? statement.resultHashHex = .str _ := Option.some.inj hhash
      rw [hres] at hstr
      obtain ⟨session, hs, hp⟩ := (h.proofs statement).mp hm
      obtain ⟨processor, upstreamResp, hdecide, rfl⟩ := statement_result h hs hp hres
      obtain ⟨req, plaintext, hparse, hreq, hupstream⟩ := Platform.decide_succeeded hdecide
      have hresp := hsha _ (List.mem_cons_of_mem _ (mem_resultInputs hs hdecide)) _
        List.mem_cons_self (hexEncode_injective (Json.str.inj hstr))
      refine ⟨session, hs, req, processor, upstreamResp, statement, hparse, ?_, ?_, hp, ?_, ?_⟩
      · rw [hreq, hc, hbody]
      · rw [hreq, hdecide]
      · rw [hproof, hresult, Option.bind_some, hstatement]
        exact ⟨v, rfl, hsort⟩
      · rw [hmodel]
        exact (encodeCanonical_eq_toVec_iff hupstream).mp hresp.symm

theorem boundTo_of_relays (h : Consistent P s) {body reply : Json} {result : InferenceResult}
    {commitmentHex : String} (hdistinct : reply.DistinctKeys)
    (hbody : body.get? "commitment_hex" = some (.str commitmentHex))
    (hmodel : reply.get? "model_response" = result.modelResponse)
    (hproof : reply.get? "proof" = result.proof) (hrelays : Relays P s body reply) :
    BoundTo P.sha result commitmentHex := by
  obtain ⟨session, hs, req, processor, upstreamResp, statement, _, hreq, hdecide, hp, hstatement,
    hresp⟩ := hrelays
  obtain ⟨v, hv, hsort⟩ := hstatement
  obtain ⟨proof, hreply, hv⟩ := Option.bind_eq_some_iff.mp hv
  have hvd : v.DistinctKeys := (hdistinct.get? hreply).get? hv
  rw [hbody, Option.some.injEq, Json.str.injEq] at hreq
  obtain ⟨signed, hstage, rfl⟩ := hp
  have hplain := ProofStatement.plain (h.wellFormed ((h.proofs _).mpr ⟨session, hs, signed, hstage, rfl⟩))
  have hfields := get?_eq_str_iff signed.statement.nodup_fields hplain hvd hsort
  obtain ⟨counter, now, proofId, sessionId, rfl⟩ := h.sessions session hs signed hstage
  obtain ⟨_, _, _, _, hupstream⟩ := Platform.decide_succeeded hdecide
  refine ⟨proof, v, hproof.symm.trans hreply, hv, ?_, ?_⟩
  · rw [hfields, hdecide, hreq]
    rfl
  · rw [hfields, hdecide, ← hmodel, (encodeCanonical_eq_toVec_iff hupstream).mpr hresp]
    rfl

theorem process_bound_iff (P : Platform) (D : Sdk.Platform) {es : List Event} {s : State}
    (hrun : Run P.step State.boot es s) (hunf : Unforgeable P D s) {gateway : Gateway}
    {options : ProcessOptions} {draws : Draws} {body reply : Json} {result : InferenceResult}
    {keyHex : JsVal} (hkey : D.fromHex keyHex = some P.proofPk)
    (hbody : requestBody P.sha D gateway options draws = some body)
    (hreply : gateway.inference body options.tenantHeader = some reply)
    (hdistinct : reply.DistinctKeys)
    (hproc : process P.sha D gateway options draws = some result)
    (hv : verifyReceipt P.sha D result.proof result.receipt keyHex = some true)
    (hsha : P.sha.CollisionFreeOn (encodeCanonical result.modelResponse :: resultInputs P s)) :
    BoundTo P.sha result (commitment P.sha options draws) ↔ Relays P s body reply := by
  have h := reachable_consistent hrun
  rw [Sdk.process_eq P.sha D gateway hbody hreply] at hproc
  obtain ⟨_, hmodel, hproof, _⟩ := Sdk.readResult_some hproc
  have hcommitment := Sdk.requestBody_commitment P.sha D gateway hbody
  constructor
  · intro hbound
    exact relays_of_boundTo h hunf hkey hdistinct hcommitment hmodel hproof
      (Sdk.verifyReceipt_iff.mp hv).1 hsha hbound
  · exact boundTo_of_relays h hdistinct hcommitment hmodel hproof

/-! ## A replayed response -/

/-- An earlier request of some client, and the run that serves it. -/
def earlierRequest : InferenceRequest := sampleRequest [0x61] [0x62] "default" "gateway"

def earlierEvents : List Event := [
  .request (toVec earlierRequest.toJson) "demo", .fetchAdd 0, .signProof 0 1 [] [], .append 0 1 5]

theorem earlierRequest_decide : ∃ upstreamResp,
    (samplePlatform [earlierRequest]).decide (toVec earlierRequest.toJson) =
      .succeeded earlierRequest.commitmentHex "gateway" upstreamResp := by
  apply Exists.intro
  have hparse := sample_parseRequest (List.mem_singleton.mpr (rfl : earlierRequest = earlierRequest))
  rw [Platform.decide, hparse]
  dsimp only
  rw [earlierRequest, sample_decrypt]
  dsimp only
  rw [sample_checkCommitment]
  rfl

/-- A call of the SDK with this prompt and this salt. -/
def callOptions (prompt : Bytes) : ProcessOptions where
  prompt := .inr prompt
  processor := none
  tenant := none
  context := none
  attestation := some (object [("channel_public_key_hex", .str (hexEncode [0x01]))])

def callDraws (salt : Bytes) : Draws := ⟨[0x02], [0x03], salt⟩

/-- The parent answers every call with one response. -/
def replayingGateway (response : Json) : Gateway := ⟨none, fun _ _ => some response⟩

theorem requestBody_call (sha : Sha256) (signed : List Bytes) (gateway : Gateway)
    (prompt salt : Bytes) : ∃ body, requestBody sha (Sdk.samplePlatform signed) gateway
      (callOptions prompt) (callDraws salt) = some body := by
  have hkey : Sdk.prop (some (object [("channel_public_key_hex", Json.str (hexEncode [0x01]))]))
      "channel_public_key_hex" = some (some (.str (hexEncode [0x01]))) :=
    prop_object (by simp) rfl
  apply Exists.intro
  simp only [requestBody, callOptions, Option.bind_eq_bind]
  rw [show ∀ (a : Json) b, (some a <|> b) = some a from fun _ _ => rfl, Option.bind_some]
  rw [show (Sdk.samplePlatform signed).verifyAttestation _ = some () from rfl, Option.bind_some, hkey,
    Option.bind_some]
  rw [show (Sdk.samplePlatform signed).fromHex (some (.str (hexEncode [0x01]))) = some [0x01] from
    hexDecode_hexEncode _, Option.bind_some]
  rfl

theorem earlierEvents_run : ∃ s proof receipt,
    Run (samplePlatform [earlierRequest]).step State.boot earlierEvents s ∧
    s.sessions = [⟨toVec earlierRequest.toJson, "demo", .done proof (Platform.response
      ((samplePlatform [earlierRequest]).decide (toVec earlierRequest.toJson)) proof receipt 5)⟩] :=
  ⟨_, _, _, Run.of_foldlM rfl, rfl⟩

/-- The earlier response passes every check of any call. -/
theorem earlier_accepted (prompt salt : Bytes) : ∃ s body reply result,
    let P := samplePlatform [earlierRequest]
    let D := Sdk.samplePlatform (s.signed.map Message.bytes)
    Run P.step State.boot earlierEvents s ∧
    requestBody P.sha D (replayingGateway reply) (callOptions prompt) (callDraws salt) = some body ∧
    reply.DistinctKeys ∧
    process P.sha D (replayingGateway reply) (callOptions prompt) (callDraws salt) = some result ∧
    result.ok = some (.bool true) ∧
    verifyReceipt P.sha D result.proof result.receipt (some (.str (hexEncode P.proofPk))) =
      some true ∧
    P.sha.CollisionFreeOn (encodeCanonical result.modelResponse :: resultInputs P s) ∧
    BoundTo P.sha result earlierRequest.commitmentHex := by
  obtain ⟨s, proof, receipt, hrun, hsessions⟩ := earlierEvents_run
  obtain ⟨upstreamResp, hdecide⟩ := earlierRequest_decide
  rw [hdecide] at hsessions
  have h := reachable_consistent hrun
  have hmem := hsessions ▸ List.mem_cons_self
  obtain ⟨body, hbody⟩ := requestBody_call (samplePlatform [earlierRequest]).sha
    (s.signed.map Message.bytes) (replayingGateway (Platform.response (.succeeded
      earlierRequest.commitmentHex "gateway" upstreamResp) proof receipt 5)) prompt salt
  have hread := Sdk.process_eq _ (Sdk.samplePlatform (s.signed.map Message.bytes)) _ hbody rfl
  obtain ⟨result, hresult⟩ : ∃ result, Sdk.readResult (some (Platform.response (.succeeded
      earlierRequest.commitmentHex "gateway" upstreamResp) proof receipt 5)) = some result :=
    ⟨_, rfl⟩
  obtain ⟨hok, hmodel, hproof, hreceipt⟩ := Sdk.readResult_some hresult
  obtain ⟨_, plaintext, hparse, _, hupstream⟩ := Platform.decide_succeeded hdecide
  have hsorts : SortsTo result.modelResponse (sortKeys upstreamResp) := by
    rw [← hmodel]
    exact ⟨upstreamResp, object_get? (by simp) _, (callUpstream_plain hupstream).1.sortKeys_utf16Le⟩
  refine ⟨s, body, _, result, hrun, hbody, (answer_plain h hmem rfl).distinct,
    hread.trans hresult, ?_, ?_, ?_, ?_⟩
  · rw [← hok]
    exact object_get? (by simp) _
  · rw [← hproof, ← hreceipt]
    exact answer_verifies (sample_reads _ s) h hmem rfl
  · -- the only hashed result is the one that is returned
    have hone : ∀ x ∈ encodeCanonical result.modelResponse ::
        resultInputs (samplePlatform [earlierRequest]) s, x = toVec upstreamResp := by
      rw [(encodeCanonical_eq_toVec_iff hupstream).mpr hsorts, resultInputs, hsessions]
      simp [hdecide]
    intro x hx y hy _
    rw [hone x hx, hone y hy]
  · have hstatement := ProofStatement.plain (h.wellFormed ((h.proofs _).mpr ⟨_, hmem, proof, rfl, rfl⟩))
    refine boundTo_of_relays h (answer_plain h hmem rfl).distinct
      (show (Json.obj [("commitment_hex", .str earlierRequest.commitmentHex)]).get? _ = _ from rfl)
      hmodel hproof ⟨_, hmem, earlierRequest, "gateway", upstreamResp, proof.statement, ?_, rfl,
        hdecide, ⟨proof, rfl, rfl⟩, ⟨proof.statement.toJson, ?_, hstatement.sortKeys_utf16Le⟩, ?_⟩
    · exact sample_parseRequest (List.mem_singleton.mpr rfl)
    · rw [Platform.response_get?_proof]
      exact object_get? (SignedProof.nodup_fields _) _
    · rw [hmodel]
      exact hsorts

/-- The honest case: the call is the one that the response was made for. -/
theorem process_bound_iff_honest : ∃ s body reply result,
    let P := samplePlatform [earlierRequest]
    let D := Sdk.samplePlatform (s.signed.map Message.bytes)
    Run P.step State.boot earlierEvents s ∧
    process P.sha D (replayingGateway reply) (callOptions [0x61]) (callDraws [0x62]) = some result ∧
    BoundTo P.sha result (commitment P.sha (callOptions [0x61]) (callDraws [0x62])) ∧
    Relays P s body reply := by
  obtain ⟨s, body, reply, result, hrun, hbody, hdistinct, hproc, _, hv, hsha, hbound⟩ :=
    earlier_accepted [0x61] [0x62]
  have hkey := (sample_reads [earlierRequest] s).fromHex (samplePlatform [earlierRequest]).proofPk
  exact ⟨s, body, reply, result, hrun, hproc, hbound, (process_bound_iff _ _ hrun
    (sample_unforgeable _ s) hkey hbody rfl hdistinct hproc hv hsha).mp hbound⟩

theorem boundTo_unique {sha : Sha256} {result : InferenceResult} {c c' : String}
    (h : BoundTo sha result c) (h' : BoundTo sha result c') : c = c' := by
  obtain ⟨proof, statement, hproof, hstatement, hc, _⟩ := h
  obtain ⟨proof', statement', hproof', hstatement', hc', _⟩ := h'
  rw [hproof, Option.some.injEq] at hproof'
  subst hproof'
  rw [hstatement, Option.some.injEq] at hstatement'
  subst hstatement'
  rw [hc, Option.some.injEq, Json.str.injEq] at hc'
  exact hc'

/-- A call with another prompt gets the earlier response: `ok` is true and the receipt is accepted,
but the proof is about the earlier commitment. -/
theorem process_replayed : ∃ s reply result,
    let P := samplePlatform [earlierRequest]
    let D := Sdk.samplePlatform (s.signed.map Message.bytes)
    Run P.step State.boot earlierEvents s ∧ Unforgeable P D s ∧
    P.sha.CollisionFreeOn (encodeCanonical result.modelResponse :: resultInputs P s) ∧
    process P.sha D (replayingGateway reply) (callOptions [0x63]) (callDraws [0x64]) = some result ∧
    result.ok = some (.bool true) ∧
    verifyReceipt P.sha D result.proof result.receipt (some (.str (hexEncode P.proofPk))) =
      some true ∧
    ¬ BoundTo P.sha result (commitment P.sha (callOptions [0x63]) (callDraws [0x64])) := by
  obtain ⟨s, body, reply, result, hrun, _, _, hproc, hok, hv, hsha, hbound⟩ :=
    earlier_accepted [0x63] [0x64]
  refine ⟨s, reply, result, hrun, sample_unforgeable _ s, hsha, hproc, hok, hv, ?_⟩
  intro hcall
  have hhash := hexEncode_injective (boundTo_unique hbound hcall)
  revert hhash
  decide

end Audit
end Pzdr
