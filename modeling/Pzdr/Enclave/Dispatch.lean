import Pzdr.Audit.Base64
import Pzdr.Enclave.Attestation
import Pzdr.Enclave.Machine
import Pzdr.Text
import Pzdr.Vsock

/-!
# Enclave.Dispatch

`dispatch` of `services/pzdr-enclave/src/main.rs`, and which paths its ledger routes answer.

A route is known by its prefix, the prefix is then cut off as often as it stands there, and the rest
is read as `usize`. So a path is answered with a proof if it is the prefix and decimal digits, and
also if the prefix is repeated or a plus sign stands before the digits (`dispatch_grammar_iff`).
-/

namespace Pzdr
namespace Enclave

/-- What the two other routes answer, and the base64 decoder. -/
structure Handlers where
  base64Decode : String → Option Bytes
  publishAttestation : Except String AttestationOut
  processAndDelete : Bytes → String → Except String Json

def proofRoute : List Char := "/v1/ledger/proof/".toList

def consistencyRoute : List Char := "/v1/ledger/consistency/".toList

/-- `str::parse::<usize>` -/
def parseUsize (s : List Char) : Option Nat := Text.parseUnsigned (2 ^ 64) s

/-- The part of a path that is read as a number. -/
def argument (route : List Char) (path : String) : List Char :=
  Text.trimStartMatches route path.toList

/-- `v.as_str()` -/
def asStr : Json → Option String
  | .str s => some s
  | _ => none

namespace Platform

variable (P : Platform)

def jsonResp (status : UInt16) (v : Json) : VsockResponse where
  status := status
  headers := [("content-type", .str "application/json")]
  bodyB64 := P.base64 (toVec v)

def errorBody (error : String) : Json := object [("error", .str error)]

/-- A ledger route: the argument is read, and the ledger may have an answer for it. -/
def routeReply (answer : Nat → Option Json) (unanswered invalid : VsockResponse) :
    Option Nat → VsockResponse
  | some n =>
    match answer n with
    | some proof => P.jsonResp 200 proof
    | none => unanswered
  | none => invalid

/-- `now` and `nowTo` are the clock readings of the checkpoints that are signed. -/
def dispatch (handlers : Handlers) (ledger : TransparencyLog Bytes) (now nowTo : Nat)
    (env : VsockEnvelope) : VsockResponse :=
  let body := (handlers.base64Decode env.bodyB64).getD []
  if env.method = "GET" ∧ env.path = "/v1/attestation" then
    match handlers.publishAttestation with
    | .ok att => P.jsonResp 200 att.toJson
    | .error e => P.jsonResp 500 (errorBody e)
  else if env.method = "POST" ∧ env.path = "/v1/gateway/inference" then
    let tenant := ((env.headers.lookup "x-tenant-id").bind asStr).getD "demo"
    match handlers.processAndDelete body tenant with
    | .ok v => P.jsonResp 200 v
    | .error e => P.jsonResp 500 (object [("ok", .bool false), ("error", .str e)])
  else if env.method = "GET" ∧ env.path = "/v1/ledger/root" then
    P.jsonResp 200 (P.ledgerRoot ledger now)
  else if env.method = "GET" ∧ proofRoute <+: env.path.toList then
    P.routeReply (fun idx => P.inclusionAnswer ledger idx now)
      (P.jsonResp 404 (errorBody "ledger_index_not_found"))
      (P.jsonResp 400 (errorBody "invalid_ledger_index"))
      (parseUsize (argument proofRoute env.path))
  else if env.method = "GET" ∧ consistencyRoute <+: env.path.toList then
    P.routeReply (fun size => P.ledgerConsistency ledger size now nowTo)
      (P.jsonResp 400 (errorBody "invalid_tree_size"))
      (P.jsonResp 400 (errorBody "invalid_tree_size"))
      (parseUsize (argument consistencyRoute env.path))
  else P.jsonResp 404 (object [
    ("error", .str "not found"), ("method", .str env.method), ("path", .str env.path)])

end Platform

/-! ## Paths -/

/-- The path is the route and then decimal digits for `n`. -/
def IsPath (route : List Char) (path : String) (n : Nat) : Prop :=
  ∃ ds, path.toList = route ++ ds ∧ Text.Denotes ds n

/-- The path has more than the route before the digits for `n`: the route again, or a plus sign. -/
def IsLoosePath (route : List Char) (path : String) (n : Nat) : Prop :=
  ∃ k sign ds, path.toList = Text.copies (k + 1) route ++ (sign ++ ds) ∧
    (sign = [] ∨ sign = ['+']) ∧ (0 < k ∨ sign = ['+']) ∧ Text.Denotes ds n

section Paths

variable {route : List Char} {path : String} {n : Nat}

/-- Every route starts with a slash. -/
def IsRoute (route : List Char) : Prop := ∃ rest, route = '/' :: rest

theorem IsRoute.ne_nil (h : IsRoute route) : route ≠ [] := by
  obtain ⟨rest, rfl⟩ := h
  exact List.cons_ne_nil _ _

/-- A sign and digits are no route. -/
theorem not_route_start (hroute : IsRoute route) {sign ds : List Char}
    (hsign : sign = [] ∨ sign = ['+']) (hds : Text.Denotes ds n) : ¬ route <+: sign ++ ds := by
  obtain ⟨rest, rfl⟩ := hroute
  intro h
  obtain ⟨d, ds, rfl⟩ := List.exists_cons_of_ne_nil hds.nonempty
  rcases hsign with rfl | rfl
  · rw [List.nil_append, List.cons_prefix_cons] at h
    exact absurd (h.1 ▸ hds.head) (by decide)
  · rw [List.singleton_append, List.cons_prefix_cons] at h
    exact absurd h.1 (by decide)

theorem argument_copies (hroute : IsRoute route) {k : Nat} {sign ds : List Char}
    (hpath : path.toList = Text.copies k route ++ (sign ++ ds)) (hsign : sign = [] ∨ sign = ['+'])
    (hds : Text.Denotes ds n) : argument route path = sign ++ ds := by
  rw [argument, hpath]
  exact Text.trimStartMatches_copies hroute.ne_nil (not_route_start hroute hsign hds) k

/-- What is read as a number: the digits of a path of the route, and of a loose one. -/
theorem parseUsize_argument (hroute : IsRoute route) (hstart : route <+: path.toList) :
    parseUsize (argument route path) = some n ↔
      n < 2 ^ 64 ∧ (IsPath route path n ∨ IsLoosePath route path n) := by
  rw [parseUsize, Text.parseUnsigned_eq_some (by omega)]
  constructor
  · rintro ⟨hlt, sign, ds, harg, hsign, hds⟩
    obtain ⟨k, hk⟩ := Text.exists_copies_of_start hroute.ne_nil hstart
    replace hk : path.toList = Text.copies (k + 1) route ++ (sign ++ ds) := by
      rw [← harg]
      exact hk
    refine ⟨hlt, ?_⟩
    by_cases hloose : 0 < k ∨ sign = ['+']
    · exact .inr ⟨k, sign, ds, hk, hsign, hloose, hds⟩
    · rw [not_or] at hloose
      obtain rfl : k = 0 := by omega
      obtain rfl := hsign.resolve_right hloose.2
      exact .inl ⟨ds, by simpa using hk, hds⟩
  · rintro ⟨hlt, ⟨ds, hpath, hds⟩ | ⟨k, sign, ds, hpath, hsign, _, hds⟩⟩
    · have hcopies : path.toList = Text.copies 1 route ++ ([] ++ ds) := by simpa using hpath
      exact ⟨hlt, [], ds, argument_copies hroute hcopies (.inl rfl) hds, .inl rfl, hds⟩
    · exact ⟨hlt, sign, ds, argument_copies hroute hpath hsign hds, hsign, hds⟩

theorem IsLoosePath.startsWith (h : IsLoosePath route path n) : route <+: path.toList := by
  obtain ⟨k, sign, ds, hpath, _⟩ := h
  rw [hpath, Text.copies_succ, List.append_assoc]
  exact List.prefix_append _ _

/-- After the route a loose path goes on with a slash or a plus sign. -/
theorem IsLoosePath.not_isPath (hroute : IsRoute route) (h : IsLoosePath route path n) (m : Nat) :
    ¬ IsPath route path m := by
  obtain ⟨k, sign, ds, hpath, _, hloose, _⟩ := h
  rintro ⟨ds', hpath', hds'⟩
  rw [hpath', Text.copies_succ, List.append_assoc, List.append_cancel_left_eq] at hpath
  subst hpath
  cases k with
  | zero =>
    obtain rfl := hloose.resolve_left (by omega)
    exact absurd hds'.head (by decide)
  | succ k =>
    obtain ⟨rest, rfl⟩ := hroute
    exact absurd hds'.head (by decide)

end Paths

/-! ## Answers -/

namespace Platform

variable {P : Platform}

theorem jsonResp_inj (hbase64 : Function.Injective P.base64) {status status' : UInt16} {v v' : Json}
    (h : P.jsonResp status v = P.jsonResp status' v') : status = status' ∧ v = v' := by
  rw [jsonResp, jsonResp, VsockResponse.mk.injEq] at h
  exact ⟨h.1, Json.print_injective (Utf8.encode_injective (hbase64 h.2.2))⟩

/-- The response is the inclusion proof of entry `i`. -/
def IsProof (P : Platform) (ledger : TransparencyLog Bytes) (r : VsockResponse) (i : Nat) : Prop :=
  ∃ now v, P.inclusionAnswer ledger i now = some v ∧ r = P.jsonResp 200 v

/-- The response is a consistency proof from size `m`. -/
def IsConsistency (P : Platform) (ledger : TransparencyLog Bytes) (r : VsockResponse) (m : Nat) :
    Prop :=
  ∃ nowFrom nowTo v, P.ledgerConsistency ledger m nowFrom nowTo = some v ∧ r = P.jsonResp 200 v

theorem exists_inclusionAnswer {ledger : TransparencyLog Bytes} {i now : Nat} :
    (∃ v, P.inclusionAnswer ledger i now = some v) ↔ i < ledger.size := by
  rw [TransparencyLog.size]
  by_cases hi : i < ledger.leaves.length
  · simp [inclusionAnswer, TransparencyLog.leafAt, TransparencyLog.inclusionPath, hi]
  · simp [inclusionAnswer, TransparencyLog.leafAt, hi]

theorem exists_ledgerConsistency {ledger : TransparencyLog Bytes} {m nowFrom nowTo : Nat} :
    (∃ v, P.ledgerConsistency ledger m nowFrom nowTo = some v) ↔ m ≤ ledger.size := by
  rw [TransparencyLog.size]
  by_cases hm : m ≤ ledger.leaves.length
  · have hpath : ∃ path, ledger.consistencyPath P.sha.log m = some path := by
      rw [TransparencyLog.consistencyPath, if_neg (by omega)]
      split
      · exact ⟨_, rfl⟩
      · split <;> exact ⟨_, rfl⟩
    obtain ⟨path, hpath⟩ := hpath
    simp [ledgerConsistency, TransparencyLog.rootAt, hpath, hm]
  · simp [ledgerConsistency, TransparencyLog.rootAt, hm]

theorem inclusionAnswer_get? {ledger : TransparencyLog Bytes} {i now : Nat} {v : Json}
    (h : P.inclusionAnswer ledger i now = some v) :
    v.get? "index" = some (.num i) ∧ v.get? "from_checkpoint" = none := by
  simp only [inclusionAnswer, Option.bind_eq_bind, Option.bind_eq_some_iff, Option.pure_def,
    Option.some.injEq] at h
  obtain ⟨leaf, _, path, _, rfl⟩ := h
  exact ⟨object_get? (by simp) _, object_get? (by simp) _⟩

theorem ledgerConsistency_get? {ledger : TransparencyLog Bytes} {m nowFrom nowTo : Nat} {v : Json}
    (h : P.ledgerConsistency ledger m nowFrom nowTo = some v) :
    v.get? "index" = none ∧
      (v.get? "from_checkpoint").bind (fun c => c.get? "size") = some (.num m) := by
  simp only [ledgerConsistency, Option.bind_eq_bind, Option.bind_eq_some_iff, Option.pure_def,
    Option.some.injEq] at h
  obtain ⟨root, _, path, _, rfl⟩ := h
  refine ⟨object_get? (by simp) _, ?_⟩
  rw [object_get? (by simp)]
  exact object_get? (by simp) _

section Reply

variable {answer : Nat → Option Json} {unanswered invalid : VsockResponse} {arg : Option Nat}

theorem routeReply_200 (hbase64 : Function.Injective P.base64) (hunanswered : unanswered.status ≠ 200)
    (hinvalid : invalid.status ≠ 200) {v : Json}
    (h : P.routeReply answer unanswered invalid arg = P.jsonResp 200 v) :
    ∃ n, arg = some n ∧ answer n = some v := by
  cases arg with
  | none => exact absurd (congrArg VsockResponse.status h) hinvalid
  | some n =>
    rw [routeReply] at h
    cases hn : answer n with
    | none =>
      rw [hn] at h
      exact absurd (congrArg VsockResponse.status h) hunanswered
    | some v' =>
      rw [hn] at h
      exact ⟨n, rfl, by rw [hn, (jsonResp_inj hbase64 h).2]⟩

/-- Without an answer the route has one of its two error statuses. -/
theorem routeReply_error (h : ∀ n, arg = some n → answer n = none) :
    P.routeReply answer unanswered invalid arg = unanswered ∨
      P.routeReply answer unanswered invalid arg = invalid := by
  cases arg with
  | none => exact .inr rfl
  | some n => rw [routeReply, h n rfl]; exact .inl rfl

theorem routeReply_answer {n : Nat} {v : Json} (hn : answer n = some v) :
    P.routeReply answer unanswered invalid (some n) = P.jsonResp 200 v := by
  rw [routeReply, hn]

end Reply

/-! ## The routes of a `GET` -/

section Routes

variable {handlers : Handlers} {ledger : TransparencyLog Bytes} {now nowTo : Nat}
  {env : VsockEnvelope}

theorem ne_of_start {route : List Char} {path path' : String} (hstart : route <+: path.toList)
    (h : ¬ route <+: path'.toList) : path ≠ path' := by
  rintro rfl
  exact h hstart

/-- No path starts with both routes. -/
theorem not_both {path : List Char} (hproof : proofRoute <+: path) : ¬ consistencyRoute <+: path := by
  intro h
  have hle : proofRoute.length ≤ consistencyRoute.length := by decide
  exact absurd (List.prefix_of_prefix_length_le hproof h hle) (by decide)

theorem dispatch_proof (hget : env.method = "GET") (hstart : proofRoute <+: env.path.toList) :
    P.dispatch handlers ledger now nowTo env =
      P.routeReply (fun idx => P.inclusionAnswer ledger idx now)
        (P.jsonResp 404 (errorBody "ledger_index_not_found"))
        (P.jsonResp 400 (errorBody "invalid_ledger_index"))
        (parseUsize (argument proofRoute env.path)) := by
  have hattestation : env.path ≠ "/v1/attestation" := ne_of_start hstart (by decide)
  have hroot : env.path ≠ "/v1/ledger/root" := ne_of_start hstart (by decide)
  simp [dispatch, hget, hstart, hattestation, hroot]

theorem dispatch_consistency (hget : env.method = "GET")
    (hstart : consistencyRoute <+: env.path.toList) :
    P.dispatch handlers ledger now nowTo env =
      P.routeReply (fun size => P.ledgerConsistency ledger size now nowTo)
        (P.jsonResp 400 (errorBody "invalid_tree_size"))
        (P.jsonResp 400 (errorBody "invalid_tree_size"))
        (parseUsize (argument consistencyRoute env.path)) := by
  have hattestation : env.path ≠ "/v1/attestation" := ne_of_start hstart (by decide)
  have hroot : env.path ≠ "/v1/ledger/root" := ne_of_start hstart (by decide)
  have hproof : ¬ proofRoute <+: env.path.toList := fun h => not_both h hstart
  simp [dispatch, hget, hstart, hattestation, hroot, hproof]

/-- No other route answers with a proof. -/
theorem dispatch_other (hget : env.method = "GET") (hproof : ¬ proofRoute <+: env.path.toList)
    (hconsistency : ¬ consistencyRoute <+: env.path.toList) :
    ∃ status v, P.jsonResp status v = P.dispatch handlers ledger now nowTo env ∧
      v.get? "index" = none ∧ v.get? "from_checkpoint" = none := by
  have hobject : ∀ fields : List (String × Json), (fields.map Prod.fst).Nodup →
      fields.lookup "index" = none → fields.lookup "from_checkpoint" = none →
      (object fields).get? "index" = none ∧ (object fields).get? "from_checkpoint" = none := by
    intro fields hnodup hindex hfrom
    rw [object_get? hnodup, object_get? hnodup]
    exact ⟨hindex, hfrom⟩
  rw [dispatch]
  split
  · split
    · exact ⟨_, _, rfl, rfl, rfl⟩
    · exact ⟨_, _, rfl, hobject _ (by simp) rfl rfl⟩
  split
  · rename_i hpost
    rw [hget] at hpost
    exact absurd hpost.1 (by decide)
  split
  · exact ⟨_, _, rfl, hobject _ (by simp) rfl rfl⟩
  split
  · rename_i h
    exact absurd h.2 hproof
  split
  · rename_i h
    exact absurd h.2 hconsistency
  · exact ⟨_, _, rfl, hobject _ (by simp) rfl rfl⟩

/-- What a body with the status 200 is. -/
theorem dispatch_cases (hget : env.method = "GET") (hbase64 : Function.Injective P.base64) {v : Json}
    (h : P.dispatch handlers ledger now nowTo env = P.jsonResp 200 v) :
    (∃ n, proofRoute <+: env.path.toList ∧ parseUsize (argument proofRoute env.path) = some n ∧
        P.inclusionAnswer ledger n now = some v) ∨
      (∃ n, consistencyRoute <+: env.path.toList ∧
        parseUsize (argument consistencyRoute env.path) = some n ∧
        P.ledgerConsistency ledger n now nowTo = some v) ∨
      (v.get? "index" = none ∧ v.get? "from_checkpoint" = none) := by
  by_cases hproof : proofRoute <+: env.path.toList
  · rw [dispatch_proof hget hproof] at h
    obtain ⟨n, harg, hn⟩ := routeReply_200 hbase64 (by simp [jsonResp]) (by simp [jsonResp]) h
    exact .inl ⟨n, hproof, harg, hn⟩
  · by_cases hconsistency : consistencyRoute <+: env.path.toList
    · rw [dispatch_consistency hget hconsistency] at h
      obtain ⟨n, harg, hn⟩ := routeReply_200 hbase64 (by simp [jsonResp]) (by simp [jsonResp]) h
      exact .inr (.inl ⟨n, hconsistency, harg, hn⟩)
    · obtain ⟨status, v', hdispatch, hnone⟩ := dispatch_other hget hproof hconsistency
      rw [← (jsonResp_inj hbase64 (hdispatch.trans h)).2]
      exact .inr (.inr hnone)

end Routes

end Platform

/-! ## The grammar -/

open Platform

/-- What the ledger routes are to answer. -/
structure FollowsGrammar (P : Platform) (ledger : TransparencyLog Bytes) (path : String)
    (r : VsockResponse) : Prop where
  proof : ∀ i, IsProof P ledger r i → IsPath proofRoute path i
  consistency : ∀ m, IsConsistency P ledger r m → IsPath consistencyRoute path m
  other : (proofRoute <+: path.toList ∧ ∀ i, ¬ IsPath proofRoute path i) ∨
    (consistencyRoute <+: path.toList ∧ ∀ m, ¬ IsPath consistencyRoute path m) →
    r.status = 400 ∨ r.status = 404

/-- A loose path for a number that the ledger has an answer for. -/
def LooselyAnswered (ledger : TransparencyLog Bytes) (path : String) : Prop :=
  (∃ i, i < 2 ^ 64 ∧ i < ledger.size ∧ IsLoosePath proofRoute path i) ∨
    ∃ m, m < 2 ^ 64 ∧ m ≤ ledger.size ∧ IsLoosePath consistencyRoute path m

section Grammar

variable {P : Platform} {handlers : Handlers} {ledger : TransparencyLog Bytes} {now nowTo : Nat}
  {env : VsockEnvelope}

theorem isRoute_proof : IsRoute proofRoute := ⟨_, rfl⟩

theorem isRoute_consistency : IsRoute consistencyRoute := ⟨_, rfl⟩

/-- An inclusion proof answers a path of its route for that entry, or a loose one. -/
theorem path_of_proof (hget : env.method = "GET") (hbase64 : Function.Injective P.base64) {i : Nat}
    (h : IsProof P ledger (P.dispatch handlers ledger now nowTo env) i) :
    i < 2 ^ 64 ∧ i < ledger.size ∧
      (IsPath proofRoute env.path i ∨ IsLoosePath proofRoute env.path i) := by
  obtain ⟨now', v, hv, h⟩ := h
  have hindex := (inclusionAnswer_get? hv).1
  rcases dispatch_cases hget hbase64 h with ⟨n, hstart, harg, hn⟩ | ⟨n, _, _, hn⟩ | ⟨hnone, _⟩
  · have hindex' := (inclusionAnswer_get? hn).1
    rw [hindex] at hindex'
    obtain rfl : i = n := by simpa using hindex'
    obtain ⟨hlt, hpath⟩ := (parseUsize_argument isRoute_proof hstart).mp harg
    exact ⟨hlt, exists_inclusionAnswer.mp ⟨v, hv⟩, hpath⟩
  -- no other body has an index
  · rw [(ledgerConsistency_get? hn).1] at hindex
    cases hindex
  · rw [hnone] at hindex
    cases hindex

/-- A consistency proof answers a path of its route for that size, or a loose one. -/
theorem path_of_consistency (hget : env.method = "GET") (hbase64 : Function.Injective P.base64)
    {m : Nat} (h : IsConsistency P ledger (P.dispatch handlers ledger now nowTo env) m) :
    m < 2 ^ 64 ∧ m ≤ ledger.size ∧
      (IsPath consistencyRoute env.path m ∨ IsLoosePath consistencyRoute env.path m) := by
  obtain ⟨now', nowTo', v, hv, h⟩ := h
  have hfrom := (ledgerConsistency_get? hv).2
  rcases dispatch_cases hget hbase64 h with ⟨n, _, _, hn⟩ | ⟨n, hstart, harg, hn⟩ | ⟨_, hnone⟩
  · rw [(inclusionAnswer_get? hn).2] at hfrom
    cases hfrom
  · have hfrom' := (ledgerConsistency_get? hn).2
    rw [hfrom] at hfrom'
    obtain rfl : m = n := by simpa using hfrom'
    obtain ⟨hlt, hpath⟩ := (parseUsize_argument isRoute_consistency hstart).mp harg
    exact ⟨hlt, exists_ledgerConsistency.mp ⟨v, hv⟩, hpath⟩
  · rw [hnone] at hfrom
    cases hfrom

variable {route : List Char} {path : String} {answer : Nat → Option Json}
  {unanswered invalid : VsockResponse}

/-- A loose path is answered like the path it stands for. -/
theorem routeReply_loose (hroute : IsRoute route) {n : Nat} (hlt : n < 2 ^ 64)
    (hloose : IsLoosePath route path n) {v : Json} (hv : answer n = some v) :
    P.routeReply answer unanswered invalid (parseUsize (argument route path)) =
      P.jsonResp 200 v := by
  have harg := (parseUsize_argument hroute hloose.startsWith).mpr ⟨hlt, .inr hloose⟩
  rw [harg]
  exact routeReply_answer hv

theorem isProof_of_loose (hget : env.method = "GET") {i : Nat} (hlt : i < 2 ^ 64)
    (hi : i < ledger.size) (hloose : IsLoosePath proofRoute env.path i) :
    IsProof P ledger (P.dispatch handlers ledger now nowTo env) i := by
  obtain ⟨v, hv⟩ := exists_inclusionAnswer.mpr hi
  refine ⟨now, v, hv, ?_⟩
  rw [dispatch_proof hget hloose.startsWith]
  exact routeReply_loose isRoute_proof hlt hloose hv

theorem isConsistency_of_loose (hget : env.method = "GET") {m : Nat} (hlt : m < 2 ^ 64)
    (hm : m ≤ ledger.size) (hloose : IsLoosePath consistencyRoute env.path m) :
    IsConsistency P ledger (P.dispatch handlers ledger now nowTo env) m := by
  obtain ⟨v, hv⟩ := exists_ledgerConsistency.mpr hm
  refine ⟨now, nowTo, v, hv, ?_⟩
  rw [dispatch_consistency hget hloose.startsWith]
  exact routeReply_loose isRoute_consistency hlt hloose hv

/-- Any other path of the route has one of its two error statuses. -/
theorem routeReply_other (hroute : IsRoute route) (hstart : route <+: path.toList)
    (hpath : ∀ n, ¬ IsPath route path n)
    (hloose : ∀ n, n < 2 ^ 64 → (∃ v, answer n = some v) → ¬ IsLoosePath route path n)
    (hunanswered : unanswered.status = 400 ∨ unanswered.status = 404)
    (hinvalid : invalid.status = 400) :
    (P.routeReply answer unanswered invalid (parseUsize (argument route path))).status = 400 ∨
      (P.routeReply answer unanswered invalid (parseUsize (argument route path))).status = 404 := by
  have hnone : ∀ n, parseUsize (argument route path) = some n → answer n = none := by
    intro n harg
    obtain ⟨hlt, h⟩ := (parseUsize_argument hroute hstart).mp harg
    replace h := h.resolve_left (hpath n)
    rw [Option.eq_none_iff_forall_ne_some]
    intro v hv
    exact hloose n hlt ⟨v, hv⟩ h
  rcases routeReply_error hnone with herror | herror
  · rw [herror]
    exact hunanswered
  · rw [herror]
    exact .inl hinvalid

end Grammar

theorem dispatch_grammar_iff (P : Platform) (handlers : Handlers) (ledger : TransparencyLog Bytes)
    (now nowTo : Nat) (env : VsockEnvelope) (hget : env.method = "GET")
    (hbase64 : Function.Injective P.base64) :
    FollowsGrammar P ledger env.path (P.dispatch handlers ledger now nowTo env) ↔
      ¬ LooselyAnswered ledger env.path := by
  constructor
  -- a loose path is answered with a proof
  · rintro h (⟨i, hlt, hi, hloose⟩ | ⟨m, hlt, hm, hloose⟩)
    · have hpath := h.proof i (isProof_of_loose hget hlt hi hloose)
      exact hloose.not_isPath isRoute_proof i hpath
    · have hpath := h.consistency m (isConsistency_of_loose hget hlt hm hloose)
      exact hloose.not_isPath isRoute_consistency m hpath
  · intro hloosely
    rw [LooselyAnswered, not_or] at hloosely
    obtain ⟨hnoproof, hnoconsistency⟩ := hloosely
    refine ⟨?_, ?_, ?_⟩
    · intro i h
      obtain ⟨hlt, hi, hpath⟩ := path_of_proof hget hbase64 h
      exact hpath.resolve_right (fun hloose => hnoproof ⟨i, hlt, hi, hloose⟩)
    · intro m h
      obtain ⟨hlt, hm, hpath⟩ := path_of_consistency hget hbase64 h
      exact hpath.resolve_right (fun hloose => hnoconsistency ⟨m, hlt, hm, hloose⟩)
    · rintro (⟨hstart, hpath⟩ | ⟨hstart, hpath⟩)
      · rw [dispatch_proof hget hstart]
        exact routeReply_other isRoute_proof hstart hpath
          (fun n hlt hn hloose => hnoproof ⟨n, hlt, exists_inclusionAnswer.mp hn, hloose⟩)
          (.inr rfl) rfl
      · rw [dispatch_consistency hget hstart]
        exact routeReply_other isRoute_consistency hstart hpath
          (fun n hlt hn hloose => hnoconsistency ⟨n, hlt, exists_ledgerConsistency.mp hn, hloose⟩)
          (.inl rfl) rfl

/-! ## A ledger with one entry -/

def ledgerPlatform : Platform :=
  { samplePlatform [] with base64 := fun bs => .ofList (Audit.base64Chars bs) }

theorem ledgerPlatform_base64 : Function.Injective ledgerPlatform.base64 := by
  intro bs bs' h
  exact Audit.base64Chars_injective (String.ofList_injective h)

/-- The other routes are not reached. -/
def noHandlers : Handlers where
  base64Decode _ := none
  publishAttestation := .error ""
  processAndDelete _ _ := .error ""

def oneEntry : TransparencyLog Bytes := ⟨[ledgerPlatform.sha.log.leafHash [1]]⟩

def getEnvelope (path : String) : VsockEnvelope := ⟨"GET", path, [], ""⟩

theorem isPath_digit : IsPath proofRoute "/v1/ledger/proof/0" 0 :=
  ⟨['0'], rfl, by simp, by simp, rfl⟩

theorem dispatch_grammar_digit :
    FollowsGrammar ledgerPlatform oneEntry "/v1/ledger/proof/0"
      (ledgerPlatform.dispatch noHandlers oneEntry 0 0 (getEnvelope "/v1/ledger/proof/0")) := by
  refine (dispatch_grammar_iff ledgerPlatform noHandlers oneEntry 0 0
    (getEnvelope "/v1/ledger/proof/0") rfl ledgerPlatform_base64).mpr ?_
  rintro (⟨i, _, _, hloose⟩ | ⟨m, _, _, hloose⟩)
  · exact hloose.not_isPath isRoute_proof 0 isPath_digit
  · exact absurd hloose.startsWith (by decide)

theorem isLoosePath_plus : IsLoosePath proofRoute "/v1/ledger/proof/+0" 0 :=
  ⟨0, ['+'], ['0'], rfl, .inr rfl, .inr rfl, by simp, by simp, rfl⟩

theorem isLoosePath_twice : IsLoosePath proofRoute "/v1/ledger/proof//v1/ledger/proof/0" 0 :=
  ⟨1, [], ['0'], rfl, .inl rfl, .inl (by omega), by simp, by simp, rfl⟩

theorem not_followsGrammar_of_loose {path : String} (hloose : IsLoosePath proofRoute path 0) :
    ¬ FollowsGrammar ledgerPlatform oneEntry path
      (ledgerPlatform.dispatch noHandlers oneEntry 0 0 (getEnvelope path)) := by
  intro h
  have hproof : IsProof ledgerPlatform oneEntry
      (ledgerPlatform.dispatch noHandlers oneEntry 0 0 (getEnvelope path)) 0 :=
    isProof_of_loose rfl (by omega) (by decide) hloose
  exact hloose.not_isPath isRoute_proof 0 (h.proof 0 hproof)

/-- A plus sign before the digit, and the route twice. -/
theorem dispatch_answers_loose :
    ¬ FollowsGrammar ledgerPlatform oneEntry "/v1/ledger/proof/+0"
        (ledgerPlatform.dispatch noHandlers oneEntry 0 0 (getEnvelope "/v1/ledger/proof/+0")) ∧
      ¬ FollowsGrammar ledgerPlatform oneEntry "/v1/ledger/proof//v1/ledger/proof/0"
        (ledgerPlatform.dispatch noHandlers oneEntry 0 0
          (getEnvelope "/v1/ledger/proof//v1/ledger/proof/0")) :=
  ⟨not_followsGrammar_of_loose isLoosePath_plus, not_followsGrammar_of_loose isLoosePath_twice⟩

end Enclave
end Pzdr
