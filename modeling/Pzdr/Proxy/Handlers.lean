import Pzdr.Enclave.Dispatch
import Pzdr.Proxy.Forward

/-!
# Proxy.Handlers

The handlers of `crates/vsock-parent-proxy/src/main.rs`, each a call of `do_forward`.

The two handlers with a number in the path write this number themselves. So of the paths that the
enclave's routes take, the proxy only sends those of the ledger's grammar (`Route.isPath_proof`,
`Route.isPath_consistency`).
-/

namespace Pzdr
namespace Proxy

/-- The routes that are forwarded; the numbers are those of `Path<u64>`. -/
inductive Route where
  | attestation
  | inference
  | ledgerRoot
  | proof (idx : UInt64)
  | consistency (fromSize : UInt64)
  deriving DecidableEq, Repr

/-- `format!` of a route and the number after it. -/
def formatPath (route : String) (n : Nat) : String := route ++ toString n

def Route.method : Route → String
  | .attestation => "GET"
  | .inference => "POST"
  | .ledgerRoot => "GET"
  | .proof _ => "GET"
  | .consistency _ => "GET"

def Route.path : Route → String
  | .attestation => "/v1/attestation"
  | .inference => "/v1/gateway/inference"
  | .ledgerRoot => "/v1/ledger/root"
  | .proof idx => formatPath "/v1/ledger/proof/" idx.toNat
  | .consistency fromSize => formatPath "/v1/ledger/consistency/" fromSize.toNat

section Handlers

variable (C : Crates) (state : AppState) (metrics : Metrics)
  (headers : List (String × Option String)) (body : Bytes) (elapsedMs : Nat)
  (connection : Connection)

def forwardAttestation : Forwarded C.Headers :=
  doForward C state metrics "GET" "/v1/attestation" headers body elapsedMs connection

def forwardInference : Forwarded C.Headers :=
  doForward C state metrics "POST" "/v1/gateway/inference" headers body elapsedMs connection

def forwardLedgerRoot : Forwarded C.Headers :=
  doForward C state metrics "GET" "/v1/ledger/root" headers body elapsedMs connection

def forwardPath (idx : UInt64) : Forwarded C.Headers :=
  doForward C state metrics "GET" (formatPath "/v1/ledger/proof/" idx.toNat) headers body elapsedMs
    connection

def forwardConsistency (fromSize : UInt64) : Forwarded C.Headers :=
  doForward C state metrics "GET" (formatPath "/v1/ledger/consistency/" fromSize.toNat) headers body
    elapsedMs connection

/-- The router. -/
def handle : Route → Forwarded C.Headers
  | .attestation => forwardAttestation C state metrics headers body elapsedMs connection
  | .inference => forwardInference C state metrics headers body elapsedMs connection
  | .ledgerRoot => forwardLedgerRoot C state metrics headers body elapsedMs connection
  | .proof idx => forwardPath C state metrics headers body elapsedMs connection idx
  | .consistency fromSize =>
    forwardConsistency C state metrics headers body elapsedMs connection fromSize

theorem handle_eq (route : Route) :
    handle C state metrics headers body elapsedMs connection route =
      doForward C state metrics route.method route.path headers body elapsedMs connection := by
  cases route <;> rfl

end Handlers

/-- What axum's `Bytes` extractor takes at most. It answers a larger body itself, with the status 413,
and no handler is called. -/
def bodyLimit : Nat := 2 * 1024 * 1024

/-! ## Before and after the round trip -/

structure HttpRequest where
  route : Route
  headers : List (String × Option String)
  body : Bytes

/-- `headers`, as they stand in the envelope. -/
def hdrMap (headers : List (String × Option String)) : List (String × Json) :=
  headers.foldl insertHeader []

section Parts

variable (C : Crates)

def HttpRequest.envelope (request : HttpRequest) : VsockEnvelope :=
  ⟨request.route.method, request.route.path, hdrMap request.headers, C.base64Encode request.body⟩

/-- The JSON text of the envelope. -/
def HttpRequest.text (request : HttpRequest) : Bytes :=
  Enclave.toVec (envelopeJson (request.envelope C))

/-- How `do_forward` ends after the round trip. -/
def outcome (state : AppState) (connection : Connection) : Outcome C.Headers :=
  match roundTrip C state connection with
  | .error e => .failed e
  | .ok resp => reconstruct C resp

/-- The counters after the round trip. -/
def settle (metrics : Metrics) (elapsedMs : Nat) (result : Outcome C.Headers) : Metrics :=
  { metrics with
    latencyMs := metrics.latencyMs ++ [elapsedMs]
    errors := match result with
      | .failed _ => metrics.errors + 1
      | _ => metrics.errors }

theorem handle_parts (state : AppState) (metrics : Metrics) (request : HttpRequest)
    (elapsedMs : Nat) (connection : Connection) :
    handle C state metrics request.headers request.body elapsedMs connection request.route =
      ⟨settle C { metrics with requests := metrics.requests + 1 } elapsedMs
          (outcome C state connection),
        writeFramed (request.text C), outcome C state connection⟩ := by
  rw [handle_eq, doForward, outcome]
  cases htrip : roundTrip C state connection with
  | error e => rfl
  | ok resp =>
    dsimp only
    rw [reconstruct]
    split <;> rfl

end Parts

/-! ## Headers -/

/-- No name twice, and every value is text. -/
structure TextHeaders (headers : List (String × Json)) : Prop where
  nodup : (headers.map Prod.fst).Nodup
  text : ∀ h ∈ headers, ∃ s, h.2 = .str s

theorem textHeaders_insertHeader {map : List (String × Json)} (h : TextHeaders map)
    (header : String × Option String) : TextHeaders (insertHeader map header) := by
  rw [insertHeader]
  split
  · rename_i s hs
    constructor
    · rw [List.map_cons, List.nodup_cons]
      refine ⟨?_, (List.filter_sublist.map Prod.fst).nodup h.nodup⟩
      intro hmem
      obtain ⟨x, hx, hname⟩ := List.mem_map.mp hmem
      simp [hname] at hx
    · rw [List.forall_mem_cons]
      refine ⟨⟨s, rfl⟩, ?_⟩
      intro x hx
      exact h.text x (List.mem_of_mem_filter hx)
  · exact h

theorem textHeaders_hdrMap (headers : List (String × Option String)) :
    TextHeaders (hdrMap headers) := by
  have hfold : ∀ (headers : List (String × Option String)) (map : List (String × Json)),
      TextHeaders map → TextHeaders (headers.foldl insertHeader map) := by
    intro headers
    induction headers with
    | nil => exact fun _ h => h
    | cons header headers ih =>
      intro map h
      exact ih _ (textHeaders_insertHeader h header)
  exact hfold headers [] ⟨List.nodup_nil, by simp⟩

/-! ## Paths -/

theorem denotes_toString (n : Nat) : Text.Denotes (toString n).toList n := by
  show Text.Denotes (n.repr).toList n
  rw [Nat.toList_repr]
  refine ⟨Nat.toDigits_ne_nil, ?_, Nat.ofDigitChars_ten_toDigits⟩
  intro d hd
  exact Nat.isDigit_of_mem_toDigits (by omega) (by omega) hd

/-- A route with a number after it. -/
theorem isPath_formatPath (route : String) (n : Nat) :
    Enclave.IsPath route.toList (formatPath route n) n :=
  ⟨(toString n).toList, by rw [formatPath, String.toList_append], denotes_toString n⟩

theorem Route.isPath_proof (idx : UInt64) :
    Enclave.IsPath Enclave.proofRoute (Route.proof idx).path idx.toNat :=
  isPath_formatPath "/v1/ledger/proof/" idx.toNat

theorem Route.isPath_consistency (fromSize : UInt64) :
    Enclave.IsPath Enclave.consistencyRoute (Route.consistency fromSize).path fromSize.toNat :=
  isPath_formatPath "/v1/ledger/consistency/" fromSize.toNat

end Proxy
end Pzdr
