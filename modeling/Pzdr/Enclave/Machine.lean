import Pzdr.Enclave.Process
import Pzdr.Enclave.Transparency
import Pzdr.Run

/-!
# Enclave.Machine

The enclave as a state machine. Requests are served concurrently; they meet in the atomic counter,
in the mutex of the ledger and in the signing key. An event is one step of one of them: a request
arrives (`request`), takes its counter (`fetchAdd`), signs its proof (`signProof`) and appends it
under the ledger's lock (`append`); the three ledger queries take the lock once each. Clock readings
and random identifiers are part of the events.

`entries` and `signed` are history: the proofs whose hashes the ledger holds, and the messages the
key has signed.
-/

namespace Pzdr
namespace Enclave

/-- The call that signs a checkpoint. -/
inductive Origin where
  | append
  | ledgerRoot
  | ledgerProof
  | consistencyFrom
  | consistencyTo
  deriving DecidableEq, Repr

inductive Message where
  | proof (statement : ProofStatement)
  | checkpoint (origin : Origin) (statement : CheckpointStatement)

/-- The bytes that are signed. -/
def Message.bytes : Message → Bytes
  | .proof statement => canonicalJson statement.toJson
  | .checkpoint _ statement => canonicalJson statement.toJson

/-- How far a request has come. -/
inductive Stage where
  | received
  | counted (counter : Nat)
  | signed (proof : SignedProof)
  | done (proof : SignedProof) (response : Json)

structure Session where
  body : Bytes
  tenant : String
  stage : Stage

structure State where
  counter : Nat
  ledger : TransparencyLog Bytes
  sessions : List Session
  entries : List SignedProof
  signed : List Message

def State.boot : State := ⟨0, .new, [], [], []⟩

inductive Event where
  | request (body : Bytes) (tenant : String)
  | fetchAdd (sid : Nat)
  | signProof (sid now : Nat) (proofId sessionId : Bytes)
  | append (sid now totalUs : Nat)
  | ledgerRoot (now : Nat)
  | ledgerProof (idx now : Nat)
  | ledgerConsistency (fromSize nowFrom nowTo : Nat)

/-- The clock readings of an event, in their order. -/
def Event.readings : Event → List Nat
  | .request _ _ => []
  | .fetchAdd _ => []
  | .signProof _ now _ _ => [now]
  | .append _ now _ => [now]
  | .ledgerRoot now => [now]
  | .ledgerProof _ now => [now]
  | .ledgerConsistency _ nowFrom nowTo => [nowFrom, nowTo]

namespace Platform

variable (P : Platform)

def entryBytes (proof : SignedProof) : Bytes := canonicalJson proof.toJson

def encodeHashes (hashes : List Bytes) : Json := .arr (hashes.map (fun h => .str (hexEncode h)))

def checkpointStatement (size : Nat) (root : Bytes) (now : Nat) : CheckpointStatement :=
  ⟨size, hexEncode root, now⟩

def signCheckpoint (size : Nat) (root : Bytes) (now : Nat) : SignedCheckpoint :=
  let statement := checkpointStatement size root now
  ⟨statement.size, statement.rootHex, statement.timestamp,
    P.base64 (P.sign (canonicalJson statement.toJson))⟩

/-- The head of the ledger as a message. -/
def headMessage (origin : Origin) (ledger : TransparencyLog Bytes) (now : Nat) : Message :=
  .checkpoint origin (checkpointStatement ledger.size (ledger.root P.sha.log) now)

/-- The receipt of `append_proof`, and the answer of `ledger_proof`. -/
def inclusionAnswer (ledger : TransparencyLog Bytes) (index now : Nat) : Option Json := do
  let leaf ← ledger.leafAt index
  let path ← ledger.inclusionPath P.sha.log index
  let checkpoint := P.signCheckpoint ledger.size (ledger.root P.sha.log) now
  return object [
    ("index", .num index),
    ("leaf_hash_hex", .str (hexEncode leaf)),
    ("audit_path", encodeHashes path),
    ("checkpoint", checkpoint.toJson)]

theorem encodeHashes_eq (hashes : List Bytes) :
    encodeHashes hashes = .arr ((hashes.map hexEncode).map Json.str) := by
  rw [encodeHashes, List.map_map]
  rfl

theorem signCheckpoint_plain (size : Nat) (root : Bytes) (now : Nat) :
    Plain (P.signCheckpoint size root now).toJson :=
  object_plain (by simp) (by simp [Bmp])

variable {P} in
theorem inclusionAnswer_plain {ledger : TransparencyLog Bytes} {index now : Nat} {receipt : Json}
    (h : P.inclusionAnswer ledger index now = some receipt) : Plain receipt := by
  simp only [inclusionAnswer, Option.bind_eq_bind, Option.bind_eq_some_iff, Option.pure_def,
    Option.some.injEq] at h
  obtain ⟨leaf, _, path, _, rfl⟩ := h
  have hpath : Plain (encodeHashes path) := by
    rw [encodeHashes_eq]
    exact plain_strings _
  exact object_plain (by simp) (by simp [Bmp, hpath, signCheckpoint_plain])

def ledgerRoot (ledger : TransparencyLog Bytes) (now : Nat) : Json :=
  object [("checkpoint", (P.signCheckpoint ledger.size (ledger.root P.sha.log) now).toJson)]

def ledgerConsistency (ledger : TransparencyLog Bytes) (fromSize nowFrom nowTo : Nat) :
    Option Json := do
  let fromRoot ← ledger.rootAt P.sha.log fromSize
  let path ← ledger.consistencyPath P.sha.log fromSize
  let fromCheckpoint := P.signCheckpoint fromSize fromRoot nowFrom
  let toCheckpoint := P.signCheckpoint ledger.size (ledger.root P.sha.log) nowTo
  return object [
    ("from_checkpoint", fromCheckpoint.toJson),
    ("to_checkpoint", toCheckpoint.toJson),
    ("consistency_path", encodeHashes path)]

def setStage (s : State) (sid : Nat) (session : Session) (stage : Stage) : State :=
  { s with sessions := s.sessions.set sid { session with stage := stage } }

/-- One step; `none` if the event cannot happen in this state. A query that is answered with an
error leaves the state as it is. -/
def step (s : State) : Event → Option State
  | .request body tenant =>
    some { s with sessions := s.sessions ++ [⟨body, tenant, .received⟩] }
  | .fetchAdd sid => do
    let session ← s.sessions[sid]?
    match session.stage with
    | .received =>
      let counter := (s.counter + 1) % 2 ^ 64
      some { setStage s sid session (.counted counter) with counter := counter }
    | _ => none
  | .signProof sid now proofId sessionId => do
    let session ← s.sessions[sid]?
    match session.stage with
    | .counted counter =>
      let statement := P.statement (P.decide session.body) session.tenant counter now proofId sessionId
      some { setStage s sid session (.signed (P.signProof statement)) with
        signed := s.signed ++ [.proof statement] }
    | _ => none
  | .append sid now totalUs => do
    let session ← s.sessions[sid]?
    match session.stage with
    | .signed proof =>
      let (ledger, index) := s.ledger.append P.sha.log (entryBytes proof)
      let receipt ← P.inclusionAnswer ledger index now
      let response := response (P.decide session.body) proof receipt totalUs
      some { setStage s sid session (.done proof response) with
        ledger := ledger
        entries := s.entries ++ [proof]
        signed := s.signed ++ [P.headMessage .append ledger now] }
    | _ => none
  | .ledgerRoot now => some { s with signed := s.signed ++ [P.headMessage .ledgerRoot s.ledger now] }
  | .ledgerProof idx now =>
    match P.inclusionAnswer s.ledger idx now with
    | some _ => some { s with signed := s.signed ++ [P.headMessage .ledgerProof s.ledger now] }
    | none => some s
  | .ledgerConsistency fromSize nowFrom nowTo =>
    match P.ledgerConsistency s.ledger fromSize nowFrom nowTo, s.ledger.rootAt P.sha.log fromSize with
    | some _, some fromRoot => some { s with signed := s.signed ++
        [.checkpoint .consistencyFrom (checkpointStatement fromSize fromRoot nowFrom),
          P.headMessage .consistencyTo s.ledger nowTo] }
    | _, _ => some s

/-! ## What each step does -/

section Inversion

variable {P} {s s' : State}

theorem step_fetchAdd {sid : Nat} (h : P.step s (.fetchAdd sid) = some s') :
    ∃ session, s.sessions[sid]? = some session ∧ session.stage = .received ∧
      s' = { setStage s sid session (.counted ((s.counter + 1) % 2 ^ 64)) with
        counter := (s.counter + 1) % 2 ^ 64 } := by
  simp only [step, Option.bind_eq_bind, Option.bind_eq_some_iff] at h
  obtain ⟨session, hs, h⟩ := h
  split at h
  · rename_i hstage
    exact ⟨session, hs, hstage, (Option.some.inj h).symm⟩
  · cases h

theorem step_signProof {sid now : Nat} {proofId sessionId : Bytes}
    (h : P.step s (.signProof sid now proofId sessionId) = some s') :
    ∃ session counter, s.sessions[sid]? = some session ∧ session.stage = .counted counter ∧
      let statement := P.statement (P.decide session.body) session.tenant counter now proofId sessionId
      s' = { setStage s sid session (.signed (P.signProof statement)) with
        signed := s.signed ++ [.proof statement] } := by
  simp only [step, Option.bind_eq_bind, Option.bind_eq_some_iff] at h
  obtain ⟨session, hs, h⟩ := h
  split at h
  · rename_i counter hstage
    exact ⟨session, counter, hs, hstage, (Option.some.inj h).symm⟩
  · cases h

theorem step_append {sid now totalUs : Nat} (h : P.step s (.append sid now totalUs) = some s') :
    ∃ session proof receipt, s.sessions[sid]? = some session ∧ session.stage = .signed proof ∧
      let ledger := (s.ledger.append P.sha.log (entryBytes proof)).1
      P.inclusionAnswer ledger s.ledger.size now = some receipt ∧
      s' = { setStage s sid session
          (.done proof (response (P.decide session.body) proof receipt totalUs)) with
        ledger := ledger
        entries := s.entries ++ [proof]
        signed := s.signed ++ [P.headMessage .append ledger now] } := by
  simp only [step, Option.bind_eq_bind, Option.bind_eq_some_iff] at h
  obtain ⟨session, hs, h⟩ := h
  split at h
  · rename_i proof hstage
    rw [Option.bind_eq_some_iff] at h
    obtain ⟨receipt, hr, h⟩ := h
    exact ⟨session, proof, receipt, hs, hstage, hr, (Option.some.inj h).symm⟩
  · cases h

theorem step_ledgerProof {idx now : Nat} (h : P.step s (.ledgerProof idx now) = some s') :
    s' = s ∨ s' = { s with signed := s.signed ++ [P.headMessage .ledgerProof s.ledger now] } := by
  simp only [step] at h
  split at h
  · exact .inr (Option.some.inj h).symm
  · exact .inl (Option.some.inj h).symm

theorem step_ledgerConsistency {fromSize nowFrom nowTo : Nat}
    (h : P.step s (.ledgerConsistency fromSize nowFrom nowTo) = some s') :
    s' = s ∨ ∃ fromRoot, s.ledger.rootAt P.sha.log fromSize = some fromRoot ∧
      s' = { s with signed := s.signed ++
        [.checkpoint .consistencyFrom (checkpointStatement fromSize fromRoot nowFrom),
          P.headMessage .consistencyTo s.ledger nowTo] } := by
  simp only [step] at h
  split at h
  · rename_i fromRoot _ hroot
    exact .inr ⟨fromRoot, hroot, (Option.some.inj h).symm⟩
  · exact .inl (Option.some.inj h).symm

end Inversion

end Platform
end Enclave
end Pzdr
