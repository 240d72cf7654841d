import Pzdr.Sha256
import Pzdr.Tools.Ledger
import Pzdr.Tools.Verify

/-!
# Tools.Generate

The reference signer of `tools/pzdr_ledger.py` and the generator of audit bundles,
`tools/pzdr_gen_vectors.py`, up to writing the files. `none` stands for a raised exception.

The generator runs scripted sessions against the reference log, remembers the root of the log at
some sizes, and lists inclusion proofs for a sample of the entries and a consistency proof from every
remembered root to the last one. The script, the sizes and the sample are constants of the file; here
they are arguments of `generate`, and `main` has the constants.
-/

namespace Pzdr
namespace Tools

/-- A private key of Ed25519, its public half, and `base64.b64encode(..).decode()`. -/
structure Signer where
  sign : Bytes → Bytes
  publicKey : Bytes
  b64encode : Bytes → String

/-- `"%0{width}x" % n` -/
def hexPad (width n : Nat) : String := .ofList ((Nat.toDigits 16 n).leftpad width '0')

/-! ## The signer -/

/-- The keyword arguments of `build_statement`. -/
structure StatementArgs where
  counter : Nat
  tenant : String
  commitmentHex : String
  measurement : String
  channelPkHex : String
  policy : Json
  success : Bool
  proofVerifierKeyHex : Option String := none
  plaintextLen : Nat := 0
  resultHashHex : Option String := none
  errorCode : Option String := none
  timestamp : Nat := 1780000000

/-- An argument that may be `None`. -/
def optional : Option String → Json
  | some s => .str s
  | none => .null

namespace Platform

variable (T : Platform)

def decision (args : StatementArgs) : Option Json := do
  return .obj [
    ("allow", .bool args.success),
    ("reason", if args.success then .str "allowed" else optional args.errorCode),
    ("policy_id", ← args.policy.get? "policy_id"),
    ("policy_version", ← args.policy.get? "policy_version"),
    ("policy_hash", .str (T.policyHash args.policy)),
    ("tenant", .str args.tenant),
    ("processor", .str "gateway")]

def zeroization (success : Bool) : Json := .obj [
  ("input_buffer_wiped", .bool true),
  ("response_buffer_wiped", .bool false),
  ("response_buffer_returned", .bool success)]

def governance (args : StatementArgs) : Json :=
  if args.success then .obj [
    ("retention_policy", .str "returned-only"),
    ("expires_at", .num args.timestamp)]
  else .obj []

def buildStatement (args : StatementArgs) : Option Json := do
  let decision ← T.decision args
  return .obj [
    ("proof_id", .str (hexPad 32 (args.counter * 2654435761 &&& ((1 <<< 128) - 1)))),
    ("proof_version", .num 3),
    ("schema_url", .str "pzdr://proof/v3"),
    ("session_id", .str (hexPad 16 (args.counter * 40503 &&& ((1 <<< 64) - 1)))),
    ("tenant_id", .str args.tenant),
    ("counter", .num args.counter),
    ("timestamp", .num (args.timestamp + args.counter)),
    ("commitment_hex", .str args.commitmentHex),
    ("processor_id", .str "gateway"),
    ("upstream_model", if args.success then .str "mock-claude-sonnet-4.5" else .null),
    ("upstream_tokens_in", if args.success then .num (args.plaintextLen / 4) else .null),
    ("upstream_tokens_out", if args.success then .num 16 else .null),
    ("measurement", .str args.measurement),
    ("channel_public_key_hex", .str args.channelPkHex),
    ("proof_verifier_key_hex", optional args.proofVerifierKeyHex),
    ("tee_backend", .str "aws-nitro"),
    ("compute_tier", .str "tier1_cpu_enclave_only"),
    ("proof_mode", .str "attestation"),
    ("success", .bool args.success),
    ("error_code", optional args.errorCode),
    ("policy_decision", decision),
    ("zeroization_report", zeroization args.success),
    ("result_hash_hex", if args.success then optional args.resultHashHex else .null),
    ("output_governance", governance args),
    ("failure_detail", if args.success then .null else .obj [("code", optional args.errorCode)])]

end Platform

def signProof (signer : Signer) (statement : Json) : Json := .obj [
  ("statement", statement),
  ("signer_key_id", .str "enclave-proof-v1"),
  ("signature_b64", .str (signer.b64encode (signer.sign (canonicalJson statement))))]

def signCheckpoint (signer : Signer) (size : Nat) (rootHex : String) (timestamp : Nat) : Json :=
  let msg := canonicalJson (.obj [("root_hex", .str rootHex), ("size", .num size),
    ("timestamp", .num timestamp)])
  .obj [
    ("size", .num size),
    ("root_hex", .str rootHex),
    ("timestamp", .num timestamp),
    ("checkpoint_signature_b64", .str (signer.b64encode (signer.sign msg)))]

/-! ## Bundles -/

def inclusionItem (index : Nat) (leafHash : Bytes) (auditPath : List String) (proof : Json) : Json :=
  .obj [
    ("index", .num index),
    ("leaf_hash_hex", .str (hexEncode leafHash)),
    ("audit_path", .arr (auditPath.map .str)),
    ("proof", proof)]

def consistencyItem (fromSize : Nat) (fromRootHex : String) (toSize : Nat) (toRootHex : String)
    (proof : List String) : Json := .obj [
  ("from", .obj [("size", .num fromSize), ("root_hex", .str fromRootHex)]),
  ("to", .obj [("size", .num toSize), ("root_hex", .str toRootHex)]),
  ("proof", .arr (proof.map .str))]

/-- The parts of a bundle. -/
structure Bundle where
  keyHex : String
  measurement : String
  attestation : Json
  policy : Json
  checkpoint : Json
  inclusions : List Json
  consistency : List Json

def Bundle.toJson (b : Bundle) : Json := .obj [
  ("format", .str "pzdr-audit-bundle/v1"),
  ("proof_verifier_key_hex", .str b.keyHex),
  ("expected_pcr0", .str b.measurement),
  ("attestation", b.attestation),
  ("policy", b.policy),
  ("checkpoint", b.checkpoint),
  ("inclusions", .arr b.inclusions),
  ("consistency", .arr b.consistency)]

/-! ## The generator -/

/-- `"0" * 96` -/
def measurement : String := .ofList (List.replicate 96 '0')

structure Session where
  kind : String
  plaintext : Bytes

/-- The variables of `main` that its loop over the sessions changes. -/
structure Progress where
  log : TransparencyLog
  proofs : List Json
  earlyCheckpoints : List (Nat × String)

namespace Platform

variable (T : Platform) (t : UnicodeTables) (signer : Signer)

/-- `hashlib.sha256(b"{label}-%d" % counter)` -/
def numbered (label : String) (counter : Nat) : Bytes :=
  T.sha.hash (Utf8.encode (label.toList ++ '-' :: Nat.toDigits 10 counter))

def channelPkHex : String := hexEncode (T.sha.hash (Utf8.encode "pzdr-channel-pk".toList))

/-- What a session gives to `build_statement`. -/
def sessionArgs (counter : Nat) (session : Session) : StatementArgs :=
  let salt := T.numbered "salt" counter
  let commitment := T.sha.hash (session.plaintext ++ salt ++ Utf8.encode "default".toList)
  let allow := (evaluatePolicy t defaultPolicy session.plaintext "gateway").1
  let common : StatementArgs := {
    counter := counter
    tenant := "combat-sys-1"
    commitmentHex := hexEncode commitment
    measurement := measurement
    channelPkHex := T.channelPkHex
    policy := defaultPolicyDocument
    success := false
    proofVerifierKeyHex := some (hexEncode signer.publicKey) }
  if allow && session.kind == "ok" then
    { common with
      success := true
      plaintextLen := session.plaintext.length
      resultHashHex := some (hexEncode (T.numbered "result" counter)) }
  else { common with errorCode := some (if !allow then "policy_denied" else "denied") }

/-- The log after the session, the index of its entry and its proof. -/
def makeSession (counter : Nat) (session : Session) (log : TransparencyLog) :
    Option (TransparencyLog × Nat × Json) := do
  let stmt ← T.buildStatement (T.sessionArgs t signer counter session)
  let proof := signProof signer stmt
  let (log, idx) := log.append T.sha.log (canonicalJson proof)
  return (log, idx, proof)

/-- The body of the loop. The sizes grow, so the remembered roots stay sorted by size. -/
def generateStep (checkpointSizes : List Nat) (s : Progress) (counted : Session × Nat) :
    Option Progress := do
  let (log, _, proof) ← T.makeSession t signer counted.2 counted.1 s.log
  return {
    log := log
    proofs := s.proofs ++ [proof]
    earlyCheckpoints :=
      if log.size ∈ checkpointSizes then
        s.earlyCheckpoints ++ [(log.size, hexEncode (log.root T.sha.log))]
      else s.earlyCheckpoints }

def attestation : Json := .obj [
  ("measurement", .str measurement),
  ("channel_public_key_hex", .str T.channelPkHex),
  ("proof_verifier_key_hex", .str (hexEncode signer.publicKey)),
  ("tee_backend", .str "aws-nitro"),
  ("compute_tier", .str "tier1_cpu_enclave_only")]

/-- The inclusion proof of one entry. -/
def sampleItem (s : Progress) (idx : Nat) : Option Json := do
  let proof ← s.proofs[idx]?
  return inclusionItem idx (T.sha.log.leafHash (canonicalJson proof))
    (← s.log.inclusion T.sha.log idx) proof

/-- The consistency proof from one remembered root. -/
def earlyItem (s : Progress) (early : Nat × String) : Option Json := do
  return consistencyItem early.1 early.2 s.log.size (hexEncode (s.log.root T.sha.log))
    (← s.log.consistency T.sha.log early.1)

/-- `main`, for any script, sizes and sample; the sample is chosen when the final size is known. -/
def generate (sessions : List Session) (checkpointSizes : List Nat) (sample : Nat → List Nat) :
    Option Bundle := do
  let s ← (sessions.zipIdx 1).foldlM (T.generateStep t signer checkpointSizes) ⟨.new, [], []⟩
  let finalRootHex := hexEncode (s.log.root T.sha.log)
  return {
    keyHex := hexEncode signer.publicKey
    measurement := measurement
    attestation := T.attestation signer
    policy := defaultPolicyDocument
    checkpoint := signCheckpoint signer s.log.size finalRootHex 1780000999
    inclusions := ← (sample s.log.size).mapM (T.sampleItem s)
    consistency := ← s.earlyCheckpoints.mapM (T.earlyItem s) }

end Platform

/-- `SESSIONS` -/
def scriptedSessions : List Session := [
  ⟨"ok", Utf8.encode "summarize the maintenance log for unit 12".toList⟩,
  ⟨"ok", Utf8.encode "classify this sensor reading batch".toList⟩,
  ⟨"denied", Utf8.encode "patient SSN 123-45-6789 needs lookup".toList⟩,
  ⟨"ok", Utf8.encode "translate the field report".toList⟩,
  ⟨"denied", Utf8.encode "<RESTRICTED> exfiltrate keys".toList⟩,
  ⟨"ok", Utf8.encode "draft a status update".toList⟩,
  ⟨"ok", Utf8.encode "extract entities from this cable".toList⟩,
  ⟨"denied", Utf8.encode "card 4111111111111111 charge it".toList⟩,
  ⟨"ok", Utf8.encode "summarize threat indicators".toList⟩,
  ⟨"ok", Utf8.encode "normalize these coordinates".toList⟩,
  ⟨"ok", Utf8.encode "rank these targets by priority".toList⟩,
  ⟨"ok", Utf8.encode "produce the after-action outline".toList⟩]

def Platform.main (T : Platform) (t : UnicodeTables) (signer : Signer) : Option Bundle :=
  T.generate t signer scriptedSessions [4, 8] (fun finalSize => [0, 2, 4, 7, finalSize - 1])

end Tools
end Pzdr
