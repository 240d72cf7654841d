import Pzdr.Canonical
import Pzdr.Sha256
import Pzdr.Tools.Python
import Pzdr.Tools.Transparency

/-!
# Tools.Verify

The checks and commands of `tools/pzdr_verify.py`. `none` stands for a raised exception: a command
that prints a number with `%d` raises where there is none.
-/

namespace Pzdr
namespace Tools

/-- What the tool has from its libraries and from the language: `ed25519` is `_VERIFY` on key bytes,
signature and message, if it could be loaded; `repr` and `str` are `%r` and `%s`. -/
structure Platform where
  sha : Sha256
  ed25519 : Option (Bytes → Bytes → Bytes → Bool)
  verifyError : String
  b64decode : Json → Option Bytes
  repr : Json → String
  str : Json → String

namespace Platform

variable (T : Platform)

/-- `_VERIFY`; a key that is no hexadecimal text is an exception that it catches. -/
def verify (keyHex : Json) (sig msg : Bytes) : Bool :=
  match T.ed25519, fromhexOf keyHex with
  | some ed25519, some key => ed25519 key sig msg
  | _, _ => false

/-- `"valid signature by %s.."` -/
def signerMessage : Json → String
  | .str s => "valid signature by " ++ .ofList (s.toList.take 16) ++ ".."
  | _ => ""

def checkProofSignature (proof keyHex : Json) : Option (Bool × String) :=
  if T.ed25519.isNone then some (false, "UNAVAILABLE Ed25519 verifier: " ++ T.verifyError)
  else if !truthy keyHex then some (false, "missing proof verifier key")
  else do
    let msg := canonicalJson (← proof.get? "statement")
    let sig ← T.b64decode (← proof.get? "signature_b64")
    if T.verify keyHex sig msg then return (true, signerMessage keyHex)
    else return (false, "BAD signature")

/-! ## The statement -/

/-- `if condition: fails.append(message)` -/
def failIf (condition : Bool) (message : String) : List String := if condition then [message] else []

/-- What is asked of the buffers of a successful request. -/
def checkBuffers (z governance : Json) : Option (List String) := do
  let inputWiped ← dictGet z "input_buffer_wiped"
  let retention ← dictGet governance "retention_policy"
  let responseWiped ← dictGet z "response_buffer_wiped"
  let input := failIf (!truthy inputWiped) "success proof without wiped input buffer"
  if pyEq retention (.str "returned-only") then
    let responseReturned ← dictGet z "response_buffer_returned"
    return input ++
      failIf (truthy responseWiped) "returned-only response falsely marked already wiped" ++
      failIf (!truthy responseReturned) "returned-only response missing returned marker"
  else
    return input ++ failIf (!truthy responseWiped) "non-returned response without wiped response buffer"

def checkSuccess (stmt z : Json) : Option (List String) := do
  let buffers ← checkBuffers z (pyOr (← dictGet stmt "output_governance") (.obj []))
  let resultHash ← dictGet stmt "result_hash_hex"
  let allow ← dictGet (pyOr (← dictGet stmt "policy_decision") (.obj [])) "allow"
  return buffers ++ failIf (!truthy resultHash) "success proof missing result_hash_hex" ++
    failIf (!truthy allow) "success proof whose policy_decision did not allow"

def checkFailure (stmt : Json) : Option (List String) := do
  let resultHash ← dictGet stmt "result_hash_hex"
  let errorCode ← dictGet stmt "error_code"
  return failIf (truthy resultHash) "failure proof carrying a result_hash_hex" ++
    failIf (!truthy errorCode) "failure proof without error_code"

/-- `v is True` -/
def isTrue : Json → Bool
  | .bool true => true
  | _ => false

def checkStatementInvariants (stmt : Json) : Option (List String) := do
  let z := pyOr (← dictGet stmt "zeroization_report") (.obj [])
  let success ← dictGet stmt "success"
  let fails ← if isTrue success then checkSuccess stmt z else checkFailure stmt
  let version ← dictGet stmt "proof_version"
  return fails ++ failIf (!pyEq version (.num 3)) ("unexpected proof_version " ++ T.repr version)

/-! ## Policy and attestation -/

def policyHash (policy : Json) : String := hexEncode (T.sha.hash (canonicalJson policy))

def checkPolicy (proof policy : Json) : Option (List String) := do
  let stmt ← proof.get? "statement"
  let decided := pyOr (← dictGet stmt "policy_decision") (.obj [])
  let hash ← dictGet decided "policy_hash"
  let success ← dictGet stmt "success"
  let allow ← dictGet decided "allow"
  return failIf (!pyEq hash (.str (T.policyHash policy)))
      ("policy_hash mismatch: proof=" ++ T.str hash ++ " recomputed=" ++ T.policyHash policy) ++
    failIf (truthy success && !isTrue allow) "success under non-allow decision" ++
    failIf (!truthy success && isTrue allow) "failure under allow decision"

def checkAttestationBinding (att proof expectedPcr0 keyHex : Json) : Option (List String) := do
  let stmt ← proof.get? "statement"
  let attChannel ← dictGet att "channel_public_key_hex"
  let channel ← dictGet stmt "channel_public_key_hex"
  let attMeasurement ← dictGet att "measurement"
  let measurement ← dictGet stmt "measurement"
  let attKey ← dictGet att "proof_verifier_key_hex"
  let key ← dictGet stmt "proof_verifier_key_hex"
  return failIf (!pyEq attChannel channel) "channel key in proof != channel key in attestation" ++
    failIf (!pyEq attMeasurement measurement)
      "measurement in proof != measurement in attestation" ++
    failIf (truthy expectedPcr0 && !pyEq attMeasurement expectedPcr0)
      "attested measurement != pinned PCR0" ++
    failIf (truthy keyHex && !(pyEq attKey .null || pyEq attKey keyHex))
      "attestation advertises a different proof verifier key" ++
    failIf (truthy keyHex && !pyEq key keyHex)
      "proof verifier key in statement != attested verifier key"

/-! ## Commands -/

def entryBytes (proof : Json) : Bytes := canonicalJson proof

def checkpointMsg (cp : Json) : Option Bytes := do
  return canonicalJson (.obj [("root_hex", ← cp.get? "root_hex"), ("size", ← cp.get? "size"),
    ("timestamp", ← cp.get? "timestamp")])

def checkCheckpointSignature (cp keyHex : Json) : Option Bool :=
  if T.ed25519.isNone || !truthy keyHex then some false
  else do
    if !(← pyIn "checkpoint_signature_b64" cp) then return false
    let sig ← T.b64decode (← cp.get? "checkpoint_signature_b64")
    return T.verify keyHex sig (← checkpointMsg cp)

/-- One round of the loop of `cmd_verify_inclusion`. -/
def inclusionOk (cp : Json) (root : Bytes) (keyHex item : Json) : Option Bool := do
  let proof ← item.get? "proof"
  let leaf := T.sha.log.leafHash (entryBytes proof)
  if (item.get? "leaf_hash_hex").any (fun h => !pyEq h (.str (hexEncode leaf))) then
    let _ ← asInt (← item.get? "index")
    return false
  else
    let path ← (← iterate (← item.get? "audit_path")).mapM fromhexOf
    let index ← asInt (← item.get? "index")
    let size ← asInt (← cp.get? "size")
    let sigOk ← if truthy keyHex then (T.checkProofSignature proof keyHex).map Prod.fst else some true
    let _ ← (← proof.get? "statement").get? "error_code"
    return verifyInclusion T.sha.log leaf index size path root && sigOk

/-- `all_ok = all_ok and ok` over the rounds of a loop, which all run. -/
def allOk {α : Type} (check : α → Option Bool) (items : List α) (ok : Bool) : Option Bool :=
  items.foldlM (fun ok item => (check item).map (ok && ·)) ok

def cmdVerifyInclusion (bundle keyHex : Json) : Option Bool := do
  let cp ← bundle.get? "checkpoint"
  let root ← fromhexOf (← cp.get? "root_hex")
  let keyHex := pyOr keyHex (← dictGet bundle "proof_verifier_key_hex")
  let csOk ← T.checkCheckpointSignature cp keyHex
  allOk (T.inclusionOk cp root keyHex) (← iterate (← bundle.get? "inclusions")) csOk

/-- The values of a transition. -/
structure Transition where
  firstSize : Int
  firstRoot : Bytes
  secondSize : Int
  secondRoot : Bytes
  proof : List Bytes

def readTransition (t : Json) : Option Transition := do
  let a ← t.get? "from"
  let b ← t.get? "to"
  let proof ← (← iterate (← t.get? "proof")).mapM fromhexOf
  let firstSize ← asInt (← a.get? "size")
  let firstRoot ← fromhexOf (← a.get? "root_hex")
  let secondSize ← asInt (← b.get? "size")
  let secondRoot ← fromhexOf (← b.get? "root_hex")
  return ⟨firstSize, firstRoot, secondSize, secondRoot, proof⟩

/-- One round of the loop of `cmd_verify_consistency`. -/
def consistencyOk (t : Json) : Option Bool := do
  let r ← readTransition t
  verifyConsistency T.sha.log r.firstSize r.firstRoot r.secondSize r.secondRoot r.proof

def cmdVerifyConsistency (bundle : Json) : Option Bool := do
  allOk T.consistencyOk (← iterate (← bundle.get? "consistency")) true

/-- Signature and invariants of one proof of a bundle. -/
def proofOk (keyHex item : Json) : Option Bool := do
  let proof ← item.get? "proof"
  let (sOk, _) ← T.checkProofSignature proof keyHex
  let inv ← T.checkStatementInvariants (← proof.get? "statement")
  return sOk && inv.isEmpty

/-- The block of `cmd_verify_bundle` under `if "policy" in bundle`. -/
def policyOk (bundle : Json) (items : List Json) : Option Bool :=
  match bundle.get? "policy" with
  | none => some true
  | some policy => allOk (fun item => do
      return (← T.checkPolicy (← item.get? "proof") policy).isEmpty) items true

/-- The block under `if "attestation" in bundle`. -/
def attestationOk (bundle : Json) (items : List Json) (keyHex : Json) : Option Bool :=
  match bundle.get? "attestation" with
  | none => some true
  | some att => do
    let expectedPcr0 ← dictGet bundle "expected_pcr0"
    allOk (fun item => do
      return (← checkAttestationBinding att (← item.get? "proof") expectedPcr0 keyHex).isEmpty)
      items true

def cmdVerifyBundle (bundle : Json) : Option Bool := do
  let keyHex ← dictGet bundle "proof_verifier_key_hex"
  let items ← iterate (← bundle.get? "inclusions")
  let proofs ← allOk (T.proofOk keyHex) items true
  let inclusion ← T.cmdVerifyInclusion bundle keyHex
  let consistency ← T.cmdVerifyConsistency bundle
  let policy ← T.policyOk bundle items
  let attestation ← attestationOk bundle items keyHex
  return proofs && inclusion && consistency && policy && attestation

variable {T} in
theorem cmdVerifyInclusion_eq {bundle keyHex cp root key inclusions : Json} {rootBytes : Bytes}
    {items : List Json} (hcp : bundle.get? "checkpoint" = some cp)
    (hroot : cp.get? "root_hex" = some root) (hbytes : fromhexOf root = some rootBytes)
    (hkey : dictGet bundle "proof_verifier_key_hex" = some key)
    (hinclusions : bundle.get? "inclusions" = some inclusions)
    (hitems : iterate inclusions = some items) :
    T.cmdVerifyInclusion bundle keyHex =
      (T.checkCheckpointSignature cp (pyOr keyHex key)).bind
        (allOk (T.inclusionOk cp rootBytes (pyOr keyHex key)) items) := by
  simp only [cmdVerifyInclusion, hcp, hroot, hbytes, hkey, hinclusions, hitems, Option.bind_eq_bind,
    Option.bind_some]

variable {T} in
theorem cmdVerifyBundle_of {bundle key inclusions : Json} {items : List Json}
    (hkey : dictGet bundle "proof_verifier_key_hex" = some key)
    (hinclusions : bundle.get? "inclusions" = some inclusions)
    (hitems : iterate inclusions = some items)
    (hproofs : allOk (T.proofOk key) items true = some true)
    (hinclusion : T.cmdVerifyInclusion bundle key = some true)
    (hconsistency : T.cmdVerifyConsistency bundle = some true)
    (hpolicy : T.policyOk bundle items = some true)
    (hattestation : attestationOk bundle items key = some true) :
    T.cmdVerifyBundle bundle = some true := by
  simp only [cmdVerifyBundle, hkey, hinclusions, hitems, hproofs, hinclusion, hconsistency, hpolicy,
    hattestation, Option.bind_eq_bind, Option.bind_some, Option.pure_def, Bool.and_true]

/-! ## What a pass means for the transitions -/

theorem allOk_iff {α : Type} {check : α → Option Bool} {items : List α} {ok : Bool} :
    allOk check items ok = some true ↔ ok = true ∧ ∀ item ∈ items, check item = some true := by
  induction items generalizing ok with
  | nil => simp [allOk]
  | cons item items ih =>
    have hcons : allOk check (item :: items) ok =
        ((check item).map (ok && ·)).bind (allOk check items) := rfl
    rw [hcons, List.forall_mem_cons]
    cases hc : check item with
    | none => simp
    | some b =>
      rw [Option.map_some, Option.bind_some, ih]
      cases ok <;> cases b <;> simp

variable {T} in
theorem cmdVerifyBundle_consistency {bundle : Json} (h : T.cmdVerifyBundle bundle = some true) :
    ∃ items, (bundle.get? "consistency").bind iterate = some items ∧
      ∀ t ∈ items, T.consistencyOk t = some true := by
  simp only [cmdVerifyBundle, Option.bind_eq_bind, Option.bind_eq_some_iff, Option.pure_def,
    Option.some.injEq, Bool.and_eq_true] at h
  obtain ⟨_, _, _, _, _, _, _, _, _, _, consistency, hconsistency, _, _, _, _, h⟩ := h
  rw [h.1.1.2] at hconsistency
  simp only [cmdVerifyConsistency, Option.bind_eq_bind, Option.bind_eq_some_iff] at hconsistency
  obtain ⟨c, hc, items, hitems, hall⟩ := hconsistency
  refine ⟨items, by rw [hc, Option.bind_some, hitems], (allOk_iff.mp hall).2⟩

end Platform

end Tools
end Pzdr
