import Pzdr.Enclave.Invariant
import Pzdr.Sdk.Client

/-!
# Audit.Signed

What a signature under the proof key says to the SDK. The key signs proof statements and checkpoint
statements, with nothing in front of the canonical bytes to tell them apart; the keys of the objects
do it.

* `verifyCheckpoint_signed`: an accepted checkpoint is one that the enclave signed, with its size,
  its root and its date.
* `verifyProof_signed`: an accepted proof has the statement of a session, or it is a checkpoint.
-/

namespace Pzdr
namespace Audit

open Enclave
open Sdk (prop verifyCheckpoint verifyProof JsVal)

/-- A signature that the SDK accepts under the proof key is on a message the enclave signed. -/
def Unforgeable (P : Platform) (D : Sdk.Platform) (s : State) : Prop :=
  ∀ signature message, D.verifyDetached signature message P.proofPk = some true →
    ∃ m ∈ s.signed, m.bytes = message

variable {P : Platform} {D : Sdk.Platform} {s : State}

theorem bytes_ne_nil (m : Message) : m.bytes ≠ [] := by
  cases m with
  | proof statement => exact canonicalBytes_ne_nil _ _
  | checkpoint origin c => exact canonicalBytes_ne_nil _ _

theorem verifyCheckpoint_signed (h : Consistent P s) (hunf : Unforgeable P D s)
    {checkpoint keyHex : JsVal} (hkey : D.fromHex keyHex = some P.proofPk)
    (hv : verifyCheckpoint D checkpoint keyHex = some true) :
    ∃ origin c, .checkpoint origin c ∈ s.signed ∧
      prop checkpoint "size" = some (some (.num c.size)) ∧
      prop checkpoint "root_hex" = some (some (.str c.rootHex)) ∧
      prop checkpoint "timestamp" = some (some (.num c.timestamp)) := by
  simp only [verifyCheckpoint, Option.bind_eq_bind, Option.bind_eq_some_iff] at hv
  obtain ⟨rootHex, hroot, size, hsize, timestamp, hdate, _, _, signature, _, key, hkey', hsig⟩ := hv
  rw [hkey, Option.some.injEq] at hkey'
  subst hkey'
  obtain ⟨m, hm, hbytes⟩ := hunf _ _ hsig
  cases m with
  | proof statement =>
    obtain ⟨hkeys, _⟩ := Sdk.canonicalRecord_eq (by simp)
      (ProofStatement.plain (h.wellFormed hm)).distinct hbytes.symm
    have hid : statement.toJson.get? "proof_id" = some (.str statement.proofId) :=
      object_get? statement.nodup_fields _
    exact absurd (hkeys _ _ hid) (by simp)
  | checkpoint origin c =>
    obtain ⟨_, hfields⟩ := Sdk.canonicalRecord_eq (by simp) c.plain.distinct hbytes.symm
    have hsize' : c.toJson.get? "size" = some (.num c.size) := object_get? c.nodup_fields _
    have hroot' : c.toJson.get? "root_hex" = some (.str c.rootHex) := object_get? c.nodup_fields _
    have hdate' : c.toJson.get? "timestamp" = some (.num c.timestamp) := object_get? c.nodup_fields _
    obtain ⟨y, hy, v, rfl, hv⟩ := hfields "size" size rfl
    rw [hsize', Option.some.injEq] at hy
    subst hy
    obtain ⟨y, hy, w, rfl, hw⟩ := hfields "root_hex" rootHex rfl
    rw [hroot', Option.some.injEq] at hy
    subst hy
    obtain ⟨y, hy, u, rfl, hu⟩ := hfields "timestamp" timestamp rfl
    rw [hdate', Option.some.injEq] at hy
    subst hy
    rw [Json.sortKeys_eq_num.mp hv] at hsize
    rw [Json.sortKeys_eq_str.mp hw] at hroot
    rw [Json.sortKeys_eq_num.mp hu] at hdate
    exact ⟨origin, c, hm, hsize, hroot, hdate⟩

theorem verifyProof_signed (hunf : Unforgeable P D s) {proof keyHex : JsVal}
    (hkey : D.fromHex keyHex = some P.proofPk) (hv : verifyProof D proof keyHex = some true) :
    ∃ m ∈ s.signed, ∃ v, prop proof "statement" = some (some v) ∧
      canonicalBytes utf16Le v = m.bytes := by
  simp only [verifyProof, Option.bind_eq_bind, Option.bind_eq_some_iff] at hv
  obtain ⟨statement, hstatement, _, _, signature, _, key, hkey', hsig⟩ := hv
  rw [hkey, Option.some.injEq] at hkey'
  subst hkey'
  obtain ⟨m, hm, hbytes⟩ := hunf _ _ hsig
  cases statement with
  | none => exact absurd hbytes (bytes_ne_nil m)
  | some v => exact ⟨m, hm, v, hstatement, hbytes.symm⟩

end Audit
end Pzdr
