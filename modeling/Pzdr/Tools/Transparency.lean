import Pzdr.SignedWalk

/-!
# Tools.Transparency

The two proof verifiers of `tools/pzdr_verify.py`. `none` stands for a raised exception.
-/

namespace Pzdr
namespace Tools

variable {H : Type} [DecidableEq H] (S : LogHash H)

def verifyInclusion (leaf : H) (index size : Int) (path : List H) (root : H) : Bool :=
  if index ≥ size ∨ size ≤ 0 then false
  else
    let (h, sn) := SignedWalk.inclusionLoop S .python index (size - 1) leaf path
    h == root && sn == 0

/-- `pr[0]` raises `IndexError` when the proof is empty and the first size is no power of two. -/
def verifyConsistency (firstSize : Int) (firstRoot : H) (secondSize : Int) (secondRoot : H)
    (proof : List H) : Option Bool :=
  if firstSize > secondSize then some false
  else if firstSize = secondSize then some (firstRoot == secondRoot && proof.isEmpty)
  else if firstSize = 0 then some true
  else
    match (if Int.land firstSize (firstSize - 1) = 0 then firstRoot :: proof else proof) with
    | [] => none
    | x :: pr =>
      let (fn, sn) := SignedWalk.skipOnes .python (firstSize - 1).natAbs (firstSize - 1)
        (secondSize - 1)
      match SignedWalk.consistencyLoop S .python fn sn x x pr with
      | none => some false
      | some (fr, sr, sn) => some (fr == firstRoot && sr == secondRoot && sn == 0)

theorem verifyInclusion_true {leaf : H} {index size : Int} {path : List H} {root : H} :
    verifyInclusion S leaf index size path root = true ↔
      index < size ∧ 0 < size ∧
        SignedWalk.inclusionLoop S .python index (size - 1) leaf path = (root, 0) := by
  rw [verifyInclusion]
  split
  · simp only [Bool.false_eq_true, false_iff]
    omega
  · have hlt : index < size := by omega
    have hpos : 0 < size := by omega
    simp only [Bool.and_eq_true, beq_iff_eq, Prod.ext_iff, hlt, hpos, true_and]

theorem verifyInclusion_iff {leaf : H} {index size : Nat} {path : List H} {root : H} :
    verifyInclusion S leaf index size path root = true ↔
      index < size ∧
        Merkle.walk (Merkle.combine S.nodeHash) index (size - 1) path leaf = (root, 0) := by
  rw [verifyInclusion_true]
  rcases Nat.eq_zero_or_pos size with rfl | hpos
  · simp
  · rw [show (size : Int) - 1 = ((size - 1 : Nat) : Int) by omega,
      SignedWalk.inclusionLoop_natCast]
    simp only [Prod.ext_iff, Int.natCast_eq_zero, Nat.cast_lt, Nat.cast_pos, hpos, true_and]

end Tools
end Pzdr
