import Pzdr.SignedWalk

/-!
# Sdk.Transparency

`verifyInclusion` and `verifyConsistency` of `sdk/typescript/transparency.ts`. Hashes arrive as
hexadecimal strings and are decoded first; `hexToBytes` is a parameter here. `none` stands for a
thrown exception.
-/

namespace Pzdr
namespace Sdk

variable {H : Type} [DecidableEq H] (S : LogHash H) (hexToBytes : String → Option H)

def verifyInclusion (leaf : H) (index size : Int) (pathHex : List String) (rootHex : String) :
    Option Bool :=
  if index ≥ size ∨ size ≤ 0 then some false
  else do
    let path ← pathHex.mapM hexToBytes
    let root ← hexToBytes rootHex
    let (h, sn) := SignedWalk.inclusionLoop S .typescript index (size - 1) leaf path
    return h == root && sn == 0

/-- `(x & (x - 1)) === 0`: JavaScript takes the last 32 bits of both numbers. -/
def isPowerOfTwoTest (x : Int) : Bool := BitVec.ofInt 32 x &&& BitVec.ofInt 32 (x - 1) == 0

def verifyConsistency (firstSize : Int) (firstRootHex : String) (secondSize : Int)
    (secondRootHex : String) (proofHex : List String) : Option Bool := do
  let firstRoot ← hexToBytes firstRootHex
  let secondRoot ← hexToBytes secondRootHex
  if firstSize > secondSize then return false
  else if firstSize = secondSize then return firstRoot == secondRoot && proofHex.isEmpty
  else if firstSize = 0 then return true
  else
    let hashes ← proofHex.mapM hexToBytes
    match (if isPowerOfTwoTest firstSize then firstRoot :: hashes else hashes) with
    | [] => return false
    | x :: pr =>
      let (fn, sn) := SignedWalk.skipOnes .typescript (firstSize - 1).natAbs (firstSize - 1)
        (secondSize - 1)
      match SignedWalk.consistencyLoop S .typescript fn sn x x pr with
      | none => return false
      | some (fr, sr, sn) => return fr == firstRoot && sr == secondRoot && sn == 0

theorem verifyInclusion_true {leaf : H} {index size : Int} {pathHex : List String}
    {rootHex : String} :
    verifyInclusion S hexToBytes leaf index size pathHex rootHex = some true ↔
      index < size ∧ 0 < size ∧ ∃ path root, pathHex.mapM hexToBytes = some path ∧
        hexToBytes rootHex = some root ∧
        SignedWalk.inclusionLoop S .typescript index (size - 1) leaf path = (root, 0) := by
  rw [verifyInclusion]
  split
  · simp only [Option.some.injEq, Bool.false_eq_true, false_iff]
    omega
  · simp only [Option.bind_eq_bind, Option.bind_eq_some_iff, Option.pure_def, Option.some.injEq,
      Bool.and_eq_true, beq_iff_eq, Prod.ext_iff]
    constructor
    · rintro ⟨path, hpath, root, hroot, h⟩
      exact ⟨by omega, by omega, path, root, hpath, hroot, h⟩
    · rintro ⟨_, _, path, root, hpath, hroot, h⟩
      exact ⟨path, hpath, root, hroot, h⟩

theorem verifyInclusion_iff {leaf : H} {index size : Nat} {pathHex : List String}
    {rootHex : String} :
    verifyInclusion S hexToBytes leaf index size pathHex rootHex = some true ↔
      index < size ∧ ∃ path root, pathHex.mapM hexToBytes = some path ∧
        hexToBytes rootHex = some root ∧
        Merkle.walk (Merkle.combine S.nodeHash) index (size - 1) path leaf = (root, 0) := by
  rw [verifyInclusion_true]
  rcases Nat.eq_zero_or_pos size with rfl | hpos
  · simp
  · rw [show (size : Int) - 1 = ((size - 1 : Nat) : Int) by omega]
    simp only [SignedWalk.inclusionLoop_natCast, Prod.ext_iff, Int.natCast_eq_zero, Nat.cast_lt,
      Nat.cast_pos, hpos, true_and]

end Sdk
end Pzdr
