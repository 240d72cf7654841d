import Pzdr.Hash

/-!
# Pzdr.SignedWalk

The verifier loops of `tools/pzdr_verify.py` and `sdk/typescript/transparency.ts`. Both run on
signed integers that come from JSON unchecked, and differ in one operator: `% 2` is floored in
Python and truncated in TypeScript, so a negative odd number has remainder `1` in one and `-1` in
the other. `>>= 1` and `Math.floor(x / 2)` are the same floored half. TypeScript numbers are doubles,
which hold these integers exactly below `2^53`.

On numbers that are not negative both loops are the walk of the library (`promote_natCast`,
`skipOnes_natCast`, `inclusionLoop_natCast`, `consistencyLoop_natCast`). From a negative index the
inclusion loop only halves the size (`inclusionLoop_negative`).
-/

namespace Pzdr

inductive Lang where
  | python
  | typescript
  deriving DecidableEq, Repr

/-- `x % 2` -/
def Lang.rem2 : Lang → Int → Int
  | .python, x => x % 2
  | .typescript, x => x.tmod 2

theorem Lang.rem2_eq_zero (l : Lang) (x : Int) : l.rem2 x = 0 ↔ 2 ∣ x := by
  cases l with
  | python => exact (Int.dvd_iff_emod_eq_zero).symm
  | typescript => exact (Int.dvd_iff_tmod_eq_zero).symm

theorem Lang.rem2_natCast (l : Lang) (n : Nat) : l.rem2 n = ((n % 2 : Nat) : Int) := by
  cases l with
  | python => rfl
  | typescript => simp [Lang.rem2, Int.tmod_eq_emod_of_nonneg]

namespace SignedWalk

variable {H : Type} (S : LogHash H) (l : Lang)

/-- `while fn % 2 == 0 and fn != 0` -/
def promote (fn sn : Int) : Int × Int :=
  if l.rem2 fn = 0 ∧ fn ≠ 0 then promote (fn / 2) (sn / 2) else (fn, sn)
termination_by fn.natAbs
decreasing_by
  have h := (l.rem2_eq_zero fn).mp (And.left ‹_›)
  omega

/-- `while fn % 2 == 1`, for at most `fuel` rounds. Started with `fuel` the absolute value of `fn`
it runs to its end for every `fn` except Python's `-1`, which would loop for ever; that value
needs a first size of `0`, for which the callers have returned already. -/
def skipOnes : Nat → Int → Int → Int × Int
  | 0, fn, sn => (fn, sn)
  | fuel + 1, fn, sn => if l.rem2 fn = 1 then skipOnes fuel (fn / 2) (sn / 2) else (fn, sn)

/-- The loop over an inclusion path; gives the final `h` and `sn`. -/
def inclusionLoop : Int → Int → H → List H → H × Int
  | _, sn, h, [] => (h, sn)
  | fn, sn, h, sibling :: path =>
    if l.rem2 fn = 1 ∨ fn = sn then
      let (fn', sn') := promote l fn sn
      inclusionLoop (fn' / 2) (sn' / 2) (S.nodeHash sibling h) path
    else inclusionLoop (fn / 2) (sn / 2) (S.nodeHash h sibling) path

/-- The loop over a consistency proof; `none` is its early `return False`. -/
def consistencyLoop : Int → Int → H → H → List H → Option (H × H × Int)
  | _, sn, fr, sr, [] => some (fr, sr, sn)
  | fn, sn, fr, sr, c :: pr =>
    if sn = 0 then none
    else if l.rem2 fn = 1 ∨ fn = sn then
      let (fn', sn') := promote l fn sn
      consistencyLoop (fn' / 2) (sn' / 2) (S.nodeHash c fr) (S.nodeHash c sr) pr
    else consistencyLoop (fn / 2) (sn / 2) fr (S.nodeHash sr c) pr

theorem promote_natCast (fn sn : Nat) :
    promote l fn sn = (((Merkle.promote fn sn).1 : Int), ((Merkle.promote fn sn).2 : Int)) := by
  induction fn, sn using Merkle.promote.induct with
  | case1 fn sn h ih =>
    rw [promote, if_pos (by rw [Lang.rem2_natCast]; omega), Merkle.promote_half sn h.1 h.2, ← ih]
    rfl
  | case2 fn sn h =>
    rw [promote, if_neg (by rw [Lang.rem2_natCast]; omega), Merkle.promote_stop sn (by omega)]

theorem skipOnes_natCast : ∀ (fuel fn sn : Nat), fn ≤ fuel →
    skipOnes l fuel fn sn = (((Merkle.skip fn sn).1 : Int), ((Merkle.skip fn sn).2 : Int)) := by
  intro fuel
  induction fuel with
  | zero =>
    intro fn sn hf
    obtain rfl : fn = 0 := by omega
    rw [skipOnes, Merkle.skip_even sn (by omega)]
  | succ fuel ih =>
    intro fn sn hf
    rw [skipOnes, Lang.rem2_natCast]
    rcases Nat.mod_two_eq_zero_or_one fn with he | ho
    · rw [if_neg (by omega), Merkle.skip_even sn he]
    · rw [if_pos (by omega), Merkle.skip_odd sn ho, ← ih (fn / 2) (sn / 2) (by omega)]
      rfl

theorem inclusionLoop_natCast : ∀ (path : List H) (fn sn : Nat) (h : H),
    inclusionLoop S l fn sn h path =
      ((Merkle.walk (Merkle.combine S.nodeHash) fn sn path h).1,
        ((Merkle.walk (Merkle.combine S.nodeHash) fn sn path h).2 : Int)) := by
  intro path
  induction path with
  | nil => intro fn sn h; rfl
  | cons c path ih =>
    intro fn sn h
    have hc : (l.rem2 fn = 1 ∨ (fn : Int) = sn) ↔ (fn % 2 = 1 ∨ fn = sn) := by
      rw [Lang.rem2_natCast]; omega
    simp only [inclusionLoop, Merkle.walk, hc, promote_natCast]
    split
    · exact ih _ _ _
    · exact ih _ _ _

theorem promote_odd {fn : Int} (sn : Int) (h : l.rem2 fn = 1) : promote l fn sn = (fn, sn) := by
  rw [promote, if_neg]
  rw [h]
  simp

/-- A negative number stays negative, and the other one is halved. -/
theorem inclusionLoop_negative : ∀ (path : List H) (fn sn : Int) (h : H), fn < 0 → 0 ≤ sn →
    (inclusionLoop S l fn sn h path).2 = sn / 2 ^ path.length := by
  intro path
  induction path with
  | nil =>
    intro fn sn h _ _
    simp [inclusionLoop]
  | cons c path ih =>
    intro fn sn h hfn hsn
    have hhalf : sn / 2 / 2 ^ path.length = sn / 2 ^ (path.length + 1) := by
      rw [Int.ediv_ediv_of_nonneg (by norm_num), pow_succ']
    rw [inclusionLoop, List.length_cons, ← hhalf]
    split
    · rename_i hright
      have hodd : l.rem2 fn = 1 := by
        rcases hright with hodd | heq
        · exact hodd
        · omega
      rw [promote_odd l sn hodd]
      exact ih _ _ _ (by omega) (by omega)
    · exact ih _ _ _ (by omega) (by omega)

/-- Whatever all node hashes have, a walk of at least one round ends with. -/
theorem inclusionLoop_of_nodeHash {P : H → Prop} (hnode : ∀ a b, P (S.nodeHash a b)) :
    ∀ (path : List H) (fn sn : Int) (h : H), P h ∨ path ≠ [] →
      P (inclusionLoop S l fn sn h path).1 := by
  intro path
  induction path with
  | nil =>
    intro fn sn h hh
    exact hh.resolve_right (fun hne => hne rfl)
  | cons c path ih =>
    intro fn sn h _
    rw [inclusionLoop]
    split
    · exact ih _ _ _ (.inl (hnode _ _))
    · exact ih _ _ _ (.inl (hnode _ _))

theorem consistencyLoop_natCast : ∀ (pr : List H) (fn sn : Nat) (fr sr : H),
    consistencyLoop S l fn sn fr sr pr =
      (Merkle.walkStrict (Merkle.combine2 S.nodeHash) fn sn pr (fr, sr)).map
        (fun r => (r.1.1, r.1.2, (r.2 : Int))) := by
  intro pr
  induction pr with
  | nil => intro fn sn fr sr; rfl
  | cons c pr ih =>
    intro fn sn fr sr
    have hc : (l.rem2 fn = 1 ∨ (fn : Int) = sn) ↔ (fn % 2 = 1 ∨ fn = sn) := by
      rw [Lang.rem2_natCast]; omega
    have hz : ((sn : Int) = 0) ↔ sn = 0 := by omega
    simp only [consistencyLoop, Merkle.walkStrict, hc, hz, promote_natCast]
    split
    · rfl
    · split
      · exact ih _ _ _ _
      · exact ih _ _ _ _

end SignedWalk
end Pzdr
