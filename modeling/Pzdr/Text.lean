import Mathlib

/-!
# Text

Two operations of the Rust library on text: cutting a pattern off the front as often as it stands
there, and reading an unsigned number.

* `trimStartMatches_eq`: what is left is what follows the copies of the pattern.
* `parseUnsigned_eq_some`: an unsigned number is decimal digits, with or without a plus sign before
  them, whose value is below the limit.
-/

namespace Text

/-- `k` copies of a pattern. -/
def copies (k : Nat) (pat : List Char) : List Char := (List.replicate k pat).flatten

@[simp] theorem copies_zero (pat : List Char) : copies 0 pat = [] := rfl

@[simp] theorem copies_succ (k : Nat) (pat : List Char) :
    copies (k + 1) pat = pat ++ copies k pat := rfl

/-- `str::trim_start_matches`; the pattern is not empty. -/
def trimStartMatches (pat s : List Char) : List Char :=
  if pat ≠ [] ∧ pat <+: s then trimStartMatches pat (s.drop pat.length) else s
termination_by s.length
decreasing_by
  rename_i h
  have hpos := List.length_pos_iff.mpr h.1
  have hle := h.2.length_le
  rw [List.length_drop]
  omega

section Trim

variable {pat : List Char}

theorem trimStartMatches_append (hpat : pat ≠ []) (s : List Char) :
    trimStartMatches pat (pat ++ s) = trimStartMatches pat s := by
  rw [trimStartMatches, if_pos ⟨hpat, List.prefix_append pat s⟩, List.drop_left]

theorem trimStartMatches_copies (hpat : pat ≠ []) {s : List Char} (hs : ¬ pat <+: s) (k : Nat) :
    trimStartMatches pat (copies k pat ++ s) = s := by
  induction k with
  | zero =>
    rw [copies_zero, List.nil_append, trimStartMatches]
    exact if_neg (fun h => hs h.2)
  | succ k ih => rw [copies_succ, List.append_assoc, trimStartMatches_append hpat, ih]

theorem trimStartMatches_eq (pat s : List Char) :
    ∃ k, s = copies k pat ++ trimStartMatches pat s := by
  induction s using trimStartMatches.induct pat with
  | case1 s h ih =>
    obtain ⟨k, hk⟩ := ih
    obtain ⟨rest, rfl⟩ := h.2
    rw [List.drop_left] at hk
    refine ⟨k + 1, ?_⟩
    rw [trimStartMatches_append h.1, copies_succ, List.append_assoc, ← hk]
  | case2 s h =>
    refine ⟨0, ?_⟩
    rw [trimStartMatches, if_neg h]
    rfl

/-- At least one copy is cut off a text that starts with the pattern. -/
theorem exists_copies_of_start (hpat : pat ≠ []) {s : List Char} (h : pat <+: s) :
    ∃ k, s = copies (k + 1) pat ++ trimStartMatches pat s := by
  obtain ⟨rest, rfl⟩ := h
  obtain ⟨k, hk⟩ := trimStartMatches_eq pat rest
  refine ⟨k, ?_⟩
  rw [trimStartMatches_append hpat, copies_succ, List.append_assoc, ← hk]

end Trim

/-! ## Unsigned numbers -/

/-- The digits of a number after `v`; `none` is an invalid digit or an overflow. -/
def parseDigits (limit : Nat) : List Char → Nat → Option Nat
  | [], v => some v
  | c :: cs, v =>
    if c.isDigit then
      let v' := 10 * v + (c.toNat - '0'.toNat)
      if v' < limit then parseDigits limit cs v' else none
    else none

/-- `str::parse` at an unsigned type whose values are below `limit`. -/
def parseUnsigned (limit : Nat) : List Char → Option Nat
  | [] => none
  | ['+'] => none
  | '+' :: cs => parseDigits limit cs 0
  | cs => parseDigits limit cs 0

/-- The text is decimal digits, and `n` is their value. -/
structure Denotes (ds : List Char) (n : Nat) : Prop where
  nonempty : ds ≠ []
  digits : ∀ d ∈ ds, d.isDigit = true
  value : Nat.ofDigitChars 10 ds 0 = n

theorem le_ofDigitChars : ∀ (ds : List Char) (v : Nat), v ≤ Nat.ofDigitChars 10 ds v := by
  intro ds
  induction ds with
  | nil =>
    intro v
    rw [Nat.ofDigitChars_nil]
  | cons d ds ih =>
    intro v
    rw [Nat.ofDigitChars_cons]
    have := ih (10 * v + (d.toNat - '0'.toNat))
    omega

theorem parseDigits_eq_some {limit n : Nat} {ds : List Char} : ∀ {v : Nat}, v < limit →
    (parseDigits limit ds v = some n ↔
      (∀ d ∈ ds, d.isDigit = true) ∧ Nat.ofDigitChars 10 ds v = n ∧ n < limit) := by
  induction ds with
  | nil =>
    intro v hv
    rw [parseDigits, Option.some.injEq, Nat.ofDigitChars_nil]
    constructor
    · rintro rfl
      exact ⟨by simp, rfl, hv⟩
    · intro h
      exact h.2.1
  | cons d ds ih =>
    intro v _
    rw [parseDigits, List.forall_mem_cons, Nat.ofDigitChars_cons]
    by_cases hd : d.isDigit = true
    · rw [if_pos hd]
      by_cases hlt : 10 * v + (d.toNat - '0'.toNat) < limit
      · rw [if_pos hlt, ih hlt]
        simp only [hd, true_and]
      · rw [if_neg hlt]
        have hle := le_ofDigitChars ds (10 * v + (d.toNat - '0'.toNat))
        constructor
        · intro h
          cases h
        · intro h
          omega
    · rw [if_neg hd]
      simp [hd]

theorem Denotes.head {d : Char} {ds : List Char} {n : Nat} (h : Denotes (d :: ds) n) :
    d.isDigit = true :=
  h.digits d List.mem_cons_self

theorem parseUnsigned_eq_some {limit n : Nat} (hlimit : 0 < limit) {s : List Char} :
    parseUnsigned limit s = some n ↔
      n < limit ∧ ∃ sign ds, s = sign ++ ds ∧ (sign = [] ∨ sign = ['+']) ∧ Denotes ds n := by
  have hparse : ∀ ds : List Char, ds ≠ [] →
      (parseDigits limit ds 0 = some n ↔ n < limit ∧ Denotes ds n) := by
    intro ds hne
    rw [parseDigits_eq_some hlimit]
    constructor
    · rintro ⟨hdigits, hvalue, hlt⟩
      exact ⟨hlt, hne, hdigits, hvalue⟩
    · rintro ⟨hlt, hds⟩
      exact ⟨hds.digits, hds.value, hlt⟩
  -- the ways to cut a text into a sign and digits
  have hcut : (∃ sign ds, s = sign ++ ds ∧ (sign = [] ∨ sign = ['+']) ∧ Denotes ds n) ↔
      Denotes s n ∨ ∃ ds, s = '+' :: ds ∧ Denotes ds n := by
    constructor
    · rintro ⟨sign, ds, rfl, rfl | rfl, hds⟩
      · exact .inl hds
      · exact .inr ⟨ds, rfl, hds⟩
    · rintro (hds | ⟨ds, rfl, hds⟩)
      · exact ⟨[], s, rfl, .inl rfl, hds⟩
      · exact ⟨['+'], ds, rfl, .inr rfl, hds⟩
  have hplus : ∀ cs, ¬ Denotes ('+' :: cs) n := fun cs h => absurd h.head (by decide)
  rw [hcut]
  cases s with
  | nil =>
    have hnil : ¬ Denotes [] n := fun h => h.nonempty rfl
    simp [parseUnsigned, hnil]
  | cons c cs =>
    by_cases hc : c = '+'
    · subst hc
      cases cs with
      | nil =>
        have hnil : ¬ Denotes [] n := fun h => h.nonempty rfl
        simp [parseUnsigned, hplus, hnil]
      | cons d ds =>
        rw [parseUnsigned, hparse _ (by simp)]
        · simp [hplus]
        · simp
    · rw [parseUnsigned, hparse _ (by simp)]
      all_goals simp [hc]

end Text
