import Pzdr.Merkle.Route

/-!
# Merkle.Walk

The bottom-up walk that verifiers of log proofs make, on two numbers only: the position `fn` of the
current node in its level and the position `sn` of the last node of that level.

* `steps fn sn` is the list of sides the walk takes from the leaf level up to the root.
* `steps_route`, `steps_spine`: they are the sides of `route` and `spine` in reverse, so the
  bit-driven walk and the recursive split follow one path.
* `walk_short`, `walk_long`: what the walk computes on a list of any length. On a list that is too
  short it does not reach the root; on one that is too long it goes on combining to the left.
-/

namespace Merkle

/-- Climb the levels at which the last node of a tree has no right neighbour. -/
def promote (fn sn : Nat) : Nat × Nat :=
  if fn % 2 = 0 ∧ fn ≠ 0 then promote (fn / 2) (sn / 2) else (fn, sn)
termination_by fn
decreasing_by omega

theorem promote_stop {fn : Nat} (sn : Nat) (h : fn % 2 = 1 ∨ fn = 0) :
    promote fn sn = (fn, sn) := by
  rw [promote, if_neg (by omega)]

theorem promote_half {fn : Nat} (sn : Nat) (h : fn % 2 = 0) (h0 : fn ≠ 0) :
    promote fn sn = promote (fn / 2) (sn / 2) := by
  rw [promote, if_pos ⟨h, h0⟩]

theorem promote_le {fn sn : Nat} (h : fn ≤ sn) : (promote fn sn).1 ≤ (promote fn sn).2 := by
  induction fn, sn using promote.induct with
  | case1 fn sn hc ih => rw [promote_half sn hc.1 hc.2]; exact ih (by omega)
  | case2 fn sn hc => rw [promote_stop sn (by omega)]; exact h

theorem promote_snd_le (fn sn : Nat) : (promote fn sn).2 ≤ sn := by
  induction fn, sn using promote.induct with
  | case1 fn sn hc ih => rw [promote_half sn hc.1 hc.2]; omega
  | case2 fn sn hc => rw [promote_stop sn (by omega)]

/-- Sides taken from position `fn` of a level whose last position is `sn`, from the leaves up. -/
def steps (fn sn : Nat) : List Side :=
  if sn = 0 then []
  else if fn % 2 = 1 ∨ fn = sn then
    .right :: steps ((promote fn sn).1 / 2) ((promote fn sn).2 / 2)
  else .left :: steps (fn / 2) (sn / 2)
termination_by sn
decreasing_by
  · have := promote_snd_le fn sn; omega
  · omega

theorem steps_zero (fn : Nat) : steps fn 0 = [] := by
  rw [steps, if_pos rfl]

theorem steps_odd {fn sn : Nat} (h : fn % 2 = 1) (hle : fn ≤ sn) :
    steps fn sn = .right :: steps (fn / 2) (sn / 2) := by
  rw [steps, if_neg (by omega), if_pos (.inl h), promote_stop sn (.inl h)]

theorem steps_even {fn sn : Nat} (h : fn % 2 = 0) (hlt : fn < sn) :
    steps fn sn = .left :: steps (fn / 2) (sn / 2) := by
  rw [steps, if_neg (by omega), if_neg (by omega)]

/-- A lone last node in an even position is passed up without a step. -/
theorem steps_last {fn : Nat} (h : fn % 2 = 0) : steps fn fn = steps (fn / 2) (fn / 2) := by
  by_cases h0 : fn = 0
  · subst h0; rfl
  · rw [steps, if_neg h0, if_pos (.inr rfl), promote_half fn h h0]
    conv => rhs; rw [steps, if_neg (by omega), if_pos (.inr rfl)]

/-- Left half of a tree: the walk is that of the complete left subtree and then one step up. -/
theorem steps_below : ∀ (a i s : Nat), i < 2 ^ a → 2 ^ a ≤ s → s < 2 ^ (a + 1) →
    steps i s = steps i (2 ^ a - 1) ++ [.left] := by
  intro a
  induction a with
  | zero =>
    intro i s hi hs hs'
    obtain rfl : i = 0 := by simpa using hi
    obtain rfl : s = 1 := by simp at hs hs'; omega
    rw [steps_even (by omega) (by omega)]
    simp [steps_zero]
  | succ a ih =>
    intro i s hi hs hs'
    have hpos := Nat.two_pow_pos a
    rw [Nat.pow_succ] at hi hs
    rw [Nat.pow_succ, Nat.pow_succ] at hs'
    have hhalf : (2 ^ (a + 1) - 1) / 2 = 2 ^ a - 1 := by rw [Nat.pow_succ]; omega
    have hrec := ih (i / 2) (s / 2) (by omega) (by omega) (by rw [Nat.pow_succ]; omega)
    rcases Nat.mod_two_eq_zero_or_one i with he | ho
    · rw [steps_even he (by omega), steps_even he (by rw [Nat.pow_succ]; omega), hhalf, hrec]
      rfl
    · rw [steps_odd ho (by omega), steps_odd ho (by rw [Nat.pow_succ]; omega), hhalf, hrec]
      rfl

/-- Right half of a tree: the walk is that of the right part on its own and then one step up. -/
theorem steps_above : ∀ (a f s : Nat), f ≤ s → s < 2 ^ a →
    steps (2 ^ a + f) (2 ^ a + s) = steps f s ++ [.right] := by
  intro a
  induction a with
  | zero =>
    intro f s hf hs
    obtain rfl : s = 0 := by simpa using hs
    obtain rfl : f = 0 := by omega
    rw [steps_odd (by omega) (by omega)]
    simp [steps_zero]
  | succ a ih =>
    intro f s hf hs
    have hpos := Nat.two_pow_pos a
    have hpow : 2 ^ (a + 1) = 2 ^ a * 2 := Nat.pow_succ ..
    rw [hpow] at hs ⊢
    have hrec := ih (f / 2) (s / 2) (by omega) (by omega)
    have hf2 : (2 ^ a * 2 + f) / 2 = 2 ^ a + f / 2 := by omega
    have hs2 : (2 ^ a * 2 + s) / 2 = 2 ^ a + s / 2 := by omega
    rcases Nat.mod_two_eq_zero_or_one f with he | ho
    · rcases Nat.eq_or_lt_of_le hf with rfl | hlt
      · rw [steps_last (by omega), steps_last he, hf2, hrec]
      · rw [steps_even (by omega) (by omega), steps_even he hlt, hf2, hs2, hrec]
        rfl
    · rw [steps_odd (by omega) (by omega), steps_odd ho hf, hf2, hs2, hrec]
      rfl

/-- The walk from leaf `i` takes the sides of the route to leaf `i`, last side first. -/
theorem steps_route {n i : Nat} (hi : i < n) : steps i (n - 1) = (route n i).reverse := by
  induction n using Nat.strongRecOn generalizing i with
  | ind n ih =>
    by_cases h : 2 ≤ n
    · obtain ⟨a, ha, hlt, hle⟩ := split_spec h
      have hpos := Nat.two_pow_pos a
      by_cases hik : i < split n
      · rw [route_left h hik, List.reverse_cons, ← ih _ (split_lt h) hik, ha]
        exact steps_below a i (n - 1) (by omega) (by omega) (by omega)
      · rw [Nat.pow_succ] at hle
        have habove := steps_above a (i - 2 ^ a) (n - 2 ^ a - 1) (by omega) (by omega)
        rw [show 2 ^ a + (i - 2 ^ a) = i by omega,
          show 2 ^ a + (n - 2 ^ a - 1) = n - 1 by omega] at habove
        rw [route_right h (by omega), List.reverse_cons, ← ih (n - split n) (by omega) (by omega),
          ha]
        exact habove
    · rw [route_small (by omega), show n - 1 = 0 by omega, steps_zero]
      rfl

/-- Climb the levels at which the current node is a right child. -/
def skip (fn sn : Nat) : Nat × Nat :=
  if fn % 2 = 1 then skip (fn / 2) (sn / 2) else (fn, sn)
termination_by fn
decreasing_by omega

theorem skip_odd {fn : Nat} (sn : Nat) (h : fn % 2 = 1) : skip fn sn = skip (fn / 2) (sn / 2) := by
  rw [skip, if_pos h]

theorem skip_even {fn : Nat} (sn : Nat) (h : fn % 2 = 0) : skip fn sn = (fn, sn) := by
  rw [skip, if_neg (by omega)]

theorem skip_le {fn sn : Nat} (h : fn ≤ sn) : (skip fn sn).1 ≤ (skip fn sn).2 := by
  induction fn, sn using skip.induct with
  | case1 fn sn hc ih => rw [skip_odd sn hc]; exact ih (by omega)
  | case2 fn sn hc => rw [skip_even sn (by omega)]; exact h

theorem skip_ones (a : Nat) : skip (2 ^ a - 1) (2 ^ a - 1) = (0, 0) := by
  induction a with
  | zero => exact skip_even _ rfl
  | succ a ih =>
    have hpos := Nat.two_pow_pos a
    rw [skip_odd _ (by rw [Nat.pow_succ]; omega),
      show (2 ^ (a + 1) - 1) / 2 = 2 ^ a - 1 by rw [Nat.pow_succ]; omega, ih]

/-- Sides of the walk that starts above the trailing right children of `fn`. -/
def skipSteps (fn sn : Nat) : List Side := steps (skip fn sn).1 (skip fn sn).2

theorem skipSteps_odd {fn : Nat} (sn : Nat) (h : fn % 2 = 1) :
    skipSteps fn sn = skipSteps (fn / 2) (sn / 2) := by
  rw [skipSteps, skip_odd sn h, skipSteps]

theorem skipSteps_even {fn : Nat} (sn : Nat) (h : fn % 2 = 0) :
    skipSteps fn sn = steps fn sn := by
  rw [skipSteps, skip_even sn h]

theorem skipSteps_below : ∀ (a i s : Nat), i < 2 ^ a → 2 ^ a ≤ s → s < 2 ^ (a + 1) →
    skipSteps i s = skipSteps i (2 ^ a - 1) ++ [.left] := by
  intro a
  induction a with
  | zero =>
    intro i s hi hs hs'
    obtain rfl : i = 0 := by simpa using hi
    rw [skipSteps_even _ (by omega), skipSteps_even _ (by omega)]
    exact steps_below 0 0 s hi hs hs'
  | succ a ih =>
    intro i s hi hs hs'
    rcases Nat.mod_two_eq_zero_or_one i with he | ho
    · rw [skipSteps_even _ he, skipSteps_even _ he]
      exact steps_below (a + 1) i s hi hs hs'
    · have hhalf : (2 ^ (a + 1) - 1) / 2 = 2 ^ a - 1 := by rw [Nat.pow_succ]; omega
      rw [Nat.pow_succ] at hi hs
      rw [Nat.pow_succ, Nat.pow_succ] at hs'
      rw [skipSteps_odd _ ho, skipSteps_odd _ ho, hhalf]
      exact ih (i / 2) (s / 2) (by omega) (by omega) (by rw [Nat.pow_succ]; omega)

theorem skipSteps_above : ∀ (a f s : Nat), f < s → s < 2 ^ a →
    skipSteps (2 ^ a + f) (2 ^ a + s) = skipSteps f s ++ [.right] := by
  intro a
  induction a with
  | zero => intro f s hf hs; simp at hs; omega
  | succ a ih =>
    intro f s hf hs
    have hpow : 2 ^ (a + 1) = 2 ^ a * 2 := Nat.pow_succ ..
    rcases Nat.mod_two_eq_zero_or_one f with he | ho
    · rw [skipSteps_even _ (by omega), skipSteps_even _ he]
      exact steps_above (a + 1) f s (by omega) hs
    · rw [hpow] at hs ⊢
      rw [skipSteps_odd _ (by omega), skipSteps_odd _ ho,
        show (2 ^ a * 2 + f) / 2 = 2 ^ a + f / 2 by omega,
        show (2 ^ a * 2 + s) / 2 = 2 ^ a + s / 2 by omega]
      exact ih (f / 2) (s / 2) (by omega) (by omega)

/-- The walk from the last of `m` leaves, started at the complete subtree it ends, takes the sides
of the spine of `m` in a tree of `n`, last side first. -/
theorem steps_spine {m n : Nat} (hpos : 0 < m) (hmn : m < n) :
    skipSteps (m - 1) (n - 1) = (spine m n).reverse := by
  induction n using Nat.strongRecOn generalizing m with
  | ind n ih =>
    have h : 2 ≤ n := by omega
    obtain ⟨a, ha, hlt, hle⟩ := split_spec h
    have hpow := Nat.two_pow_pos a
    by_cases hmk : m ≤ split n
    · have hleft : skipSteps (m - 1) (split n - 1) = (spine m (split n)).reverse := by
        rcases Nat.eq_or_lt_of_le hmk with rfl | hlt'
        · -- the prefix is the whole left subtree, where the walk starts at the root
          rw [spine_self, skipSteps, ha, skip_ones, steps_zero]
          rfl
        · exact ih _ (split_lt h) hpos hlt'
      rw [spine_left h hmk, List.reverse_cons, ← hleft, ha]
      exact skipSteps_below a (m - 1) (n - 1) (by omega) (by omega) (by omega)
    · rw [Nat.pow_succ] at hle
      have habove := skipSteps_above a (m - 2 ^ a - 1) (n - 2 ^ a - 1) (by omega) (by omega)
      rw [show 2 ^ a + (m - 2 ^ a - 1) = m - 1 by omega,
        show 2 ^ a + (n - 2 ^ a - 1) = n - 1 by omega] at habove
      rw [spine_right hmn (by omega), List.reverse_cons,
        ← ih (n - split n) (by omega) (by omega : 0 < m - split n) (by omega), ha]
      exact habove

/-! ## Walking along a list of hashes -/

section Walk

variable {α σ : Type*}

/-- The verifiers' loop, over the list `cs`: `f` is told on which side the current node is. Gives
the final value and the last position of the level reached; the root level is level `0`. -/
def walk (f : Side → α → σ → σ) : Nat → Nat → List α → σ → σ × Nat
  | _, sn, [], s => (s, sn)
  | fn, sn, c :: cs, s =>
    if fn % 2 = 1 ∨ fn = sn then
      walk f ((promote fn sn).1 / 2) ((promote fn sn).2 / 2) cs (f .right c s)
    else walk f (fn / 2) (sn / 2) cs (f .left c s)

theorem walk_invariant (f : Side → α → σ → σ) {I : σ → Prop} (hstep : ∀ d c s, I s → I (f d c s)) :
    ∀ (cs : List α) (fn sn : Nat) (s : σ), I s → I (walk f fn sn cs s).1 := by
  intro cs
  induction cs with
  | nil => intro fn sn s hs; exact hs
  | cons c cs ih =>
    intro fn sn s hs
    rw [walk]
    split
    · exact ih _ _ _ (hstep _ _ _ hs)
    · exact ih _ _ _ (hstep _ _ _ hs)

/-- `f` along the given sides. -/
def along (f : Side → α → σ → σ) (ops : List (Side × α)) (s : σ) : σ :=
  ops.foldl (fun s op => f op.1 op.2 s) s

theorem along_cons (f : Side → α → σ → σ) (d : Side) (c : α) (ops : List (Side × α)) (s : σ) :
    along f ((d, c) :: ops) s = along f ops (f d c s) := rfl

theorem walk_short (f : Side → α → σ → σ) : ∀ (cs : List α) (fn sn : Nat) (s : σ), fn ≤ sn →
    cs.length < (steps fn sn).length → (walk f fn sn cs s).2 ≠ 0 := by
  intro cs
  induction cs with
  | nil =>
    intro fn sn s _ hlen h0
    have hsn : sn = 0 := h0
    rw [hsn, steps_zero] at hlen
    simp at hlen
  | cons c cs ih =>
    intro fn sn s hle hlen
    rw [steps] at hlen
    simp only [walk]
    split at hlen
    · simp at hlen
    · split at hlen
      · rename_i hside
        rw [if_pos hside]
        have hp := promote_le hle
        exact ih _ _ _ (by omega) (by simpa using hlen)
      · rename_i hside
        rw [if_neg hside]
        exact ih _ _ _ (by omega) (by simpa using hlen)

theorem walk_long (f : Side → α → σ → σ) : ∀ (cs : List α) (fn sn : Nat) (s : σ), fn ≤ sn →
    (steps fn sn).length ≤ cs.length →
    walk f fn sn cs s =
      (along f ((steps fn sn ++ List.replicate (cs.length - (steps fn sn).length) Side.right).zip cs) s,
        0) := by
  intro cs
  induction cs with
  | nil =>
    intro fn sn s _ hlen
    rw [steps] at hlen ⊢
    split at hlen
    · rename_i h0
      subst h0
      simp [walk, along]
    · split at hlen <;> simp at hlen
  | cons c cs ih =>
    intro fn sn s hle hlen
    simp only [walk]
    by_cases h0 : sn = 0
    · -- at the root already: the walk stays there and goes on to the left
      obtain rfl : fn = 0 := by omega
      subst h0
      have hrec := ih 0 0 (f .right c s) (Nat.le_refl 0) (by simp [steps_zero])
      rw [steps_zero] at hrec ⊢
      rw [if_pos (.inr rfl), promote_stop 0 (.inr rfl)]
      show walk f 0 0 cs (f .right c s) = _
      rw [hrec]
      simp [List.replicate_succ, along_cons]
    · rw [steps, if_neg h0] at hlen ⊢
      split at hlen
      · rename_i hside
        have hp := promote_le hle
        rw [if_pos hside, if_pos hside, ih _ _ _ (by omega) (by simpa using hlen)]
        simp [along_cons]
      · rename_i hside
        rw [if_neg hside, if_neg hside, ih _ _ _ (by omega) (by simpa using hlen)]
        simp [along_cons]

/-- The loop of a verifier that stops with a failure when it is at the root too early. -/
def walkStrict (f : Side → α → σ → σ) : Nat → Nat → List α → σ → Option (σ × Nat)
  | _, sn, [], s => some (s, sn)
  | fn, sn, c :: cs, s =>
    if sn = 0 then none
    else if fn % 2 = 1 ∨ fn = sn then
      walkStrict f ((promote fn sn).1 / 2) ((promote fn sn).2 / 2) cs (f .right c s)
    else walkStrict f (fn / 2) (sn / 2) cs (f .left c s)

theorem walkStrict_eq (f : Side → α → σ → σ) : ∀ (cs : List α) (fn sn : Nat) (s : σ), fn ≤ sn →
    walkStrict f fn sn cs s =
      if cs.length ≤ (steps fn sn).length then some (walk f fn sn cs s) else none := by
  intro cs
  induction cs with
  | nil => intro fn sn s _; simp [walkStrict, walk]
  | cons c cs ih =>
    intro fn sn s hle
    simp only [walkStrict, walk]
    rw [steps]
    by_cases h0 : sn = 0
    · simp [h0]
    · have hp := promote_le hle
      rw [if_neg h0, if_neg h0]
      split
      · rw [ih _ _ _ (by omega)]; simp
      · rw [ih _ _ _ (by omega)]; simp

/-- The strict loop ends at the root exactly on lists of the length of the path. -/
theorem walkStrict_some_zero (f : Side → α → σ → σ) {cs : List α} {fn sn : Nat} {s r : σ}
    (hle : fn ≤ sn) :
    walkStrict f fn sn cs s = some (r, 0) ↔
      cs.length = (steps fn sn).length ∧ r = along f ((steps fn sn).zip cs) s := by
  rw [walkStrict_eq f cs fn sn s hle]
  constructor
  · intro h
    split at h
    · rename_i hlen
      simp only [Option.some.injEq] at h
      have hge : (steps fn sn).length ≤ cs.length := by
        by_contra hlt
        exact walk_short f cs fn sn s hle (by omega) (congrArg Prod.snd h)
      rw [walk_long f cs fn sn s hle hge, Prod.mk.injEq, show cs.length - (steps fn sn).length = 0
        by omega] at h
      exact ⟨by omega, by simpa using h.1.symm⟩
    · cases h
  · rintro ⟨hlen, rfl⟩
    rw [if_pos (by omega), walk_long f cs fn sn s hle (by omega),
      show cs.length - (steps fn sn).length = 0 by omega]
    simp

end Walk

end Merkle
