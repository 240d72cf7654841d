import Pzdr.Merkle.Tree

/-!
# Merkle.Route

The two kinds of path that proofs about a log follow, read from the root down.

* `route n i` leads to leaf `i` of a tree of `n` leaves. `subtree_route` says where it ends;
  `subtree_overlong` says that entering right children first and then following a whole route
  leaves the tree, whatever its size.
* `spine m n` leads to the last complete subtree of the first `m` of `n` leaves.
  `climbOld_spine`: from its end, the left siblings alone recompute the root of those first `m`.
-/

namespace Merkle

variable {H : Type*}

/-- Sides from the root of a tree of `n` leaves down to leaf `i`. -/
def route (n i : Nat) : List Side :=
  if 2 ≤ n then
    if i < split n then .left :: route (split n) i
    else .right :: route (n - split n) (i - split n)
  else []
termination_by n
decreasing_by
  · exact split_lt ‹2 ≤ n›
  · have := split_pos n; omega

theorem route_small {n : Nat} (h : n < 2) (i : Nat) : route n i = [] := by
  rw [route, if_neg (by omega)]

theorem route_left {n i : Nat} (h : 2 ≤ n) (hi : i < split n) :
    route n i = .left :: route (split n) i := by
  rw [route, if_pos h, if_pos hi]

theorem route_right {n i : Nat} (h : 2 ≤ n) (hi : split n ≤ i) :
    route n i = .right :: route (n - split n) (i - split n) := by
  rw [route, if_pos h, if_neg (by omega)]

theorem subtree_left {ds : List Side} {ls : List H} (h : 2 ≤ ls.length) :
    subtree (.left :: ds) ls = subtree ds (ls.take (split ls.length)) := by
  simp only [subtree, if_pos h]

theorem subtree_right {ds : List Side} {ls : List H} (h : 2 ≤ ls.length) :
    subtree (.right :: ds) ls = subtree ds (ls.drop (split ls.length)) := by
  simp only [subtree, if_pos h]

theorem length_take_split {ls : List H} (h : 2 ≤ ls.length) :
    (ls.take (split ls.length)).length = split ls.length := by
  have := split_lt h
  simp only [List.length_take]; omega

theorem subtree_route {ls : List H} {i : Nat} {x : H} (hi : ls[i]? = some x) :
    subtree (route ls.length i) ls = some [x] := by
  induction ls using list_split_induction generalizing i with
  | small ls h =>
    obtain ⟨hlt, hx⟩ := List.getElem?_eq_some_iff.mp hi
    obtain ⟨y, rfl⟩ : ∃ y, ls = [y] := List.length_eq_one_iff.mp (by omega)
    rw [route_small h, ← hx]
    simp [subtree]
  | step ls h ihl ihr =>
    by_cases hik : i < split ls.length
    · have hrec := ihl (i := i) (by rw [List.getElem?_take_of_lt hik]; exact hi)
      rw [length_take_split h] at hrec
      rw [route_left h hik, subtree_left h, hrec]
    · have hrec := ihr (i := i - split ls.length)
        (by rw [List.getElem?_drop, Nat.add_sub_cancel' (by omega)]; exact hi)
      rw [List.length_drop] at hrec
      rw [route_right h (by omega), subtree_right h, hrec]

theorem route_length_pow {a i : Nat} (hi : i < 2 ^ a) : (route (2 ^ a) i).length = a := by
  induction a generalizing i with
  | zero => rw [route_small (by simp)]; rfl
  | succ a ih =>
    have hpos := Nat.two_pow_pos a
    have hpow : 2 ^ (a + 1) = 2 ^ a + 2 ^ a := by rw [Nat.pow_succ]; omega
    have hs := split_two_pow_succ a
    by_cases hia : i < 2 ^ a
    · rw [route_left (by omega) (by omega), hs, List.length_cons, ih hia]
    · have hhalf : 2 ^ (a + 1) - 2 ^ a = 2 ^ a := by omega
      rw [route_right (by omega) (by omega), hs, hhalf, List.length_cons, ih (by omega)]

/-- A path that stays inside a tree of at most `2 ^ a` leaves has at most `a` steps. -/
theorem subtree_depth {ds : List Side} {ls sub : List H} {a : Nat}
    (h : subtree ds ls = some sub) (hlen : ls.length ≤ 2 ^ a) : ds.length ≤ a := by
  induction ds generalizing ls a with
  | nil => exact Nat.zero_le a
  | cons d ds ih =>
    have h2 : 2 ≤ ls.length := by
      by_contra hlt
      simp only [subtree, if_neg hlt] at h
      cases h
    obtain ⟨b, rfl⟩ : ∃ b, a = b + 1 := by
      cases a with
      | zero => simp only [Nat.pow_zero] at hlen; omega
      | succ b => exact ⟨b, rfl⟩
    have hsplit := split_le_of_le_pow h2 hlen
    have hhalf := le_two_mul_split h2
    cases d with
    | left =>
      rw [subtree_left h2] at h
      have := ih h (by rw [length_take_split h2]; exact hsplit)
      simpa using this
    | right =>
      rw [subtree_right h2] at h
      have := ih (a := b) h (by rw [List.length_drop]; omega)
      simpa using this

/-- Going right first and then following a whole route leaves the tree. By induction on its size:
a route that starts left is already as long as the right part is deep at most, and a route that
starts right only moves the question to the right part. -/
theorem subtree_overlong {ls : List H} {i j : Nat} (hi : i < ls.length) (hj : 0 < j) :
    subtree (List.replicate j .right ++ route ls.length i) ls = none := by
  induction ls using list_split_induction generalizing i with
  | small ls h =>
    obtain ⟨j, rfl⟩ : ∃ k, j = k + 1 := ⟨j - 1, by omega⟩
    rw [List.replicate_succ, List.cons_append, subtree, if_neg (by omega)]
  | step ls h _ ihr =>
    obtain ⟨a, ha, hlt, hle⟩ := split_spec h
    have hdrop : (ls.drop (split ls.length)).length = ls.length - split ls.length :=
      List.length_drop
    by_cases hik : i < split ls.length
    · obtain ⟨j, rfl⟩ : ∃ k, j = k + 1 := ⟨j - 1, by omega⟩
      rw [List.replicate_succ, List.cons_append, subtree_right h]
      cases hs : subtree (List.replicate j .right ++ route ls.length i)
          (ls.drop (split ls.length)) with
      | none => rfl
      | some sub =>
        have hdepth := subtree_depth (a := a) hs (by rw [Nat.pow_succ] at hle; omega)
        rw [route_left h hik, ha, List.length_append, List.length_cons,
          route_length_pow (by omega)] at hdepth
        omega
    · have hcomm : List.replicate j Side.right ++ route ls.length i =
          .right :: (List.replicate j .right ++
            route (ls.length - split ls.length) (i - split ls.length)) := by
        rw [route_right h (by omega), List.append_cons, ← List.replicate_succ',
          List.replicate_succ, List.cons_append]
      have hrec := ihr (i := i - split ls.length) (by omega)
      rw [hdrop] at hrec
      rw [hcomm, subtree_right h, hrec]

/-! ## The spine of a prefix -/

/-- Sides from the root of a tree of `n` leaves down to the last complete subtree of its first
`m` leaves; empty when the two sizes agree. -/
def spine (m n : Nat) : List Side :=
  if 2 ≤ n ∧ m < n then
    if m ≤ split n then .left :: spine m (split n)
    else .right :: spine (m - split n) (n - split n)
  else []
termination_by n
decreasing_by
  · exact split_lt (And.left ‹_›)
  · have := split_pos n; omega

theorem spine_self (n : Nat) : spine n n = [] := by
  rw [spine, if_neg (by omega)]

theorem spine_left {m n : Nat} (hn : 2 ≤ n) (hm : m ≤ split n) :
    spine m n = .left :: spine m (split n) := by
  have := split_lt hn
  rw [spine, if_pos ⟨hn, by omega⟩, if_pos hm]

theorem spine_right {m n : Nat} (hmn : m < n) (hm : split n < m) :
    spine m n = .right :: spine (m - split n) (n - split n) := by
  rw [spine, if_pos ⟨by omega, hmn⟩, if_neg (by omega)]

theorem subtree_spine {ls : List H} {m : Nat} (hpos : 0 < m) (hm : m ≤ ls.length) :
    ∃ sub, subtree (spine m ls.length) ls = some sub := by
  induction ls using list_split_induction generalizing m with
  | small ls h =>
    obtain rfl : m = ls.length := by omega
    exact ⟨ls, by rw [spine_self]; rfl⟩
  | step ls h ihl ihr =>
    by_cases hmn : m = ls.length
    · subst hmn
      exact ⟨ls, by rw [spine_self]; rfl⟩
    have hlen := length_take_split h
    by_cases hmk : m ≤ split ls.length
    · obtain ⟨sub, hs⟩ := ihl (m := m) hpos (by omega)
      rw [hlen] at hs
      exact ⟨sub, by rw [spine_left h hmk, subtree_left h, hs]⟩
    · obtain ⟨sub, hs⟩ := ihr (m := m - split ls.length) (by omega)
        (by simp only [List.length_drop]; omega)
      rw [List.length_drop] at hs
      exact ⟨sub, by rw [spine_right (by omega) (by omega), subtree_right h, hs]⟩

/-- A prefix of a power of two leaves is itself a complete subtree, on the left edge. -/
theorem subtree_spine_pow {ls : List H} {m : Nat} (hp : m.isPowerOfTwo) (hm : m ≤ ls.length) :
    subtree (spine m ls.length) ls = some (ls.take m) := by
  induction ls using list_split_induction generalizing m with
  | small ls h =>
    have hpos := Nat.pos_of_isPowerOfTwo hp
    obtain rfl : m = ls.length := by omega
    rw [spine_self, List.take_length]; rfl
  | step ls h ihl _ =>
    rcases Nat.eq_or_lt_of_le hm with rfl | hlt
    · rw [spine_self, List.take_length]; rfl
    · have hmk := le_split_of_isPowerOfTwo hp hlt
      have hlen := length_take_split h
      have hrec := ihl hp (by omega)
      rw [hlen, List.take_take, Nat.min_eq_left hmk] at hrec
      rw [spine_left h hmk, subtree_left h, hrec]

/-- The spine of a proper prefix ends in a left child. -/
theorem spine_eq_append_left {m n : Nat} (hpos : 0 < m) (hmn : m < n) :
    ∃ ds, spine m n = ds ++ [.left] := by
  induction n using Nat.strongRecOn generalizing m with
  | ind n ih =>
    by_cases hm : m ≤ split n
    · rw [spine_left (by omega) hm]
      rcases Nat.eq_or_lt_of_le hm with heq | hlt
      · exact ⟨[], by rw [heq, spine_self]; rfl⟩
      · obtain ⟨ds, hds⟩ := ih (split n) (split_lt (by omega)) hpos hlt
        exact ⟨.left :: ds, by rw [hds]; rfl⟩
    · have hs := split_pos n
      rw [spine_right hmn (by omega)]
      obtain ⟨ds, hds⟩ := ih (n - split n) (by omega) (by omega : 0 < m - split n) (by omega)
      exact ⟨.right :: ds, by rw [hds]; rfl⟩

variable (node : H → H → H) (empty : H)

/-- What a path computes of the old tree: nodes whose right part is newer are passed over. -/
def climbOld : List (Side × H) → H → H
  | [], h => h
  | (.left, _) :: ops, h => climbOld ops h
  | (.right, c) :: ops, h => node c (climbOld ops h)

/-- From the end of the spine, the honest left siblings recompute the root of the prefix: both
trees split at the same point as long as the prefix reaches past it. -/
theorem climbOld_spine {ls sub : List H} {m : Nat} (hpos : 0 < m) (hm : m ≤ ls.length)
    (h : subtree (spine m ls.length) ls = some sub) :
    climbOld node ((spine m ls.length).zip (siblings node empty (spine m ls.length) ls))
      (root node empty sub) = root node empty (ls.take m) := by
  induction ls using list_split_induction generalizing m with
  | small ls hlt =>
    obtain rfl : m = ls.length := by omega
    rw [spine_self] at h ⊢
    simp only [subtree, Option.some.injEq] at h
    subst h
    rw [List.take_length]; rfl
  | step ls hlen ihl ihr =>
    by_cases hmn : m = ls.length
    · subst hmn
      rw [spine_self] at h ⊢
      simp only [subtree, Option.some.injEq] at h
      subst h
      rw [List.take_length]; rfl
    have htake := length_take_split hlen
    by_cases hmk : m ≤ split ls.length
    · rw [spine_left hlen hmk] at h ⊢
      rw [subtree_left hlen] at h
      have hrec := ihl (m := m) hpos (by omega) (by rw [htake]; exact h)
      rw [htake, List.take_take, Nat.min_eq_left hmk] at hrec
      simpa only [siblings, List.zip_cons_cons, climbOld] using hrec
    · have hmk : split ls.length < m := by omega
      rw [spine_right (by omega) hmk] at h ⊢
      rw [subtree_right hlen] at h
      have hrec := ihr (m := m - split ls.length) (by omega)
        (by simp only [List.length_drop]; omega) (by rw [List.length_drop]; exact h)
      rw [List.length_drop] at hrec
      have hk := split_pos ls.length
      have hml : (ls.take m).length = m := by rw [List.length_take]; omega
      have hsplit : split m = split ls.length := split_of_between hmk hm
      have hroot : root node empty (ls.take m) = node (root node empty (ls.take (split ls.length)))
          (root node empty ((ls.drop (split ls.length)).take (m - split ls.length))) := by
        rw [root_node node empty (by omega), hml, hsplit, List.take_take, Nat.min_eq_left (by omega),
          List.drop_take]
      rw [hroot, ← hrec]
      simp only [siblings, List.zip_cons_cons, climbOld]

end Merkle
