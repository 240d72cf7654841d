import Pzdr.Ticket

/-!
# Numbering

A list some of whose elements carry a number, the numbers `0` to `n - 1`, each once. Such a list is
built by elements without a number, by handing the next number to an element that has none, and by
changes that leave the numbers as they are. The numbers then are names: every number below `n` has
one place in the list (`Numbers.place_unique`).
-/

namespace Pzdr
namespace Numbering

/-- A value that a list takes once has one place. -/
theorem place_unique {α β : Type*} {f : α → Option β} {xs : List α}
    (hnodup : (xs.filterMap f).Nodup) {j k : Nat} {x y : α} {b : β} (hj : xs[j]? = some x)
    (hk : xs[k]? = some y) (hx : f x = some b) (hy : f y = some b) : j = k := by
  rw [List.Nodup, List.pairwise_filterMap, List.pairwise_iff_getElem] at hnodup
  obtain ⟨hjlt, rfl⟩ := List.getElem?_eq_some_iff.mp hj
  obtain ⟨hklt, rfl⟩ := List.getElem?_eq_some_iff.mp hk
  rcases Nat.lt_trichotomy j k with hlt | heq | hlt
  · exact absurd rfl (hnodup j k hjlt hklt hlt b hx b hy)
  · exact heq
  · exact absurd rfl (hnodup k j hklt hjlt hlt b hy b hx)

variable {α : Type*} {f : α → Option Nat} {xs : List α} {n : Nat}

/-- The numbers of the elements are those below `n`. -/
def Numbers (f : α → Option Nat) (xs : List α) (n : Nat) : Prop :=
  (xs.filterMap f).Perm (List.range n)

theorem numbers_nil : Numbers f [] 0 := List.Perm.refl _

theorem Numbers.concat_none (h : Numbers f xs n) {x : α} (hx : f x = none) :
    Numbers f (xs ++ [x]) n := by
  rw [Numbers, List.filterMap_append, List.filterMap_cons_none hx, List.filterMap_nil,
    List.append_nil]
  exact h

/-- A change that keeps the number of the element. -/
theorem Numbers.set_keep (h : Numbers f xs n) {i : Nat} {x y : α} (hi : xs[i]? = some x)
    (hkeep : f y = f x) : Numbers f (xs.set i y) n := by
  obtain ⟨rest, hold, hnew⟩ := Ticket.filterMap_set_perm f hi y
  rw [hkeep] at hnew
  exact (hnew.trans hold.symm).trans h

/-- The element gets the next number. -/
theorem Numbers.set_next (h : Numbers f xs n) {i : Nat} {x y : α} (hi : xs[i]? = some x)
    (hx : f x = none) (hy : f y = some n) : Numbers f (xs.set i y) (n + 1) := by
  obtain ⟨rest, hold, hnew⟩ := Ticket.filterMap_set_perm f hi y
  rw [hx] at hold
  rw [hy] at hnew
  have hrest : rest.Perm (List.range n) := hold.symm.trans h
  rw [Numbers, List.range_succ]
  exact (hnew.trans (@List.perm_append_comm _ [n] _)).trans (hrest.append_right _)

theorem Numbers.exists_place (h : Numbers f xs n) {i : Nat} (hi : i < n) :
    ∃ (k : Nat) (x : α), xs[k]? = some x ∧ f x = some i := by
  obtain ⟨x, hx, hfx⟩ := List.mem_filterMap.mp (h.mem_iff.mpr (List.mem_range.mpr hi))
  obtain ⟨k, hk⟩ := List.mem_iff_getElem?.mp hx
  exact ⟨k, x, hk, hfx⟩

/-- No number stands at two places. -/
theorem Numbers.place_unique (h : Numbers f xs n) {j k i : Nat} {x y : α} (hj : xs[j]? = some x)
    (hk : xs[k]? = some y) (hx : f x = some i) (hy : f y = some i) : j = k :=
  Numbering.place_unique (h.nodup_iff.mpr List.nodup_range) hj hk hx hy

/-- As many elements have a number as there are numbers. -/
theorem Numbers.count (h : Numbers f xs n) : xs.countP (fun x => (f x).isSome) = n := by
  rw [← List.length_filterMap_eq_countP, h.length_eq, List.length_range]

end Numbering
end Pzdr
