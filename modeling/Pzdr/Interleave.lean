import Mathlib

/-!
# Interleave

Sequences that run concurrently. `Merges ls ws`: the elements of the lists `ls`, each list in its own
order, come in the order `ws`.
-/

namespace Pzdr

variable {α : Type*}

inductive Merges : List (List α) → List α → Prop where
  | nil {ls : List (List α)} : (∀ l ∈ ls, l = []) → Merges ls []
  | cons {l₁ l₂ : List (List α)} {x : α} {rest ws : List α} :
      Merges (l₁ ++ rest :: l₂) ws → Merges (l₁ ++ (x :: rest) :: l₂) (x :: ws)

/-- Nothing is lost and nothing is added. -/
theorem Merges.perm {ls : List (List α)} {ws : List α} (h : Merges ls ws) :
    ws.Perm ls.flatten := by
  induction h with
  | nil hall =>
    rw [List.flatten_eq_nil_iff.mpr hall]
  | @cons l₁ l₂ x rest ws _ ih =>
    rw [List.flatten_append, List.flatten_cons] at ih ⊢
    exact (ih.cons x).trans List.perm_middle.symm

/-- One after the other is one way to run. -/
theorem Merges.sequential (ls : List (List α)) : Merges ls ls.flatten := by
  suffices h : ∀ pre : List (List α), (∀ l ∈ pre, l = []) → Merges (pre ++ ls) ls.flatten from
    h [] (by simp)
  induction ls with
  | nil =>
    intro pre hpre
    rw [List.append_nil]
    exact .nil hpre
  | cons l ls ih =>
    intro pre hpre
    rw [List.flatten_cons]
    induction l with
    | nil =>
      have hrest := ih (pre ++ [[]]) (by simpa [or_imp, forall_and] using hpre)
      rw [List.append_assoc] at hrest
      exact hrest
    | cons x l ihl => exact .cons ihl

/-- It does not matter in which order the lists are given. -/
theorem Merges.of_perm {ls ls' : List (List α)} {ws : List α} (h : Merges ls ws)
    (hperm : ls.Perm ls') : Merges ls' ws := by
  induction h generalizing ls' with
  | nil hall => exact .nil fun l hl => hall l (hperm.mem_iff.mpr hl)
  | @cons l₁ l₂ x rest ws _ ih =>
    obtain ⟨m₁, m₂, rfl⟩ := List.append_of_mem (hperm.mem_iff.mp
      (List.mem_append_right l₁ (List.mem_cons_self (a := x :: rest) (l := l₂))))
    have hothers : (l₁ ++ l₂).Perm (m₁ ++ m₂) :=
      ((List.perm_middle.symm.trans hperm).trans List.perm_middle).cons_inv
    exact .cons (ih ((List.perm_middle.trans (hothers.cons rest)).trans List.perm_middle.symm))

theorem Merges.eq_nil {ls : List (List α)} (h : Merges ls []) : ∀ l ∈ ls, l = [] := by
  generalize hws : [] = ws at h
  cases h with
  | nil hall => exact hall
  | cons h => cases hws

/-- The last element is the last of one of the lists. -/
theorem Merges.of_concat {ls : List (List α)} {ws : List α} {w : α} (h : Merges ls (ws ++ [w])) :
    ∃ l rest, ls.Perm ((l ++ [w]) :: rest) ∧ Merges (l :: rest) ws := by
  induction ws generalizing ls with
  | nil =>
    obtain _ | @⟨l₁, l₂, x, rest, ws, h⟩ := h
    have hrest : rest = [] := h.eq_nil rest (by simp)
    refine ⟨[], l₁ ++ l₂, ?_, ?_⟩
    · rw [hrest]
      exact List.perm_middle
    · rw [hrest] at h
      exact h.of_perm List.perm_middle
  | cons x ws ih =>
    obtain _ | @⟨l₁, l₂, _, y, _, h⟩ := h
    obtain ⟨l, rest, hperm, hmerges⟩ := ih h
    have hy : y ∈ (l ++ [w]) :: rest := hperm.mem_iff.mp (by simp)
    rcases List.mem_cons.mp hy with rfl | hy
    -- the first element is of the same list
    · refine ⟨x :: l, rest, ?_, @Merges.cons _ [] _ _ _ _ hmerges⟩
      exact List.perm_middle.trans ((List.perm_middle.symm.trans hperm).cons_inv.cons _)
    · obtain ⟨r₁, r₂, rfl⟩ := List.append_of_mem hy
      have hothers : (l₁ ++ l₂).Perm ((l ++ [w]) :: (r₁ ++ r₂)) := by
        refine ((List.perm_middle.symm.trans hperm).trans ?_).cons_inv (a := y)
        exact (List.perm_middle.cons _).trans (.swap _ _ _)
      refine ⟨l, (x :: y) :: (r₁ ++ r₂), ?_, ?_⟩
      · exact (List.perm_middle.trans (hothers.cons _)).trans (.swap _ _ _)
      · exact @Merges.cons _ [l] _ _ _ _ (hmerges.of_perm (List.perm_middle.cons _))

theorem Merges.of_nil_cons {ls : List (List α)} {ws : List α} (h : Merges ([] :: ls) ws) :
    Merges ls ws := by
  generalize hls : [] :: ls = ls' at h
  induction h generalizing ls with
  | nil hall =>
    subst hls
    exact .nil fun l hl => hall l (List.mem_cons_of_mem _ hl)
  | @cons l₁ l₂ x rest ws _ ih =>
    cases l₁ with
    | nil => cases hls
    | cons l l₁ =>
      obtain ⟨rfl, rfl⟩ := List.cons.inj hls
      exact .cons (ih rfl)

end Pzdr
