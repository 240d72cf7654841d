import Mathlib

/-!
# Run

Runs of a deterministic step function that refuses some events, and the rules for proving something
of them: an invariant of the states, an invariant of the states together with the events so far, and
an invariant that is kept as long as every step meets a condition.
-/

namespace Pzdr

/-- `Run step init es s`: the events `es`, in this order, lead from `init` to `s`. -/
inductive Run {σ ε : Type*} (step : σ → ε → Option σ) (init : σ) : List ε → σ → Prop where
  | nil : Run step init [] init
  | snoc {es : List ε} {s s' : σ} {e : ε} (run : Run step init es s) (h : step s e = some s') :
      Run step init (es ++ [e]) s'

namespace Run

variable {σ ε : Type*} {step : σ → ε → Option σ} {init : σ}

theorem invariant {I : σ → Prop} (hinit : I init)
    (hstep : ∀ s e s', step s e = some s' → I s → I s') {es : List ε} {s : σ}
    (h : Run step init es s) : I s := by
  induction h with
  | nil => exact hinit
  | snoc _ h ih => exact hstep _ _ _ h ih

theorem trace_invariant {I : List ε → σ → Prop} (hinit : I [] init)
    (hstep : ∀ es s e s', step s e = some s' → I es s → I (es ++ [e]) s') {es : List ε} {s : σ}
    (h : Run step init es s) : I es s := by
  induction h with
  | nil => exact hinit
  | snoc _ h ih => exact hstep _ _ _ _ h ih

/-- `G` holds of every event of the run, in the state in which it happens. -/
def Guarded (step : σ → ε → Option σ) (init : σ) (G : σ → ε → Prop) (es : List ε) : Prop :=
  ∀ es₁ e es₂ s, es = es₁ ++ e :: es₂ → Run step init es₁ s → G s e

theorem guarded_invariant {I : σ → Prop} {G : σ → ε → Prop} (hinit : I init)
    (hstep : ∀ s e s', step s e = some s' → G s e → I s → I s') {es : List ε} {s : σ}
    (h : Run step init es s) (hg : Guarded step init G es) : I s := by
  induction h with
  | nil => exact hinit
  | snoc run h ih =>
    refine hstep _ _ _ h (hg _ _ [] _ rfl run) (ih ?_)
    intro es₁ e es₂ s heq
    exact hg es₁ e (es₂ ++ [_]) s (by rw [heq, List.append_assoc, List.cons_append])

theorem append {es es' : List ε} {s s' : σ} (h : Run step init es s) (h' : Run step s es' s') :
    Run step init (es ++ es') s' := by
  induction h' with
  | nil => rwa [List.append_nil]
  | snoc _ hstep ih =>
    rw [← List.append_assoc]
    exact ih.snoc hstep

/-- Runs can be executed. -/
theorem of_foldlM {es : List ε} {s : σ} (h : es.foldlM step init = some s) :
    Run step init es s := by
  induction es using List.reverseRecOn generalizing s with
  | nil =>
    cases h
    exact nil
  | append_singleton es e ih =>
    rw [List.foldlM_append, Option.bind_eq_bind, Option.bind_eq_some_iff] at h
    obtain ⟨s₁, h₁, h₂⟩ := h
    exact snoc (ih h₁) (by simpa using h₂)

theorem iff_foldlM {es : List ε} {s : σ} : Run step init es s ↔ es.foldlM step init = some s := by
  refine ⟨fun h => ?_, of_foldlM⟩
  induction h with
  | nil => rfl
  | snoc _ hstep ih => simp [List.foldlM_append, ih, hstep]

theorem cons_iff {es : List ε} {e : ε} {s : σ} :
    Run step init (e :: es) s ↔ ∃ s₁, step init e = some s₁ ∧ Run step s₁ es s := by
  simp only [iff_foldlM, List.foldlM_cons, Option.bind_eq_bind, Option.bind_eq_some_iff]

/-- A step that an invariant makes possible, and that keeps it, can be taken for every event. -/
theorem exists_of_invariant {I : List ε → σ → Prop} (hinit : I [] init)
    (hstep : ∀ es s e, I es s → ∃ s', step s e = some s' ∧ I (es ++ [e]) s') (es : List ε) :
    ∃ s, Run step init es s ∧ I es s := by
  induction es using List.reverseRecOn with
  | nil => exact ⟨init, nil, hinit⟩
  | append_singleton es e ih =>
    obtain ⟨s, hrun, hs⟩ := ih
    obtain ⟨s', hs', hI⟩ := hstep es s e hs
    exact ⟨s', hrun.snoc hs', hI⟩

/-- A guard is checked from the first event on. -/
theorem guarded_cons {G : σ → ε → Prop} {es : List ε} {e : ε} (hfirst : G init e)
    (hrest : ∀ s, step init e = some s → Guarded step s G es) :
    Guarded step init G (e :: es) := by
  intro es₁ e' es₂ s heq hrun
  cases es₁ with
  | nil =>
    rw [List.nil_append, List.cons.injEq] at heq
    obtain rfl : s = init := by simpa using (iff_foldlM.mp hrun).symm
    rw [← heq.1]
    exact hfirst
  | cons e₁ es₁ =>
    rw [List.cons_append, List.cons.injEq] at heq
    rw [← heq.1] at hrun
    obtain ⟨s₁, hs₁, hrun⟩ := cons_iff.mp hrun
    exact hrest s₁ hs₁ es₁ e' es₂ s heq.2 hrun

theorem guarded_nil {G : σ → ε → Prop} : Guarded step init G [] := by
  intro es₁ e es₂ s heq
  simp at heq

end Run
end Pzdr
