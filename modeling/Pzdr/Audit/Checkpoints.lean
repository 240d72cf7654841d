import Pzdr.Enclave.Invariant

/-!
# Audit.Checkpoints

The order of the checkpoints an enclave signs in time.

`checkpoint_size_mono`: with a clock that does not run backwards, a checkpoint with a later date has
at least the size of one with an earlier date, unless it is the `from_checkpoint` of a consistency
answer. That one re-signs an old head under the current date (`consistency_redates`).
-/

namespace Pzdr
namespace Audit

open Enclave

/-- The order of two signed messages, if both are checkpoints. -/
def Follows : Message → Message → Prop
  | .checkpoint _ c, .checkpoint origin c' =>
    c.timestamp ≤ c'.timestamp ∧ (origin ≠ .consistencyFrom → c.size ≤ c'.size)
  | _, _ => True

structure Ordered (P : Platform) (es : List Event) (s : State) : Prop where
  consistent : Consistent P s
  dated : ∀ origin c, Message.checkpoint origin c ∈ s.signed →
    c.timestamp ∈ es.flatMap Event.readings
  follows : s.signed.Pairwise Follows
  covered : ∀ k < s.entries.length, ∃ c, Message.checkpoint .append c ∈ s.signed ∧ c.size = k + 1

variable {P : Platform}

/-- Messages signed in one event keep the order, if their dates are readings of the event in order
and their sizes are those of the ledger, or less for the head that is signed again. -/
theorem follows_append {es : List Event} {e : Event} {s : State} {n : Nat} {ms : List Message}
    (h : Ordered P es s) (hclock : ((es ++ [e]).flatMap Event.readings).Pairwise (· ≤ ·))
    (hsize : s.ledger.size ≤ n)
    (hdate : ∀ origin c, .checkpoint origin c ∈ ms → c.timestamp ∈ e.readings)
    (hhead : ∀ origin c, .checkpoint origin c ∈ ms → origin ≠ .consistencyFrom → c.size = n)
    (hms : ms.Pairwise Follows) : (s.signed ++ ms).Pairwise Follows := by
  rw [List.pairwise_append]
  refine ⟨h.follows, hms, ?_⟩
  rw [List.flatMap_append, List.pairwise_append] at hclock
  intro a ha b hb
  cases a with
  | proof statement => trivial
  | checkpoint origin c =>
    cases b with
    | proof statement => trivial
    | checkpoint origin' c' =>
      constructor
      · exact hclock.2.2 _ (h.dated _ _ ha) _ (by simpa using hdate _ _ hb)
      · intro ho
        obtain ⟨root, hroot, _⟩ := h.consistent.heads _ _ ha
        have := TransparencyLog.le_size_of_rootAt _ hroot
        rw [hhead _ _ hb ho]
        omega

theorem dated_append {es : List Event} {e : Event} {s : State} {ms : List Message}
    (h : Ordered P es s) (hdate : ∀ origin c, .checkpoint origin c ∈ ms → c.timestamp ∈ e.readings) :
    ∀ origin c, .checkpoint origin c ∈ s.signed ++ ms →
      c.timestamp ∈ (es ++ [e]).flatMap Event.readings := by
  intro origin c hm
  rw [List.flatMap_append, List.mem_append]
  rcases List.mem_append.mp hm with hm | hm
  · exact .inl (h.dated _ _ hm)
  · exact .inr (by simpa using hdate _ _ hm)

/-- Signing checkpoints of the ledger as it is. -/
theorem Ordered.sign {es : List Event} {e : Event} {s : State} {ms : List Message}
    (h : Ordered P es s) (hclock : ((es ++ [e]).flatMap Event.readings).Pairwise (· ≤ ·))
    (hc : Consistent P { s with signed := s.signed ++ ms })
    (hdate : ∀ origin c, .checkpoint origin c ∈ ms → c.timestamp ∈ e.readings)
    (hhead : ∀ origin c, .checkpoint origin c ∈ ms → origin ≠ .consistencyFrom →
      c.size = s.ledger.size)
    (hms : ms.Pairwise Follows) :
    Ordered P (es ++ [e]) { s with signed := s.signed ++ ms } := by
  refine ⟨hc, dated_append h hdate, follows_append h hclock (Nat.le_refl _) hdate hhead hms, ?_⟩
  intro k hk
  obtain ⟨c, hm, hsize⟩ := h.covered k hk
  exact ⟨c, List.mem_append_left _ hm, hsize⟩

theorem dated_head {origin : Origin} {ledger : TransparencyLog Bytes} {now : Nat} {e : Event}
    (he : e.readings = [now]) : ∀ origin' c,
    Message.checkpoint origin' c ∈ [P.headMessage origin ledger now] → c.timestamp ∈ e.readings := by
  intro origin' c hm
  rw [List.mem_singleton] at hm
  cases hm
  rw [he]
  exact List.mem_singleton.mpr rfl

theorem size_head {origin : Origin} {ledger ledger' : TransparencyLog Bytes} {now : Nat}
    (hl : ledger' = ledger) : ∀ origin' c,
    Message.checkpoint origin' c ∈ [P.headMessage origin ledger now] →
    origin' ≠ .consistencyFrom → c.size = ledger'.size := by
  intro origin' c hm _
  rw [List.mem_singleton] at hm
  cases hm
  rw [hl]
  rfl

theorem Ordered.frame {es : List Event} {e : Event} {s s' : State} (h : Ordered P es s)
    (hc : Consistent P s') (hentries : s'.entries = s.entries) (hsigned : s'.signed = s.signed) :
    Ordered P (es ++ [e]) s' := by
  refine ⟨hc, ?_, by rw [hsigned]; exact h.follows, ?_⟩
  · intro origin c hm
    rw [hsigned] at hm
    rw [List.flatMap_append, List.mem_append]
    exact .inl (h.dated _ _ hm)
  · rw [hentries, hsigned]
    exact h.covered

theorem Ordered.step {es : List Event} {e : Event} {s s' : State} (h : Ordered P es s)
    (hclock : ((es ++ [e]).flatMap Event.readings).Pairwise (· ≤ ·))
    (hstep : P.step s e = some s') : Ordered P (es ++ [e]) s' := by
  have hc := h.consistent.step hstep
  cases e with
  | request body tenant =>
    cases hstep
    exact h.frame hc rfl rfl
  | fetchAdd sid =>
    obtain ⟨session, _, _, rfl⟩ := Platform.step_fetchAdd hstep
    exact h.frame hc rfl rfl
  | signProof sid now proofId sessionId =>
    obtain ⟨session, counter, _, _, rfl⟩ := Platform.step_signProof hstep
    refine ⟨hc, dated_append h (by simp),
      follows_append h hclock (Nat.le_refl _) (by simp) (by simp) (List.pairwise_singleton _ _), ?_⟩
    intro k hk
    obtain ⟨c, hm, hsize⟩ := h.covered k hk
    exact ⟨c, List.mem_append_left _ hm, hsize⟩
  | append sid now totalUs =>
    obtain ⟨session, proof, receipt, _, _, _, rfl⟩ := Platform.step_append hstep
    refine ⟨hc, dated_append h (dated_head rfl), follows_append h hclock ?_ (dated_head rfl)
      (size_head rfl) (List.pairwise_singleton _ _), ?_⟩
    · rw [TransparencyLog.size_append]
      omega
    · intro k hk
      rw [List.length_append, List.length_singleton] at hk
      rcases Nat.lt_or_ge k s.entries.length with hlt | hge
      · obtain ⟨c, hm, hsize⟩ := h.covered k hlt
        exact ⟨c, List.mem_append_left _ hm, hsize⟩
      · refine ⟨_, List.mem_append_right _ (List.mem_singleton.mpr rfl), ?_⟩
        have hn := h.consistent.size_eq
        show (s.ledger.append P.sha.log (Platform.entryBytes proof)).1.size = k + 1
        rw [TransparencyLog.size_append]
        omega
  | ledgerRoot now =>
    cases hstep
    exact h.sign hclock hc (dated_head rfl) (size_head rfl) (List.pairwise_singleton _ _)
  | ledgerProof idx now =>
    rcases Platform.step_ledgerProof hstep with rfl | rfl
    · exact h.frame hc rfl rfl
    · exact h.sign hclock hc (dated_head rfl) (size_head rfl) (List.pairwise_singleton _ _)
  | ledgerConsistency fromSize nowFrom nowTo =>
    rcases Platform.step_ledgerConsistency hstep with rfl | ⟨fromRoot, hroot, rfl⟩
    · exact h.frame hc rfl rfl
    · have hnow : nowFrom ≤ nowTo := by
        rw [List.flatMap_append, List.pairwise_append] at hclock
        simpa [Event.readings] using hclock.2.1
      have hle := TransparencyLog.le_size_of_rootAt _ hroot
      apply h.sign hclock hc
      · intro origin c hm
        simp only [List.mem_cons, List.not_mem_nil, or_false] at hm
        rcases hm with hm | hm
        · cases hm
          simp [Event.readings, Platform.checkpointStatement]
        · cases hm
          simp [Event.readings, Platform.checkpointStatement]
      · intro origin c hm ho
        simp only [List.mem_cons, List.not_mem_nil, or_false] at hm
        rcases hm with hm | hm
        · cases hm
          exact absurd rfl ho
        · cases hm
          rfl
      · rw [List.pairwise_pair]
        exact ⟨hnow, fun _ => hle⟩

theorem reachable_ordered {es : List Event} {s : State} (h : Run P.step State.boot es s)
    (hclock : (es.flatMap Event.readings).Pairwise (· ≤ ·)) : Ordered P es s := by
  refine h.trace_invariant (I := fun es s =>
    (es.flatMap Event.readings).Pairwise (· ≤ ·) → Ordered P es s) ?_ ?_ hclock
  · intro _
    exact ⟨consistent_boot, by simp [State.boot], List.Pairwise.nil, by simp [State.boot]⟩
  · intro es s e s' hstep ih hclock
    have hclock' := hclock
    rw [List.flatMap_append, List.pairwise_append] at hclock'
    exact (ih hclock'.1).step hclock hstep

/-- Of two signed checkpoints, the one with the earlier date was signed first. -/
theorem follows_of_earlier {es : List Event} {s : State} (h : Ordered P es s) {o₁ o₂ : Origin}
    {c₁ c₂ : CheckpointStatement} (h₁ : .checkpoint o₁ c₁ ∈ s.signed)
    (h₂ : .checkpoint o₂ c₂ ∈ s.signed) (ht : c₁.timestamp < c₂.timestamp) :
    Follows (.checkpoint o₁ c₁) (.checkpoint o₂ c₂) := by
  obtain ⟨i, hi⟩ := List.mem_iff_getElem?.mp h₁
  obtain ⟨j, hj⟩ := List.mem_iff_getElem?.mp h₂
  obtain ⟨hi, hi'⟩ := List.getElem?_eq_some_iff.mp hi
  obtain ⟨hj, hj'⟩ := List.getElem?_eq_some_iff.mp hj
  have hpair := List.pairwise_iff_getElem.mp h.follows
  rcases Nat.lt_trichotomy i j with hlt | rfl | hgt
  · rw [← hi', ← hj']
    exact hpair i j hi hj hlt
  · rw [hi'] at hj'
    cases hj'
    exact absurd ht (Nat.lt_irrefl _)
  · have hback := hpair j i hj hi hgt
    rw [hi', hj'] at hback
    exact absurd hback.1 (by omega)

/-- The entry at index `k` is appended when the checkpoint of size `k + 1` of its receipt is signed. -/
theorem checkpoint_size_mono (P : Platform) {es : List Event} {s : State}
    (hrun : Run P.step State.boot es s)
    (hclock : (es.flatMap Event.readings).Pairwise (· ≤ ·)) :
    (∀ o₁ o₂ c₁ c₂, .checkpoint o₁ c₁ ∈ s.signed → .checkpoint o₂ c₂ ∈ s.signed →
      c₁.timestamp < c₂.timestamp → o₂ ≠ .consistencyFrom → c₁.size ≤ c₂.size) ∧
    ∀ k < s.entries.length, ∃ c, .checkpoint .append c ∈ s.signed ∧ c.size = k + 1 ∧
      ∀ o₂ c₂, .checkpoint o₂ c₂ ∈ s.signed → c.timestamp < c₂.timestamp →
        o₂ ≠ .consistencyFrom → k < c₂.size := by
  have h := reachable_ordered hrun hclock
  have hmono : ∀ o₁ o₂ c₁ c₂, Message.checkpoint o₁ c₁ ∈ s.signed →
      Message.checkpoint o₂ c₂ ∈ s.signed → c₁.timestamp < c₂.timestamp →
      o₂ ≠ .consistencyFrom → c₁.size ≤ c₂.size := by
    intro o₁ o₂ c₁ c₂ h₁ h₂ ht ho
    exact (follows_of_earlier h h₁ h₂ ht).2 ho
  refine ⟨hmono, ?_⟩
  intro k hk
  obtain ⟨c, hm, hsize⟩ := h.covered k hk
  refine ⟨c, hm, hsize, ?_⟩
  intro o₂ c₂ h₂ ht ho
  have := hmono _ _ _ _ hm h₂ ht ho
  omega

/-- Two malformed requests in the first second, a consistency query in the second one. -/
def redatingEvents : List Event := [
  .request [] "demo", .fetchAdd 0, .signProof 0 1 [] [], .append 0 1 5,
  .request [] "demo", .fetchAdd 1, .signProof 1 1 [] [], .append 1 1 5,
  .ledgerConsistency 1 2 2]

theorem redatingEvents_clock : (redatingEvents.flatMap Event.readings).Pairwise (· ≤ ·) := by
  decide

theorem redatingEvents_run :
    ∃ s, Run (samplePlatform []).step State.boot redatingEvents s ∧
      (∃ c, s.signed[3]? = some (.checkpoint .append c) ∧ c.size = 2 ∧ c.timestamp = 1) ∧
      ∃ c, s.signed[4]? = some (.checkpoint .consistencyFrom c) ∧ c.size = 1 ∧ c.timestamp = 2 :=
  ⟨_, Run.of_foldlM rfl, ⟨_, rfl, rfl, rfl⟩, ⟨_, rfl, rfl, rfl⟩⟩

theorem checkpoint_size_mono_redating :
    ∃ s, Run (samplePlatform []).step State.boot redatingEvents s ∧
      ∀ o₁ o₂ c₁ c₂, .checkpoint o₁ c₁ ∈ s.signed → .checkpoint o₂ c₂ ∈ s.signed →
        c₁.timestamp < c₂.timestamp → o₂ ≠ .consistencyFrom → c₁.size ≤ c₂.size := by
  obtain ⟨s, hrun, _⟩ := redatingEvents_run
  exact ⟨s, hrun, (checkpoint_size_mono (samplePlatform []) hrun redatingEvents_clock).1⟩

/-- The old head of the consistency answer has a later date and a smaller size than the receipt of
the second request. -/
theorem consistency_redates :
    ¬ ∀ es s, Run (samplePlatform []).step State.boot es s →
      (es.flatMap Event.readings).Pairwise (· ≤ ·) →
      ∀ o₁ o₂ c₁ c₂, .checkpoint o₁ c₁ ∈ s.signed → .checkpoint o₂ c₂ ∈ s.signed →
        c₁.timestamp < c₂.timestamp → c₁.size ≤ c₂.size := by
  intro h
  obtain ⟨s, hrun, ⟨c₁, h₁, hsize₁, ht₁⟩, ⟨c₂, h₂, hsize₂, ht₂⟩⟩ := redatingEvents_run
  have hle := h redatingEvents s hrun redatingEvents_clock _ _ c₁ c₂ (List.mem_of_getElem? h₁)
    (List.mem_of_getElem? h₂) (by omega)
  omega

end Audit
end Pzdr
