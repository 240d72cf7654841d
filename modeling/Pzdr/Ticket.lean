import Pzdr.Run

/-!
# Ticket

Clients draw tickets from a counter, and later each records its ticket at the end of a log. The two
steps of a client are atomic, but other clients can step in between.

* `reachable_issued`: the tickets drawn so far are `1` to the value of the counter, each drawn once,
  and the log holds the tickets of the clients that have recorded theirs.
* `log_before`: a ticket recorded before a client draws is smaller than the client's and stands
  before it.
* `Sorted.step`: the log stays sorted as long as the smallest ticket is recorded first.
-/

namespace Pzdr
namespace Ticket

inductive Client where
  | waiting
  | holding (ticket : Nat)
  | recorded (ticket : Nat)
  deriving DecidableEq, Repr

def Client.ticket? : Client → Option Nat
  | .waiting => none
  | .holding ticket => some ticket
  | .recorded ticket => some ticket

def Client.recorded? : Client → Option Nat
  | .recorded ticket => some ticket
  | _ => none

structure Desk where
  issued : Nat
  clients : List Client
  log : List Nat

def Desk.empty : Desk := ⟨0, [], []⟩

inductive Event where
  | arrive
  | draw (client : Nat)
  | record (client : Nat)
  deriving DecidableEq, Repr

def step (d : Desk) : Event → Option Desk
  | .arrive => some ⟨d.issued, d.clients ++ [.waiting], d.log⟩
  | .draw i =>
    match d.clients[i]? with
    | some .waiting => some ⟨d.issued + 1, d.clients.set i (.holding (d.issued + 1)), d.log⟩
    | _ => none
  | .record i =>
    match d.clients[i]? with
    | some (.holding ticket) => some ⟨d.issued, d.clients.set i (.recorded ticket), d.log ++ [ticket]⟩
    | _ => none

/-- What a change of one element does to a list that is filtered from it. -/
theorem filterMap_set_perm {α β : Type*} (f : α → Option β) {xs : List α} {i : Nat} {x : α}
    (h : xs[i]? = some x) (y : α) : ∃ rest, (xs.filterMap f).Perm ((f x).toList ++ rest) ∧
      ((xs.set i y).filterMap f).Perm ((f y).toList ++ rest) := by
  obtain ⟨hi, rfl⟩ := List.getElem?_eq_some_iff.mp h
  have hcons : ∀ z, (z :: xs.eraseIdx i).filterMap f =
      (f z).toList ++ (xs.eraseIdx i).filterMap f := by
    intro z
    rw [List.filterMap_cons]
    cases f z <;> rfl
  refine ⟨(xs.eraseIdx i).filterMap f, ?_, ?_⟩
  · rw [← hcons]
    exact ((List.getElem_cons_eraseIdx_perm hi).filterMap f).symm
  · rw [← hcons]
    exact (List.set_perm_cons_eraseIdx hi y).filterMap f

variable {d d' : Desk}

theorem step_draw {i : Nat} (h : step d (.draw i) = some d') :
    d.clients[i]? = some .waiting ∧
      d' = ⟨d.issued + 1, d.clients.set i (.holding (d.issued + 1)), d.log⟩ := by
  simp only [step] at h
  split at h
  · rename_i hi
    exact ⟨hi, (Option.some.inj h).symm⟩
  · cases h

theorem step_record {i : Nat} (h : step d (.record i) = some d') :
    ∃ ticket, d.clients[i]? = some (.holding ticket) ∧
      d' = ⟨d.issued, d.clients.set i (.recorded ticket), d.log ++ [ticket]⟩ := by
  simp only [step] at h
  split at h
  · rename_i ticket hi
    exact ⟨ticket, hi, (Option.some.inj h).symm⟩
  · cases h

/-! ## Every ticket once -/

structure Issued (d : Desk) : Prop where
  tickets : (d.clients.filterMap Client.ticket?).Perm (List.range' 1 d.issued)
  recorded : (d.clients.filterMap Client.recorded?).Perm d.log

theorem issued_empty : Issued Desk.empty := ⟨List.Perm.refl _, List.Perm.refl _⟩

theorem Issued.step {e : Event} (h : Issued d) (hstep : step d e = some d') : Issued d' := by
  cases e with
  | arrive =>
    cases hstep
    constructor
    · rw [List.filterMap_append]
      exact (List.append_nil _).symm ▸ h.tickets
    · rw [List.filterMap_append]
      exact (List.append_nil _).symm ▸ h.recorded
  | draw i =>
    obtain ⟨hi, rfl⟩ := step_draw hstep
    constructor
    · obtain ⟨rest, hold, hnew⟩ :=
        filterMap_set_perm Client.ticket? hi (.holding (d.issued + 1))
      refine hnew.trans ?_
      show ((d.issued + 1) :: rest).Perm (List.range' 1 (d.issued + 1))
      rw [List.range'_concat, Nat.one_mul, Nat.add_comm 1]
      exact (List.perm_append_singleton _ _).symm.trans
        ((hold.symm.trans h.tickets).append_right _)
    · obtain ⟨rest, hold, hnew⟩ :=
        filterMap_set_perm Client.recorded? hi (.holding (d.issued + 1))
      exact hnew.trans (hold.symm.trans h.recorded)
  | record i =>
    obtain ⟨ticket, hi, rfl⟩ := step_record hstep
    constructor
    · obtain ⟨rest, hold, hnew⟩ := filterMap_set_perm Client.ticket? hi (.recorded ticket)
      exact hnew.trans (hold.symm.trans h.tickets)
    · obtain ⟨rest, hold, hnew⟩ := filterMap_set_perm Client.recorded? hi (.recorded ticket)
      refine hnew.trans ?_
      show (ticket :: rest).Perm (d.log ++ [ticket])
      exact (List.perm_append_singleton _ _).symm.trans
        ((hold.symm.trans h.recorded).append_right _)

theorem reachable_issued {es : List Event} (h : Run step Desk.empty es d) : Issued d :=
  h.invariant issued_empty (fun _ _ _ hstep hd => hd.step hstep)

/-- No ticket is drawn twice. -/
theorem Issued.pairwise (h : Issued d) : d.clients.Pairwise (fun a b =>
    ∀ t, a.ticket? = some t → ∀ t', b.ticket? = some t' → t ≠ t') := by
  have hnodup := h.tickets.nodup_iff.mpr List.nodup_range'
  rw [List.Nodup, List.pairwise_filterMap] at hnodup
  exact hnodup

theorem Issued.ne (h : Issued d) {i j t t' : Nat} {a b : Client} (hi : d.clients[i]? = some a)
    (hj : d.clients[j]? = some b) (hij : i ≠ j) (ha : a.ticket? = some t) (hb : b.ticket? = some t') :
    t ≠ t' := by
  obtain ⟨hli, rfl⟩ := List.getElem?_eq_some_iff.mp hi
  obtain ⟨hlj, rfl⟩ := List.getElem?_eq_some_iff.mp hj
  have hpair := List.pairwise_iff_getElem.mp h.pairwise
  rcases Nat.lt_or_gt_of_ne hij with hlt | hgt
  · exact hpair i j hli hlj hlt t ha t' hb
  · exact (hpair j i hlj hli hgt t' hb t ha).symm

theorem Issued.le_issued (h : Issued d) {a : Client} {t : Nat} (ha : a ∈ d.clients)
    (ht : a.ticket? = some t) : t ≤ d.issued := by
  have hmem := (h.tickets.mem_iff).mp (List.mem_filterMap.mpr ⟨a, ha, ht⟩)
  rw [List.mem_range'_1] at hmem
  omega

theorem Issued.le_issued_of_mem_log (h : Issued d) {t : Nat} (ht : t ∈ d.log) : t ≤ d.issued := by
  obtain ⟨a, ha, hr⟩ := List.mem_filterMap.mp ((h.recorded.mem_iff).mpr ht)
  cases a with
  | recorded ticket => exact h.le_issued ha hr
  | waiting => cases hr
  | holding ticket => cases hr

/-- A client that waits has not drawn. -/
theorem Issued.issued_lt (h : Issued d) {i : Nat} (hi : d.clients[i]? = some .waiting) :
    d.issued < d.clients.length := by
  have hlen := h.tickets.length_eq
  rw [List.length_range'] at hlen
  obtain ⟨l₁, l₂, hl⟩ := List.append_of_mem (List.mem_of_getElem? hi)
  have h₁ := List.length_filterMap_le Client.ticket? l₁
  have h₂ := List.length_filterMap_le Client.ticket? l₂
  rw [hl, List.filterMap_append, List.filterMap_cons_none rfl, List.length_append] at hlen
  rw [hl, List.length_append, List.length_cons]
  omega

theorem Issued.nodup_log (h : Issued d) : d.log.Nodup := by
  rw [← h.recorded.nodup_iff, List.Nodup, List.pairwise_filterMap]
  refine h.pairwise.imp ?_
  intro a b hab t ht t' ht'
  cases a with
  | recorded ticket =>
    cases b with
    | recorded ticket' => exact hab t ht t' ht'
    | waiting => cases ht'
    | holding ticket' => cases ht'
  | waiting => cases ht
  | holding ticket => cases ht

/-- When all clients are through, the log has every ticket. -/
theorem Issued.log_perm (h : Issued d) (hall : ∀ a ∈ d.clients, ∃ t, a = .recorded t) :
    d.log.Perm (List.range' 1 d.clients.length) := by
  have hsame : d.clients.filterMap Client.recorded? = d.clients.filterMap Client.ticket? := by
    apply List.filterMap_congr
    intro a ha
    obtain ⟨t, rfl⟩ := hall a ha
    rfl
  have hlen : (d.clients.filterMap Client.ticket?).length = d.clients.length := by
    rw [List.filterMap_length_eq_length]
    intro a ha
    obtain ⟨t, rfl⟩ := hall a ha
    rfl
  have hissued := h.tickets.length_eq
  rw [hlen, List.length_range'] at hissued
  rw [hissued]
  exact h.recorded.symm.trans (hsame ▸ h.tickets)

/-! ## The order of the log -/

/-- The client has not drawn, if it has come at all. -/
def Fresh (d : Desk) (i : Nat) : Prop := ∀ a, d.clients[i]? = some a → a = .waiting

/-- What holds between a desk and a later one. -/
structure Since (d e : Desk) : Prop where
  issued : d.issued ≤ e.issued
  log : d.log <+: e.log
  fresh : ∀ i, Fresh d i → ∀ a t, e.clients[i]? = some a → a.ticket? = some t → d.issued < t

theorem Since.refl (d : Desk) : Since d d := by
  refine ⟨Nat.le_refl _, List.prefix_rfl, ?_⟩
  intro i hf a t ha ht
  rw [hf a ha] at ht
  cases ht

theorem Since.step {e e' : Desk} {v : Event} (h : Since d e) (hstep : step e v = some e') :
    Since d e' := by
  cases v with
  | arrive =>
    cases hstep
    refine ⟨h.issued, h.log, ?_⟩
    intro i hf a t ha ht
    rw [List.getElem?_append] at ha
    split at ha
    · exact h.fresh i hf a t ha ht
    · rw [List.getElem?_singleton] at ha
      split at ha
      · cases ha
        cases ht
      · cases ha
  | draw j =>
    obtain ⟨hj, rfl⟩ := step_draw hstep
    refine ⟨Nat.le_succ_of_le h.issued, h.log, ?_⟩
    intro i hf a t ha ht
    have hissued := h.issued
    by_cases hij : j = i
    · subst hij
      rw [List.getElem?_set_self (List.getElem?_eq_some_iff.mp hj).1] at ha
      cases ha
      cases ht
      omega
    · rw [List.getElem?_set_ne hij] at ha
      exact h.fresh i hf a t ha ht
  | record j =>
    obtain ⟨ticket, hj, rfl⟩ := step_record hstep
    refine ⟨h.issued, h.log.trans (List.prefix_append _ _), ?_⟩
    intro i hf a t ha ht
    by_cases hij : j = i
    · subst hij
      rw [List.getElem?_set_self (List.getElem?_eq_some_iff.mp hj).1] at ha
      cases ha
      exact h.fresh j hf _ t hj ht
    · rw [List.getElem?_set_ne hij] at ha
      exact h.fresh i hf a t ha ht

theorem run_since {e : Desk} {vs : List Event} (h : Run step d vs e) : Since d e :=
  h.invariant (Since.refl d) (fun _ _ _ hstep he => he.step hstep)

theorem log_before {e : Desk} (hd : Issued d) (h : Since d e) {i j c t t' : Nat} {a : Client}
    (hi : d.log[i]? = some t) (hfresh : Fresh d c) (ha : e.clients[c]? = some a)
    (ht : a.ticket? = some t') (hj : e.log[j]? = some t') : t < t' ∧ i < j := by
  have hle := hd.le_issued_of_mem_log (List.mem_of_getElem? hi)
  have hlt := h.fresh c hfresh a t' ha ht
  refine ⟨by omega, ?_⟩
  have hilen := (List.getElem?_eq_some_iff.mp hi).1
  obtain ⟨rest, hrest⟩ := h.log
  by_contra hij
  -- otherwise the later ticket was in the log already
  rw [← hrest, List.getElem?_append_left (by omega)] at hj
  have := hd.le_issued_of_mem_log (List.mem_of_getElem? hj)
  omega

/-- The smallest ticket is recorded first. -/
def InOrder (d : Desk) : Event → Prop
  | .record i => ∀ t, d.clients[i]? = some (.holding t) → ∀ t', .holding t' ∈ d.clients → t ≤ t'
  | _ => True

structure Sorted (d : Desk) : Prop where
  log : d.log.Pairwise (· < ·)
  holding : ∀ t ∈ d.log, ∀ t', .holding t' ∈ d.clients → t < t'

theorem sorted_empty : Sorted Desk.empty := ⟨List.Pairwise.nil, by intro t ht; cases ht⟩

theorem Sorted.step {e : Event} (hi : Issued d) (h : Sorted d) (hin : InOrder d e)
    (hstep : step d e = some d') : Sorted d' := by
  cases e with
  | arrive =>
    cases hstep
    refine ⟨h.log, ?_⟩
    intro t ht t' hmem
    rcases List.mem_append.mp hmem with hmem | hmem
    · exact h.holding t ht t' hmem
    · rw [List.mem_singleton] at hmem
      cases hmem
  | draw i =>
    obtain ⟨_, rfl⟩ := step_draw hstep
    refine ⟨h.log, ?_⟩
    intro t ht t' hmem
    rcases List.mem_or_eq_of_mem_set hmem with hmem | heq
    · exact h.holding t ht t' hmem
    · cases heq
      exact Nat.lt_succ_of_le (hi.le_issued_of_mem_log ht)
  | record i =>
    obtain ⟨ticket, hget, rfl⟩ := step_record hstep
    constructor
    · rw [List.pairwise_append]
      refine ⟨h.log, List.pairwise_singleton _ _, ?_⟩
      intro t ht t' ht'
      rw [List.mem_singleton] at ht'
      subst ht'
      exact h.holding t ht _ (List.mem_of_getElem? hget)
    · intro t ht t' hmem
      obtain ⟨j, hj⟩ := List.mem_iff_getElem?.mp hmem
      have hij : i ≠ j := by
        intro heq
        subst heq
        rw [List.getElem?_set_self (List.getElem?_eq_some_iff.mp hget).1] at hj
        cases hj
      rw [List.getElem?_set_ne hij] at hj
      rcases List.mem_append.mp ht with ht | ht
      · exact h.holding t ht t' (List.mem_of_getElem? hj)
      · rw [List.mem_singleton] at ht
        subst ht
        have hle := hin t hget t' (List.mem_of_getElem? hj)
        have hne := hi.ne hget hj hij rfl rfl
        omega

end Ticket
end Pzdr
