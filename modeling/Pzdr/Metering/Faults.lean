import Pzdr.Metering.Queue
import Pzdr.Run

/-!
# Metering.Faults

Appends that fail partway. What a failed append leaves in the file stays there, and the next append
goes on behind it, so an acknowledged event can end up on the line of a torn one. The queue is read
back as long as an append that fails leaves nothing, or a whole text on a line of its own with
nothing written after it (`acknowledged_read_back`).
-/

namespace Pzdr
namespace Metering

open Lines

/-- One call of `append_event_jsonl`. `chunks` is how `to_writer` hands the text to the file; `fault`
is the write that fails, if one does, and how many of its bytes still reach the file. -/
structure Append where
  event : MarketplaceUsageEvent
  chunks : List Bytes
  chunks_flatten : chunks.flatten = textBytes event
  fault : Option (Nat × Nat)

/-- Writes one after the other up to the one that fails: the bytes that reach the file, and whether
all writes succeeded. -/
def performWrites : List Bytes → Option (Nat × Nat) → Bytes × Bool
  | [], _ => ([], true)
  | w :: ws, none => (w ++ (performWrites ws none).1, (performWrites ws none).2)
  | w :: _, some (0, k) => (w.take k, false)
  | w :: ws, some (i + 1, k) =>
    (w ++ (performWrites ws (some (i, k))).1, (performWrites ws (some (i, k))).2)

def Append.writes (a : Append) : List Bytes := a.chunks ++ [[newline]]

def Append.written (a : Append) : Bytes := (performWrites a.writes a.fault).1

/-- The call returns `Ok`. -/
def Append.succeeds (a : Append) : Bool := (performWrites a.writes a.fault).2

/-- The file, and the events whose append has returned `Ok`. -/
structure Queue where
  file : Bytes
  acknowledged : List MarketplaceUsageEvent

def Queue.empty : Queue := ⟨[], []⟩

def appendEventJsonl (q : Queue) (a : Append) : Option Queue :=
  some ⟨q.file ++ a.written,
    if a.succeeds then q.acknowledged ++ [a.event] else q.acknowledged⟩

/-- The append puts nothing into the file, or starts on a new line and gets its whole text there. -/
def Untorn (q : Queue) (a : Append) : Prop :=
  a.written = [] ∨
    (q.file = [] ∨ q.file.getLast? = some newline) ∧ textBytes a.event <+: a.written

theorem performWrites_reached (ws : List Bytes) (fault : Option (Nat × Nat)) :
    (performWrites ws fault).1 <+: ws.flatten ∧
      ((performWrites ws fault).2 = true → (performWrites ws fault).1 = ws.flatten) := by
  fun_induction performWrites ws fault with
  | case1 => simp
  | case2 w ws ih =>
    rw [List.flatten_cons, List.prefix_append_right_inj]
    exact ⟨ih.1, fun hok => by rw [ih.2 hok]⟩
  | case3 w ws k =>
    refine ⟨?_, fun hok => by cases hok⟩
    exact (List.take_prefix k w).trans (List.prefix_append _ _)
  | case4 w ws i k ih =>
    rw [List.flatten_cons, List.prefix_append_right_inj]
    exact ⟨ih.1, fun hok => by rw [ih.2 hok]⟩

section Written

variable (a : Append)

theorem flatten_writes : a.writes.flatten = textBytes a.event ++ [newline] := by
  rw [Append.writes, List.flatten_append, a.chunks_flatten]
  rfl

theorem written_of_succeeds (h : a.succeeds = true) :
    a.written = textBytes a.event ++ [newline] := by
  rw [← flatten_writes]
  exact (performWrites_reached _ _).2 h

/-- An append that gets its whole text into the file is missing at most the newline. -/
theorem written_of_prefix (h : textBytes a.event <+: a.written) :
    a.written = textBytes a.event ∨ a.written = textBytes a.event ++ [newline] := by
  have hprefix := (performWrites_reached a.writes a.fault).1
  rw [flatten_writes] at hprefix
  obtain ⟨tail, htail⟩ := h
  rw [← Append.written, ← htail, List.prefix_append_right_inj] at hprefix
  rw [← htail]
  cases tail with
  | nil => exact .inl (List.append_nil _)
  | cons b tail =>
    obtain ⟨rest, hrest⟩ := hprefix
    simp only [List.cons_append, List.cons.injEq, List.append_eq_nil_iff] at hrest
    rw [hrest.1, hrest.2.1]
    exact .inr rfl

end Written

/-! ## The invariant -/

/-- The file is that of some writes in which no two texts share a line, and the acknowledged events
are among theirs, in order. -/
def Intact (q : Queue) : Prop :=
  ∃ ws, q.file = fileOf ws ∧ Separated ws ∧ q.acknowledged.Sublist (eventsOf ws)

/-- A file that ends at a line end was last written a newline. -/
theorem last_write {ws : List Write} (h : fileOf ws = [] ∨ (fileOf ws).getLast? = some newline) :
    ∀ w ∈ ws.getLast?, w = .newline := by
  intro w hw
  obtain ⟨init, rfl⟩ := List.getLast?_eq_some_iff.mp hw
  have hlast : fileOf (init ++ [w]) = fileOf init ++ w.bytes := by
    rw [fileOf_append, fileOf, fileOf, List.flatMap_singleton]
  rw [hlast] at h
  cases w with
  | newline => rfl
  | text event =>
    have hne : Write.bytes (.text event) ≠ [] := textBytes_ne_nil event
    rcases h with h | h
    · exact absurd (List.append_eq_nil_iff.mp h).2 hne
    · rw [List.getLast?_append_of_ne_nil _ hne] at h
      exact absurd rfl (textBytes_unbroken event _ (List.mem_of_getLast? h)).1

theorem Intact.step {q q' : Queue} {a : Append} (h : appendEventJsonl q a = some q')
    (huntorn : Untorn q a) (hq : Intact q) : Intact q' := by
  obtain ⟨ws, hfile, hsep, hack⟩ := hq
  obtain rfl := Option.some.inj h
  rcases huntorn with hnone | ⟨hline, hprefix⟩
  · have hfails : a.succeeds = false := by
      rw [← Bool.not_eq_true]
      intro hok
      rw [written_of_succeeds a hok] at hnone
      simp at hnone
    refine ⟨ws, ?_, hsep, ?_⟩
    · rw [hnone, List.append_nil, hfile]
    · rw [hfails]
      exact hack
  · rw [hfile] at hline
    have hlast := last_write hline
    have hevents : ∀ ws', eventsOf ws' = [a.event] →
        (if a.succeeds then q.acknowledged ++ [a.event] else q.acknowledged).Sublist
          (eventsOf (ws ++ ws')) := by
      intro ws' hws'
      rw [eventsOf_append, hws']
      split
      · exact hack.append (List.Sublist.refl _)
      · exact hack.trans (List.sublist_append_left _ _)
    rcases written_of_prefix a hprefix with hw | hw
    · refine ⟨ws ++ [.text a.event], ?_, ?_, hevents _ rfl⟩
      · rw [hw, hfile, fileOf_append]
        simp [fileOf, Write.bytes]
      · exact separated_append hsep (List.isChain_singleton _) hlast
    · refine ⟨ws ++ [.text a.event, .newline], ?_, ?_, hevents _ rfl⟩
      · rw [hw, hfile, fileOf_append]
        simp [fileOf, Write.bytes]
      · exact separated_append hsep (by simp [Separated]) hlast

/-- What every reader of the queue finds, as long as no append is torn. -/
theorem acknowledged_read_back (fromStr : List Char → Except String MarketplaceUsageEvent)
    (hdecode : Decodes fromStr) (appends : List Append) (q : Queue)
    (hrun : Run appendEventJsonl Queue.empty appends q)
    (huntorn : Run.Guarded appendEventJsonl Queue.empty Untorn appends) :
    ∃ events, readEventsJsonl fromStr q.file = .ok events ∧ q.acknowledged.Sublist events := by
  have hinit : Intact Queue.empty := ⟨[], rfl, List.isChain_nil, List.Sublist.refl _⟩
  obtain ⟨ws, hfile, hsep, hack⟩ :=
    Run.guarded_invariant hinit (fun _ _ _ h hu hq => hq.step h hu) hrun huntorn
  refine ⟨eventsOf ws, ?_, hack⟩
  rw [hfile, read_fileOf hdecode hsep]

/-! ## Two appends -/

def wholeAppend (event : MarketplaceUsageEvent) : Append := ⟨event, [textBytes event], by simp, none⟩

/-- The text is written, and then the write of the newline fails. -/
def unendedAppend (event : MarketplaceUsageEvent) : Append :=
  ⟨event, [textBytes event], by simp, some (1, 0)⟩

section Sample

variable (event : MarketplaceUsageEvent)

theorem written_wholeAppend : (wholeAppend event).written = textBytes event ++ [newline] :=
  written_of_succeeds _ rfl

theorem written_unendedAppend : (unendedAppend event).written = textBytes event :=
  List.append_nil _

theorem append_whole (q : Queue) : appendEventJsonl q (wholeAppend event) =
    some ⟨q.file ++ (textBytes event ++ [newline]), q.acknowledged ++ [event]⟩ := by
  rw [appendEventJsonl, written_wholeAppend]
  rfl

theorem append_unended (q : Queue) : appendEventJsonl q (unendedAppend event) =
    some ⟨q.file ++ textBytes event, q.acknowledged⟩ := by
  rw [appendEventJsonl, written_unendedAppend]
  rfl

end Sample

/-- The event of an append that returned `Ok` shares a line with one that failed, and the file cannot
be read. -/
theorem acknowledged_unread : ∃ (appends : List Append) (q : Queue),
    Run appendEventJsonl Queue.empty appends q ∧ q.acknowledged = [sampleEvent "req-2" 1] ∧
    ∀ events, readEventsJsonl inverseFromStr q.file ≠ .ok events := by
  have hrun : Run appendEventJsonl Queue.empty
      [unendedAppend (sampleEvent "req-1" 1), wholeAppend (sampleEvent "req-2" 1)]
      ⟨fileOf [.text (sampleEvent "req-1" 1), .text (sampleEvent "req-2" 1), .newline],
        [sampleEvent "req-2" 1]⟩ := by
    rw [Run.iff_foldlM]
    simp [append_whole, append_unended, Queue.empty, fileOf, Write.bytes]
  exact ⟨_, _, hrun, rfl, read_shared_line inverse_refusesTrailing (by simp [Separated])⟩

/-- Torn at the end, the queue is still read. -/
theorem acknowledged_read_back_unended : ∃ (q : Queue) (events : List MarketplaceUsageEvent),
    q.acknowledged = [sampleEvent "req-1" 1] ∧
    readEventsJsonl inverseFromStr q.file = .ok events ∧ q.acknowledged.Sublist events := by
  have hrun : Run appendEventJsonl Queue.empty
      [wholeAppend (sampleEvent "req-1" 1), unendedAppend (sampleEvent "req-2" 1)]
      ⟨fileOf [.text (sampleEvent "req-1" 1), .newline, .text (sampleEvent "req-2" 1)],
        [sampleEvent "req-1" 1]⟩ := by
    rw [Run.iff_foldlM]
    simp [append_whole, append_unended, Queue.empty, fileOf, Write.bytes]
  have huntorn : Run.Guarded appendEventJsonl Queue.empty Untorn
      [wholeAppend (sampleEvent "req-1" 1), unendedAppend (sampleEvent "req-2" 1)] := by
    refine Run.guarded_cons (.inr ⟨.inl rfl, ?_⟩) ?_
    · rw [written_wholeAppend]
      exact List.prefix_append _ _
    · intro q hq
      rw [append_whole, Option.some.injEq] at hq
      refine Run.guarded_cons (.inr ⟨.inr ?_, ?_⟩) (fun _ _ => Run.guarded_nil)
      · rw [← hq, ← List.append_assoc, List.getLast?_concat]
      · rw [written_unendedAppend]
        exact List.prefix_rfl
  obtain ⟨events, hread, hsub⟩ :=
    acknowledged_read_back inverseFromStr inverse_decodes _ _ hrun huntorn
  exact ⟨_, events, rfl, hread, hsub⟩

end Metering
end Pzdr
