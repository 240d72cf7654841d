import Pzdr.Interleave
import Pzdr.Metering.Faults

/-!
# Metering.Concurrent

Appends to one file at the same time. The file is opened with `O_APPEND`, so every write lands whole
at the end of the file, but `to_writer` writes a text in many pieces, and the newline is a write of its
own. All events are read back exactly when no append writes anything between the first and the last
write of another one (`concurrent_appends_iff`).

`in_turn_of_lines` goes from the end of the file to its start. The last line is written by the append
that writes the last newline; if this were not the whole text of its event, the reader would refuse it.
-/

namespace Pzdr
namespace Metering

open Lines

/-- The writes of the appends, each in one block. -/
def InTurn (appends : List Append) (ws : List Bytes) : Prop :=
  ∃ order : List Append, order.Perm appends ∧ ws = order.flatMap Append.writes

/-! ## In turn -/

theorem flatten_in_turn (appends : List Append) :
    (appends.flatMap Append.writes).flatten =
      fileOf ((appends.map Append.event).flatMap record) := by
  induction appends with
  | nil => rfl
  | cons a appends ih =>
    rw [List.flatMap_cons, List.flatten_append, flatten_writes, ih, List.map_cons, List.flatMap_cons,
      fileOf_append, fileOf_record]

theorem read_in_turn {fromStr : List Char → Except String MarketplaceUsageEvent}
    (hdecode : Decodes fromStr) {appends : List Append} {ws : List Bytes} (h : InTurn appends ws) :
    ∃ found, readEventsJsonl fromStr ws.flatten = .ok found ∧
      found.Perm (appends.map Append.event) := by
  obtain ⟨order, hperm, rfl⟩ := h
  refine ⟨order.map Append.event, ?_, hperm.map _⟩
  rw [flatten_in_turn, read_records hdecode]

/-! ## The pieces of a text -/

section Pieces

variable {a : Append} {bs : Bytes}

theorem unbroken_chunk (h : bs ∈ a.chunks) : Unbroken bs := by
  intro b hb
  refine textBytes_unbroken a.event b ?_
  rw [← a.chunks_flatten]
  exact List.mem_flatten_of_mem h hb

theorem chunk_ne (h : bs ∈ a.chunks) : bs ≠ [newline] := by
  rintro rfl
  exact (unbroken_chunk h newline List.mem_cons_self).1 rfl

/-- A line that holds an event and ends the text of one is the whole text. -/
theorem whole_of_readLine {fromStr : List Char → Except String MarketplaceUsageEvent}
    (htails : RefusesTails fromStr) {event event' : MarketplaceUsageEvent} {front line : Bytes}
    (hsplit : textBytes event = front ++ line) (h : readLine fromStr line = .ok (some event')) :
    front = [] := by
  rw [readLine] at h
  cases htext : Utf8.decode? line with
  | none =>
    rw [htext] at h
    cases h
  | some text =>
    rw [htext] at h
    dsimp only at h
    split at h
    · cases h
    · rename_i hblank
      have hne : text ≠ [] := by
        rintro rfl
        exact hblank rfl
      rw [textBytes, Utf8.decode?_some htext] at hsplit
      obtain ⟨pre, rfl, hprint⟩ := Utf8.encode_suffix hsplit hne
      cases pre with
      | nil => rfl
      | cons c pre =>
        obtain ⟨message, hmessage⟩ := htails event (c :: pre) text hprint (List.cons_ne_nil c pre)
        rw [hmessage] at h
        cases h

end Pieces

/-! ## From the end of the file -/

section Backwards

variable {rest : List Append} {a : Append} {ws : List Bytes}

/-- The writes back to the newline before them are of the append whose writes end there. -/
theorem last_line : ∀ {front : List Bytes} {ws : List Bytes},
    Merges (front :: rest.map Append.writes) ws → (∀ bs ∈ front, bs ≠ [newline]) →
    ∃ front' line ws', front = front' ++ line ∧ ws = ws' ++ line ∧
      Merges (front' :: rest.map Append.writes) ws' ∧
      (ws' = [] ∨ ws'.getLast? = some [newline]) := by
  intro front ws
  induction ws using List.reverseRecOn generalizing front with
  | nil => exact fun h _ => ⟨front, [], [], by simp, rfl, h, .inl rfl⟩
  | append_singleton ws w ih =>
    intro h hfront
    by_cases hw : w = [newline]
    · exact ⟨front, [], ws ++ [w], by simp, by simp, h, .inr (by simp [hw])⟩
    obtain ⟨l, others, hperm, hmerges⟩ := h.of_concat
    have hmem : l ++ [w] ∈ front :: rest.map Append.writes := hperm.mem_iff.mpr List.mem_cons_self
    rcases List.mem_cons.mp hmem with hl | hl
    · rw [← hl] at hperm hfront
      obtain ⟨front', line, ws', rfl, rfl, hmerges', hlast⟩ :=
        ih (hmerges.of_perm (hperm.cons_inv.symm.cons l))
          (fun bs hbs => hfront bs (List.mem_append_left _ hbs))
      exact ⟨front', line ++ [w], ws', by rw [← hl, List.append_assoc], by rw [List.append_assoc],
        hmerges', hlast⟩
    -- every other append ends with a newline
    · obtain ⟨a, _, ha⟩ := List.mem_map.mp hl
      exact absurd (List.append_inj' ha rfl).2 (by simpa using Ne.symm hw)

theorem merges_last_append {appends : List Append} {w : Bytes}
    (h : Merges (appends.map Append.writes) (ws ++ [w])) :
    ∃ a rest, appends.Perm (a :: rest) ∧ w = [newline] ∧
      Merges (a.chunks :: rest.map Append.writes) ws := by
  obtain ⟨l, others, hperm, hmerges⟩ := h.of_concat
  obtain ⟨a, ha, hwrites⟩ := List.mem_map.mp (hperm.mem_iff.mpr List.mem_cons_self)
  obtain ⟨before, after, rfl⟩ := List.append_of_mem ha
  rw [← hwrites, List.map_append, List.map_cons] at hperm
  have hothers := (hperm.symm.trans List.perm_middle).cons_inv
  obtain ⟨rfl, hw⟩ := List.append_inj' hwrites rfl
  refine ⟨a, before ++ after, List.perm_middle, (List.cons.inj hw).1.symm, ?_⟩
  rw [List.map_append]
  exact hmerges.of_perm (hothers.cons _)

end Backwards

/-- The bytes end where the last of the writes does. -/
theorem ended_flatten {ws : List Bytes} (h : ws = [] ∨ ws.getLast? = some [newline]) :
    Ended ws.flatten := by
  rcases h with rfl | h
  · exact .inl rfl
  · obtain ⟨init, rfl⟩ := List.getLast?_eq_some_iff.mp h
    exact .inr (by simp)

theorem in_turn_of_lines {fromStr : List Char → Except String MarketplaceUsageEvent}
    (htails : RefusesTails fromStr) : ∀ (n : Nat) {appends : List Append} {ws : List Bytes},
    appends.length = n → (∀ a ∈ appends, [] ∉ a.chunks) →
    Merges (appends.map Append.writes) ws →
    (∀ line ∈ lines ws.flatten, ∃ event, readLine fromStr line = .ok (some event)) →
    InTurn appends ws := by
  intro n
  induction n with
  | zero =>
    intro appends ws hlen _ hmerge _
    obtain rfl := List.length_eq_zero_iff.mp hlen
    exact ⟨[], .refl _, List.perm_nil.mp hmerge.perm⟩
  | succ n ih =>
    intro appends ws hlen hchunks hmerge hlines
    rcases List.eq_nil_or_concat' ws with rfl | ⟨ws, w, rfl⟩
    · obtain ⟨a, appends, rfl⟩ := List.exists_cons_of_length_eq_add_one hlen
      have hnil := hmerge.eq_nil a.writes (by simp)
      simp [Append.writes] at hnil
    obtain ⟨a, rest, hperm, rfl, hrest⟩ := merges_last_append hmerge
    obtain ⟨front, line, ws', hsplit, rfl, hbefore, hlast⟩ := last_line hrest fun bs => chunk_ne
    have hunbroken : Unbroken line.flatten := by
      intro b hb
      refine textBytes_unbroken a.event b ?_
      rw [← a.chunks_flatten, hsplit, List.flatten_append]
      exact List.mem_append_right _ hb
    have hfile : lines ((ws' ++ line) ++ [[newline]]).flatten =
        lines ws'.flatten ++ [line.flatten] := by
      rw [List.append_assoc, List.flatten_append, (lines_concat (ended_flatten hlast) _).1,
        List.flatten_append, List.flatten_singleton, lines_record hunbroken]
    rw [hfile, List.forall_mem_append] at hlines
    -- the last line is a whole text, so the append has written nothing before it
    obtain ⟨event, hevent⟩ := hlines.2 _ List.mem_cons_self
    have hempty : front.flatten = [] := by
      have htext : textBytes a.event = front.flatten ++ line.flatten := by
        rw [← a.chunks_flatten, hsplit, List.flatten_append]
      exact whole_of_readLine htails htext hevent
    have hmem := hperm.symm.subset List.mem_cons_self
    have hfront : front = [] := by
      cases front with
      | nil => rfl
      | cons bs front =>
        refine absurd ?_ (hchunks a hmem)
        rw [hsplit]
        exact List.mem_append_left _ (by
          rw [(List.append_eq_nil_iff.mp hempty).1]
          exact List.mem_cons_self)
    subst hfront
    have hlen' : rest.length = n := by
      have := hperm.length_eq
      rw [hlen, List.length_cons] at this
      omega
    obtain ⟨order, horder, rfl⟩ := ih hlen'
      (fun b hb => hchunks b (hperm.symm.subset (List.mem_cons_of_mem _ hb))) hbefore.of_nil_cons
      hlines.1
    refine ⟨order ++ [a], ?_, ?_⟩
    · exact ((List.perm_append_singleton a order).trans (horder.cons a)).trans hperm.symm
    · rw [List.flatMap_append, List.flatMap_singleton, Append.writes, hsplit, List.nil_append,
        List.append_assoc]

/-! ## All events read back -/

theorem count_writes (appends : List Append) :
    ((appends.map Append.writes).flatten.flatten).count newline = appends.length := by
  induction appends with
  | nil => rfl
  | cons a appends ih =>
    have htext : (textBytes a.event).count newline = 0 :=
      List.count_eq_zero.mpr fun h => (textBytes_unbroken a.event newline h).1 rfl
    rw [List.map_cons, List.flatten_cons, List.flatten_append, List.count_append, ih,
      flatten_writes, List.count_append, htext, List.length_cons]
    simp
    omega

/-- As many events as lines: no line is blank. -/
theorem readLines_full {fromStr : List Char → Except String MarketplaceUsageEvent}
    {ls : List Bytes} {found : List MarketplaceUsageEvent} (h : readLines fromStr ls = .ok found)
    (hlen : ls.length ≤ found.length) :
    ∀ line ∈ ls, ∃ event, readLine fromStr line = .ok (some event) := by
  induction ls generalizing found with
  | nil => simp
  | cons line ls ih =>
    simp only [readLines, Except.bind_eq_ok, pure, Except.pure, Except.ok.injEq] at h
    obtain ⟨event, hline, rest, hrest, rfl⟩ := h
    have hle := length_readLines hrest
    cases event with
    | none =>
      simp at hlen
      omega
    | some event =>
      refine List.forall_mem_cons.mpr ⟨⟨event, hline⟩, ih hrest ?_⟩
      simpa using hlen

theorem concurrent_appends_iff (fromStr : List Char → Except String MarketplaceUsageEvent)
    (hdecode : Decodes fromStr) (htails : RefusesTails fromStr) (appends : List Append)
    (hchunks : ∀ a ∈ appends, [] ∉ a.chunks) (ws : List Bytes)
    (hmerge : Merges (appends.map Append.writes) ws) :
    (∃ found, readEventsJsonl fromStr ws.flatten = .ok found ∧
      found.Perm (appends.map Append.event)) ↔ InTurn appends ws := by
  constructor
  · rintro ⟨found, hread, hperm⟩
    refine in_turn_of_lines htails _ rfl hchunks hmerge (readLines_full hread ?_)
    have hended : Ended ws.flatten := by
      refine ended_flatten ?_
      rcases List.eq_nil_or_concat' ws with rfl | ⟨ws, w, rfl⟩
      · exact .inl rfl
      · obtain ⟨_, _, _, rfl, _⟩ := merges_last_append hmerge
        exact .inr (by simp)
    have hcount := (lines_concat hended []).2
    rw [(hmerge.perm.flatten.count_eq newline), count_writes] at hcount
    rw [hcount, hperm.length_eq, List.length_map]
  · exact read_in_turn hdecode

/-! ## Two appends -/

/-- The first byte of the text and the others are written apart. -/
def tornAppend (event : MarketplaceUsageEvent) : Append :=
  ⟨event, [(textBytes event).take 1, (textBytes event).drop 1],
    by rw [List.flatten_cons, List.flatten_singleton, List.take_append_drop], none⟩

section Sample

variable (event : MarketplaceUsageEvent)

theorem textBytes_start : ∃ cs : List Char,
    event.toJson.print = '\x7b' :: '"' :: cs ∧ textBytes event = 0x7B :: Utf8.encode ('"' :: cs) := by
  obtain ⟨cs, hcs⟩ := print_toJson_start event
  exact ⟨'p' :: cs, hcs, by rw [textBytes, hcs]; rfl⟩

theorem tornAppend_chunks : [] ∉ (tornAppend event).chunks := by
  obtain ⟨cs, _, hbytes⟩ := textBytes_start event
  have hne := Utf8.encodeChar_ne_nil '"'
  simp [tornAppend, hbytes, hne]

/-- Without its first byte no text is read. -/
theorem readLine_drop : ∃ e, readLine inverseFromStr ((textBytes event).drop 1) = .error e := by
  obtain ⟨cs, hprint, hbytes⟩ := textBytes_start event
  obtain ⟨message, hmessage⟩ := inverse_refusesTails event ['\x7b'] ('"' :: cs) hprint
    (List.cons_ne_nil _ _)
  have hblank : isBlank ('"' :: cs) = false := rfl
  refine ⟨.json message, ?_⟩
  rw [hbytes, List.drop_one, List.tail_cons, readLine, Utf8.decode?_encode]
  simp only [hblank, hmessage]
  rfl

end Sample

/-- The second append writes everything while the first has written one byte. -/
theorem concurrent_appends_overlap : ∃ (appends : List Append) (ws : List Bytes),
    (∀ a ∈ appends, [] ∉ a.chunks) ∧ Merges (appends.map Append.writes) ws ∧
    appends.map Append.event = [sampleEvent "req-1" 1, sampleEvent "req-2" 1] ∧
    ∀ found, readEventsJsonl inverseFromStr ws.flatten ≠ .ok found := by
  generalize sampleEvent "req-1" 1 = event
  generalize sampleEvent "req-2" 1 = event'
  refine ⟨[tornAppend event, tornAppend event'], (textBytes event).take 1 ::
    ((tornAppend event').writes ++ [(textBytes event).drop 1, [newline]]), ?_, ?_, rfl, ?_⟩
  · simp [tornAppend_chunks]
  · have hrest : Merges [(tornAppend event').writes, [(textBytes event).drop 1, [newline]]]
        ((tornAppend event').writes ++ [(textBytes event).drop 1, [newline]]) := by
      simpa using Merges.sequential [(tornAppend event').writes,
        [(textBytes event).drop 1, [newline]]]
    exact @Merges.cons _ [] _ _ _ _ (hrest.of_perm (.swap _ _ _))
  · intro found hread
    have hbefore : Ended ((textBytes event).take 1 ++ (tornAppend event').writes.flatten) := by
      rw [flatten_writes, ← List.append_assoc]
      exact .inr List.getLast?_concat
    have hunbroken : Unbroken ((textBytes event).drop 1) :=
      fun b hb => textBytes_unbroken event b (List.mem_of_mem_drop hb)
    have hfile : ((textBytes event).take 1 ::
        ((tornAppend event').writes ++ [(textBytes event).drop 1, [newline]])).flatten =
        ((textBytes event).take 1 ++ (tornAppend event').writes.flatten) ++
          ((textBytes event).drop 1 ++ [newline]) := by
      simp
    rw [readEventsJsonl, hfile, (lines_concat hbefore _).1, lines_record hunbroken,
      readLines_append] at hread
    obtain ⟨_, _, _, hlast, _⟩ := hread
    obtain ⟨e, he⟩ := readLine_drop event
    rw [readLines, he] at hlast
    cases hlast

theorem concurrent_appends_in_turn : ∃ found,
    readEventsJsonl inverseFromStr ([tornAppend (sampleEvent "req-1" 1),
      tornAppend (sampleEvent "req-2" 1)].map Append.writes).flatten.flatten = .ok found ∧
    found.Perm [sampleEvent "req-1" 1, sampleEvent "req-2" 1] :=
  (concurrent_appends_iff inverseFromStr inverse_decodes inverse_refusesTails
    [tornAppend (sampleEvent "req-1" 1), tornAppend (sampleEvent "req-2" 1)]
    (by simp [tornAppend_chunks]) _ (Merges.sequential _)).mpr ⟨_, .refl _, rfl⟩

end Metering
end Pzdr
