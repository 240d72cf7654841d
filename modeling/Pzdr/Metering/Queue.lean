import Pzdr.Json.Flat
import Pzdr.Lines
import Pzdr.Metering.Event

/-!
# Metering.Queue

`append_event_jsonl` and `read_events_jsonl`: the queue of events is a file with one JSON text on a
line. `fromStr` is `serde_json::from_str`.

The file that whole texts and newlines make, in any order, is read back just when no two texts share
a line (`read_fileOf`, `read_shared_line`).
-/

namespace Pzdr
namespace Metering

open Lines

def textBytes (event : MarketplaceUsageEvent) : Bytes := Utf8.encode event.toJson.print

section Text

variable (event : MarketplaceUsageEvent)

theorem print_toJson_start : ∃ cs, event.toJson.print = '\x7b' :: '"' :: 'p' :: cs := by
  have hkey : "product_code".toList = 'p' :: "roduct_code".toList := by decide
  rw [MarketplaceUsageEvent.toJson, Json.print_obj, Json.printRecord, List.map_cons, Json.joinComma,
    Json.printField, Json.quote, hkey, List.flatMap_cons]
  exact ⟨_, rfl⟩

theorem print_toJson_head : ∃ cs, event.toJson.print = '\x7b' :: cs := by
  obtain ⟨cs, hcs⟩ := print_toJson_start event
  exact ⟨_, hcs⟩

theorem isBlank_print_append (cs : List Char) : isBlank (event.toJson.print ++ cs) = false := by
  obtain ⟨ds, hds⟩ := print_toJson_head event
  rw [hds]
  rfl

theorem textBytes_ne_nil : textBytes event ≠ [] := by
  obtain ⟨cs, hcs⟩ := print_toJson_head event
  rw [textBytes, hcs, Utf8.encode_cons]
  simp

theorem textBytes_unbroken : Unbroken (textBytes event) := by
  intro b hb
  have hle := Utf8.le_of_mem_encode event.toJson.print_printable hb
  constructor
  · rintro rfl
    exact absurd hle (by decide)
  · rintro rfl
    exact absurd hle (by decide)

end Text

/-! ## Reading -/

section Read

variable (fromStr : List Char → Except String MarketplaceUsageEvent)

/-- One round of the loop; a blank line gives no event. -/
def readLine (line : Bytes) : Except MeteringError (Option MarketplaceUsageEvent) :=
  match Utf8.decode? line with
  | none => .error (.io "stream did not contain valid UTF-8")
  | some text =>
    if isBlank text then .ok none
    else ((fromStr text).mapError .json).map some

def readLines : List Bytes → Except MeteringError (List MarketplaceUsageEvent)
  | [] => .ok []
  | line :: rest => do
    let event ← readLine fromStr line
    let events ← readLines rest
    return event.toList ++ events

def readEventsJsonl (file : Bytes) : Except MeteringError (List MarketplaceUsageEvent) :=
  readLines fromStr (lines file)

/-- Decoding undoes encoding. -/
def Decodes : Prop := ∀ event : MarketplaceUsageEvent, fromStr event.toJson.print = .ok event

/-- After an event, a text may only go on with white space. -/
def RefusesTrailing : Prop :=
  ∀ (event : MarketplaceUsageEvent) (c : Char) (cs : List Char), c ∉ [' ', '\t', '\n', '\r'] →
    ∃ message, fromStr (event.toJson.print ++ c :: cs) = .error message

/-- The text of an event without its beginning is not that of an event. -/
def RefusesTails : Prop :=
  ∀ (event : MarketplaceUsageEvent) (cs ds : List Char), event.toJson.print = cs ++ ds → cs ≠ [] →
    ∃ message, fromStr ds = .error message

variable {fromStr}

theorem readLines_append {ls ls' : List Bytes} {events : List MarketplaceUsageEvent} :
    readLines fromStr (ls ++ ls') = .ok events ↔ ∃ first rest, readLines fromStr ls = .ok first ∧
      readLines fromStr ls' = .ok rest ∧ events = first ++ rest := by
  induction ls generalizing events with
  | nil => simp [readLines]
  | cons line ls ih =>
    simp only [List.cons_append, readLines, Except.bind_eq_ok, ih, pure, Except.pure,
      Except.ok.injEq]
    constructor
    · rintro ⟨event, hline, _, ⟨first, rest, hfirst, hrest, rfl⟩, rfl⟩
      exact ⟨_, rest, ⟨event, hline, first, hfirst, rfl⟩, hrest, (List.append_assoc _ _ _).symm⟩
    · rintro ⟨_, rest, ⟨event, hline, first, hfirst, rfl⟩, hrest, rfl⟩
      exact ⟨event, hline, _, ⟨first, rest, hfirst, hrest, rfl⟩, (List.append_assoc _ _ _).symm⟩

/-- A line holds one event at most. -/
theorem length_readLines {ls : List Bytes} {events : List MarketplaceUsageEvent}
    (h : readLines fromStr ls = .ok events) : events.length ≤ ls.length := by
  induction ls generalizing events with
  | nil =>
    cases h
    exact Nat.le_refl 0
  | cons line ls ih =>
    simp only [readLines, Except.bind_eq_ok, pure, Except.pure, Except.ok.injEq] at h
    obtain ⟨event, _, rest, hrest, rfl⟩ := h
    have hlen := ih hrest
    cases event <;> simp <;> omega

theorem readLines_isOk {ls : List Bytes} : (∃ events, readLines fromStr ls = .ok events) ↔
    ∀ line ∈ ls, ∃ event, readLine fromStr line = .ok event := by
  induction ls with
  | nil => simp [readLines]
  | cons line rest ih =>
    rw [List.forall_mem_cons, ← ih]
    simp only [readLines, Except.bind_eq_ok, pure, Except.pure, Except.ok.injEq]
    constructor
    · rintro ⟨_, event, hline, events, hrest, _⟩
      exact ⟨⟨event, hline⟩, events, hrest⟩
    · rintro ⟨⟨event, hline⟩, events, hrest⟩
      exact ⟨_, event, hline, events, hrest, rfl⟩

/-- The texts of the lines that are not blank. -/
def texts (file : Bytes) : List (List Char) :=
  ((lines file).filterMap Utf8.decode?).filter (fun text => !isBlank text)

end Read

/-! ## The writes of appends -/

/-- A write of `append_event_jsonl`. -/
inductive Write where
  | text (event : MarketplaceUsageEvent)
  | newline
  deriving DecidableEq

def Write.bytes : Write → Bytes
  | .text event => textBytes event
  | .newline => [Lines.newline]

def Write.event? : Write → Option MarketplaceUsageEvent
  | .text event => some event
  | .newline => none

/-- The file after these writes. -/
def fileOf (ws : List Write) : Bytes := ws.flatMap Write.bytes

def eventsOf (ws : List Write) : List MarketplaceUsageEvent := ws.filterMap Write.event?

/-- The events of each line. -/
def groups : List Write → List (List MarketplaceUsageEvent)
  | [] => []
  | .text event :: ws => prepend [event] (groups ws)
  | .newline :: ws => [] :: groups ws

/-- No text is written right after another one. -/
def Separated (ws : List Write) : Prop := ws.IsChain (fun w w' => w = .newline ∨ w' = .newline)

theorem flatten_groups (ws : List Write) : (groups ws).flatten = eventsOf ws := by
  induction ws with
  | nil => rfl
  | cons w ws ih =>
    cases w with
    | text event => rw [groups, flatten_prepend, ih]; rfl
    | newline => rw [groups, List.flatten_cons, ih]; rfl

/-- The lines of the file are the texts of the groups. -/
theorem lines_fileOf (ws : List Write) :
    lines (fileOf ws) = (groups ws).map (List.flatMap textBytes) := by
  induction ws with
  | nil => rfl
  | cons w ws ih =>
    rw [fileOf, List.flatMap_cons, ← fileOf]
    cases w with
    | text event =>
      rw [Write.bytes, lines_append (textBytes_ne_nil event) (textBytes_unbroken event), ih, groups,
        map_flatMap_prepend, List.flatMap_singleton]
    | newline => rw [Write.bytes, List.singleton_append, lines_newline, ih]; rfl

theorem separated_iff {ws : List Write} : Separated ws ↔ ∀ g ∈ groups ws, g.length ≤ 1 := by
  unfold Separated
  induction ws with
  | nil => simp [groups]
  | cons w ws ih =>
    cases w with
    | newline =>
      rw [groups, List.forall_mem_cons, ← ih]
      cases ws with
      | nil => simp
      | cons w' ws => simp
    | text event =>
      cases ws with
      | nil => simp [groups, prepend]
      | cons w' ws =>
        rw [List.isChain_cons_cons, ih]
        cases w' with
        | newline => simp [groups, prepend]
        | text event' =>
          -- two texts in a row share a line
          simp only [reduceCtorEq, or_self, false_and, false_iff, groups]
          cases groups ws with
          | nil => simp [prepend]
          | cons g gs => simp [prepend]

/-! ## Reading what was written -/

section ReadWrites

variable {fromStr : List Char → Except String MarketplaceUsageEvent}

theorem readLine_text (hdecode : Decodes fromStr) (event : MarketplaceUsageEvent) :
    readLine fromStr (textBytes event) = .ok (some event) := by
  have hblank := isBlank_print_append event []
  rw [List.append_nil] at hblank
  rw [readLine, textBytes, Utf8.decode?_encode]
  simp only [hblank, hdecode event]
  rfl

theorem readLine_texts (htrailing : RefusesTrailing fromStr) (event event' : MarketplaceUsageEvent)
    (g : List MarketplaceUsageEvent) :
    ∃ err, readLine fromStr ((event :: event' :: g).flatMap textBytes) = .error err := by
  have hbytes : (event :: event' :: g).flatMap textBytes = Utf8.encode
      (event.toJson.print ++ (event'.toJson.print ++ g.flatMap (fun e => e.toJson.print))) := by
    have htexts : ∀ g : List MarketplaceUsageEvent, g.flatMap textBytes =
        Utf8.encode (g.flatMap (fun e => e.toJson.print)) := by
      intro g
      induction g with
      | nil => rfl
      | cons e g ih => rw [List.flatMap_cons, List.flatMap_cons, Utf8.encode_append, ih]; rfl
    rw [htexts, List.flatMap_cons, List.flatMap_cons]
  obtain ⟨cs, hcs⟩ := print_toJson_head event'
  obtain ⟨message, hmessage⟩ := htrailing event '\x7b'
    (cs ++ g.flatMap (fun e => e.toJson.print)) (by decide)
  refine ⟨.json message, ?_⟩
  rw [hbytes, readLine, Utf8.decode?_encode]
  simp only [isBlank_print_append]
  rw [hcs, List.cons_append, hmessage]
  rfl

theorem readLines_groups (hdecode : Decodes fromStr) {gs : List (List MarketplaceUsageEvent)}
    (h : ∀ g ∈ gs, g.length ≤ 1) :
    readLines fromStr (gs.map (List.flatMap textBytes)) = .ok gs.flatten := by
  induction gs with
  | nil => rfl
  | cons g gs ih =>
    rw [List.forall_mem_cons] at h
    rw [List.map_cons, readLines, ih h.2, List.flatten_cons]
    match g, h.1 with
    | [], _ => rfl
    | [event], _ =>
      rw [List.flatMap_singleton, readLine_text hdecode]
      rfl
    | _ :: _ :: _, hlen => simp only [List.length_cons] at hlen; omega

theorem read_fileOf (hdecode : Decodes fromStr) {ws : List Write} (h : Separated ws) :
    readEventsJsonl fromStr (fileOf ws) = .ok (eventsOf ws) := by
  rw [readEventsJsonl, lines_fileOf, readLines_groups hdecode (separated_iff.mp h), flatten_groups]

/-- Two texts on one line make the whole file unreadable. -/
theorem read_shared_line (htrailing : RefusesTrailing fromStr) {ws : List Write}
    (h : ¬ Separated ws) (events : List MarketplaceUsageEvent) :
    readEventsJsonl fromStr (fileOf ws) ≠ .ok events := by
  intro hread
  apply h
  rw [separated_iff]
  intro g hg
  rw [readEventsJsonl, lines_fileOf] at hread
  obtain ⟨event, hline⟩ := readLines_isOk.mp ⟨events, hread⟩ _ (List.mem_map_of_mem hg)
  cases g with
  | nil => exact Nat.zero_le 1
  | cons e g =>
    cases g with
    | nil => exact Nat.le_refl 1
    | cons e' g =>
      obtain ⟨err, herr⟩ := readLine_texts htrailing e e' g
      rw [herr] at hline
      cases hline

end ReadWrites

/-! ## Records -/

/-- An event on a line of its own. -/
def record (event : MarketplaceUsageEvent) : List Write := [.text event, .newline]

theorem fileOf_append (ws ws' : List Write) : fileOf (ws ++ ws') = fileOf ws ++ fileOf ws' :=
  List.flatMap_append

theorem eventsOf_append (ws ws' : List Write) : eventsOf (ws ++ ws') = eventsOf ws ++ eventsOf ws' :=
  List.filterMap_append

theorem separated_append {ws ws' : List Write} (h : Separated ws) (h' : Separated ws')
    (hlast : ∀ w ∈ ws.getLast?, w = .newline) : Separated (ws ++ ws') :=
  List.isChain_append.mpr ⟨h, h', fun w hw _ _ => .inl (hlast w hw)⟩

theorem fileOf_record (event : MarketplaceUsageEvent) :
    fileOf (record event) = textBytes event ++ [Lines.newline] := by
  simp [fileOf, record, Write.bytes]

theorem separated_records (events : List MarketplaceUsageEvent) :
    Separated (events.flatMap record) ∧ ∀ w ∈ (events.flatMap record).getLast?, w = .newline := by
  induction events with
  | nil => simp [Separated]
  | cons event events ih =>
    refine ⟨separated_append (by simp [Separated, record]) ih.1 (by simp [record]), ?_⟩
    intro w hw
    rw [List.flatMap_cons, List.getLast?_append] at hw
    cases hlast : (events.flatMap record).getLast? with
    | none =>
      rw [hlast] at hw
      simpa [record, eq_comm] using hw
    | some w' =>
      rw [hlast] at hw
      exact (Option.some.inj hw) ▸ ih.2 w' hlast

theorem eventsOf_records (events : List MarketplaceUsageEvent) :
    eventsOf (events.flatMap record) = events := by
  induction events with
  | nil => rfl
  | cons event events ih =>
    rw [List.flatMap_cons, eventsOf_append, ih]
    rfl

theorem read_records {fromStr : List Char → Except String MarketplaceUsageEvent}
    (hdecode : Decodes fromStr) (events : List MarketplaceUsageEvent) :
    readEventsJsonl fromStr (fileOf (events.flatMap record)) = .ok events := by
  rw [read_fileOf hdecode (separated_records events).1, eventsOf_records]

/-! ## A decoder to run the model on -/

/-- The inverse of the encoder. -/
noncomputable def inverseFromStr (text : List Char) : Except String MarketplaceUsageEvent :=
  match Function.partialInv (fun event : MarketplaceUsageEvent => event.toJson.print) text with
  | some event => .ok event
  | none => .error "trailing characters"

theorem injective_print_toJson :
    Function.Injective (fun event : MarketplaceUsageEvent => event.toJson.print) :=
  fun _ _ h => toJson_injective (Json.print_injective h)

theorem inverse_decodes : Decodes inverseFromStr := by
  intro event
  rw [inverseFromStr, Function.partialInv_left injective_print_toJson event]

theorem inverse_refusesTrailing : RefusesTrailing inverseFromStr := by
  intro event c cs _
  refine ⟨"trailing characters", ?_⟩
  unfold inverseFromStr
  split
  · rename_i event' hevent'
    have htext := (injective_print_toJson.isPartialInv _ _).mp hevent'
    simp only [MarketplaceUsageEvent.toJson, Json.print_obj] at htext
    obtain ⟨_, hrest⟩ := Json.printRecord_append_inj
      (fun x _ y _ => Json.print_append_inj x.2 y.2) ((List.append_nil _).trans htext)
    cases hrest
  · rfl

theorem inverse_refusesTails : RefusesTails inverseFromStr := by
  intro event cs ds h hne
  refine ⟨"trailing characters", ?_⟩
  unfold inverseFromStr
  split
  · rename_i event' hevent'
    have htext := (injective_print_toJson.isPartialInv _ _).mp hevent'
    obtain ⟨rest, hrest⟩ := print_toJson_start event'
    rw [← htext, hrest, MarketplaceUsageEvent.toJson] at h
    have hkey := Json.flat_tail (by simp [Json.IsFlat]) h hne
    cases hkey
  · rfl

end Metering
end Pzdr
