import Pzdr.Json.Print

/-!
# Json.Flat

Texts of objects whose values are strings and numbers. Outside its strings such a text has only
punctuation and digits, so what is left of it after a cut is not the text of an object again
(`flat_tail`): its brace would be one of a string, and its first key would stand outside.
-/

namespace Json

/-- Where a character of a text stands. -/
inductive Place where
  | outside
  | inString
  | escaped
  deriving DecidableEq, Repr

def Place.next : Place → Char → Place
  | .outside, c => if c = '"' then .inString else .outside
  | .inString, c => if c = '"' then .outside else if c = '\\' then .escaped else .inString
  | .escaped, _ => .inString

/-- Whether the character can stand there, behind the first brace of the text. -/
def Place.admits : Place → Char → Bool
  | .outside, c => isNumChar c || c == '"' || c == ':' || c == ',' || c == '}'
  | .inString, _ => true
  | .escaped, c => c != '{'

def Place.scan : Place → List Char → Bool
  | _, [] => true
  | p, c :: cs => p.admits c && (p.next c).scan cs

theorem Place.scan_append (p : Place) (cs ds : List Char) :
    p.scan (cs ++ ds) = (p.scan cs && (cs.foldl next p).scan ds) := by
  induction cs generalizing p with
  | nil => rfl
  | cons c cs ih => rw [List.cons_append, scan, scan, ih, Bool.and_assoc, List.foldl_cons]

/-- The text is scanned, and leaves the scanner outside of a string again. -/
def Closed (cs : List Char) : Prop :=
  Place.outside.scan cs = true ∧ cs.foldl Place.next .outside = .outside

theorem closed_nil : Closed [] := ⟨rfl, rfl⟩

theorem Closed.append {cs ds : List Char} (h : Closed cs) (h' : Closed ds) : Closed (cs ++ ds) := by
  constructor
  · rw [Place.scan_append, h.1, h.2, h'.1]
    rfl
  · rw [List.foldl_append, h.2, h'.2]

theorem Closed.cons {c : Char} {cs : List Char} (h : Closed cs)
    (hc : Place.outside.admits c = true) (hquote : c ≠ '"') : Closed (c :: cs) := by
  have hnext : Place.outside.next c = .outside := if_neg hquote
  constructor
  · rw [Place.scan, hc, hnext, h.1]
    rfl
  · rw [List.foldl_cons, hnext, h.2]

theorem closed_num (i : Int) : Closed (toString i).toList := by
  have hall : ∀ cs : List Char, (∀ c ∈ cs, isNumChar c = true) → Closed cs := by
    intro cs
    induction cs with
    | nil => exact fun _ => closed_nil
    | cons c cs ih =>
      intro h
      rw [List.forall_mem_cons] at h
      refine (ih h.2).cons ?_ ?_
      · rw [Place.admits, h.1]
        rfl
      · rintro rfl
        cases h.1
  exact hall _ fun _ => isNumChar_of_mem_toString

theorem scan_escape (c : Char) :
    Place.inString.scan (escape c) = true ∧ (escape c).foldl Place.next .inString = .inString := by
  unfold escape
  split
  · rename_i d hd
    unfold shortEscape at hd
    split at hd <;> cases hd <;> exact ⟨rfl, rfl⟩
  · rename_i hnone
    split
    · rename_i hlt
      have hdigit : ∀ n < 16, Nat.digitChar n ≠ '"' ∧ Nat.digitChar n ≠ '\\' := by decide
      obtain ⟨h1, h1'⟩ := hdigit (c.toNat / 16) (by omega)
      obtain ⟨h2, h2'⟩ := hdigit (c.toNat % 16) (by omega)
      simp [Place.scan, Place.admits, Place.next, h1, h1', h2, h2']
    · obtain ⟨hquote, hslash⟩ := shortEscape_none hnone
      simp [Place.scan, Place.admits, Place.next, hquote, hslash]

theorem closed_quote (s : String) : Closed (quote s) := by
  have hinside : ∀ cs : List Char, Place.inString.scan (cs.flatMap escape) = true ∧
      (cs.flatMap escape).foldl Place.next .inString = .inString := by
    intro cs
    induction cs with
    | nil => exact ⟨rfl, rfl⟩
    | cons c cs ih =>
      obtain ⟨hscan, hnext⟩ := scan_escape c
      rw [List.flatMap_cons, Place.scan_append, List.foldl_append, hscan, hnext]
      exact ih
  obtain ⟨hscan, hnext⟩ := hinside s.toList
  constructor
  · rw [quote, List.cons_append, Place.scan, Place.scan_append]
    simp only [Place.next, if_true, hscan, hnext]
    rfl
  · rw [quote, List.cons_append, List.foldl_cons, List.foldl_append]
    simp only [Place.next, if_true, hnext]
    rfl

/-- A string or a number. -/
def IsFlat : Json → Prop
  | .str _ => True
  | .num _ => True
  | _ => False

theorem closed_field {field : String × Json} (h : IsFlat field.2) :
    Closed (printField print field) := by
  have hvalue : Closed (print field.2) := by
    cases hv : field.2 with
    | str s => exact closed_quote s
    | num i => exact closed_num i
    | _ =>
      rw [hv] at h
      exact h.elim
  exact (closed_quote field.1).append (hvalue.cons (by decide) (by decide))

theorem closed_joinComma {ts : List (List Char)} (h : ∀ t ∈ ts, Closed t) :
    Closed (joinComma ts) := by
  cases ts with
  | nil => exact closed_nil
  | cons t ts =>
    rw [List.forall_mem_cons] at h
    refine h.1.append ?_
    have hrest := h.2
    clear h
    induction ts with
    | nil => exact closed_nil
    | cons t' ts ih =>
      rw [List.forall_mem_cons] at hrest
      rw [List.flatMap_cons]
      exact (hrest.1.cons (by decide) (by decide)).append (ih hrest.2)

/-- The end of a flat text that begins like an object has a key that begins like one of the
characters outside of strings. -/
theorem flat_tail {fields : List (String × Json)} (hflat : ∀ field ∈ fields, IsFlat field.2)
    {cs rest : List Char} {c : Char}
    (h : print (.obj fields) = cs ++ '{' :: '"' :: c :: rest) (hne : cs ≠ []) :
    Place.outside.admits c = true := by
  rw [print_obj, printRecord, List.cons_append] at h
  obtain ⟨b, cs, rfl⟩ := List.ne_nil_iff_exists_cons.mp hne
  rw [List.cons_append] at h
  have hclosed : Closed (joinComma (fields.map (printField print)) ++ ['}']) := by
    refine (closed_joinComma ?_).append (closed_nil.cons (by decide) (by decide))
    exact List.forall_mem_map.mpr fun field hfield => closed_field (hflat field hfield)
  have hscan := hclosed.1
  rw [(List.cons.inj h).2, Place.scan_append, Bool.and_eq_true] at hscan
  -- where the brace stands
  cases hplace : cs.foldl Place.next .outside with
  | outside =>
    rw [hplace] at hscan
    cases hscan.2
  | escaped =>
    rw [hplace] at hscan
    cases hscan.2
  | inString =>
    have hkey := hscan.2
    rw [hplace] at hkey
    simp only [Place.scan, Place.next, Bool.and_eq_true] at hkey
    exact hkey.2.2.1

end Json
