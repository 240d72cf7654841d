import Mathlib

/-!
# Lines

A byte string as the lines of a file, as a buffered reader gives them: a line ends at a newline or
at the end of the file, and a carriage return before the newline belongs to the line end.

`lines_append`: text without line ends is put in front of the first line. `lines_concat`: behind whole
lines, the lines of what follows are added.
-/

namespace Lines

def newline : UInt8 := 0x0A

def carriageReturn : UInt8 := 0x0D

/-- `p` in front of the first of these lines, or alone. -/
def prepend {α : Type*} (p : List α) : List (List α) → List (List α)
  | [] => [p]
  | l :: ls => (p ++ l) :: ls

def lines : List UInt8 → List (List UInt8)
  | [] => []
  | b :: bs =>
    if b = newline then [] :: lines bs
    else if b = carriageReturn ∧ bs.head? = some newline then lines bs
    else prepend [b] (lines bs)

/-- No byte of the text belongs to a line end. -/
def Unbroken (p : List UInt8) : Prop := ∀ b ∈ p, b ≠ newline ∧ b ≠ carriageReturn

@[simp] theorem lines_nil : lines [] = [] := rfl

@[simp] theorem lines_newline (bs : List UInt8) : lines (newline :: bs) = [] :: lines bs := by
  rw [lines, if_pos rfl]

section Prepend

variable {α β : Type*}

theorem prepend_append {p q : List α} (ls : List (List α)) :
    prepend p (prepend q ls) = prepend (p ++ q) ls := by
  cases ls with
  | nil => rfl
  | cons l ls => rw [prepend, prepend, prepend, List.append_assoc]

theorem map_flatMap_prepend (f : α → List β) (p : List α) (ls : List (List α)) :
    (prepend p ls).map (List.flatMap f) = prepend (p.flatMap f) (ls.map (List.flatMap f)) := by
  cases ls with
  | nil => rfl
  | cons l ls => simp [prepend]

@[simp] theorem flatten_prepend (p : List α) (ls : List (List α)) :
    (prepend p ls).flatten = p ++ ls.flatten := by
  cases ls with
  | nil => simp [prepend]
  | cons l ls => simp [prepend]

end Prepend

theorem lines_append {p : List UInt8} (hne : p ≠ []) (h : Unbroken p) (bs : List UInt8) :
    lines (p ++ bs) = prepend p (lines bs) := by
  induction p with
  | nil => exact absurd rfl hne
  | cons b p ih =>
    have hb := h b List.mem_cons_self
    have hfirst : lines (b :: (p ++ bs)) = prepend [b] (lines (p ++ bs)) := by
      rw [lines, if_neg hb.1, if_neg (fun hcr => hb.2 hcr.1)]
    rw [List.cons_append, hfirst]
    by_cases hp : p = []
    · rw [hp, List.nil_append]
    · rw [ih hp (fun c hc => h c (List.mem_cons_of_mem _ hc)), prepend_append,
        List.singleton_append]

/-- The bytes are whole lines. -/
def Ended (bs : List UInt8) : Prop := bs = [] ∨ bs.getLast? = some newline

theorem Ended.of_cons {b : UInt8} {bs : List UInt8} (h : Ended (b :: bs)) :
    Ended bs ∧ (bs = [] → b = newline) := by
  rw [Ended, or_iff_right (List.cons_ne_nil b bs)] at h
  cases bs with
  | nil => exact ⟨.inl rfl, fun _ => Option.some.inj h⟩
  | cons c bs =>
    rw [List.getLast?_cons_cons] at h
    exact ⟨.inr h, fun hnil => by cases hnil⟩

theorem lines_concat {bs : List UInt8} (h : Ended bs) (cs : List UInt8) :
    lines (bs ++ cs) = lines bs ++ lines cs ∧ (lines bs).length = bs.count newline := by
  induction bs with
  | nil => simp
  | cons b bs ih =>
    obtain ⟨hended, hlast⟩ := h.of_cons
    obtain ⟨ih, hlen⟩ := ih hended
    by_cases hb : b = newline
    · subst hb
      rw [List.cons_append, lines_newline, lines_newline, ih, List.cons_append, List.length_cons,
        List.count_cons_self, hlen]
      exact ⟨rfl, rfl⟩
    · have hne : bs ≠ [] := fun hnil => hb (hlast hnil)
      rw [List.cons_append, lines, lines, if_neg hb, if_neg hb, List.head?_append_of_ne_nil _ hne,
        List.count_cons_of_ne hb, ih]
      split
      · exact ⟨rfl, hlen⟩
      · cases hbs : lines bs with
        | nil =>
          -- there is a newline, and so a line
          have hmem : newline ∈ bs := List.mem_of_getLast? (hended.resolve_left hne)
          rw [hbs] at hlen
          exact absurd (List.count_pos_iff.mpr hmem) (by simp [← hlen])
        | cons l ls =>
          rw [hbs] at hlen
          exact ⟨rfl, hlen⟩

theorem lines_record {p : List UInt8} (h : Unbroken p) : lines (p ++ [newline]) = [p] := by
  by_cases hp : p = []
  · rw [hp]
    rfl
  · rw [lines_append hp h]
    simp [prepend]

end Lines
