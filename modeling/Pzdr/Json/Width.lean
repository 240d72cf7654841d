import Pzdr.Json.Print

/-!
# Json.Width

How long the text of a value can get: `length_print_le`. The bound does not depend on the order of
the fields (`widthFields_sortFields`), so an object can be measured as it is written down.
-/

namespace Json

/-- The longest escape has six characters. -/
def quoteWidth (s : String) : Nat := 6 * s.length + 2

mutual

def width : Json → Nat
  | .null => 4
  | .bool _ => 5
  | .num i => (toString i).length
  | .str s => quoteWidth s
  | .arr xs => widthAll xs + 2
  | .obj fields => widthFields fields + 2

def widthAll : List Json → Nat
  | [] => 0
  | x :: xs => width x + 1 + widthAll xs

def widthFields : List (String × Json) → Nat
  | [] => 0
  | (k, v) :: fields => quoteWidth k + 1 + width v + 1 + widthFields fields

end

theorem widthAll_eq (xs : List Json) : widthAll xs = (xs.map (fun x => width x + 1)).sum := by
  induction xs with
  | nil => rfl
  | cons x xs ih => simp [widthAll, ih]

theorem widthFields_eq (fields : List (String × Json)) :
    widthFields fields = (fields.map (fun f => quoteWidth f.1 + 1 + width f.2 + 1)).sum := by
  induction fields with
  | nil => rfl
  | cons f fields ih => simp [widthFields, ih]

@[simp] theorem widthFields_sortFields (le : String → String → Bool)
    (fields : List (String × Json)) : widthFields (sortFields le fields) = widthFields fields := by
  rw [widthFields_eq, widthFields_eq]
  exact ((sortFields_perm le fields).map _).sum_eq

theorem length_escape_le (c : Char) : (escape c).length ≤ 6 := by
  rw [escape]
  split
  · simp
  · split <;> simp

theorem length_quote_le (s : String) : (quote s).length ≤ quoteWidth s := by
  have hescape : ∀ cs : List Char, (cs.flatMap escape).length ≤ 6 * cs.length := by
    intro cs
    induction cs with
    | nil => simp
    | cons c cs ih =>
      have hc := length_escape_le c
      rw [List.flatMap_cons, List.length_append, List.length_cons]
      omega
  have hs := hescape s.toList
  rw [String.length_toList] at hs
  simp only [quote, List.length_append, List.length_cons, List.length_nil, quoteWidth]
  omega

theorem length_joinComma_le {α : Type*} (f : α → List Char) (w : α → Nat) {xs : List α}
    (h : ∀ x ∈ xs, (f x).length ≤ w x) :
    (joinComma (xs.map f)).length ≤ (xs.map (fun x => w x + 1)).sum := by
  have htail : ∀ ys : List α, (∀ y ∈ ys, (f y).length ≤ w y) →
      ((ys.map f).flatMap (fun t => ',' :: t)).length ≤ (ys.map (fun y => w y + 1)).sum := by
    intro ys hys
    induction ys with
    | nil => simp
    | cons y ys ih =>
      rw [List.forall_mem_cons] at hys
      have hrest := ih hys.2
      simp only [List.map_cons, List.flatMap_cons, List.length_append, List.length_cons, List.sum_cons]
      omega
  cases xs with
  | nil => simp [joinComma]
  | cons x xs =>
    rw [List.forall_mem_cons] at h
    have hrest := htail xs h.2
    simp only [List.map_cons, joinComma, List.length_append, List.sum_cons]
    omega

theorem length_print_le (v : Json) : (print v).length ≤ width v := by
  induction v with
  | null => simp [print, width]
  | bool b => cases b <;> simp [print, width]
  | num i => exact Nat.le_of_eq String.length_toList
  | str s => exact length_quote_le s
  | arr xs ih =>
    have hxs := length_joinComma_le print width ih
    rw [print_arr, width, widthAll_eq]
    simp only [List.length_append, List.length_cons, List.length_nil]
    omega
  | obj fields ih =>
    have hfield : ∀ f ∈ fields,
        (printField print f).length ≤ quoteWidth f.1 + 1 + width f.2 := by
      intro f hf
      have hkey := length_quote_le f.1
      have hvalue := ih f hf
      simp only [printField, List.length_append, List.length_cons]
      omega
    have hfields := length_joinComma_le (printField print) _ hfield
    rw [print_obj, width, widthFields_eq]
    simp only [printRecord, List.length_append, List.length_cons, List.length_nil]
    omega

end Json
