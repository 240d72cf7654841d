import Pzdr.Json.Print

/-!
# Json.Read

A reader for printed values: `read_print`. It takes compact text only, so it is the inverse of the
printer and no parser of JSON at large.
-/

namespace Json

/-- The inside of a string literal, and what follows the closing quote. -/
def readChars : Nat → List Char → Option (List Char × List Char)
  | 0, _ => none
  | fuel + 1, cs =>
    if cs.head? = some '"' then some ([], cs.tail)
    else do
      let (c, r) ← unescape cs
      let (rest, r) ← readChars fuel r
      return (c :: rest, r)

/-- A string literal. -/
def readQuoted : List Char → Option (String × List Char)
  | '"' :: r => (readChars (r.length + 1) r).map (fun p => (.ofList p.1, p.2))
  | _ => none

def readInt : List Char → Int
  | '-' :: ds => -(Nat.ofDigitChars 10 ds 0 : Nat)
  | ds => (Nat.ofDigitChars 10 ds 0 : Nat)

section Items

variable {α : Type} (item : List Char → Option (α × List Char)) (close : Char)

/-- Items with commas between them, up to the closing character. -/
def readItems : Nat → List Char → Option (List α × List Char)
  | 0, _ => none
  | fuel + 1, cs => do
    let (x, r) ← item cs
    match r with
    | c :: r =>
      if c = close then some ([x], r)
      else if c = ',' then do
        let (xs, r) ← readItems fuel r
        return (x :: xs, r)
      else none
    | [] => none

def readField (cs : List Char) : Option ((String × α) × List Char) := do
  let (key, r) ← readQuoted cs
  match r with
  | ':' :: r => do
    let (x, r) ← item r
    return ((key, x), r)
  | _ => none

end Items

/-- A value at the front of a text, and what follows it. -/
def readValue : Nat → List Char → Option (Json × List Char)
  | 0, _ => none
  | _ + 1, 'n' :: 'u' :: 'l' :: 'l' :: r => some (.null, r)
  | _ + 1, 't' :: 'r' :: 'u' :: 'e' :: r => some (.bool true, r)
  | _ + 1, 'f' :: 'a' :: 'l' :: 's' :: 'e' :: r => some (.bool false, r)
  | _ + 1, '"' :: r => (readQuoted ('"' :: r)).map (Prod.map .str id)
  | _ + 1, '[' :: ']' :: r => some (.arr [], r)
  | fuel + 1, '[' :: r => (readItems (readValue fuel) ']' fuel r).map (Prod.map .arr id)
  | _ + 1, '\x7b' :: '\x7d' :: r => some (.obj [], r)
  | fuel + 1, '\x7b' :: r =>
    (readItems (readField (readValue fuel)) '\x7d' fuel r).map (Prod.map .obj id)
  | _ + 1, cs =>
    if cs.takeWhile isNumChar = [] then none
    else some (.num (readInt (cs.takeWhile isNumChar)), cs.dropWhile isNumChar)

/-- The value of a text. -/
def read (cs : List Char) : Option Json :=
  match readValue cs.length cs with
  | some (v, []) => some v
  | _ => none

/-! ## What has been printed is read back -/

theorem readChars_escape (cs r : List Char) (fuel : Nat) (hfuel : cs.length < fuel) :
    readChars fuel (cs.flatMap escape ++ '"' :: r) = some (cs, r) := by
  induction cs generalizing fuel with
  | nil =>
    obtain ⟨k, rfl⟩ : ∃ k, fuel = k + 1 := ⟨fuel - 1, by simp at hfuel; omega⟩
    simp [readChars]
  | cons c cs ih =>
    obtain ⟨k, rfl⟩ : ∃ k, fuel = k + 1 := ⟨fuel - 1, by simp at hfuel; omega⟩
    have hrest := ih k (by simpa using hfuel)
    rw [List.flatMap_cons, List.append_assoc, readChars, if_neg (escape_head c _),
      unescape_escape]
    simp [hrest]

theorem length_le_escape (cs : List Char) : cs.length ≤ (cs.flatMap escape).length := by
  induction cs with
  | nil => simp
  | cons c cs ih =>
    have hone : 1 ≤ (escape c).length := by
      rw [escape]
      split
      · simp
      · split <;> simp
    rw [List.flatMap_cons, List.length_append, List.length_cons]
    omega

theorem readQuoted_quote (s : String) (r : List Char) : readQuoted (quote s ++ r) = some (s, r) := by
  have hlen : s.toList.length < (s.toList.flatMap escape ++ '"' :: r).length + 1 := by
    have hle := length_le_escape s.toList
    rw [List.length_append]
    omega
  rw [quote, List.cons_append, List.cons_append, List.append_assoc, List.singleton_append,
    readQuoted, readChars_escape _ _ _ hlen]
  simp

theorem readInt_digits (n : Nat) : readInt (Nat.toDigits 10 n) = n := by
  have hdigits : ∀ c ∈ Nat.toDigits 10 n, c.isDigit = true := by
    intro c hc
    exact Nat.isDigit_of_mem_toDigits (by omega) (by omega) hc
  rw [readInt.eq_def]
  split
  · rename_i ds heq
    rw [heq] at hdigits
    exact absurd (hdigits '-' List.mem_cons_self) (by decide)
  · rw [Nat.ofDigitChars_ten_toDigits]

theorem readInt_toString (i : Int) : readInt (toString i).toList = i := by
  rw [Int.toString_eq_repr, Int.repr_eq_if]
  split
  · rw [Nat.toList_repr, readInt_digits]
    omega
  · rw [String.toList_append, Nat.toList_repr]
    show -(Nat.ofDigitChars 10 (Nat.toDigits 10 (-i).toNat) 0 : Int) = i
    rw [Nat.ofDigitChars_ten_toDigits]
    omega

section Items

variable {α : Type} (item : List Char → Option (α × List Char)) (f : α → List Char) (close : Char)

/-- Items that are read back one by one are read back from their list. -/
theorem readItems_join (hclose : close ≠ ',') (hnum : isNumChar close = false) (x : α)
    (xs : List α) (r : List Char)
    (hitem : ∀ y ∈ x :: xs, ∀ r, Stop r → item (f y ++ r) = some (y, r)) (fuel : Nat)
    (hfuel : xs.length < fuel) :
    readItems item close fuel (joinComma ((x :: xs).map f) ++ close :: r) = some (x :: xs, r) := by
  induction xs generalizing x fuel with
  | nil =>
    obtain ⟨k, rfl⟩ : ∃ k, fuel = k + 1 := ⟨fuel - 1, by simp at hfuel; omega⟩
    have hx := hitem x List.mem_cons_self (close :: r) (stop_cons r hnum)
    simp [joinComma, readItems, hx]
  | cons y ys ih =>
    obtain ⟨k, rfl⟩ : ∃ k, fuel = k + 1 := ⟨fuel - 1, by simp at hfuel; omega⟩
    have htail := ih y (fun z hz => hitem z (List.mem_cons_of_mem _ hz)) k
      (by simpa using hfuel)
    have htext : joinComma ((x :: y :: ys).map f) ++ close :: r =
        f x ++ ',' :: (joinComma ((y :: ys).map f) ++ close :: r) := by
      simp [joinComma]
    have hx := hitem x List.mem_cons_self (',' :: (joinComma ((y :: ys).map f) ++ close :: r))
      (stop_cons _ rfl)
    rw [htext]
    generalize joinComma ((y :: ys).map f) ++ close :: r = t at htail hx ⊢
    rw [readItems, hx]
    simp [Ne.symm hclose, htail]

theorem readField_print {key : String} {x : α} {r : List Char}
    (hitem : item (f x ++ r) = some (x, r)) :
    readField item (printField f (key, x) ++ r) = some ((key, x), r) := by
  rw [printField, List.append_assoc, readField, readQuoted_quote]
  simp [hitem]

end Items

/-- A list is no shorter than its length and than each of its items. -/
theorem length_join (t : List Char) (ts : List (List Char)) :
    ts.length ≤ (joinComma (t :: ts)).length ∧
      ∀ u ∈ t :: ts, u.length ≤ (joinComma (t :: ts)).length := by
  have htail : ts.length ≤ (ts.flatMap (fun t => ',' :: t)).length ∧
      ∀ u ∈ ts, u.length ≤ (ts.flatMap (fun t => ',' :: t)).length := by
    induction ts with
    | nil => simp
    | cons u us ih =>
      rw [List.flatMap_cons, List.length_append, List.length_cons, List.length_cons]
      refine ⟨by omega, ?_⟩
      rw [List.forall_mem_cons]
      refine ⟨by omega, ?_⟩
      intro w hw
      have := ih.2 w hw
      omega
  rw [joinComma, List.length_append, List.forall_mem_cons]
  refine ⟨by omega, by omega, ?_⟩
  intro u hu
  have := htail.2 u hu
  omega

theorem readValue_num {c : Char} (hc : isNumChar c = true) (fuel : Nat) (t : List Char) :
    readValue (fuel + 1) (c :: t) =
      some (.num (readInt ((c :: t).takeWhile isNumChar)), (c :: t).dropWhile isNumChar) := by
  rw [readValue]
  · rw [if_neg (by simp [hc])]
  all_goals
    intros
    rename_i heq
    rw [(List.cons.inj heq).1] at hc
    cases hc

theorem readValue_print (v : Json) : ∀ (r : List Char) (fuel : Nat), Stop r →
    v.print.length ≤ fuel → readValue fuel (v.print ++ r) = some (v, r) := by
  induction v with
  | null =>
    intro r fuel _ hfuel
    obtain ⟨k, rfl⟩ : ∃ k, fuel = k + 1 := ⟨fuel - 1, by simp [print] at hfuel; omega⟩
    rfl
  | bool b =>
    intro r fuel _ hfuel
    obtain ⟨k, rfl⟩ : ∃ k, fuel = k + 1 := ⟨fuel - 1, by cases b <;> simp [print] at hfuel <;> omega⟩
    cases b <;> rfl
  | num i =>
    intro r fuel hr hfuel
    have htake := takeWhile_toString i hr
    have hdrop : ((toString i).toList ++ r).dropWhile isNumChar = r := by
      have happend := List.takeWhile_append_dropWhile (p := isNumChar) (l := (toString i).toList ++ r)
      rw [htake] at happend
      exact List.append_cancel_left happend
    cases ht : (toString i).toList with
    | nil => exact absurd ht (toString_ne_nil i)
    | cons c t =>
      have hc : isNumChar c = true :=
        isNumChar_of_mem_toString (i := i) (by rw [ht]; exact List.mem_cons_self)
      rw [print, ht, List.length_cons] at hfuel
      obtain ⟨k, rfl⟩ : ∃ k, fuel = k + 1 := ⟨fuel - 1, by omega⟩
      rw [ht] at htake hdrop
      rw [print, ht, List.cons_append, readValue_num hc, ← List.cons_append, htake, hdrop, ← ht,
        readInt_toString]
  | str s =>
    intro r fuel _ hfuel
    obtain ⟨k, rfl⟩ : ∃ k, fuel = k + 1 := ⟨fuel - 1, by simp [print, quote] at hfuel; omega⟩
    have hquoted := readQuoted_quote s r
    rw [quote, List.cons_append, List.cons_append] at hquoted
    rw [print, quote, List.cons_append, List.cons_append, readValue, hquoted]
    rfl
  | arr xs ih =>
    intro r fuel _ hfuel
    rw [print_arr] at hfuel ⊢
    obtain ⟨k, rfl⟩ : ∃ k, fuel = k + 1 := ⟨fuel - 1, by simp at hfuel; omega⟩
    cases xs with
    | nil => rfl
    | cons x xs =>
      obtain ⟨hcount, hitems⟩ := length_join x.print (xs.map print)
      rw [List.length_map] at hcount
      simp only [List.length_cons, List.length_append, List.length_nil, List.map_cons] at hfuel
      have hread := readItems_join (readValue k) print ']' (by decide) (by decide) x xs r ?_ k
        (by omega)
      · rw [List.cons_append, List.cons_append, List.append_assoc, List.singleton_append,
          readValue, hread]
        · rfl
        -- a value does not start with the closing bracket
        · intro r' heq
          have hhead := print_append_head x
            ((xs.map print).flatMap (fun t => ',' :: t) ++ ']' :: r) (c := ']') (by decide)
          rw [List.map_cons, joinComma, List.append_assoc] at heq
          rw [heq] at hhead
          exact hhead rfl
      · intro y hy r hr
        refine ih y hy r k hr ?_
        have := hitems y.print (List.mem_map_of_mem hy)
        omega
  | obj fields ih =>
    intro r fuel _ hfuel
    rw [print_obj, printRecord] at hfuel ⊢
    obtain ⟨k, rfl⟩ : ∃ k, fuel = k + 1 := ⟨fuel - 1, by simp at hfuel; omega⟩
    cases fields with
    | nil => rfl
    | cons x xs =>
      obtain ⟨hcount, hitems⟩ := length_join (printField print x) (xs.map (printField print))
      rw [List.length_map] at hcount
      simp only [List.length_cons, List.length_append, List.length_nil, List.map_cons] at hfuel
      have hread := readItems_join (readField (readValue k)) (printField print) '\x7d' (by decide)
        (by decide) x xs r ?_ k (by omega)
      · rw [List.cons_append, List.cons_append, List.append_assoc, List.singleton_append,
          readValue, hread]
        · rfl
        · intro r' heq
          have hhead := printField_head print x
            ((xs.map (printField print)).flatMap (fun t => ',' :: t) ++ '\x7d' :: r)
          rw [List.map_cons, joinComma, List.append_assoc] at heq
          rw [heq] at hhead
          exact hhead rfl
      · intro y hy r hr
        have hlen := hitems (printField print y) (List.mem_map_of_mem hy)
        rw [printField, List.length_append, List.length_cons] at hlen
        exact readField_print _ _ (ih y hy r k hr (by omega))

theorem read_print (v : Json) : read v.print = some v := by
  have hread := readValue_print v [] v.print.length stop_nil (Nat.le_refl _)
  rw [List.append_nil] at hread
  rw [read, hread]

end Json
