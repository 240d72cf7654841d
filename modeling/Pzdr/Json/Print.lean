import Pzdr.Json.Value

/-!
# Json.Print

Compact printing of JSON values, and that nothing is lost by it.

* `print_append_inj`: a printed value is found again at the front of any text, up to a following
  digit. So `print` is injective, and equality of values is decided on their texts.
* `printRecord_append_inj`: the same for an object that is written field by field by any printer of
  its values.
* `print_printable`: a printed value has no control characters.
-/

namespace Json

/-! ## Strings -/

/-- The letter of a two-character escape. -/
def shortEscape : Char → Option Char
  | '"' => some '"'
  | '\\' => some '\\'
  | '\x08' => some 'b'
  | '\t' => some 't'
  | '\n' => some 'n'
  | '\x0c' => some 'f'
  | '\r' => some 'r'
  | _ => none

def escape (c : Char) : List Char :=
  match shortEscape c with
  | some d => ['\\', d]
  | none =>
    if c.toNat < 0x20 then
      ['\\', 'u', '0', '0', Nat.digitChar (c.toNat / 16), Nat.digitChar (c.toNat % 16)]
    else [c]

def quote (s : String) : List Char := '"' :: s.toList.flatMap escape ++ ['"']

/-- Value of a lower-case hexadecimal digit. -/
def digitValue (c : Char) : Nat := if c.isDigit then c.toNat - 48 else c.toNat - 87

theorem digitValue_digitChar : ∀ n < 16, digitValue (Nat.digitChar n) = n := by decide

/-- The first character of the inside of a string literal, and what follows it. -/
def unescape : List Char → Option (Char × List Char)
  | '\\' :: 'u' :: _ :: _ :: a :: b :: r => some (.ofNat (16 * digitValue a + digitValue b), r)
  | '\\' :: 'b' :: r => some ('\x08', r)
  | '\\' :: 't' :: r => some ('\t', r)
  | '\\' :: 'n' :: r => some ('\n', r)
  | '\\' :: 'f' :: r => some ('\x0c', r)
  | '\\' :: 'r' :: r => some ('\r', r)
  | '\\' :: c :: r => some (c, r)
  | c :: r => some (c, r)
  | [] => none

theorem unescape_short {c d : Char} (h : shortEscape c = some d) (r : List Char) :
    unescape ('\\' :: d :: r) = some (c, r) := by
  unfold shortEscape at h
  split at h <;> cases h <;> rfl

theorem shortEscape_none {c : Char} (h : shortEscape c = none) : c ≠ '"' ∧ c ≠ '\\' := by
  constructor
  · intro hc; subst hc; cases h
  · intro hc; subst hc; cases h

theorem unescape_plain {c : Char} (h : c ≠ '\\') (r : List Char) :
    unescape (c :: r) = some (c, r) := by
  rw [unescape.eq_def]
  split <;> simp_all

theorem unescape_escape (c : Char) (r : List Char) : unescape (escape c ++ r) = some (c, r) := by
  rw [escape]
  split
  · rename_i d hd
    exact unescape_short hd r
  · rename_i hnone
    split
    · rename_i hlt
      have hc : 16 * (c.toNat / 16) + c.toNat % 16 = c.toNat := by omega
      simp only [List.cons_append, List.nil_append, unescape,
        digitValue_digitChar (c.toNat / 16) (by omega),
        digitValue_digitChar (c.toNat % 16) (by omega), hc, Char.ofNat_toNat]
    · exact unescape_plain (shortEscape_none hnone).2 r

theorem escape_head (c : Char) (r : List Char) : (escape c ++ r).head? ≠ some '"' := by
  rw [escape]
  split
  · simp
  · rename_i hnone
    have := (shortEscape_none hnone).1
    split <;> simp_all

/-- The closing quote is found by reading escapes, so the text of a string ends where it says. -/
theorem flatMap_escape_inj : ∀ {cs cs' r r' : List Char},
    cs.flatMap escape ++ '"' :: r = cs'.flatMap escape ++ '"' :: r' → cs = cs' ∧ r = r' := by
  intro cs
  induction cs with
  | nil =>
    intro cs' r r' h
    cases cs' with
    | nil => simpa using h
    | cons c' cs' =>
      rw [List.flatMap_cons, List.append_assoc] at h
      have hhead := escape_head c' (cs'.flatMap escape ++ '"' :: r')
      rw [← h] at hhead
      exact absurd rfl hhead
  | cons c cs ih =>
    intro cs' r r' h
    rw [List.flatMap_cons, List.append_assoc] at h
    cases cs' with
    | nil =>
      have hhead := escape_head c (cs.flatMap escape ++ '"' :: r)
      rw [h] at hhead
      exact absurd rfl hhead
    | cons c' cs' =>
      rw [List.flatMap_cons, List.append_assoc] at h
      have hu := congrArg unescape h
      rw [unescape_escape, unescape_escape, Option.some.injEq, Prod.mk.injEq] at hu
      obtain ⟨hc, hrest⟩ := hu
      obtain ⟨hcs, hr⟩ := ih hrest
      exact ⟨by rw [hc, hcs], hr⟩

theorem quote_append_inj {s s' : String} {r r' : List Char} (h : quote s ++ r = quote s' ++ r') :
    s = s' ∧ r = r' := by
  simp only [quote, List.cons_append, List.append_assoc, List.nil_append, List.cons.injEq,
    true_and] at h
  obtain ⟨hs, hr⟩ := flatMap_escape_inj h
  exact ⟨String.toList_inj.mp hs, hr⟩

/-! ## Numbers -/

def isNumChar (c : Char) : Bool := c.isDigit || c == '-'

/-- The text does not go on with a character of a number. -/
def Stop (r : List Char) : Prop := ∀ c ∈ r.head?, isNumChar c = false

theorem stop_nil : Stop [] := by
  intro c hc
  cases hc

theorem stop_cons {c : Char} (r : List Char) (h : isNumChar c = false) : Stop (c :: r) := by
  intro d hd
  cases hd
  exact h

theorem isNumChar_of_mem_repr {n : Nat} {c : Char} (h : c ∈ n.repr.toList) :
    isNumChar c = true := by
  rw [Nat.toList_repr] at h
  rw [isNumChar, Nat.isDigit_of_mem_toDigits (by omega) (by omega) h, Bool.true_or]

theorem isNumChar_of_mem_toString {i : Int} {c : Char} (h : c ∈ (toString i).toList) :
    isNumChar c = true := by
  rw [Int.toString_eq_repr, Int.repr_eq_if] at h
  split at h
  · exact isNumChar_of_mem_repr h
  · rw [String.toList_append, List.mem_append] at h
    rcases h with h | h
    · obtain rfl : c = '-' := by simpa using h
      rfl
    · exact isNumChar_of_mem_repr h

theorem toString_ne_nil (i : Int) : (toString i).toList ≠ [] := by
  rw [Int.toString_eq_repr, Int.repr_eq_if]
  split
  · rw [Nat.toList_repr]
    exact Nat.toDigits_ne_nil
  · simp

theorem takeWhile_toString (i : Int) {r : List Char} (hr : Stop r) :
    ((toString i).toList ++ r).takeWhile isNumChar = (toString i).toList := by
  rw [List.takeWhile_append_of_pos (fun c hc => isNumChar_of_mem_toString hc)]
  cases r with
  | nil => simp
  | cons c r => simp [hr c rfl]

theorem toString_append_inj {i j : Int} {r r' : List Char} (hr : Stop r) (hr' : Stop r')
    (h : (toString i).toList ++ r = (toString j).toList ++ r') : i = j ∧ r = r' := by
  have ht := congrArg (List.takeWhile isNumChar) h
  rw [takeWhile_toString i hr, takeWhile_toString j hr'] at ht
  rw [ht] at h
  exact ⟨Int.repr_inj.mp (String.toList_inj.mp ht), List.append_cancel_left h⟩

/-! ## Lists of texts -/

/-- `ts.join(",")` -/
def joinComma : List (List Char) → List Char
  | [] => []
  | t :: ts => t ++ ts.flatMap (fun t => ',' :: t)

section Join

variable {α β : Type*} {f : α → List Char} {g : β → List Char} {R : α → β → Prop}

/-- Whatever follows them, the texts of `x` and `y` only agree if `x` and `y` do. -/
def Delimits (f : α → List Char) (g : β → List Char) (R : α → β → Prop) (x : α) (y : β) : Prop :=
  ∀ r r', Stop r → Stop r' → f x ++ r = g y ++ r' → R x y ∧ r = r'

theorem stop_tail {c : Char} (ts : List (List Char)) (r : List Char) (hc : isNumChar c = false) :
    Stop (ts.flatMap (fun t => ',' :: t) ++ c :: r) := by
  cases ts with
  | nil => exact stop_cons r hc
  | cons t ts => exact stop_cons _ rfl

theorem tail_append_inj {c : Char} (hc : isNumChar c = false) (hcomma : c ≠ ',') :
    ∀ {xs : List α} {ys : List β} {r r' : List Char},
    (∀ x ∈ xs, ∀ y ∈ ys, Delimits f g R x y) →
    (xs.map f).flatMap (fun t => ',' :: t) ++ c :: r =
      (ys.map g).flatMap (fun t => ',' :: t) ++ c :: r' →
    List.Forall₂ R xs ys ∧ r = r' := by
  intro xs
  induction xs with
  | nil =>
    intro ys r r' _ h
    cases ys with
    | nil => exact ⟨.nil, by simpa using h⟩
    | cons y ys => exact absurd (List.cons.inj h).1 hcomma
  | cons x xs ih =>
    intro ys r r' hd h
    cases ys with
    | nil => exact absurd (List.cons.inj h).1.symm hcomma
    | cons y ys =>
      simp only [List.map_cons, List.flatMap_cons, List.cons_append, List.append_assoc,
        List.cons.injEq, true_and] at h
      obtain ⟨hxy, hrest⟩ := hd x (by simp) y (by simp) _ _ (stop_tail _ _ hc) (stop_tail _ _ hc) h
      obtain ⟨hall, hr⟩ := ih (fun x hx y hy => hd x (by simp [hx]) y (by simp [hy])) hrest
      exact ⟨.cons hxy hall, hr⟩

theorem joinComma_append_inj {c : Char} (hc : isNumChar c = false) (hcomma : c ≠ ',')
    {xs : List α} {ys : List β} {r r' : List Char}
    (hf : ∀ x ∈ xs, ∀ t, (f x ++ t).head? ≠ some c) (hg : ∀ y ∈ ys, ∀ t, (g y ++ t).head? ≠ some c)
    (hd : ∀ x ∈ xs, ∀ y ∈ ys, Delimits f g R x y)
    (h : joinComma (xs.map f) ++ c :: r = joinComma (ys.map g) ++ c :: r') :
    List.Forall₂ R xs ys ∧ r = r' := by
  cases xs with
  | nil =>
    cases ys with
    | nil => exact ⟨.nil, by simpa [joinComma] using h⟩
    | cons y ys =>
      simp only [joinComma, List.map_cons, List.append_assoc] at h
      exact absurd (by rw [← h]; rfl) (hg y (by simp) _)
  | cons x xs =>
    cases ys with
    | nil =>
      simp only [joinComma, List.map_cons, List.append_assoc] at h
      exact absurd (by rw [h]; rfl) (hf x (by simp) _)
    | cons y ys =>
      simp only [joinComma, List.map_cons, List.append_assoc] at h
      obtain ⟨hxy, hrest⟩ := hd x (by simp) y (by simp) _ _ (stop_tail _ _ hc) (stop_tail _ _ hc) h
      obtain ⟨hall, hr⟩ :=
        tail_append_inj hc hcomma (fun x hx y hy => hd x (by simp [hx]) y (by simp [hy])) hrest
      exact ⟨.cons hxy hall, hr⟩

end Join

/-! ## Records -/

section Record

variable {α β : Type*}

def printField (f : α → List Char) (field : String × α) : List Char :=
  quote field.1 ++ ':' :: f field.2

def printRecord (f : α → List Char) (fields : List (String × α)) : List Char :=
  '{' :: joinComma (fields.map (printField f)) ++ ['}']

theorem delimits_printField {f : α → List Char} {g : β → List Char} {R : α → β → Prop}
    {x : String × α} {y : String × β} (h : Delimits f g R x.2 y.2) :
    Delimits (printField f) (printField g) (fun x y => x.1 = y.1 ∧ R x.2 y.2) x y := by
  intro r r' hr hr' heq
  simp only [printField, List.append_assoc, List.cons_append] at heq
  obtain ⟨hkey, hrest⟩ := quote_append_inj heq
  obtain ⟨hval, hr⟩ := h r r' hr hr' (List.cons.inj hrest).2
  exact ⟨⟨hkey, hval⟩, hr⟩

theorem printField_head (f : α → List Char) (x : String × α) (t : List Char) :
    (printField f x ++ t).head? ≠ some '}' := by
  simp [printField, quote]

/-- A record is read back field by field when its values are. -/
theorem printRecord_append_inj {f : α → List Char} {g : β → List Char} {R : α → β → Prop}
    {xs : List (String × α)} {ys : List (String × β)} {r r' : List Char}
    (hd : ∀ x ∈ xs, ∀ y ∈ ys, Delimits f g R x.2 y.2)
    (h : printRecord f xs ++ r = printRecord g ys ++ r') :
    List.Forall₂ (fun x y => x.1 = y.1 ∧ R x.2 y.2) xs ys ∧ r = r' := by
  simp only [printRecord, List.cons_append, List.append_assoc, List.nil_append, List.cons.injEq,
    true_and] at h
  exact joinComma_append_inj (by decide) (by decide) (fun x _ => printField_head f x)
    (fun y _ => printField_head g y) (fun x hx y hy => delimits_printField (hd x hx y hy)) h

end Record

/-! ## Values -/

mutual

def print : Json → List Char
  | .null => "null".toList
  | .bool true => "true".toList
  | .bool false => "false".toList
  | .num i => (toString i).toList
  | .str s => quote s
  | .arr xs => '[' :: joinComma (printAll xs) ++ [']']
  | .obj fields => '{' :: joinComma (printFields fields) ++ ['}']

def printAll : List Json → List (List Char)
  | [] => []
  | x :: xs => print x :: printAll xs

def printFields : List (String × Json) → List (List Char)
  | [] => []
  | (k, v) :: fields => (quote k ++ ':' :: print v) :: printFields fields

end

theorem printAll_eq (xs : List Json) : printAll xs = xs.map print := by
  induction xs with
  | nil => rfl
  | cons x xs ih => rw [printAll, ih, List.map_cons]

theorem print_arr (xs : List Json) : print (.arr xs) = '[' :: joinComma (xs.map print) ++ [']'] := by
  rw [print, printAll_eq]

theorem printFields_eq (fields : List (String × Json)) :
    printFields fields = fields.map (printField print) := by
  induction fields with
  | nil => rfl
  | cons f fields ih => rw [printFields, ih, List.map_cons]; rfl

theorem print_obj (fields : List (String × Json)) :
    print (.obj fields) = printRecord print fields := by
  rw [print, printFields_eq, printRecord]

/-- Constructors by number. -/
def kind : Json → Nat
  | .null => 0
  | .bool _ => 1
  | .num _ => 2
  | .str _ => 3
  | .arr _ => 4
  | .obj _ => 5

/-- The first character of a value tells its constructor. -/
def kindOfHead (c : Char) : Nat :=
  if c = 'n' then 0
  else if c = 't' ∨ c = 'f' then 1
  else if c = '"' then 3
  else if c = '[' then 4
  else if c = '{' then 5
  else if isNumChar c then 2
  else 6

theorem kindOfHead_num {c : Char} (h : isNumChar c = true) : kindOfHead c = 2 := by
  have hne : ∀ d, isNumChar d = false → c ≠ d := by
    intro d hd hcd
    rw [hcd, hd] at h
    cases h
  simp [kindOfHead, h, hne 'n' (by decide), hne 't' (by decide), hne 'f' (by decide),
    hne '"' (by decide), hne '[' (by decide), hne '\x7b' (by decide)]

theorem print_head (v : Json) : ∃ c t, print v = c :: t ∧ kindOfHead c = v.kind := by
  cases v with
  | null => exact ⟨'n', _, rfl, rfl⟩
  | bool b =>
    cases b with
    | true => exact ⟨'t', _, rfl, rfl⟩
    | false => exact ⟨'f', _, rfl, rfl⟩
  | num i =>
    cases ht : (toString i).toList with
    | nil => exact absurd ht (toString_ne_nil i)
    | cons c t =>
      have hc : c ∈ (toString i).toList := by rw [ht]; exact List.mem_cons_self
      exact ⟨c, t, by rw [print, ht], kindOfHead_num (isNumChar_of_mem_toString hc)⟩
  | str s => exact ⟨'"', _, rfl, rfl⟩
  | arr xs => exact ⟨'[', _, rfl, rfl⟩
  | obj fields => exact ⟨'\x7b', _, rfl, rfl⟩

theorem print_append_head (v : Json) (t : List Char) {c : Char} (hc : kindOfHead c = 6) :
    (print v ++ t).head? ≠ some c := by
  obtain ⟨d, t', hv, hd⟩ := print_head v
  intro h
  rw [hv, List.cons_append, List.head?_cons, Option.some.injEq] at h
  subst h
  cases v <;> simp [kind] at hd <;> omega

theorem kind_eq_of_print {v w : Json} {r r' : List Char} (h : print v ++ r = print w ++ r') :
    v.kind = w.kind := by
  obtain ⟨c, t, hv, hc⟩ := print_head v
  obtain ⟨c', t', hw, hc'⟩ := print_head w
  rw [hv, hw] at h
  rw [← hc, ← hc', (List.cons.inj h).1]

theorem eq_of_forall₂_fields {xs ys : List (String × Json)}
    (h : List.Forall₂ (fun x y => x.1 = y.1 ∧ x.2 = y.2) xs ys) : xs = ys := by
  induction h with
  | nil => rfl
  | cons hxy _ ih => rw [ih, Prod.ext hxy.1 hxy.2]

theorem print_append_inj (v : Json) : ∀ w, Delimits print print Eq v w := by
  induction v with
  | null =>
    intro w r r' _ _ h
    have hk := kind_eq_of_print h
    cases w with
    | null => exact ⟨rfl, List.append_cancel_left h⟩
    | _ => cases hk
  | bool b =>
    intro w r r' _ _ h
    have hk := kind_eq_of_print h
    cases w with
    | bool b' =>
      cases b <;> cases b' <;> simp [print] at h ⊢
      · exact h
      · exact h
    | _ => cases hk
  | num i =>
    intro w r r' hr hr' h
    have hk := kind_eq_of_print h
    cases w with
    | num j =>
      obtain ⟨rfl, hrr⟩ := toString_append_inj hr hr' h
      exact ⟨rfl, hrr⟩
    | _ => cases hk
  | str s =>
    intro w r r' _ _ h
    have hk := kind_eq_of_print h
    cases w with
    | str s' =>
      obtain ⟨rfl, hrr⟩ := quote_append_inj h
      exact ⟨rfl, hrr⟩
    | _ => cases hk
  | arr xs ih =>
    intro w r r' _ _ h
    have hk := kind_eq_of_print h
    cases w with
    | arr ys =>
      simp only [print_arr, List.cons_append, List.append_assoc, List.nil_append, List.cons.injEq,
        true_and] at h
      obtain ⟨hall, hrr⟩ := joinComma_append_inj (by decide) (by decide)
        (fun x _ t => print_append_head x t (by decide))
        (fun y _ t => print_append_head y t (by decide)) (fun x hx y _ => ih x hx y) h
      rw [List.forall₂_eq_eq_eq] at hall
      exact ⟨by rw [hall], hrr⟩
    | _ => cases hk
  | obj fields ih =>
    intro w r r' _ _ h
    have hk := kind_eq_of_print h
    cases w with
    | obj fields' =>
      rw [print_obj, print_obj] at h
      obtain ⟨hall, hrr⟩ := printRecord_append_inj (fun x hx y _ => ih x hx y.2) h
      exact ⟨by rw [eq_of_forall₂_fields hall], hrr⟩
    | _ => cases hk

theorem print_injective {v w : Json} (h : print v = print w) : v = w :=
  (print_append_inj v w [] [] stop_nil stop_nil (by rw [h])).1

/-! ## Control characters -/

theorem escape_printable {c d : Char} (h : d ∈ escape c) : 0x20 ≤ d.toNat := by
  unfold escape at h
  split at h
  · rename_i e he
    unfold shortEscape at he
    rw [List.mem_cons, List.mem_singleton] at h
    rcases h with rfl | rfl
    · decide
    · split at he <;> cases he <;> decide
  · split at h
    · rename_i hlt
      have hdigit : ∀ n < 16, 0x20 ≤ (Nat.digitChar n).toNat := by decide
      simp only [List.mem_cons, List.not_mem_nil, or_false] at h
      rcases h with rfl | rfl | rfl | rfl | rfl | rfl
      · decide
      · decide
      · decide
      · decide
      · exact hdigit _ (by omega)
      · exact hdigit _ (by omega)
    · rename_i hge
      rw [List.mem_singleton] at h
      rw [h]
      exact Nat.le_of_not_lt hge

theorem quote_printable {s : String} {d : Char} (h : d ∈ quote s) : 0x20 ≤ d.toNat := by
  simp only [quote, List.cons_append, List.mem_cons, List.mem_append, List.mem_flatMap,
    List.not_mem_nil, or_false] at h
  rcases h with rfl | ⟨c, _, hc⟩ | rfl
  · decide
  · exact escape_printable hc
  · decide

theorem joinComma_printable {ts : List (List Char)} (h : ∀ t ∈ ts, ∀ d ∈ t, 0x20 ≤ d.toNat)
    {d : Char} (hd : d ∈ joinComma ts) : 0x20 ≤ d.toNat := by
  cases ts with
  | nil => cases hd
  | cons t ts =>
    rw [List.forall_mem_cons] at h
    rw [joinComma, List.mem_append, List.mem_flatMap] at hd
    rcases hd with hd | ⟨t', ht', hd⟩
    · exact h.1 d hd
    · rcases List.mem_cons.mp hd with rfl | hd
      · decide
      · exact h.2 t' ht' d hd

/-- A printed value has no control characters, so it stays on one line. -/
theorem print_printable (v : Json) : ∀ d ∈ print v, 0x20 ≤ d.toNat := by
  induction v with
  | null => simp [print]
  | bool b => cases b <;> simp [print]
  | num i =>
    intro d hd
    have hnum := isNumChar_of_mem_toString hd
    simp only [isNumChar, Bool.or_eq_true, beq_iff_eq, Char.isDigit, Bool.and_eq_true,
      decide_eq_true_eq] at hnum
    rcases hnum with ⟨hlo, _⟩ | rfl
    · have hlo' : (0x30 : UInt32).toNat ≤ d.val.toNat := hlo
      exact Nat.le_trans (by decide) hlo'
    · decide
  | str s =>
    intro d hd
    exact quote_printable hd
  | arr xs ih =>
    intro d hd
    rw [print_arr] at hd
    simp only [List.cons_append, List.mem_cons, List.mem_append, List.not_mem_nil, or_false] at hd
    rcases hd with rfl | hd | rfl
    · decide
    · refine joinComma_printable ?_ hd
      intro t ht
      obtain ⟨x, hx, rfl⟩ := List.mem_map.mp ht
      exact ih x hx
    · decide
  | obj fields ih =>
    intro d hd
    rw [print_obj, printRecord] at hd
    simp only [List.cons_append, List.mem_cons, List.mem_append, List.not_mem_nil, or_false] at hd
    rcases hd with rfl | hd | rfl
    · decide
    · refine joinComma_printable ?_ hd
      intro t ht
      obtain ⟨f, hf, rfl⟩ := List.mem_map.mp ht
      intro d hd
      rw [printField, List.mem_append, List.mem_cons] at hd
      rcases hd with hd | rfl | hd
      · exact quote_printable hd
      · decide
      · exact ih f hf d hd
    · decide

instance : DecidableEq Json := fun v w =>
  decidable_of_iff (print v = print w) ⟨print_injective, congrArg print⟩

end Json
