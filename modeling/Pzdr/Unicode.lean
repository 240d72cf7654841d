import Mathlib

/-!
# Unicode

UTF-8 and UTF-16 over lists of characters.

* `Utf8.encode_injective`: a text is determined by its bytes.
* `Utf8.encode_lt_iff`: bytes are in the order of the characters.
* `Utf16.encode_lt_iff_crosses`: so are code units, but for characters with a surrogate pair beside
  characters above the surrogates.
* `Utf8.decodeIgnore_encode`: decoding with the invalid bytes left out gives back every encoded text.
* `Utf8.decodeIgnore_ascii`: whatever stands around it, an ASCII byte is decoded as its character.
-/

theorem List.append_left_lt_iff {β : Type*} [LT β] [Std.Irrefl (α := β) (· < ·)] {a b : List β}
    (l : List β) : l ++ a < l ++ b ↔ a < b := by
  induction l with
  | nil => rfl
  | cons x l ih => simp [ih]

/-- A character is a scalar value: no surrogate, and not above `0x10FFFF`. -/
theorem Char.toNat_scalar (c : Char) :
    c.toNat < 0xD800 ∨ 0xE000 ≤ c.toNat ∧ c.toNat < 0x110000 := by
  have hvalid := c.valid
  have hval : c.val.toNat = c.toNat := rfl
  unfold UInt32.isValidChar Nat.isValidChar at hvalid
  omega

namespace Utf8

def encode (cs : List Char) : List UInt8 := cs.flatMap String.utf8EncodeChar

@[simp] theorem encode_nil : encode [] = [] := rfl

@[simp] theorem encode_cons (c : Char) (cs : List Char) :
    encode (c :: cs) = String.utf8EncodeChar c ++ encode cs := rfl

@[simp] theorem encode_append (cs cs' : List Char) :
    encode (cs ++ cs') = encode cs ++ encode cs' := List.flatMap_append

/-- The character whose encoding the bytes start with. -/
def decodeChar? (bs : List UInt8) : Option Char := bs.toByteArray.utf8DecodeChar? 0

theorem decodeChar?_encodeChar (c : Char) (bs : List UInt8) :
    decodeChar? (String.utf8EncodeChar c ++ bs) = some c := by
  rw [decodeChar?, List.toByteArray_append]
  exact ByteArray.utf8DecodeChar?_utf8EncodeChar_append

theorem encodeChar_ne_nil (c : Char) : String.utf8EncodeChar c ≠ [] := by
  rw [← List.length_pos_iff, String.length_utf8EncodeChar]
  exact c.utf8Size_pos

theorem encode_injective : ∀ {cs cs' : List Char}, encode cs = encode cs' → cs = cs' := by
  intro cs
  induction cs with
  | nil =>
    intro cs' h
    cases cs' with
    | nil => rfl
    | cons c' cs' => exact absurd (List.append_eq_nil_iff.mp h.symm).1 (encodeChar_ne_nil c')
  | cons c cs ih =>
    intro cs' h
    cases cs' with
    | nil => exact absurd (List.append_eq_nil_iff.mp h).1 (encodeChar_ne_nil c)
    | cons c' cs' =>
      rw [encode_cons, encode_cons] at h
      have hc := congrArg decodeChar? h
      rw [decodeChar?_encodeChar, decodeChar?_encodeChar, Option.some.injEq] at hc
      subst hc
      rw [ih (List.append_cancel_left h)]

/-- `decode("utf-8", "ignore")`, with `skip` bytes of the last character still to be passed over.
The bytes of a broken character are dropped one by one: those after the first are continuation
bytes, which start no character. -/
def decodeIgnoreFrom : Nat → List UInt8 → List Char
  | _, [] => []
  | skip + 1, _ :: bs => decodeIgnoreFrom skip bs
  | 0, b :: bs =>
    match decodeChar? (b :: bs) with
    | some c => c :: decodeIgnoreFrom (c.utf8Size - 1) bs
    | none => decodeIgnoreFrom 0 bs

def decodeIgnore (bs : List UInt8) : List Char := decodeIgnoreFrom 0 bs

theorem decodeIgnoreFrom_skip (bs bs' : List UInt8) :
    decodeIgnoreFrom bs.length (bs ++ bs') = decodeIgnoreFrom 0 bs' := by
  induction bs with
  | nil => rfl
  | cons b bs ih => exact ih

theorem decodeChar?_some {bs : List UInt8} {c : Char} (h : decodeChar? bs = some c) :
    ∃ rest, bs = String.utf8EncodeChar c ++ rest := by
  obtain ⟨rest, hrest⟩ := ByteArray.exists_of_utf8DecodeChar?_eq_some h
  have hbytes := congrArg (fun b => b.data.toList) hrest
  exact ⟨rest.data.toList, by simpa using hbytes⟩

theorem decodeIgnore_char (c : Char) (bs : List UInt8) :
    decodeIgnore (String.utf8EncodeChar c ++ bs) = c :: decodeIgnore bs := by
  have hd := decodeChar?_encodeChar c bs
  have hlen := String.length_utf8EncodeChar c
  cases hb : String.utf8EncodeChar c with
  | nil => exact absurd hb (encodeChar_ne_nil c)
  | cons b tail =>
    rw [hb, List.cons_append] at hd
    rw [hb, List.length_cons] at hlen
    rw [decodeIgnore, List.cons_append, decodeIgnoreFrom, hd]
    simp only [List.cons.injEq, true_and]
    rw [← hlen, Nat.add_sub_cancel, decodeIgnoreFrom_skip, decodeIgnore]

theorem decodeIgnore_drop {b : UInt8} {bs : List UInt8} (h : decodeChar? (b :: bs) = none) :
    decodeIgnore (b :: bs) = decodeIgnore bs := by
  rw [decodeIgnore, decodeIgnoreFrom, h]
  rfl

theorem decodeIgnore_encode_append (cs : List Char) (bs : List UInt8) :
    decodeIgnore (encode cs ++ bs) = cs ++ decodeIgnore bs := by
  induction cs with
  | nil => rfl
  | cons c cs ih => rw [encode_cons, List.append_assoc, decodeIgnore_char, ih, List.cons_append]

theorem decodeIgnore_encode (cs : List Char) : decodeIgnore (encode cs) = cs := by
  have h := decodeIgnore_encode_append cs []
  rwa [List.append_nil, show decodeIgnore [] = [] from rfl, List.append_nil] at h

/-- Decoding as Rust and Python do it by default: not at all where the bytes are not valid. -/
def decode? (bs : List UInt8) : Option (List Char) := bs.toByteArray.utf8Decode?.map Array.toList

@[simp] theorem decode?_encode (cs : List Char) : decode? (encode cs) = some cs := by
  have hencode : (encode cs).toByteArray = cs.utf8Encode := rfl
  rw [decode?, hencode, List.utf8Decode?_utf8Encode]
  simp

theorem decode?_some {bs : List UInt8} {cs : List Char} (h : decode? bs = some cs) :
    bs = encode cs := by
  rw [decode?, Option.map_eq_some_iff] at h
  obtain ⟨text, htext, rfl⟩ := h
  have hencode := @ByteArray.utf8Encode_get_utf8Decode? bs.toByteArray (by rw [htext]; rfl)
  simp only [htext, Option.get_some] at hencode
  have hbytes := congrArg (fun b => b.data.toList) hencode
  simpa [List.utf8Encode, encode] using hbytes.symm

theorem firstByte_encode {cs : List Char} {b : UInt8} {bs : List UInt8} (h : encode cs = b :: bs) :
    b.IsUTF8FirstByte := by
  cases cs with
  | nil => cases h
  | cons c cs =>
    have hpos := List.length_pos_iff.mpr (encodeChar_ne_nil c)
    have hfirst := (@UInt8.isUTF8FirstByte_getElem_utf8EncodeChar c 0 hpos).mpr rfl
    have hb := congrArg (fun bs => bs[0]?) h
    simp only [encode_cons, List.getElem?_append_left hpos, List.getElem?_eq_getElem hpos,
      List.getElem?_cons_zero, Option.some.injEq] at hb
    rwa [hb] at hfirst

/-- An encoded text ends another one only between two characters. -/
theorem encode_suffix {cs text : List Char} {u : List UInt8} (h : encode cs = u ++ encode text)
    (hne : text ≠ []) : ∃ pre, u = encode pre ∧ cs = pre ++ text := by
  induction cs generalizing u with
  | nil => exact absurd (encode_injective (List.append_eq_nil_iff.mp h.symm).2) hne
  | cons c cs ih =>
    rw [encode_cons] at h
    rcases List.append_eq_append_iff.mp h with ⟨u', rfl, hrest⟩ | ⟨mid, hmid, hrest⟩
    · obtain ⟨pre, rfl, rfl⟩ := ih hrest
      exact ⟨c :: pre, rfl, rfl⟩
    · cases mid with
      | nil =>
        rw [List.append_nil] at hmid
        exact ⟨[c], by rw [← hmid]; simp, by rw [encode_injective hrest]; rfl⟩
      | cons b mid =>
        -- a byte within a character starts none
        have hlt : u.length < (String.utf8EncodeChar c).length := by
          rw [hmid, List.length_append, List.length_cons]
          omega
        have hb : (String.utf8EncodeChar c)[u.length] = b := by
          simp [hmid]
        have hfirst := firstByte_encode hrest
        rw [← hb, UInt8.isUTF8FirstByte_getElem_utf8EncodeChar, List.length_eq_zero_iff] at hfirst
        subst hfirst
        exact ⟨[], rfl, encode_injective (by rw [encode_cons, h]; rfl)⟩

/-! ## ASCII -/

theorem encodeChar_ascii {c : Char} (h : c.toNat < 128) :
    String.utf8EncodeChar c = [UInt8.ofNat c.toNat] := by
  have hc : c.val.toNat ≤ 127 := by
    have : c.val.toNat = c.toNat := rfl
    omega
  simp only [String.utf8EncodeChar, if_pos hc]
  rfl

theorem le_of_mem_encodeChar {c : Char} (h : 128 ≤ c.toNat) {b : UInt8}
    (hb : b ∈ String.utf8EncodeChar c) : 128 ≤ b.toNat := by
  have hc : ¬ c.val.toNat ≤ 127 := by
    have : c.val.toNat = c.toNat := rfl
    omega
  simp only [String.utf8EncodeChar, if_neg hc] at hb
  split at hb
  · simp only [List.mem_cons, List.not_mem_nil, or_false] at hb
    rcases hb with rfl | rfl <;> simp only [UInt8.toNat_ofNat'] <;> omega
  · split at hb
    · simp only [List.mem_cons, List.not_mem_nil, or_false] at hb
      rcases hb with rfl | rfl | rfl <;> simp only [UInt8.toNat_ofNat'] <;> omega
    · simp only [List.mem_cons, List.not_mem_nil, or_false] at hb
      rcases hb with rfl | rfl | rfl | rfl <;> simp only [UInt8.toNat_ofNat'] <;> omega

/-- No byte of a longer character is an ASCII one. -/
theorem encodeChar_prefix {c d : Char} (hc : c.toNat < 128) {b : UInt8} {pre post rest : List UInt8}
    (h : b :: pre ++ UInt8.ofNat c.toNat :: post = String.utf8EncodeChar d ++ rest) :
    ∃ pre', b :: pre = String.utf8EncodeChar d ++ pre' := by
  rcases List.append_eq_append_iff.mp h with ⟨mid, hmid, hrest⟩ | ⟨mid, hmid, _⟩
  · cases mid with
    | nil => exact ⟨[], by rw [hmid, List.append_nil, List.append_nil]⟩
    | cons x mid =>
      obtain ⟨rfl, _⟩ := List.cons.inj hrest
      by_cases hd : d.toNat < 128
      · have hlen := congrArg List.length hmid
        simp [encodeChar_ascii hd] at hlen
      · have hle := le_of_mem_encodeChar (by omega) (hmid ▸ List.mem_append_right _ List.mem_cons_self)
        rw [UInt8.toNat_ofNat', Nat.mod_eq_of_lt (by omega)] at hle
        omega
  · exact ⟨mid, hmid⟩

/-- The bytes before an ASCII character, and those after it, are decoded on their own. -/
theorem decodeIgnore_ascii {c : Char} (hc : c.toNat < 128) (post : List UInt8) :
    ∀ pre : List UInt8, decodeIgnore (pre ++ UInt8.ofNat c.toNat :: post) =
      decodeIgnore pre ++ c :: decodeIgnore post
  | [] => by
    have h := decodeIgnore_char c post
    rwa [encodeChar_ascii hc] at h
  | b :: pre => by
    cases hd : decodeChar? (b :: pre ++ UInt8.ofNat c.toNat :: post) with
    | none =>
      have hd' : decodeChar? (b :: pre) = none := by
        cases hd' : decodeChar? (b :: pre) with
        | none => rfl
        | some d =>
          obtain ⟨rest, hrest⟩ := decodeChar?_some hd'
          rw [hrest, List.append_assoc, decodeChar?_encodeChar] at hd
          cases hd
      rw [List.cons_append] at hd ⊢
      rw [decodeIgnore_drop hd, decodeIgnore_drop hd', decodeIgnore_ascii hc post pre]
    | some d =>
      obtain ⟨rest, hrest⟩ := decodeChar?_some hd
      obtain ⟨pre', hpre⟩ := encodeChar_prefix hc hrest
      have hle : pre'.length ≤ pre.length := by
        have hlen := congrArg List.length hpre
        have hpos := List.length_pos_iff.mpr (encodeChar_ne_nil d)
        rw [List.length_cons, List.length_append] at hlen
        omega
      rw [hpre, List.append_assoc, decodeIgnore_char, decodeIgnore_char,
        decodeIgnore_ascii hc post pre', List.cons_append]
termination_by pre => pre.length

/-- Only control characters give bytes of control characters. -/
theorem le_of_mem_encode {cs : List Char} (h : ∀ c ∈ cs, 0x20 ≤ c.toNat) {b : UInt8}
    (hb : b ∈ encode cs) : 0x20 ≤ b.toNat := by
  obtain ⟨c, hc, hb⟩ := List.mem_flatMap.mp hb
  by_cases hascii : c.toNat < 128
  · rw [encodeChar_ascii hascii, List.mem_singleton] at hb
    rw [hb, UInt8.toNat_ofNat', Nat.mod_eq_of_lt (by omega)]
    exact h c hc
  · have := le_of_mem_encodeChar (by omega) hb
    omega

/-! ## Order -/

theorem digit_lt {m n : Nat} (h : m < n) :
    m / 64 < n / 64 ∨ m / 64 = n / 64 ∧ m % 64 < n % 64 := by
  omega

/-- Encodings are in the order of their characters, whatever follows them. -/
theorem encodeChar_append_lt {c d : Char} (h : c < d) (r r' : List UInt8) :
    String.utf8EncodeChar c ++ r < String.utf8EncodeChar d ++ r' := by
  have hlt : c.val.toNat < d.val.toNat := h
  have hd : d.val.toNat < 0x110000 := by
    have hscalar := d.toNat_scalar
    have hval : d.val.toNat = d.toNat := rfl
    omega
  have h12 : ∀ v : Nat, v / 4096 = v / 64 / 64 := fun v => by omega
  have h18 : ∀ v : Nat, v / 262144 = v / 64 / 64 / 64 := fun v => by omega
  simp only [String.utf8EncodeChar, h12, h18]
  generalize c.val.toNat = m at *
  generalize d.val.toNat = n at *
  repeat' split
  all_goals
    simp only [List.cons_append, List.nil_append, List.cons_lt_cons_iff, UInt8.lt_iff_toNat_lt,
      UInt8.toNat_ofNat', ← UInt8.toNat_inj]
  case isFalse.isFalse.isFalse.isFalse.isFalse.isFalse =>
    -- two encodings of four bytes are compared digit by digit
    rcases digit_lt hlt with h1 | ⟨h1, _⟩
    · rcases digit_lt h1 with h2 | ⟨h2, _⟩
      · rcases digit_lt h2 with h3 | ⟨h3, _⟩
        · clear h1 h2 h12 h18
          omega
        · omega
      · rw [h2]
        omega
    · rw [h1]
      omega
  all_goals omega

theorem encode_lt_iff {cs ds : List Char} : encode cs < encode ds ↔ cs < ds := by
  induction cs generalizing ds with
  | nil =>
    cases ds with
    | nil => simp
    | cons d ds =>
      obtain ⟨b, bs, hb⟩ := List.ne_nil_iff_exists_cons.mp (encodeChar_ne_nil d)
      rw [encode_cons, hb]
      simp
  | cons c cs ih =>
    cases ds with
    | nil => simp
    | cons d ds =>
      rw [encode_cons, encode_cons, List.cons_lt_cons_iff]
      rcases lt_trichotomy c d with hcd | rfl | hcd
      · simp [hcd, encodeChar_append_lt hcd]
      · simp [List.append_left_lt_iff, ih]
      · have hgt := List.lt_asymm (encodeChar_append_lt hcd (encode ds) (encode cs))
        simp [hgt, hcd.not_gt, hcd.ne']

end Utf8

namespace Utf16

/-- The code units of a character: one, or a pair of surrogates. -/
def encodeChar (c : Char) : List UInt16 :=
  if c.toNat < 0x10000 then [.ofNat c.toNat]
  else [.ofNat (0xD800 + (c.toNat - 0x10000) / 0x400), .ofNat (0xDC00 + (c.toNat - 0x10000) % 0x400)]

def encode (cs : List Char) : List UInt16 := cs.flatMap encodeChar

/-- The first character is below the second, and its code unit above the surrogates of the
second. -/
def crossesChar (c d : Char) : Bool := 0xE000 ≤ c.toNat && c.toNat < 0x10000 && 0x10000 ≤ d.toNat

/-- The first characters in which the texts differ are not in the order of their code units. -/
def crosses : List Char → List Char → Bool
  | c :: cs, d :: ds => if c = d then crosses cs ds else crossesChar c d || crossesChar d c
  | _, _ => false

@[simp] theorem crosses_self (cs : List Char) : crosses cs cs = false := by
  induction cs with
  | nil => rfl
  | cons c cs ih => rw [crosses, if_pos rfl, ih]

theorem crosses_comm (cs ds : List Char) : crosses cs ds = crosses ds cs := by
  induction cs generalizing ds with
  | nil => cases ds <;> rfl
  | cons c cs ih =>
    cases ds with
    | nil => rfl
    | cons d ds =>
      rw [crosses, crosses, ih, Bool.or_comm]
      simp only [eq_comm]

theorem encodeChar_append_lt {c d : Char} (h : c < d) (hx : crossesChar c d = false)
    (r r' : List UInt16) : encodeChar c ++ r < encodeChar d ++ r' := by
  have hlt : c.toNat < d.toNat := h
  have hc := c.toNat_scalar
  have hd := d.toNat_scalar
  simp only [crossesChar, Bool.and_eq_false_iff, decide_eq_false_iff_not] at hx
  unfold encodeChar
  split <;> split
  all_goals
    simp only [List.cons_append, List.nil_append, List.cons_lt_cons_iff, UInt16.lt_iff_toNat_lt,
      UInt16.toNat_ofNat', ← UInt16.toNat_inj]
    omega

theorem encodeChar_append_gt {c d : Char} (h : crossesChar c d = true) (r r' : List UInt16) :
    encodeChar d ++ r' < encodeChar c ++ r := by
  have hd := d.toNat_scalar
  simp only [crossesChar, Bool.and_eq_true, decide_eq_true_eq] at h
  rw [encodeChar, encodeChar, if_pos h.1.2, if_neg (by omega)]
  simp only [List.cons_append, List.nil_append, List.cons_lt_cons_iff, UInt16.lt_iff_toNat_lt,
    UInt16.toNat_ofNat', ← UInt16.toNat_inj]
  omega

theorem crossesChar_of_gt {c d : Char} (h : d < c) : crossesChar c d = false := by
  have hlt : d.toNat < c.toNat := h
  simp only [crossesChar, Bool.and_eq_false_iff, decide_eq_false_iff_not]
  omega

@[simp] theorem encode_nil : encode [] = [] := rfl

@[simp] theorem encode_cons (c : Char) (cs : List Char) :
    encode (c :: cs) = encodeChar c ++ encode cs := rfl

theorem encodeChar_ne_nil (c : Char) : encodeChar c ≠ [] := by
  unfold encodeChar
  split <;> simp

/-- Code units are in the order of the characters, unless the texts cross. -/
theorem encode_lt_iff_crosses {cs ds : List Char} :
    encode cs < encode ds ↔ if crosses cs ds then ds < cs else cs < ds := by
  induction cs generalizing ds with
  | nil =>
    cases ds with
    | nil => simp [crosses]
    | cons d ds =>
      obtain ⟨u, us, hu⟩ := List.ne_nil_iff_exists_cons.mp (encodeChar_ne_nil d)
      rw [encode_cons, hu]
      simp [crosses]
  | cons c cs ih =>
    cases ds with
    | nil => simp [crosses]
    | cons d ds =>
      rw [encode_cons, encode_cons, crosses, List.cons_lt_cons_iff, List.cons_lt_cons_iff]
      rcases lt_trichotomy c d with hcd | rfl | hcd
      · rw [if_neg hcd.ne, crossesChar_of_gt hcd, Bool.or_false]
        cases hx : crossesChar c d with
        | false => simp [hcd, encodeChar_append_lt hcd hx]
        | true =>
          have hgt := List.lt_asymm (encodeChar_append_gt hx (encode cs) (encode ds))
          simp [hgt, hcd.not_gt, hcd.ne']
      · simp [List.append_left_lt_iff, ih]
      · rw [if_neg hcd.ne', crossesChar_of_gt hcd, Bool.false_or]
        cases hx : crossesChar d c with
        | false =>
          have hgt := List.lt_asymm (encodeChar_append_lt hcd hx (encode ds) (encode cs))
          simp [hgt, hcd.not_gt, hcd.ne']
        | true => simp [hcd, encodeChar_append_gt hx]

theorem crosses_of_bmp {cs ds : List Char} (h : ∀ c ∈ cs, c.toNat < 0x10000)
    (h' : ∀ d ∈ ds, d.toNat < 0x10000) : crosses cs ds = false := by
  induction cs generalizing ds with
  | nil => rfl
  | cons c cs ih =>
    cases ds with
    | nil => rfl
    | cons d ds =>
      rw [List.forall_mem_cons] at h h'
      have hc := h.1
      have hd := h'.1
      rw [crosses, ih h.2 h'.2]
      simp only [crossesChar]
      grind

/-- Without surrogate pairs, code units are in the order of the characters. -/
theorem encode_lt_iff {cs cs' : List Char} (h : ∀ c ∈ cs, c.toNat < 0x10000)
    (h' : ∀ c ∈ cs', c.toNat < 0x10000) : encode cs < encode cs' ↔ cs < cs' := by
  rw [encode_lt_iff_crosses, crosses_of_bmp h h']
  simp

end Utf16
