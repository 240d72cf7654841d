import Pzdr.Enclave.Policy
import Pzdr.Tools.Policy

/-!
# Audit.Policy

The enclave's byte scanners against the published patterns.

`evaluate_denies`: the enclave denies what the published policy denies, as long as the marker or a
match in ASCII digits stands in the plaintext byte after byte, whatever is around it. Neither
condition can be left out (`evaluate_allows_denied`): the reference drops invalid bytes before it
searches, and its `\d` matches the digits of every script.
-/

namespace Pzdr
namespace Audit

open Utf8 (encode)

/-! ## Characters and their bytes -/

theorem infix_encode {cs text : List Char} (h : cs <:+: text) : encode cs <:+: encode text := by
  obtain ⟨pre, post, rfl⟩ := h
  exact ⟨encode pre, encode post, by simp⟩

theorem isDigit_iff {c : Char} : c.isDigit = true ↔ 48 ≤ c.toNat ∧ c.toNat ≤ 57 := by
  rw [Char.isDigit, Bool.and_eq_true, decide_eq_true_eq, decide_eq_true_eq, ge_iff_le,
    UInt32.le_iff_toNat_le, UInt32.le_iff_toNat_le]
  rfl

theorem isAsciiDigit_iff {b : UInt8} :
    Enclave.isAsciiDigit b = true ↔ 48 ≤ b.toNat ∧ b.toNat ≤ 57 := by
  rw [Enclave.isAsciiDigit, Bool.and_eq_true, decide_eq_true_eq, decide_eq_true_eq,
    UInt8.le_iff_toNat_le, UInt8.le_iff_toNat_le]
  rfl

theorem isDigit_ascii {c : Char} (h : c.isDigit = true) : c.toNat < 128 := by
  have := isDigit_iff.mp h
  omega

theorem isAsciiDigit_ofNat {c : Char} (h : c.toNat < 128) :
    Enclave.isAsciiDigit (.ofNat c.toNat) = c.isDigit := by
  rw [Bool.eq_iff_iff, isAsciiDigit_iff, isDigit_iff, UInt8.toNat_ofNat',
    Nat.mod_eq_of_lt (by omega)]

/-- Digits are one byte each. -/
theorem encode_digits {ds : List Char} (h : ∀ d ∈ ds, d.isDigit = true) :
    encode ds = ds.map (fun d => .ofNat d.toNat) := by
  induction ds with
  | nil => rfl
  | cons d ds ih =>
    have hd := isDigit_ascii (h d (by simp))
    rw [Utf8.encode_cons, Utf8.encodeChar_ascii hd, ih (fun x hx => h x (by simp [hx]))]
    rfl

theorem isAsciiDigit_of_mem_encode {ds : List Char} (h : ∀ d ∈ ds, d.isDigit = true) :
    ∀ b ∈ encode ds, Enclave.isAsciiDigit b = true := by
  intro b hb
  rw [encode_digits h] at hb
  obtain ⟨d, hd, rfl⟩ := List.mem_map.mp hb
  rw [isAsciiDigit_ofNat (isDigit_ascii (h d hd)), h d hd]

/-- No byte of another character is a digit byte. -/
theorem isAsciiDigit_of_mem_encodeChar {c : Char} (h : c.isDigit = false) :
    ∀ b ∈ String.utf8EncodeChar c, Enclave.isAsciiDigit b = false := by
  intro b hb
  by_cases hc : c.toNat < 128
  · rw [Utf8.encodeChar_ascii hc, List.mem_singleton] at hb
    rw [hb, isAsciiDigit_ofNat hc, h]
  · have hle := Utf8.le_of_mem_encodeChar (by omega) hb
    simp only [Enclave.isAsciiDigit, Bool.and_eq_false_iff, decide_eq_false_iff_not,
      UInt8.le_iff_toNat_le, UInt8.reduceToNat]
    omega

theorem head?_encode {cs : List Char} (h : ∀ c ∈ cs.head?, c.isDigit = false) :
    ∀ b ∈ (encode cs).head?, Enclave.isAsciiDigit b = false := by
  cases cs with
  | nil => simp
  | cons c cs =>
    intro b hb
    rw [Utf8.encode_cons, List.head?_append_of_ne_nil _ (Utf8.encodeChar_ne_nil c)] at hb
    exact isAsciiDigit_of_mem_encodeChar (h c rfl) b (List.mem_of_mem_head? hb)

theorem getLast?_encode {cs : List Char} (h : ∀ c ∈ cs.getLast?, c.isDigit = false) :
    ∀ b ∈ (encode cs).getLast?, Enclave.isAsciiDigit b = false := by
  intro b hb
  cases hl : cs.getLast? with
  | none =>
    rw [List.getLast?_eq_none_iff.mp hl] at hb
    cases hb
  | some c =>
    obtain ⟨init, rfl⟩ := List.getLast?_eq_some_iff.mp hl
    rw [Utf8.encode_append, show encode [c] = String.utf8EncodeChar c by simp,
      List.getLast?_append_of_ne_nil _ (Utf8.encodeChar_ne_nil c)] at hb
    exact isAsciiDigit_of_mem_encodeChar (h c hl) b (List.mem_of_getLast? hb)

/-! ## From a match to a scan -/

section Scan

variable {t : Tools.UnicodeTables}

theorem isDigit_of_isDecimal {cs : List Char} {ds : List Char}
    (hascii : ∀ c ∈ cs, t.isDecimal c = true → c.toNat < 128) (hsub : ds ⊆ cs)
    (hds : ∀ d ∈ ds, t.isDecimal d = true) : ∀ d ∈ ds, d.isDigit = true := by
  intro d hd
  rw [← t.isDecimal_ascii d (hascii d (hsub hd) (hds d hd))]
  exact hds d hd

theorem isDigit_of_isWord {c : Char} (h : t.isWord c = false) : c.isDigit = false := by
  by_contra hd
  rw [Bool.not_eq_false] at hd
  rw [t.isWord_ascii c (isDigit_ascii hd), Char.isAlphanum, hd, Bool.or_true, Bool.true_or] at h
  cases h

/-- The shape of a social security number in a byte string. -/
theorem looksLikeSsn_of_digits {ds1 ds2 ds3 : List Char} {b : Bytes} (hlen1 : ds1.length = 3)
    (hlen2 : ds2.length = 2) (hlen3 : ds3.length = 4)
    (hdigit : ∀ d ∈ ds1 ++ ds2 ++ ds3, d.isDigit = true)
    (h : encode (ds1 ++ '-' :: (ds2 ++ '-' :: ds3)) <:+: b) : Enclave.looksLikeSsn b = true := by
  have hbyte : ∀ d ∈ ds1 ++ ds2 ++ ds3,
      String.utf8EncodeChar d = [.ofNat d.toNat] ∧ Enclave.isAsciiDigit (.ofNat d.toNat) = true := by
    intro d hd
    have hlt := isDigit_ascii (hdigit d hd)
    exact ⟨Utf8.encodeChar_ascii hlt, by rw [isAsciiDigit_ofNat hlt, hdigit d hd]⟩
  rw [Enclave.looksLikeSsn_iff]
  refine ⟨encode (ds1 ++ '-' :: (ds2 ++ '-' :: ds3)), ?_, h⟩
  match ds1, hlen1, ds2, hlen2, ds3, hlen3 with
  | [a1, a2, a3], _, [b1, b2], _, [c1, c2, c3, c4], _ =>
    simp only [List.cons_append, List.nil_append, List.forall_mem_cons] at hbyte
    obtain ⟨ha1, ha2, ha3, hb1, hb2, hc1, hc2, hc3, hc4, _⟩ := hbyte
    have hyphen : String.utf8EncodeChar '-' = [0x2D] := rfl
    simp only [List.cons_append, List.nil_append, Utf8.encode_cons, Utf8.encode_nil, ha1.1, ha2.1,
      ha3.1, hb1.1, hb2.1, hc1.1, hc2.1, hc3.1, hc4.1, hyphen, Enclave.ssnWindow, ha1.2, ha2.2,
      ha3.2, hb1.2, hb2.2, hc1.2, hc2.2, hc3.2, hc4.2, beq_self_eq_true, Bool.and_self]

/-- Sixteen digits, and no digit byte on either side. -/
theorem looksLikePan_of_digits {ds : List Char} {pre post : Bytes} (hlen : ds.length = 16)
    (hdigit : ∀ d ∈ ds, d.isDigit = true) (hpre : ∀ b ∈ pre.getLast?, Enclave.isAsciiDigit b = false)
    (hpost : ∀ b ∈ post.head?, Enclave.isAsciiDigit b = false) :
    Enclave.looksLikePan (pre ++ encode ds ++ post) = true := by
  refine Enclave.looksLikePan_of_run (isAsciiDigit_of_mem_encode hdigit) ?_ hpre hpost
  rw [encode_digits hdigit, List.length_map, hlen]

theorem looksLikeSsn_of_search {cs : List Char}
    (hascii : ∀ c ∈ cs, t.isDecimal c = true → c.toNat < 128)
    (h : Tools.search t Tools.ssnPattern cs = true) : Enclave.looksLikeSsn (encode cs) = true := by
  obtain ⟨pre, ds1, ds2, ds3, post, rfl, hlen1, hlen2, hlen3, hall⟩ := Tools.search_ssnPattern t h
  have hdigit := isDigit_of_isDecimal hascii (by intro d hd; simp at hd ⊢; tauto) hall
  exact looksLikeSsn_of_digits hlen1 hlen2 hlen3 hdigit (infix_encode ⟨pre, post, rfl⟩)

theorem looksLikePan_of_search {cs : List Char}
    (hascii : ∀ c ∈ cs, t.isDecimal c = true → c.toNat < 128)
    (h : Tools.search t Tools.panPattern cs = true) : Enclave.looksLikePan (encode cs) = true := by
  obtain ⟨pre, ds, post, rfl, hlen, hall, hpre, hpost⟩ := Tools.search_panPattern t h
  have hdigit := isDigit_of_isDecimal hascii (by intro d hd; simp [hd]) hall
  rw [Utf8.encode_append, Utf8.encode_append]
  exact looksLikePan_of_digits hlen hdigit
    (getLast?_encode (fun c hc => isDigit_of_isWord (hpre c hc)))
    (head?_encode (fun c hc => isDigit_of_isWord (hpost c hc)))

end Scan

/-! ## A match in any bytes -/

/-- ASCII text that stands in the plaintext byte after byte. The bytes around it are arbitrary. -/
structure Stands (plaintext pre : Bytes) (found : List Char) (post : Bytes) : Prop where
  split : plaintext = pre ++ encode found ++ post
  ascii : ∀ c ∈ found, c.toNat < 128

section Stands

variable {t : Tools.UnicodeTables} {plaintext pre post : Bytes} {found : List Char}

/-- A digit byte is decoded as a digit, so it is a word character in the decoded text. -/
theorem exists_digit {b : UInt8} (h : Enclave.isAsciiDigit b = true) :
    ∃ c : Char, b = .ofNat c.toNat ∧ c.toNat < 128 ∧ c.isDigit = true := by
  have hb := isAsciiDigit_iff.mp h
  have hc : (Char.ofNat b.toNat).toNat = b.toNat := by
    rw [Char.toNat_ofNat, if_pos (.inl (by omega))]
  refine ⟨.ofNat b.toNat, by rw [hc, UInt8.ofNat_toNat], by omega, isDigit_iff.mpr ?_⟩
  rw [hc]
  exact hb

theorem digit_after (h : ∀ c ∈ (Utf8.decodeIgnore post).head?, t.isWord c = false) :
    ∀ b ∈ post.head?, Enclave.isAsciiDigit b = false := by
  intro b hb
  by_contra hdigit
  obtain ⟨rest, rfl⟩ := List.head?_eq_some_iff.mp hb
  obtain ⟨c, rfl, hc, hd⟩ := exists_digit (Bool.not_eq_false _ ▸ hdigit)
  have hdecode := Utf8.decodeIgnore_ascii hc rest []
  rw [List.nil_append] at hdecode
  rw [hdecode] at h
  rw [isDigit_of_isWord (h c rfl)] at hd
  cases hd

theorem digit_before (h : ∀ c ∈ (Utf8.decodeIgnore pre).getLast?, t.isWord c = false) :
    ∀ b ∈ pre.getLast?, Enclave.isAsciiDigit b = false := by
  intro b hb
  by_contra hdigit
  obtain ⟨init, rfl⟩ := List.getLast?_eq_some_iff.mp hb
  obtain ⟨c, rfl, hc, hd⟩ := exists_digit (Bool.not_eq_false _ ▸ hdigit)
  rw [Utf8.decodeIgnore_ascii hc [] init] at h
  rw [isDigit_of_isWord (h c (by simp [Utf8.decodeIgnore, Utf8.decodeIgnoreFrom]))] at hd
  cases hd

theorem isDigit_of_ascii (hascii : ∀ c ∈ found, c.toNat < 128) {ds : List Char} (hsub : ds ⊆ found)
    (hds : ∀ d ∈ ds, t.isDecimal d = true) : ∀ d ∈ ds, d.isDigit = true :=
  isDigit_of_isDecimal (fun c hc _ => hascii c hc) hsub hds

theorem Stands.looksLikeSsn (h : Stands plaintext pre found post)
    (hm : Tools.Matches t Tools.ssnPattern (Utf8.decodeIgnore pre) found (Utf8.decodeIgnore post)) :
    Enclave.looksLikeSsn plaintext = true := by
  obtain ⟨hmatch, hwidth⟩ := hm
  obtain ⟨ds1, ds2, ds3, _, hsplit, hlen1, hlen2, hlen3, hall⟩ := Tools.matchAt_ssnPattern t hmatch
  have hlen : found.length = (ds1 ++ '-' :: (ds2 ++ '-' :: ds3)).length := by
    rw [hwidth]
    simp [hlen1, hlen2, hlen3]
    rfl
  obtain ⟨rfl, _⟩ := List.append_inj hsplit hlen
  have hdigit := isDigit_of_ascii h.ascii (by intro d hd; simp at hd ⊢; tauto) hall
  exact looksLikeSsn_of_digits hlen1 hlen2 hlen3 hdigit ⟨pre, post, h.split.symm⟩

theorem Stands.looksLikePan (h : Stands plaintext pre found post)
    (hm : Tools.Matches t Tools.panPattern (Utf8.decodeIgnore pre) found (Utf8.decodeIgnore post)) :
    Enclave.looksLikePan plaintext = true := by
  obtain ⟨hmatch, hwidth⟩ := hm
  obtain ⟨ds, after, hsplit, hlen, hall, hpre, hpost⟩ := Tools.matchAt_panPattern t hmatch
  obtain ⟨rfl, rfl⟩ := List.append_inj hsplit (hwidth.trans hlen.symm)
  rw [h.split]
  exact looksLikePan_of_digits hlen (isDigit_of_ascii h.ascii (fun _ hd => hd) hall)
    (digit_before hpre) (digit_after hpost)

theorem Stands.contains (h : Stands plaintext pre found post) (hne : found ≠ []) :
    Enclave.contains plaintext (encode found) = true := by
  have hbytes : encode found ≠ [] := fun hnil => hne (Utf8.encode_injective hnil)
  exact (Enclave.contains_iff hbytes).mpr ⟨pre, post, h.split.symm⟩

theorem Stands.decodeIgnore (h : Stands plaintext pre found post) (hne : found ≠ []) :
    Utf8.decodeIgnore plaintext = Utf8.decodeIgnore pre ++ (found ++ Utf8.decodeIgnore post) := by
  obtain ⟨rfl, hascii⟩ := h
  cases found with
  | nil => exact absurd rfl hne
  | cons c found =>
    have hc := hascii c List.mem_cons_self
    rw [List.append_assoc, Utf8.encode_cons, Utf8.encodeChar_ascii hc, List.append_assoc,
      List.singleton_append, Utf8.decodeIgnore_ascii hc, Utf8.decodeIgnore_encode_append,
      List.cons_append]

end Stands

/-! ## The two evaluations -/

/-- What the published policy searches for stands in the plaintext. -/
inductive Standing (t : Tools.UnicodeTables) (plaintext : Bytes) : Prop where
  | marker (pre post : Bytes) : Stands plaintext pre "<RESTRICTED".toList post →
      Standing t plaintext
  | pii (p : Tools.Pattern) (pre : Bytes) (found : List Char) (post : Bytes) :
      p ∈ [Tools.ssnPattern, Tools.panPattern] → Stands plaintext pre found post →
      Tools.Matches t p (Utf8.decodeIgnore pre) found (Utf8.decodeIgnore post) →
      Standing t plaintext

/-- The reference finds what stands. -/
theorem Standing.evaluatePolicy {t : Tools.UnicodeTables} {plaintext : Bytes}
    (h : Standing t plaintext) (processor : String) :
    (Tools.evaluatePolicy t Tools.defaultPolicy plaintext processor).1 = false := by
  have hfound : (Tools.inText "<RESTRICTED".toList (Utf8.decodeIgnore plaintext) ||
      [Tools.ssnPattern, Tools.panPattern].any
        (fun p => Tools.search t p (Utf8.decodeIgnore plaintext))) = true := by
    rw [Bool.or_eq_true]
    cases h with
    | marker pre post hstands =>
      rw [Tools.inText_iff, hstands.decodeIgnore (by decide)]
      exact .inl ⟨Utf8.decodeIgnore pre, Utf8.decodeIgnore post, List.append_assoc _ _ _⟩
    | pii p pre found post hp hstands hm =>
      have hne : found ≠ [] := by
        rintro rfl
        have hwidth := hm.2
        simp only [List.mem_cons, List.not_mem_nil, or_false] at hp
        rcases hp with rfl | rfl <;> cases hwidth
      rw [List.any_eq_true, hstands.decodeIgnore hne]
      exact .inr ⟨p, hp, Tools.search_of_matchAt t hm.1⟩
  unfold Tools.evaluatePolicy
  split
  · rfl
  split
  · rfl
  simp only [Tools.defaultPolicy, Option.getD_some, List.any_cons, List.any_nil, Bool.or_false,
    Bool.or_eq_true] at hfound ⊢
  split
  · rfl
  · rename_i hmarker
    rw [if_pos (hfound.resolve_left hmarker)]

/-- No enclave allows it, whatever the processor is. -/
theorem Standing.evaluate {t : Tools.UnicodeTables} {plaintext : Bytes} (h : Standing t plaintext)
    (processor : String) : Enclave.Policy.defaultV1.evaluate plaintext processor ≠ .ok () := by
  intro hev
  obtain ⟨_, _, hmark, hssn, hpan⟩ := Enclave.Policy.evaluate_ok hev
  cases h with
  | marker pre post hstands =>
    have hin := hstands.contains (by decide)
    rw [hmark "<RESTRICTED" (by decide)] at hin
    cases hin
  | pii p pre found post hp hstands hm =>
    simp only [List.mem_cons, List.not_mem_nil, or_false] at hp
    rcases hp with rfl | rfl
    · rw [hstands.looksLikeSsn hm] at hssn
      cases hssn
    · rw [hstands.looksLikePan hm] at hpan
      cases hpan

theorem evaluate_denies (t : Tools.UnicodeTables) (plaintext : Bytes) (processor reason : String)
    (h : Tools.evaluatePolicy t Tools.defaultPolicy plaintext processor = (false, reason))
    (hstanding : reason = "restricted_marker" ∨ reason = "pii_detected" → Standing t plaintext) :
    ∃ reason', Enclave.Policy.defaultV1.evaluate plaintext processor = .error reason' := by
  cases hev : Enclave.Policy.defaultV1.evaluate plaintext processor with
  | error reason' => exact ⟨reason', rfl⟩
  | ok u =>
    exfalso
    obtain ⟨hproc, hlen, _⟩ := Enclave.Policy.evaluate_ok hev
    have hcontent : reason ≠ "restricted_marker" ∧ reason ≠ "pii_detected" := by
      rw [← not_or]
      exact fun hr => (hstanding hr).evaluate processor hev
    unfold Tools.evaluatePolicy at h
    split at h
    · rename_i hnot
      simp only [Tools.defaultPolicy, Option.getD_some, Bool.not_eq_true', List.contains_eq_mem,
        decide_eq_false_iff_not] at hnot
      exact hnot hproc
    split at h
    · rename_i hlong
      exact absurd hlen (by simpa [Tools.defaultPolicy, Enclave.Policy.defaultV1] using hlong)
    simp only at h
    split at h
    · exact hcontent.1 (Prod.mk.inj h).2.symm
    split at h
    · exact hcontent.2 (Prod.mk.inj h).2.symm
    · cases h

/-- The classes of ASCII, and the Arabic-Indic digits. -/
def arabicTables : Tools.UnicodeTables where
  isDecimal c := c.isDigit || (0x660 ≤ c.toNat && c.toNat ≤ 0x669)
  isWord c := c.isAlphanum || c == '_' || (0x660 ≤ c.toNat && c.toNat ≤ 0x669)
  isDecimal_ascii := by
    intro c hc
    have : ¬ 0x660 ≤ c.toNat := by omega
    simp [this]
  isWord_ascii := by
    intro c hc
    have : ¬ 0x660 ≤ c.toNat := by omega
    simp [this]
  isWord_of_isDecimal := by
    intro c hc
    rw [Bool.or_eq_true] at hc
    rcases hc with hc | hc
    · simp [Char.isAlphanum, hc]
    · simp [hc]

/-- An invalid byte behind a marker, and one behind a social security number. -/
theorem evaluate_denies_ssn :
    (∃ reason', Enclave.Policy.defaultV1.evaluate
      (encode "<RESTRICTED".toList ++ (encode "> x".toList ++ [0xFF])) "gateway" =
        .error reason') ∧
    ∃ reason', Enclave.Policy.defaultV1.evaluate
      (encode "ssn ".toList ++ encode "123-45-6789".toList ++ [0x20, 0xFF]) "gateway" =
        .error reason' :=
  ⟨evaluate_denies arabicTables _ "gateway" "restricted_marker" (by decide +kernel)
      (fun _ => .marker [] _ ⟨rfl, by simp⟩),
    evaluate_denies arabicTables _ "gateway" "pii_detected" (by decide +kernel)
      (fun _ => .pii Tools.ssnPattern (encode "ssn ".toList) "123-45-6789".toList [0x20, 0xFF]
        List.mem_cons_self ⟨rfl, by simp⟩ (by decide +kernel))⟩

/-- A marker with an invalid byte in it, and a social security number in Arabic-Indic digits. -/
theorem evaluate_allows_denied :
    (Tools.evaluatePolicy arabicTables Tools.defaultPolicy
        (encode "<RESTR".toList ++ 0xFF :: encode "ICTED>".toList) "gateway" =
        (false, "restricted_marker") ∧
      Enclave.Policy.defaultV1.evaluate
        (encode "<RESTR".toList ++ 0xFF :: encode "ICTED>".toList) "gateway" = .ok ()) ∧
    Tools.evaluatePolicy arabicTables Tools.defaultPolicy (encode "١٢٣-٤٥-٦٧٨٩".toList) "gateway" =
        (false, "pii_detected") ∧
      Enclave.Policy.defaultV1.evaluate (encode "١٢٣-٤٥-٦٧٨٩".toList) "gateway" = .ok () :=
  ⟨⟨by decide +kernel, rfl⟩, by decide +kernel, rfl⟩

end Audit
end Pzdr
