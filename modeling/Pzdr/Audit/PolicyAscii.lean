import Pzdr.Audit.Policy

/-!
# Audit.PolicyAscii

On ASCII plaintexts the enclave's scanners find at least what the published patterns match, and the
two evaluations differ in nothing else (`evaluate_ascii`).

The scanners look at no word boundary. So the enclave also denies `ddd-dd-dddd` inside a longer
word, and a run of 16 digits with a letter or an underscore beside it.
-/

namespace Pzdr
namespace Audit

open Utf8 (encode)

/-! ## ASCII texts -/

/-- A letter, a digit or an underscore. -/
def isWordByte (b : UInt8) : Bool :=
  Enclave.isAsciiDigit b || (0x41 ≤ b && b ≤ 0x5A) || (0x61 ≤ b && b ≤ 0x7A) || b == 0x5F

theorem isWordByte_ofNat {c : Char} (h : c.toNat < 128) :
    isWordByte (.ofNat c.toNat) = (c.isAlphanum || c == '_') := by
  have key : ∀ n < 128, isWordByte (.ofNat (Char.ofNat n).toNat) =
      ((Char.ofNat n).isAlphanum || Char.ofNat n == '_') := by decide
  have hc := key c.toNat h
  rwa [Char.ofNat_toNat] at hc

theorem encode_ascii {cs : List Char} (h : ∀ c ∈ cs, c.toNat < 128) :
    encode cs = cs.map (fun c => .ofNat c.toNat) := by
  induction cs with
  | nil => rfl
  | cons c cs ih =>
    rw [List.forall_mem_cons] at h
    rw [Utf8.encode_cons, Utf8.encodeChar_ascii h.1, ih h.2]
    rfl

theorem exists_ascii {bs : Bytes} (h : ∀ b ∈ bs, b.toNat < 128) :
    ∃ cs : List Char, encode cs = bs ∧ ∀ c ∈ cs, c.toNat < 128 := by
  have htoNat : ∀ b ∈ bs, (Char.ofNat b.toNat).toNat = b.toNat := by
    intro b hb
    have hlt := h b hb
    rw [Char.toNat_ofNat, if_pos (.inl (by omega))]
  have hascii : ∀ c ∈ bs.map (fun b => Char.ofNat b.toNat), c.toNat < 128 := by
    intro c hc
    obtain ⟨b, hb, rfl⟩ := List.mem_map.mp hc
    rw [htoNat b hb]
    exact h b hb
  refine ⟨_, ?_, hascii⟩
  rw [encode_ascii hascii, List.map_map]
  refine (List.map_congr_left ?_).trans bs.map_id
  intro b hb
  simp only [Function.comp_apply, htoNat b hb, UInt8.ofNat_toNat, id_eq]

section Ascii

variable {cs : List Char}

/-- A piece of the bytes of an ASCII text is the bytes of a piece of the text. -/
theorem exists_split (hcs : ∀ c ∈ cs, c.toNat < 128) {pre mid post : Bytes}
    (h : encode cs = pre ++ mid ++ post) :
    ∃ cs1 cs2 cs3, cs = cs1 ++ cs2 ++ cs3 ∧ encode cs1 = pre ∧ encode cs2 = mid ∧
      encode cs3 = post := by
  rw [encode_ascii hcs, List.map_eq_append_iff] at h
  obtain ⟨front, cs3, rfl, hfront, rfl⟩ := h
  obtain ⟨cs1, cs2, rfl, rfl, rfl⟩ := List.map_eq_append_iff.mp hfront
  simp only [List.forall_mem_append] at hcs
  exact ⟨cs1, cs2, cs3, rfl, encode_ascii hcs.1.1, encode_ascii hcs.1.2, encode_ascii hcs.2⟩

theorem infix_of_encode (hcs : ∀ c ∈ cs, c.toNat < 128) {marker : List Char}
    (h : encode marker <:+: encode cs) : marker <:+: cs := by
  obtain ⟨pre, post, h⟩ := h
  obtain ⟨cs1, cs2, cs3, rfl, _, hmid, _⟩ := exists_split hcs h.symm
  rw [Utf8.encode_injective hmid]
  exact ⟨cs1, cs3, rfl⟩

theorem contains_encode (hcs : ∀ c ∈ cs, c.toNat < 128) {marker : List Char} (hm : marker ≠ []) :
    Enclave.contains (encode cs) (encode marker) = Tools.inText marker cs := by
  have hne : encode marker ≠ [] := by
    intro h
    exact hm (Utf8.encode_injective h)
  rw [Bool.eq_iff_iff, Enclave.contains_iff hne, Tools.inText_iff]
  exact ⟨infix_of_encode hcs, infix_encode⟩

theorem isWord_getLast? (t : Tools.UnicodeTables) (hcs : ∀ c ∈ cs, c.toNat < 128)
    (h : ∀ b ∈ (encode cs).getLast?, isWordByte b = false) :
    ∀ c ∈ cs.getLast?, t.isWord c = false := by
  intro c hc
  have hlt := hcs c (List.mem_of_getLast? hc)
  rw [encode_ascii hcs, List.getLast?_map] at h
  rw [t.isWord_ascii c hlt, ← isWordByte_ofNat hlt]
  exact h _ (Option.mem_map_of_mem _ hc)

theorem isWord_head? (t : Tools.UnicodeTables) (hcs : ∀ c ∈ cs, c.toNat < 128)
    (h : ∀ b ∈ (encode cs).head?, isWordByte b = false) :
    ∀ c ∈ cs.head?, t.isWord c = false := by
  intro c hc
  have hlt := hcs c (List.mem_of_mem_head? hc)
  rw [encode_ascii hcs, List.head?_map] at h
  rw [t.isWord_ascii c hlt, ← isWordByte_ofNat hlt]
  exact h _ (Option.mem_map_of_mem _ hc)

/-- A run that touches no word character is what the second pattern matches. -/
theorem search_of_panRun (t : Tools.UnicodeTables) (hcs : ∀ c ∈ cs, c.toNat < 128)
    {pre ds post : Bytes} (hrun : Enclave.PanRun (encode cs) pre ds post)
    (hpre : ∀ b ∈ pre.getLast?, isWordByte b = false)
    (hpost : ∀ b ∈ post.head?, isWordByte b = false) :
    Tools.search t Tools.panPattern cs = true := by
  obtain ⟨cs1, cs2, cs3, rfl, rfl, rfl, rfl⟩ := exists_split hcs hrun.split
  simp only [List.forall_mem_append] at hcs
  obtain ⟨⟨hcs1, hcs2⟩, hcs3⟩ := hcs
  have hlen := hrun.length
  have hdigits := hrun.digits
  rw [encode_ascii hcs2, List.length_map] at hlen
  rw [encode_ascii hcs2, List.forall_mem_map] at hdigits
  rw [List.append_assoc]
  refine Tools.search_panPattern_of t hlen ?_ (isWord_getLast? t hcs1 hpre)
    (isWord_head? t hcs3 hpost)
  intro c hc
  rw [t.isDecimal_ascii c (hcs2 c hc), ← isAsciiDigit_ofNat (hcs2 c hc)]
  exact hdigits c hc

end Ascii

/-! ## The two evaluations -/

/-- A run of exactly 16 digits that touches a word character. -/
def HasPanInWord (b : Bytes) : Prop :=
  ∃ pre ds post, Enclave.PanRun b pre ds post ∧
    ((∃ c ∈ pre.getLast?, isWordByte c = true) ∨ ∃ c ∈ post.head?, isWordByte c = true)

/-- What the enclave's scanners find in an ASCII text and the published patterns do not. -/
theorem scan_ascii (t : Tools.UnicodeTables) {cs : List Char} (hcs : ∀ c ∈ cs, c.toNat < 128)
    (h : (Enclave.looksLikeSsn (encode cs) || Enclave.looksLikePan (encode cs)) = true)
    (hnot : Tools.search t Tools.panPattern cs = false) :
    Enclave.HasSsn (encode cs) ∨ HasPanInWord (encode cs) := by
  rw [Bool.or_eq_true] at h
  rcases h with h | h
  · obtain ⟨w, hw, hin⟩ := Enclave.looksLikeSsn_iff.mp h
    exact .inl (Enclave.hasSsn_of_ssnWindow hw hin)
  · obtain ⟨pre, ds, post, hrun⟩ := Enclave.looksLikePan_iff.mp h
    refine .inr ⟨pre, ds, post, hrun, ?_⟩
    by_contra hword
    simp only [not_or, not_exists, not_and, Bool.not_eq_true] at hword
    rw [search_of_panRun t hcs hrun hword.1 hword.2] at hnot
    cases hnot

theorem search_ascii (t : Tools.UnicodeTables) {cs : List Char} (hcs : ∀ c ∈ cs, c.toNat < 128)
    (h : (Tools.search t Tools.ssnPattern cs || Tools.search t Tools.panPattern cs) = true) :
    (Enclave.looksLikeSsn (encode cs) || Enclave.looksLikePan (encode cs)) = true := by
  have hascii : ∀ c ∈ cs, t.isDecimal c = true → c.toNat < 128 := fun c hc _ => hcs c hc
  rw [Bool.or_eq_true] at h ⊢
  exact h.imp (looksLikeSsn_of_search hascii) (looksLikePan_of_search hascii)

theorem evaluate_ascii (t : Tools.UnicodeTables) (plaintext : Bytes) (processor : String)
    (hascii : ∀ b ∈ plaintext, b.toNat < 128) :
    (∀ reason,
      Tools.evaluatePolicy t Tools.defaultPolicy plaintext processor = (false, reason) →
      Enclave.Policy.defaultV1.evaluate plaintext processor = .error reason) ∧
    ∀ reason text, Enclave.Policy.defaultV1.evaluate plaintext processor = .error reason →
      Tools.evaluatePolicy t Tools.defaultPolicy plaintext processor = (true, text) →
      reason = "pii_detected" ∧ (Enclave.HasSsn plaintext ∨ HasPanInWord plaintext) := by
  obtain ⟨cs, rfl, hcs⟩ := exists_ascii hascii
  have hmarker := contains_encode hcs (by decide : "<RESTRICTED".toList ≠ [])
  have hsearch := search_ascii t hcs
  have hscan := scan_ascii t hcs
  have hproc : ["gateway"].contains processor = ("gateway" == processor) := by
    rw [Bool.eq_iff_iff, beq_iff_eq, List.contains_eq_mem, decide_eq_true_eq, List.mem_singleton]
    exact eq_comm
  simp only [Tools.evaluatePolicy, Enclave.Policy.evaluate, Tools.defaultPolicy,
    Enclave.Policy.defaultV1, Option.getD_some, Utf8.decodeIgnore_encode, List.any_cons,
    List.any_nil, Bool.or_false, hmarker, hproc]
  -- the first three checks are the same on both sides
  cases hgateway : !"gateway" == processor with
  | true => simp
  | false =>
    by_cases hlen : (encode cs).length > 100000
    · simp [hlen]
    cases hm : Tools.inText "<RESTRICTED".toList cs with
    | true => simp [hlen]
    | false =>
      cases hfound : Tools.search t Tools.ssnPattern cs || Tools.search t Tools.panPattern cs with
      | true => simp [hlen, hsearch hfound]
      | false =>
        cases hpii : Enclave.looksLikeSsn (encode cs) || Enclave.looksLikePan (encode cs) with
        | false => simp [hlen]
        | true =>
          have hshape := hscan hpii (Bool.or_eq_false_iff.mp hfound).2
          simp [hlen, hshape]

/-- A card number with a letter before it. -/
theorem evaluate_ascii_pan :
    Enclave.HasSsn (encode "a4111111111111111".toList) ∨
      HasPanInWord (encode "a4111111111111111".toList) :=
  ((evaluate_ascii arabicTables (encode "a4111111111111111".toList) "gateway"
    (by decide +kernel)).2 "pii_detected" "allow" rfl (by decide +kernel)).2

end Audit
end Pzdr
