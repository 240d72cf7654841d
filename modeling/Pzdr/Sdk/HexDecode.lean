import Pzdr.Hex
import Pzdr.Sdk.Transparency
import Pzdr.Sha256

/-!
# Sdk.HexDecode

What `hexToBytes` of `sdk/typescript/transparency.ts` makes of an arbitrary string, which here is
its code units.

The text is cut into pieces of one or two units, a piece that is no number becomes 0, and line
terminators are skipped. So it throws only on a text of line terminators, and is strict only on
hexadecimal texts of even length (`hexToBytes_strict_iff`); every other text decodes to the bytes of
such a text as well (`exists_isHex`).
-/

namespace Pzdr
namespace Sdk

/-- `hexToBytes` of a string that need not be the encoding of a text. -/
def hexToBytesUnits (h : List UInt16) : Option Bytes :=
  match matchPairs h with
  | [] => none
  | pairs => some (pairs.map (fun b => toUint8 (parseInt16 b)))

theorem hexToBytes_eq (h : String) : hexToBytes h = hexToBytesUnits (Utf16.encode h.toList) := rfl

/-- `bytesToHex`: `toString(16)`, padded with zeros. -/
def bytesToHex (b : Bytes) : List UInt16 :=
  b.flatMap (fun x => ((Nat.toDigits 16 x.toNat).leftpad 2 '0').map (fun c => .ofNat c.toNat))

/-- The hexadecimal digits: `0` to `9`, `A` to `F`, and `a` to `f`. -/
def hexUnits : List UInt16 :=
  [0x30, 0x31, 0x32, 0x33, 0x34, 0x35, 0x36, 0x37, 0x38, 0x39,
    0x41, 0x42, 0x43, 0x44, 0x45, 0x46, 0x61, 0x62, 0x63, 0x64, 0x65, 0x66]

/-- A letter of ASCII in lower case. -/
def lowerUnit (u : UInt16) : UInt16 := if 0x41 ≤ u ∧ u ≤ 0x5A then u + 0x20 else u

structure IsHex (s : List UInt16) : Prop where
  digits : ∀ u ∈ s, u ∈ hexUnits
  even : s.length % 2 = 0

instance (s : List UInt16) : Decidable (IsHex s) :=
  decidable_of_iff (s.all (fun u => decide (u ∈ hexUnits)) = true ∧ s.length % 2 = 0)
    ⟨fun h => ⟨by simpa using h.1, h.2⟩, fun h => ⟨by simpa using h.digits, h.even⟩⟩

def IsBlank (s : List UInt16) : Prop := ∀ u ∈ s, isLineTerminator u = true

section Decode

variable {s : List UInt16} {bs : Bytes}

theorem matchPairs_eq_nil : matchPairs s = [] ↔ IsBlank s := by
  rw [IsBlank]
  induction s using matchPairs.induct with
  | case1 => simp [matchPairs]
  | case2 a h => simp [matchPairs, h]
  | case3 a h => simp [matchPairs, h]
  | case4 a b us h ih => simp [matchPairs, h, ih]
  | case5 a b us ha hb ih => simp [matchPairs, ha, hb]
  | case6 a b us ha hb ih => simp [matchPairs, ha, hb]

/-- It throws only where there is nothing to match. -/
theorem hexToBytesUnits_eq_none : hexToBytesUnits s = none ↔ IsBlank s := by
  rw [← matchPairs_eq_nil, hexToBytesUnits]
  split <;> simp_all

theorem hexToBytesUnits_eq_some (h : hexToBytesUnits s = some bs) :
    bs = (matchPairs s).map (fun b => toUint8 (parseInt16 b)) := by
  rw [hexToBytesUnits] at h
  split at h
  · cases h
  · exact (Option.some.inj h).symm

/-- Two digits are one byte, which is written as these digits in lower case. -/
theorem bytesToHex_pair : ∀ a ∈ hexUnits, ∀ b ∈ hexUnits,
    isLineTerminator a = false ∧ isLineTerminator b = false ∧
      bytesToHex [toUint8 (parseInt16 [a, b])] = [lowerUnit a, lowerUnit b] := by
  have h : hexUnits.all (fun a => hexUnits.all (fun b => decide
      (isLineTerminator a = false ∧ isLineTerminator b = false ∧
        bytesToHex [toUint8 (parseInt16 [a, b])] = [lowerUnit a, lowerUnit b]))) = true := by
    decide +kernel
  simpa only [List.all_eq_true, decide_eq_true_eq] using h

theorem bytesToHex_cons (b : UInt8) (bs : Bytes) :
    bytesToHex (b :: bs) = bytesToHex [b] ++ bytesToHex bs := by
  simp [bytesToHex]

theorem bytesToHex_matchPairs : ∀ {s : List UInt16}, IsHex s →
    bytesToHex ((matchPairs s).map (fun b => toUint8 (parseInt16 b))) = s.map lowerUnit
  | [], _ => rfl
  | [_], h => absurd h.even (by simp)
  | a :: b :: us, h => by
    have hdigits := h.digits
    rw [List.forall_mem_cons, List.forall_mem_cons] at hdigits
    obtain ⟨ha, hb, hus⟩ := hdigits
    obtain ⟨hal, hbl, hpair⟩ := bytesToHex_pair a ha b hb
    have heven := h.even
    simp only [List.length_cons] at heven
    have ih := bytesToHex_matchPairs ⟨hus, by omega⟩
    simp only [matchPairs, hal, hbl, Bool.false_eq_true, if_false, List.map_cons]
    rw [bytesToHex_cons, hpair, ih]
    rfl

theorem bytesToHex_of_isHex (hs : IsHex s) (h : hexToBytesUnits s = some bs) :
    bytesToHex bs = s.map lowerUnit := by
  rw [hexToBytesUnits_eq_some h]
  exact bytesToHex_matchPairs hs

/-! ## Every text decodes like a hexadecimal one -/

theorem bytesToHex_eq (bs : Bytes) : bytesToHex bs = Utf16.encode (hexEncode bs).toList := by
  have hbyte : ∀ n < 256,
      ((Nat.toDigits 16 n).leftpad 2 '0').map (fun c => UInt16.ofNat c.toNat) =
        [.ofNat (Nat.digitChar (n / 16)).toNat, .ofNat (Nat.digitChar (n % 16)).toNat] := by
    decide +kernel
  rw [hexEncode, String.toList_ofList]
  induction bs with
  | nil => rfl
  | cons b bs ih =>
    rw [bytesToHex_cons, ih, encode_flatMap_cons, bytesToHex, List.flatMap_singleton,
      hbyte b.toNat b.toNat_lt]
    rfl

theorem hexToBytesUnits_bytesToHex (hbs : bs ≠ []) : hexToBytesUnits (bytesToHex bs) = some bs := by
  rw [bytesToHex_eq, ← hexToBytes_eq]
  exact hexToBytes_hexEncode hbs

theorem isHex_bytesToHex (bs : Bytes) : IsHex (bytesToHex bs) := by
  have hdigit : ∀ n < 16, .ofNat (Nat.digitChar n).toNat ∈ hexUnits := by decide +kernel
  rw [bytesToHex_eq, hexEncode, String.toList_ofList]
  induction bs with
  | nil => exact ⟨by simp, rfl⟩
  | cons b bs ih =>
    have hb := b.toNat_lt
    rw [encode_flatMap_cons]
    constructor
    · rw [List.forall_mem_cons, List.forall_mem_cons]
      exact ⟨hdigit _ (by omega), hdigit _ (by omega), ih.digits⟩
    · have heven := ih.even
      simp only [List.length_cons]
      omega

/-- What decodes at all decodes to the bytes of a hexadecimal text. -/
theorem exists_isHex (h : hexToBytesUnits s = some bs) :
    ∃ t, IsHex t ∧ hexToBytesUnits t = some bs := by
  have hne : bs ≠ [] := by
    rintro rfl
    have hblank : IsBlank s := by
      rw [← matchPairs_eq_nil]
      exact List.map_eq_nil_iff.mp (hexToBytesUnits_eq_some h).symm
    rw [hexToBytesUnits_eq_none.mpr hblank] at h
    cases h
  exact ⟨bytesToHex bs, isHex_bytesToHex bs, hexToBytesUnits_bytesToHex hne⟩

end Decode

/-! ## Audit paths and roots -/

/-- Every string of two audit paths is refused, or hexadecimal and decoded to what it says; and two
paths with the same hashes are equal up to the case of letters. A root is a path of one string. -/
structure DecodedStrictly (path path' : List (List UInt16)) : Prop where
  strict : ∀ s ∈ path ++ path', ∀ bs, hexToBytesUnits s = some bs →
    IsHex s ∧ bytesToHex bs = s.map lowerUnit
  separate : ∀ hashes, path.mapM hexToBytesUnits = some hashes →
    path'.mapM hexToBytesUnits = some hashes →
    path.map (List.map lowerUnit) = path'.map (List.map lowerUnit)

/-- Strings that are decoded to what they say are determined by their hashes. -/
theorem lower_of_mapM {path : List (List UInt16)} {hashes : List Bytes}
    (hstrict : ∀ s ∈ path, ∀ bs, hexToBytesUnits s = some bs → bytesToHex bs = s.map lowerUnit)
    (h : path.mapM hexToBytesUnits = some hashes) :
    path.map (List.map lowerUnit) = hashes.map bytesToHex := by
  induction path generalizing hashes with
  | nil =>
    simp only [List.mapM_nil, Option.pure_def, Option.some.injEq] at h
    subst h
    rfl
  | cons s path ih =>
    rw [List.forall_mem_cons] at hstrict
    simp only [List.mapM_cons, Option.bind_eq_bind, Option.bind_eq_some_iff, Option.pure_def,
      Option.some.injEq] at h
    obtain ⟨bs, hbs, rest, hrest, rfl⟩ := h
    rw [List.map_cons, List.map_cons, hstrict.1 bs hbs, ih hstrict.2 hrest]

theorem hexToBytes_strict_iff (path path' : List (List UInt16)) :
    DecodedStrictly path path' ↔ ∀ s ∈ path ++ path', IsHex s ∨ IsBlank s := by
  constructor
  · intro h s hs
    cases hbs : hexToBytesUnits s with
    | none => exact .inr (hexToBytesUnits_eq_none.mp hbs)
    | some bs => exact .inl (h.strict s hs bs hbs).1
  · intro h
    have hstrict : ∀ s ∈ path ++ path', ∀ bs, hexToBytesUnits s = some bs →
        IsHex s ∧ bytesToHex bs = s.map lowerUnit := by
      intro s hs bs hbs
      rcases h s hs with hhex | hblank
      · exact ⟨hhex, bytesToHex_of_isHex hhex hbs⟩
      · rw [hexToBytesUnits_eq_none.mpr hblank] at hbs
        cases hbs
    refine ⟨hstrict, ?_⟩
    intro hashes hpath hpath'
    rw [lower_of_mapM (fun s hs bs hbs => (hstrict s (by simp [hs]) bs hbs).2) hpath,
      lower_of_mapM (fun s hs bs hbs => (hstrict s (by simp [hs]) bs hbs).2) hpath']

/-- A letter that is no digit, and a line break: both roots are taken for `00`. -/
theorem hexToBytes_lenient :
    ¬ DecodedStrictly [Utf16.encode "0g".toList] [Utf16.encode "00".toList] ∧
      ¬ DecodedStrictly [Utf16.encode "00\n".toList] [Utf16.encode "00".toList] ∧
      verifyInclusion Sha256.firstBytes.log hexToBytes [0] 0 1 [] "0g" = some true ∧
      verifyConsistency Sha256.firstBytes.log hexToBytes 1 "00\n" 1 "00" [] = some true := by
  have hletter : hexToBytes "0g" = some [0] := by decide +kernel
  have hbreak : hexToBytes "00\n" = some [0] := by decide +kernel
  have hzero : hexToBytes "00" = some [0] := by decide +kernel
  refine ⟨?_, ?_, ?_, ?_⟩
  · intro h
    have hhex := (h.strict (Utf16.encode "0g".toList) (by simp) [0] hletter).1
    exact absurd hhex (by decide +kernel)
  · intro h
    have hhex := (h.strict (Utf16.encode "00\n".toList) (by simp) [0] hbreak).1
    exact absurd hhex (by decide +kernel)
  · rw [verifyInclusion_true]
    exact ⟨by omega, by omega, [], [0], rfl, hletter, rfl⟩
  · simp [verifyConsistency, hbreak, hzero]

end Sdk
end Pzdr
