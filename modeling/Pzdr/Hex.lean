import Pzdr.Hash
import Pzdr.Unicode

/-!
# Pzdr.Hex

Hexadecimal text of byte strings: the encoder all three programs share, and their three decoders.

The decoders differ on texts that no encoder writes: the enclave's refuses them, Python's also skips
white space, and the SDK's takes almost everything. On the encoder's output they agree
(`hexDecode_hexEncode`, `fromhex_hexEncode`, `hexToBytes_hexEncode`).
-/

namespace Pzdr

def byteChars (b : UInt8) : List Char :=
  [Nat.digitChar (b.toNat / 16), Nat.digitChar (b.toNat % 16)]

/-- `hex::encode`, `bytes.hex()`, `sodium.to_hex` -/
def hexEncode (bs : Bytes) : String := .ofList (bs.flatMap byteChars)

/-- Value of a hexadecimal digit of either case. -/
def nibble (c : Char) : Option Nat :=
  if '0' ≤ c ∧ c ≤ '9' then some (c.toNat - '0'.toNat)
  else if 'a' ≤ c ∧ c ≤ 'f' then some (c.toNat - 'a'.toNat + 10)
  else if 'A' ≤ c ∧ c ≤ 'F' then some (c.toNat - 'A'.toNat + 10)
  else none

def byteOfChars (a b : Char) : Option UInt8 := do
  let hi ← nibble a
  let lo ← nibble b
  return .ofNat (16 * hi + lo)

theorem nibble_digitChar : ∀ n < 16, nibble (Nat.digitChar n) = some n := by decide

theorem byteOfChars_digitChar (b : UInt8) :
    byteOfChars (Nat.digitChar (b.toNat / 16)) (Nat.digitChar (b.toNat % 16)) = some b := by
  have hb := b.toNat_lt
  rw [byteOfChars, nibble_digitChar _ (by omega), nibble_digitChar _ (by omega)]
  simp only [Option.bind_eq_bind, Option.bind_some, Option.pure_def, Nat.div_add_mod,
    UInt8.ofNat_toNat]

theorem toLower_digitChar : ∀ n < 16, (Nat.digitChar n).toLower = Nat.digitChar n := by decide

theorem toLower_hexEncode (bs : Bytes) : (hexEncode bs).toLower = hexEncode bs := by
  rw [← String.toList_inj, String.toLower, String.toList_map, hexEncode, String.toList_ofList]
  induction bs with
  | nil => rfl
  | cons b bs ih =>
    have hb := b.toNat_lt
    rw [List.flatMap_cons, List.map_append, ih, byteChars, List.map_cons, List.map_cons,
      toLower_digitChar _ (by omega), toLower_digitChar _ (by omega)]
    rfl

theorem length_hexEncode (bs : Bytes) : (hexEncode bs).length = 2 * bs.length := by
  rw [← String.length_toList, hexEncode, String.toList_ofList]
  induction bs with
  | nil => rfl
  | cons b bs ih =>
    rw [List.flatMap_cons, List.length_append, ih, List.length_cons, byteChars]
    simp only [List.length_cons, List.length_nil]
    omega

theorem length_toLower (s : String) : s.toLower.length = s.length := by
  rw [← String.length_toList, String.toLower, String.toList_map, List.length_map,
    String.length_toList]

/-! ## The enclave -/

def hexDecodeChars : List Char → Option Bytes
  | [] => some []
  | [_] => none
  | a :: b :: cs => do
    let byte ← byteOfChars a b
    let bytes ← hexDecodeChars cs
    return byte :: bytes

/-- `hex::decode` -/
def hexDecode (s : String) : Option Bytes := hexDecodeChars s.toList

theorem hexDecode_hexEncode (bs : Bytes) : hexDecode (hexEncode bs) = some bs := by
  rw [hexDecode, hexEncode, String.toList_ofList]
  induction bs with
  | nil => rfl
  | cons b bs ih =>
    rw [List.flatMap_cons, byteChars, List.cons_append, List.cons_append, List.nil_append,
      hexDecodeChars, byteOfChars_digitChar, ih]
    rfl

theorem hexEncode_injective {bs bs' : Bytes} (h : hexEncode bs = hexEncode bs') : bs = bs' := by
  have hd := congrArg hexDecode h
  rw [hexDecode_hexEncode, hexDecode_hexEncode] at hd
  exact Option.some.inj hd

/-! ## The auditor's tool -/

namespace Tools

def isSpace (c : Char) : Bool := c == ' ' || ('\t' ≤ c && c ≤ '\r')

/-- `bytes.fromhex` on the characters of a string: white space may stand between two bytes. -/
def fromhexChars : List Char → Option Bytes
  | [] => some []
  | [a] => if isSpace a then some [] else none
  | a :: b :: cs =>
    if isSpace a then fromhexChars (b :: cs)
    else do
      let byte ← byteOfChars a b
      let bytes ← fromhexChars cs
      return byte :: bytes

def fromhex (s : String) : Option Bytes := fromhexChars s.toList

theorem isSpace_digitChar : ∀ n < 16, isSpace (Nat.digitChar n) = false := by decide

theorem fromhex_hexEncode (bs : Bytes) : fromhex (hexEncode bs) = some bs := by
  rw [fromhex, hexEncode, String.toList_ofList]
  induction bs with
  | nil => rfl
  | cons b bs ih =>
    have hb := b.toNat_lt
    rw [List.flatMap_cons, byteChars, List.cons_append, List.cons_append, List.nil_append,
      fromhexChars, isSpace_digitChar _ (by omega), byteOfChars_digitChar, ih]
    rfl

end Tools

/-! ## The SDK -/

namespace Sdk

def isLineTerminator (u : UInt16) : Bool :=
  u == 0x0A || u == 0x0D || u == 0x2028 || u == 0x2029

/-- `h.match(/.{1,2}/g)` -/
def matchPairs : List UInt16 → List (List UInt16)
  | [] => []
  | [a] => if isLineTerminator a then [] else [[a]]
  | a :: b :: us =>
    if isLineTerminator a then matchPairs (b :: us)
    else if isLineTerminator b then [a] :: matchPairs us
    else [a, b] :: matchPairs us

/-- White space and line terminators, which `parseInt` skips. -/
def isWhiteSpace (u : UInt16) : Bool :=
  (0x09 ≤ u && u ≤ 0x0D) || u == 0x20 || u == 0xA0 || u == 0x1680 || (0x2000 ≤ u && u ≤ 0x200A) ||
    u == 0x2028 || u == 0x2029 || u == 0x202F || u == 0x205F || u == 0x3000 || u == 0xFEFF

def nibble16 (u : UInt16) : Option Nat := nibble (.ofNat u.toNat)

def parseDigits : List UInt16 → Option Nat → Option Nat
  | [], acc => acc
  | u :: us, acc =>
    match nibble16 u with
    | some d => parseDigits us (some (16 * acc.getD 0 + d))
    | none => acc

/-- The part of `parseInt(b, 16)` after the sign; `none` is `NaN`. -/
def parseUnsigned : List UInt16 → Option Nat
  | 0x30 :: 0x78 :: us => parseDigits us none
  | 0x30 :: 0x58 :: us => parseDigits us none
  | us => parseDigits us none

/-- `parseInt(b, 16)` -/
def parseInt16 (us : List UInt16) : Option Int :=
  match us.dropWhile isWhiteSpace with
  | 0x2D :: us => (parseUnsigned us).map (fun n => -(n : Int))
  | 0x2B :: us => (parseUnsigned us).map Int.ofNat
  | us => (parseUnsigned us).map Int.ofNat

/-- What a typed array stores: the number modulo 256, and `0` for `NaN`. -/
def toUint8 : Option Int → UInt8
  | some i => .ofNat (i % 256).toNat
  | none => 0

/-- `hexToBytes`; the match of a text without a character to match is `null`. -/
def hexToBytes (h : String) : Option Bytes :=
  match matchPairs (Utf16.encode h.toList) with
  | [] => none
  | pairs => some (pairs.map (fun b => toUint8 (parseInt16 b)))

theorem utf16_digitChar : ∀ n < 16,
    Utf16.encodeChar (Nat.digitChar n) = [.ofNat (Nat.digitChar n).toNat] ∧
      isLineTerminator (.ofNat (Nat.digitChar n).toNat) = false := by decide

/-- The code units of a byte are its two digits. -/
theorem encode_flatMap_cons (b : UInt8) (bs : Bytes) :
    Utf16.encode ((b :: bs).flatMap byteChars) =
      .ofNat (Nat.digitChar (b.toNat / 16)).toNat ::
        .ofNat (Nat.digitChar (b.toNat % 16)).toNat :: Utf16.encode (bs.flatMap byteChars) := by
  have hb := b.toNat_lt
  have hi := (utf16_digitChar (b.toNat / 16) (by omega)).1
  have lo := (utf16_digitChar (b.toNat % 16) (by omega)).1
  simp [byteChars, hi, lo]

theorem toUint8_digits (b : UInt8) :
    toUint8 (parseInt16 [.ofNat (Nat.digitChar (b.toNat / 16)).toNat,
      .ofNat (Nat.digitChar (b.toNat % 16)).toNat]) = b := by
  have key : ∀ n < 256, toUint8 (parseInt16 [.ofNat (Nat.digitChar (n / 16)).toNat,
      .ofNat (Nat.digitChar (n % 16)).toNat]) = .ofNat n := by decide +kernel
  rw [key b.toNat b.toNat_lt, UInt8.ofNat_toNat]

theorem matchPairs_hexEncode (bs : Bytes) :
    (matchPairs (Utf16.encode (bs.flatMap byteChars))).map (fun b => toUint8 (parseInt16 b)) =
      bs := by
  induction bs with
  | nil => rfl
  | cons b bs ih =>
    have hb := b.toNat_lt
    have hi := (utf16_digitChar (b.toNat / 16) (by omega)).2
    have lo := (utf16_digitChar (b.toNat % 16) (by omega)).2
    rw [encode_flatMap_cons]
    simp only [matchPairs, hi, lo, Bool.false_eq_true, if_false, List.map_cons, toUint8_digits, ih]

theorem hexToBytes_hexEncode {bs : Bytes} (h : bs ≠ []) : hexToBytes (hexEncode bs) = some bs := by
  have hm := matchPairs_hexEncode bs
  rw [hexToBytes, hexEncode, String.toList_ofList]
  cases hp : matchPairs (Utf16.encode (bs.flatMap byteChars)) with
  | nil =>
    rw [hp] at hm
    exact absurd hm.symm h
  | cons p ps =>
    rw [hp] at hm
    exact congrArg some hm

theorem mapM_hexToBytes {hashes : List Bytes} (h : ∀ x ∈ hashes, x ≠ []) :
    (hashes.map hexEncode).mapM hexToBytes = some hashes := by
  induction hashes with
  | nil => rfl
  | cons x xs ih =>
    rw [List.forall_mem_cons] at h
    rw [List.map_cons, List.mapM_cons, hexToBytes_hexEncode h.1, ih h.2]
    rfl

end Sdk
end Pzdr
