import Pzdr.Hash

/-!
# Audit.Base64

Base64 with padding, and how it is read back (`base64Bytes_base64Chars`).
-/

namespace Pzdr
namespace Audit

def base64Digit (n : Nat) : Char :=
  "ABCDEFGHIJKLMNOPQRSTUVWXYZabcdefghijklmnopqrstuvwxyz0123456789+/".toList.getD n '='

def base64Chars : Bytes → List Char
  | [] => []
  | [a] => [base64Digit (a.toNat / 4), base64Digit (a.toNat % 4 * 16), '=', '=']
  | [a, b] => [base64Digit (a.toNat / 4), base64Digit (a.toNat % 4 * 16 + b.toNat / 16),
      base64Digit (b.toNat % 16 * 4), '=']
  | a :: b :: c :: bs =>
    base64Digit (a.toNat / 4) :: base64Digit (a.toNat % 4 * 16 + b.toNat / 16) ::
      base64Digit (b.toNat % 16 * 4 + c.toNat / 64) :: base64Digit (c.toNat % 64) :: base64Chars bs

example : base64Chars [0x30, 0x01, 0x01] = "MAEB".toList := by decide

def base64Value (c : Char) : Nat :=
  "ABCDEFGHIJKLMNOPQRSTUVWXYZabcdefghijklmnopqrstuvwxyz0123456789+/".toList.idxOf c

/-- The bytes of a text that `base64Chars` has written. -/
def base64Bytes : List Char → Bytes
  | a :: b :: c :: d :: cs =>
    let first := .ofNat (base64Value a * 4 + base64Value b / 16)
    let second := .ofNat (base64Value b % 16 * 16 + base64Value c / 4)
    let third := .ofNat (base64Value c % 4 * 64 + base64Value d)
    if c = '=' then [first]
    else if d = '=' then [first, second]
    else first :: second :: third :: base64Bytes cs
  | _ => []

theorem base64Value_digit : ∀ n < 64,
    base64Value (base64Digit n) = n ∧ base64Digit n ≠ '=' := by decide +kernel

theorem base64Bytes_base64Chars (bs : Bytes) : base64Bytes (base64Chars bs) = bs := by
  have hbyte : ∀ (b : UInt8) (n : Nat), n = b.toNat → UInt8.ofNat n = b := by
    rintro b n rfl
    exact UInt8.ofNat_toNat
  induction bs using base64Chars.induct with
  | case1 => rfl
  | case2 a =>
    have ha := a.toNat_lt
    have h1 := (base64Value_digit (a.toNat / 4) (by omega)).1
    have h2 := (base64Value_digit (a.toNat % 4 * 16) (by omega)).1
    simp only [base64Chars, base64Bytes, if_true, h1, h2]
    rw [hbyte a _ (by omega)]
  | case3 a b =>
    have ha := a.toNat_lt
    have hb := b.toNat_lt
    have h1 := (base64Value_digit (a.toNat / 4) (by omega)).1
    have h2 := (base64Value_digit (a.toNat % 4 * 16 + b.toNat / 16) (by omega)).1
    obtain ⟨h3, hpad⟩ := base64Value_digit (b.toNat % 16 * 4) (by omega)
    simp only [base64Chars, base64Bytes, hpad, if_true, if_false, h1, h2, h3]
    rw [hbyte a _ (by omega), hbyte b _ (by omega)]
  | case4 a b c bs ih =>
    have ha := a.toNat_lt
    have hb := b.toNat_lt
    have hc := c.toNat_lt
    have h1 := (base64Value_digit (a.toNat / 4) (by omega)).1
    have h2 := (base64Value_digit (a.toNat % 4 * 16 + b.toNat / 16) (by omega)).1
    obtain ⟨h3, hpad⟩ := base64Value_digit (b.toNat % 16 * 4 + c.toNat / 64) (by omega)
    obtain ⟨h4, hpad'⟩ := base64Value_digit (c.toNat % 64) (by omega)
    simp only [base64Chars, base64Bytes, hpad, hpad', if_false, h1, h2, h3, h4, ih]
    rw [hbyte a _ (by omega), hbyte b _ (by omega), hbyte c _ (by omega)]

theorem base64Chars_injective : Function.Injective base64Chars :=
  Function.LeftInverse.injective base64Bytes_base64Chars

end Audit
end Pzdr
