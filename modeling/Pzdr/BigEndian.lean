import Mathlib

/-!
# BigEndian

Numbers as big-endian bytes of a fixed width.

* `value_bytes`: `w` bytes hold a number modulo `256 ^ w`.
* `bytes_inj`: below that, the bytes determine the number.
* `bytes_value`: and a number determines the bytes it was read from.
-/

namespace BigEndian

def bytes : Nat → Nat → List UInt8
  | 0, _ => []
  | w + 1, n => .ofNat (n / 256 ^ w) :: bytes w n

def value : List UInt8 → Nat
  | [] => 0
  | b :: bs => 256 ^ bs.length * b.toNat + value bs

@[simp] theorem length_bytes (w n : Nat) : (bytes w n).length = w := by
  induction w with
  | zero => rfl
  | succ w ih => rw [bytes, List.length_cons, ih]

@[simp] theorem value_bytes (w n : Nat) : value (bytes w n) = n % 256 ^ w := by
  induction w with
  | zero => rw [Nat.pow_zero, Nat.mod_one, bytes, value]
  | succ w ih =>
    have hbyte : (UInt8.ofNat (n / 256 ^ w)).toNat = n / 256 ^ w % 256 := UInt8.toNat_ofNat'
    rw [bytes, value, ih, length_bytes, hbyte, Nat.mod_pow_succ, Nat.add_comm]

theorem value_lt (bs : List UInt8) : value bs < 256 ^ bs.length := by
  induction bs with
  | nil => exact Nat.one_pos
  | cons b bs ih =>
    have hb : b.toNat + 1 ≤ 256 := b.toNat_lt
    have hmul : 256 ^ bs.length * (b.toNat + 1) ≤ 256 ^ bs.length * 256 :=
      Nat.mul_le_mul_left _ hb
    rw [value, List.length_cons, Nat.pow_succ]
    rw [Nat.mul_succ] at hmul
    omega

theorem value_inj : ∀ {bs bs' : List UInt8}, bs.length = bs'.length → value bs = value bs' →
    bs = bs' := by
  intro bs
  induction bs with
  | nil =>
    intro bs' hlen _
    exact (List.length_eq_zero_iff.mp hlen.symm).symm
  | cons b bs ih =>
    intro bs' hlen h
    cases bs' with
    | nil => cases hlen
    | cons b' bs' =>
      replace hlen : bs.length = bs'.length := Nat.succ.inj hlen
      have hpos : 0 < 256 ^ bs.length := Nat.pow_pos (by omega)
      have hlt := value_lt bs
      have hlt' := value_lt bs'
      rw [← hlen] at hlt'
      rw [value, value, ← hlen] at h
      have hb : b.toNat = b'.toNat := by
        have hdiv := congrArg (· / 256 ^ bs.length) h
        simpa only [Nat.mul_add_div hpos, Nat.div_eq_of_lt hlt, Nat.div_eq_of_lt hlt',
          Nat.add_zero] using hdiv
      rw [hb, Nat.add_left_cancel_iff] at h
      rw [UInt8.toNat_inj.mp hb, ih hlen h]

theorem bytes_value (bs : List UInt8) : bytes bs.length (value bs) = bs := by
  refine value_inj (length_bytes _ _) ?_
  rw [value_bytes, Nat.mod_eq_of_lt (value_lt bs)]

theorem bytes_inj {w n m : Nat} (hn : n < 256 ^ w) (hm : m < 256 ^ w)
    (h : bytes w n = bytes w m) : n = m := by
  have hv := congrArg value h
  rwa [value_bytes, value_bytes, Nat.mod_eq_of_lt hn, Nat.mod_eq_of_lt hm] at hv

end BigEndian
