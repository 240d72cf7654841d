import Pzdr.Audit.Measurement

/-!
# Audit.Freshness

The arithmetic of `assert_fresh`. It is exact where the difference of the two times is an `i64`
(`assertFresh_exact_iff`), and there is no overflow after the subtraction. The timestamp is any
`i64`, so a document can make the subtraction overflow (`assertFresh_overflow`).
-/

namespace Pzdr
namespace Audit

open Nitro

section Checked

variable {n : Int}

theorem checkedI64_ok (h : InI64 n) : checkedI64 n = some n := if_pos h

theorem inI64_of_checkedI64 {m : Int} (h : checkedI64 n = some m) : InI64 n := by
  unfold checkedI64 at h
  split at h
  · assumption
  · cases h

/-- A truncated quotient by 1000 is nearer to zero, so it and its distance fit. -/
theorem inI64_tdiv (h : InI64 n) : InI64 (n.tdiv 1000) ∧ InI64 |n.tdiv 1000| := by
  unfold InI64 at *
  rcases Int.le_total 0 n with hn | hn
  · rw [Int.tdiv_eq_ediv_of_nonneg hn, abs_of_nonneg (by omega)]
    omega
  · rw [← Int.neg_neg n, Int.neg_tdiv, Int.tdiv_eq_ediv_of_nonneg (by omega), abs_neg,
      abs_of_nonneg (by omega)]
    omega

/-- Whole seconds up to `k` are fewer than `(k + 1) * 1000` milliseconds. -/
theorem abs_tdiv_le_iff {k : Int} : |n.tdiv 1000| ≤ k ↔ |n| < (k + 1) * 1000 := by
  rcases Int.le_total 0 n with hn | hn
  · rw [Int.tdiv_eq_ediv_of_nonneg hn, abs_of_nonneg (by omega), abs_of_nonneg hn]
    omega
  · rw [← Int.neg_neg n, Int.neg_tdiv, Int.tdiv_eq_ediv_of_nonneg (by omega), abs_neg, abs_neg,
      abs_of_nonneg (by omega), abs_of_nonneg (by omega)]
    omega

end Checked

variable {v : VerifiedAttestation} {nowMs maxSkewSecs : Int}

/-- Only the subtraction can overflow. -/
theorem assertFreshChecked_isSome_iff (hv : InI64 v.timestampMs) :
    (v.assertFreshChecked nowMs maxSkewSecs).isSome = true ↔ InI64 (nowMs - v.timestampMs) := by
  constructor
  · intro h
    obtain ⟨r, hr⟩ := Option.isSome_iff_exists.mp h
    rw [VerifiedAttestation.assertFreshChecked, Option.bind_eq_bind, Option.bind_eq_some_iff] at hr
    obtain ⟨deltaMs, hdelta, _⟩ := hr
    exact inI64_of_checkedI64 hdelta
  · intro h
    simp only [VerifiedAttestation.assertFreshChecked, checkedI64_ok h,
      checkedI64_ok (inI64_tdiv h).1, checkedI64_ok (inI64_tdiv h).2,
      checkedI64_ok (inI64_tdiv hv).1, Option.bind_eq_bind, Option.bind_some]
    split <;> rfl

/-- Where nothing overflows, every build gives the same answer. -/
theorem assertFreshChecked_eq (hv : InI64 v.timestampMs) (h : InI64 (nowMs - v.timestampMs)) :
    v.assertFreshChecked nowMs maxSkewSecs = some (v.assertFresh nowMs maxSkewSecs) := by
  simp only [VerifiedAttestation.assertFreshChecked, VerifiedAttestation.assertFresh,
    checkedI64_ok h, checkedI64_ok (inI64_tdiv h).1, checkedI64_ok (inI64_tdiv h).2,
    checkedI64_ok (inI64_tdiv hv).1, asI64_eq h.1 h.2, Option.bind_eq_bind, Option.bind_some]
  split <;> rfl

/-- No overflow, and the answer that the distance in milliseconds asks for. -/
def FreshExactly (v : VerifiedAttestation) (nowMs maxSkewSecs : Int) : Prop :=
  (v.assertFreshChecked nowMs maxSkewSecs).isSome = true ∧
    (v.assertFresh nowMs maxSkewSecs = .ok () ↔
      |nowMs - v.timestampMs| < (maxSkewSecs + 1) * 1000)

theorem assertFresh_exact_iff (C : Cose) (docBytes : Bytes) (v : VerifiedAttestation)
    (nowMs maxSkewSecs : Int) (hparse : parse C docBytes = .ok v) :
    FreshExactly v nowMs maxSkewSecs ↔
      -2 ^ 63 ≤ nowMs - v.timestampMs ∧ nowMs - v.timestampMs < 2 ^ 63 := by
  have hv := inI64_timestampMs hparse
  rw [FreshExactly, assertFreshChecked_isSome_iff hv]
  change InI64 _ ∧ _ ↔ InI64 _
  rw [and_iff_left_iff_imp]
  intro h
  rw [assertFresh_ok, asI64_eq h.1 h.2, abs_tdiv_le_iff]

/-! ## Two timestamps -/

def freshEntries : List (Cbor.Value × Cbor.Value) :=
  sampleEntries (.ofInt64 1000) (.ofInt64 0)

def freshPayload : Bytes := samplePayload [0x19, 0x03, 0xE8] [0x00]

theorem parse_sample (payload : Bytes) (timestamp index : Cbor.Integer) :
    ∃ v, parse (sampleCose payload (sampleEntries timestamp index)) (sampleDocument payload) = .ok v ∧
      v.timestampMs = asI64 timestamp.val := by
  rw [parse_eq_parsePayload (fromSlice_sample _ _) rfl (fromReader_sample _ _)]
  exact parsePayload_sample timestamp index

/-- A document that is five minutes and not yet a second old. -/
theorem assertFresh_exact_fresh : ∃ v,
    parse (sampleCose freshPayload freshEntries) (sampleDocument freshPayload) = .ok v ∧
      FreshExactly v 301999 300 := by
  obtain ⟨v, hv, htime⟩ := parse_sample freshPayload (.ofInt64 1000)
    (.ofInt64 0)
  refine ⟨v, hv, (assertFresh_exact_iff _ _ v 301999 300 hv).mpr ?_⟩
  rw [htime]
  decide

/-- The timestamp is `-2^63`. -/
def oldestEntries : List (Cbor.Value × Cbor.Value) :=
  sampleEntries ⟨-2 ^ 63, by decide, by decide⟩ (.ofInt64 0)

def oldestPayload : Bytes := samplePayload (0x3B :: 0x7F :: List.replicate 7 0xFF) [0x00]

/-- The subtraction overflows from the epoch on, and where it wraps the oldest document is fresh at
the latest time. -/
theorem assertFresh_overflow : ∃ v,
    parse (sampleCose oldestPayload oldestEntries) (sampleDocument oldestPayload) = .ok v ∧
      v.assertFreshChecked 0 300 = none ∧ ¬ FreshExactly v 0 300 ∧
      v.assertFresh (2 ^ 63 - 1) 300 = .ok () ∧
      ¬ |2 ^ 63 - 1 - v.timestampMs| < (300 + 1) * 1000 := by
  obtain ⟨v, hv, htime⟩ := parse_sample oldestPayload ⟨-2 ^ 63, by decide, by decide⟩
    (.ofInt64 0)
  replace htime : v.timestampMs = -2 ^ 63 := by
    rw [htime]
    decide
  have hnone : v.assertFreshChecked 0 300 = none := by
    rw [VerifiedAttestation.assertFreshChecked, htime]
    rfl
  refine ⟨v, hv, hnone, ?_, ?_, ?_⟩
  · intro h
    rw [FreshExactly, hnone] at h
    cases h.1
  · rw [assertFresh_ok, htime]
    decide
  · rw [htime]
    decide

end Audit
end Pzdr
