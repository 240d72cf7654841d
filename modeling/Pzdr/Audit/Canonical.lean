import Pzdr.Canonical
import Pzdr.Json.Order

/-!
# Audit.Canonical

The canonical text across the three programs.

Rust compares keys by their UTF-8 bytes, Python by code points and JavaScript by UTF-16 code units.
The first two orders are one (`utf8Le_eq`). The third differs on keys whose first difference sets a
surrogate pair against a character above the surrogates (`utf16Le_eq_iff`), so the programs give the
same bytes just for values without two such keys in one object.
-/

namespace Pzdr

open Json

/-- The order of Rust's `String`. -/
def utf8Le (a b : String) : Bool := decide (Utf8.encode a.toList ≤ Utf8.encode b.toList)

theorem utf8Le_eq (a b : String) : utf8Le a b = codePointLe a b := by
  rw [utf8Le, codePointLe, decide_eq_decide, ← List.not_lt, Utf8.encode_lt_iff, ← not_lt,
    String.lt_iff_toList_lt]

theorem utf16Le_iff {a b : String} : utf16Le a b = true ↔
    if Utf16.crosses a.toList b.toList then b ≤ a else a ≤ b := by
  rw [utf16Le, decide_eq_true_iff, ← List.not_lt, Utf16.encode_lt_iff_crosses, Utf16.crosses_comm]
  split
  · rw [← not_lt, String.lt_iff_toList_lt]
  · rw [← not_lt, String.lt_iff_toList_lt]

/-- The keys on which the order of JavaScript is that of the other two. -/
theorem utf16Le_eq_iff {a b : String} :
    utf16Le a b = codePointLe a b ↔ Utf16.crosses a.toList b.toList = false := by
  rw [Bool.eq_iff_iff, utf16Le_iff, codePointLe, decide_eq_true_iff]
  cases hx : Utf16.crosses a.toList b.toList with
  | false => simp
  | true =>
    simp only [if_true, Bool.true_eq_false, iff_false]
    intro h
    obtain rfl : a = b := by
      rcases le_total a b with hab | hba
      · exact le_antisymm hab (h.mpr hab)
      · exact le_antisymm (h.mp hba) hba
    rw [Utf16.crosses_self] at hx
    cases hx

theorem isKeyOrder_codePointLe : IsKeyOrder codePointLe where
  total a b := by simpa [codePointLe] using le_total a b
  trans a b c := by simpa [codePointLe] using fun hab hbc => le_trans hab hbc
  antisymm a b := by simpa [codePointLe] using fun hab hba => le_antisymm hab hba

theorem isKeyOrder_utf16Le : IsKeyOrder utf16Le where
  total a b := by simpa [utf16Le] using List.le_total _ _
  trans a b c := by simpa [utf16Le] using fun hab hbc => List.le_trans hab hbc
  antisymm a b hab hba := by
    rw [utf16Le_iff] at hab hba
    rw [Utf16.crosses_comm] at hba
    split at hab
    · rename_i hx
      rw [if_pos hx] at hba
      exact le_antisymm hba hab
    · rename_i hx
      rw [if_neg hx] at hba
      exact le_antisymm hab hba

/-- The enclave sorts by bytes. -/
theorem Enclave.canonicalJson_utf8 (v : Json) :
    Enclave.canonicalJson v = canonicalBytes utf8Le v := by
  rw [show utf8Le = codePointLe from funext₂ utf8Le_eq]
  rfl

namespace Audit

/-- No object in the value has two keys whose first difference sets a character with a surrogate
pair against one above the surrogates. -/
def Uncrossed (v : Json) : Prop :=
  ∀ ks ∈ v.keyLists, ∀ a ∈ ks, ∀ b ∈ ks, Utf16.crosses a.toList b.toList = false

theorem ordersAgree_iff_uncrossed (v : Json) :
    OrdersAgree utf16Le codePointLe v ↔ Uncrossed v := by
  simp only [OrdersAgree, Uncrossed, utf16Le_eq_iff]

theorem canonicalText_eq_iff {v : Json} (hv : v.DistinctKeys) :
    canonicalText utf16Le v = canonicalText codePointLe v ↔ Uncrossed v := by
  rw [← ordersAgree_iff_uncrossed, ← sortKeys_eq_iff isKeyOrder_utf16Le isKeyOrder_codePointLe hv]
  exact ⟨print_injective, congrArg print⟩

/-- The three programs write the same bytes. -/
def Identical (v : Json) : Prop :=
  Tools.canonicalJson v = Enclave.canonicalJson v ∧
    Utf8.encode (Sdk.canonicalJSON v) = Enclave.canonicalJson v

theorem canonicalJson_identical_iff (v : Json) (hv : v.DistinctKeys) :
    Identical v ↔ Uncrossed v := by
  have htools : Tools.canonicalJson v = Enclave.canonicalJson v := rfl
  have hsdk : Utf8.encode (Sdk.canonicalJSON v) = Enclave.canonicalJson v ↔
      canonicalText utf16Le v = canonicalText codePointLe v :=
    ⟨fun h => Utf8.encode_injective h, congrArg Utf8.encode⟩
  rw [Identical, hsdk, canonicalText_eq_iff hv]
  exact and_iff_right htools

/-- A key with a ligature and a key with an emoji. -/
def sampleCrossed : Json := .obj [("\uFB01", .num 1), ("😀", .num 2)]

def sampleUncrossed : Json := .obj [("é", .arr [.num (-1), .null]), ("", .obj [("😀", .str "\n")])]

theorem canonicalJson_identical_crossed :
    ∃ v : Json, v.DistinctKeys ∧ Tools.canonicalJson v = Enclave.canonicalJson v ∧
      Utf8.encode (Sdk.canonicalJSON v) ≠ Enclave.canonicalJson v := by
  have hdistinct : sampleCrossed.DistinctKeys := by
    simp [sampleCrossed, DistinctKeys, DistinctKeysFields]
  refine ⟨sampleCrossed, hdistinct, rfl, ?_⟩
  intro h
  have huncrossed := (canonicalText_eq_iff hdistinct).mp (Utf8.encode_injective h)
  have hkeys := huncrossed ["\uFB01", "😀"] List.mem_cons_self "\uFB01" (by simp) "😀" (by simp)
  cases hkeys

theorem canonicalJson_identical_uncrossed : Identical sampleUncrossed := by
  apply (canonicalJson_identical_iff sampleUncrossed ?_).mpr
  · simp [Uncrossed, sampleUncrossed, keyLists, keyListsFields, keyListsAll, Utf16.crosses]
  · simp [sampleUncrossed, DistinctKeys, DistinctKeysFields, DistinctKeysAll]

/-! ## Reading a signed text back -/

theorem canonicalText_eq_iff_reordered {le : String → String → Bool} (hle : IsKeyOrder le)
    {v : Json} (hv : v.DistinctKeys) (w : Json) :
    canonicalText le v = canonicalText le w ↔ Reordered v w := by
  rw [← sortKeys_eq_iff_reordered hle hv]
  exact ⟨print_injective, congrArg print⟩

/-- A canonical text stands for one value, up to the order of keys, and for the same one to the
SDK as to the enclave that signed it. -/
theorem canonicalJSON_eq_iff_reordered (v w : Json) (hv : v.DistinctKeys) :
    (Sdk.canonicalJSON v = Sdk.canonicalJSON w ↔ Reordered v w) ∧
    (Enclave.canonicalJson v = Enclave.canonicalJson w ↔ Reordered v w) ∧
    (Enclave.canonicalJson v = Utf8.encode (Sdk.canonicalJSON w) → Reordered v w) := by
  refine ⟨canonicalText_eq_iff_reordered isKeyOrder_utf16Le hv w, ?_, ?_⟩
  · rw [← canonicalText_eq_iff_reordered isKeyOrder_codePointLe hv]
    exact ⟨fun h => Utf8.encode_injective h, congrArg Utf8.encode⟩
  · intro h
    have hsorted := sortKeys_eq_of_canonicalBytes_eq h
    have hv' := reordered_sortKeys codePointLe v
    rw [hsorted] at hv'
    exact hv'.trans (reordered_sortKeys utf16Le w).symm

theorem canonicalJSON_eq_iff_reordered_sample :
    Sdk.canonicalJSON (.arr [.obj [("b", .num 1), ("a", .str "x")]]) =
      Sdk.canonicalJSON (.arr [.obj [("a", .str "x"), ("b", .num 1)]]) := by
  apply (canonicalJSON_eq_iff_reordered _ _ ?_).1.mpr
  · exact @Reordered.element _ _ [] [] (.perm (List.Perm.swap _ _ []))
  · simp [DistinctKeys, DistinctKeysAll, DistinctKeysFields]

end Audit
end Pzdr
