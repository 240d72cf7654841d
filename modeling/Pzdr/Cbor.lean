import Mathlib

/-!
# Cbor

CBOR data items as the decoders of the crates deliver them.
-/

namespace Cbor

/-- The integers of the major types 0 and 1. -/
structure Integer where
  val : Int
  lower : -2 ^ 64 ≤ val
  upper : val < 2 ^ 64
  deriving DecidableEq

/-- The integers of a machine word. -/
def Integer.ofInt64 (i : Int64) : Integer where
  val := i.toInt
  lower := by
    have h := i.le_toInt
    omega
  upper := by
    have h := i.toInt_lt
    omega

@[simp] theorem Integer.val_ofInt64 (i : Int64) : (ofInt64 i).val = i.toInt := rfl

inductive Value where
  | integer (i : Integer)
  | bytes (bs : List UInt8)
  | float (bits : UInt64)
  | text (s : String)
  | bool (b : Bool)
  | null
  | tag (n : UInt64) (v : Value)
  | array (items : List Value)
  | map (entries : List (Value × Value))

namespace Value

def asInteger : Value → Option Integer
  | integer i => some i
  | _ => none

def asBytes : Value → Option (List UInt8)
  | bytes bs => some bs
  | _ => none

def asText : Value → Option String
  | text s => some s
  | _ => none

def asArray : Value → Option (List Value)
  | array items => some items
  | _ => none

def asMap : Value → Option (List (Value × Value))
  | map entries => some entries
  | _ => none

variable {v : Value}

@[simp] theorem asInteger_eq_some {i : Integer} : v.asInteger = some i ↔ v = integer i := by
  cases v <;> simp [asInteger]

@[simp] theorem asBytes_eq_some {bs : List UInt8} : v.asBytes = some bs ↔ v = bytes bs := by
  cases v <;> simp [asBytes]

@[simp] theorem asText_eq_some {s : String} : v.asText = some s ↔ v = text s := by
  cases v <;> simp [asText]

@[simp] theorem asArray_eq_some {items : List Value} : v.asArray = some items ↔ v = array items := by
  cases v <;> simp [asArray]

@[simp] theorem asMap_eq_some {entries : List (Value × Value)} :
    v.asMap = some entries ↔ v = map entries := by
  cases v <;> simp [asMap]

end Value

/-! ## Maps

Keys of one kind are read with `asKey`; keys of other kinds do not count. -/

section Map

variable {κ : Type} (asKey : Value → Option κ)

def keys (entries : List (Value × Value)) : List κ := entries.filterMap (fun e => asKey e.1)

section Keys

variable {asKey} {entries : List (Value × Value)} {e : Value × Value} {key : κ}

theorem mem_keys : key ∈ keys asKey entries ↔ ∃ e ∈ entries, asKey e.1 = some key :=
  List.mem_filterMap

theorem nodup_keys_of_cons (h : (keys asKey (e :: entries)).Nodup) : (keys asKey entries).Nodup :=
  ((List.sublist_cons_self e entries).filterMap _).nodup h

theorem not_mem_keys_of_cons (h : (keys asKey (e :: entries)).Nodup) (he : asKey e.1 = some key) :
    key ∉ keys asKey entries := by
  have hcons : keys asKey (e :: entries) = key :: keys asKey entries :=
    List.filterMap_cons_some he
  rw [hcons, List.nodup_cons] at h
  exact h.1

end Keys

variable [DecidableEq κ]

def find (entries : List (Value × Value)) (key : κ) : Option Value :=
  (entries.find? (fun e => asKey e.1 == some key)).map Prod.snd

variable {asKey} {entries : List (Value × Value)} {key : κ} {v : Value}

theorem find_cons_of_eq {e : Value × Value} (h : asKey e.1 = some key) :
    find asKey (e :: entries) key = some e.2 := by
  simp [find, h]

theorem find_cons_of_ne {e : Value × Value} (h : asKey e.1 ≠ some key) :
    find asKey (e :: entries) key = find asKey entries key := by
  simp [find, h]

theorem find_eq_none : find asKey entries key = none ↔ key ∉ keys asKey entries := by
  simp [find, mem_keys]

/-- With distinct keys, a key has one value. -/
theorem find_eq_some (hkeys : (keys asKey entries).Nodup) :
    find asKey entries key = some v ↔ ∃ e ∈ entries, asKey e.1 = some key ∧ e.2 = v := by
  induction entries with
  | nil => simp [find]
  | cons e entries ih =>
    by_cases he : asKey e.1 = some key
    · rw [find_cons_of_eq he, Option.some.injEq, List.exists_mem_cons_iff]
      constructor
      · intro hv
        exact .inl ⟨he, hv⟩
      · rintro (⟨_, hv⟩ | ⟨e', hmem, he', _⟩)
        · exact hv
        · exact absurd (mem_keys.mpr ⟨e', hmem, he'⟩) (not_mem_keys_of_cons hkeys he)
    · rw [find_cons_of_ne he, ih (nodup_keys_of_cons hkeys), List.exists_mem_cons_iff]
      simp [he]

end Map
end Cbor
