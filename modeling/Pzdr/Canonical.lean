import Pzdr.Hash
import Pzdr.Json.Print
import Pzdr.Unicode

/-!
# Pzdr.Canonical

Canonical JSON: sorted keys, compact text, UTF-8. The enclave and the auditor's tool sort keys by
code point, the SDK by UTF-16 code unit. The text of a value determines it up to the order of its
fields, in each of the three and between them (`sortKeys_eq_of_canonicalBytes_eq`).
-/

namespace Pzdr

def codePointLe (a b : String) : Bool := decide (a ≤ b)

def utf16Le (a b : String) : Bool := decide (Utf16.encode a.toList ≤ Utf16.encode b.toList)

def canonicalText (le : String → String → Bool) (v : Json) : List Char := (v.sortKeys le).print

def canonicalBytes (le : String → String → Bool) (v : Json) : Bytes :=
  Utf8.encode (canonicalText le v)

theorem sortKeys_eq_of_canonicalBytes_eq {le le' : String → String → Bool} {v w : Json}
    (h : canonicalBytes le v = canonicalBytes le' w) : v.sortKeys le = w.sortKeys le' :=
  Json.print_injective (Utf8.encode_injective h)

theorem canonicalBytes_ne_nil (le : String → String → Bool) (v : Json) :
    canonicalBytes le v ≠ [] := by
  obtain ⟨c, t, hhead, _⟩ := Json.print_head (v.sortKeys le)
  intro h
  rw [canonicalBytes, canonicalText, hhead, Utf8.encode, List.flatMap_cons,
    List.append_eq_nil_iff] at h
  exact Utf8.encodeChar_ne_nil c h.1

/-- Every character is in the Basic Multilingual Plane. On such keys the two orders agree. -/
def Bmp (s : String) : Prop := ∀ c ∈ s.toList, c.toNat < 0x10000

theorem utf16Le_eq {a b : String} (ha : Bmp a) (hb : Bmp b) : utf16Le a b = codePointLe a b := by
  have hlt : Utf16.encode b.toList < Utf16.encode a.toList ↔ b < a := by
    rw [Utf16.encode_lt_iff hb ha, String.lt_iff_toList_lt]
  rw [utf16Le, codePointLe, decide_eq_decide, ← not_lt (a := b)]
  exact not_congr hlt

/-- What the three programs read and write alike: no key twice, and no key with a surrogate pair. -/
structure Plain (v : Json) : Prop where
  distinct : v.DistinctKeys
  bmp : ∀ k ∈ v.keys, Bmp k

@[simp] theorem plain_null : Plain .null := ⟨trivial, by simp [Json.keys]⟩

@[simp] theorem plain_bool (b : Bool) : Plain (.bool b) := ⟨trivial, by simp [Json.keys]⟩

@[simp] theorem plain_num (i : Int) : Plain (.num i) := ⟨trivial, by simp [Json.keys]⟩

@[simp] theorem plain_str (s : String) : Plain (.str s) := ⟨trivial, by simp [Json.keys]⟩

theorem plain_strings (texts : List String) : Plain (.arr (texts.map Json.str)) := by
  constructor
  · rw [Json.DistinctKeys]
    induction texts with
    | nil => trivial
    | cons text texts ih => exact ⟨trivial, ih⟩
  · rw [Json.keys, Json.keysAll_eq]
    intro k hk
    obtain ⟨v, hv, hk⟩ := List.mem_flatMap.mp hk
    obtain ⟨text, _, rfl⟩ := List.mem_map.mp hv
    cases hk

theorem Plain.sortKeys_utf16Le {v : Json} (h : Plain v) :
    v.sortKeys utf16Le = v.sortKeys codePointLe :=
  Json.sortKeys_congr (fun a ha b hb => utf16Le_eq (h.bmp a ha) (h.bmp b hb))

theorem Plain.canonicalText_utf16Le {v : Json} (h : Plain v) :
    canonicalText utf16Le v = canonicalText codePointLe v := by
  rw [canonicalText, canonicalText, h.sortKeys_utf16Le]

/-! ## The enclave -/

namespace Enclave

/-- The value of a `json!` object or of a derived serializer: `serde_json::Map` is a `BTreeMap`. -/
def object (fields : List (String × Json)) : Json := .obj (Json.sortFields codePointLe fields)

/-- `serde_json::to_vec` -/
def toVec (v : Json) : Bytes := Utf8.encode v.print

def sortKeys (v : Json) : Json := v.sortKeys codePointLe

def canonicalJson (v : Json) : Bytes := toVec (sortKeys v)

theorem canonicalJson_eq (v : Json) : canonicalJson v = canonicalBytes codePointLe v := rfl

end Enclave

/-! ## The auditor's tool -/

namespace Tools

/-- `json.dumps(obj, sort_keys=True, separators=(",", ":"), ensure_ascii=False).encode("utf-8")` -/
def canonicalJson (v : Json) : Bytes := canonicalBytes codePointLe v

end Tools

/-! ## The SDK -/

namespace Sdk

/-- A property read: `none` is `undefined`. -/
abbrev JsVal := Option Json

def canonicalJSON (v : Json) : List Char := canonicalText utf16Le v

/-- What a template literal makes of `canonicalJSON`. -/
def template : JsVal → List Char
  | some v => canonicalJSON v
  | none => "undefined".toList

/-- `canonicalJSON` of an object literal whose properties were read from another object. -/
def canonicalRecord (fields : List (String × JsVal)) : List Char :=
  Json.printRecord template (Json.sortFields utf16Le fields)

/-- The property is there, and its sorted form is `y`. -/
def SortsTo (x : JsVal) (y : Json) : Prop := ∃ v, x = some v ∧ v.sortKeys utf16Le = y

theorem delimits_template (x : JsVal) (y : Json) :
    Json.Delimits template Json.print SortsTo x y := by
  intro r r' hr hr' h
  cases x with
  | none =>
    have hhead := Json.print_append_head y r' (show Json.kindOfHead 'u' = 6 by decide)
    rw [← h] at hhead
    exact absurd rfl hhead
  | some v =>
    obtain ⟨hv, hrr⟩ := Json.print_append_inj (v.sortKeys utf16Le) y r r' hr hr' h
    exact ⟨⟨v, rfl, hv⟩, hrr⟩

/-- A record of properties has the bytes of a JSON value only if that value is an object with the
same keys, and every property is the field of its name up to sorting. -/
theorem canonicalRecord_eq {fields : List (String × JsVal)} {v : Json}
    {le : String → String → Bool} (hn : (fields.map Prod.fst).Nodup) (hv : v.DistinctKeys)
    (h : Utf8.encode (canonicalRecord fields) = canonicalBytes le v) :
    (∀ key y, v.get? key = some y → key ∈ fields.map Prod.fst) ∧
    ∀ key x, fields.lookup key = some x →
      ∃ y, v.get? key = some y ∧ SortsTo x (y.sortKeys le) := by
  have htext := Utf8.encode_injective h
  rw [canonicalText] at htext
  obtain ⟨c, t, hhead, hkind⟩ := Json.print_head (v.sortKeys le)
  obtain ⟨entries, rfl⟩ : ∃ entries, v = .obj entries := by
    rw [hhead, canonicalRecord, Json.printRecord, List.cons_append] at htext
    rw [← (List.cons.inj htext).1] at hkind
    cases v with
    | obj entries => exact ⟨entries, rfl⟩
    | _ => cases hkind
  rw [Json.DistinctKeys] at hv
  have hn' := hv.1
  rw [← Json.map_fst_map_sortKeys le] at hn'
  rw [canonicalRecord, Json.sortKeys_obj, Json.print_obj] at htext
  obtain ⟨hall, _⟩ := Json.printRecord_append_inj (fun x _ y _ => delimits_template x.2 y.2)
    (show _ ++ [] = _ ++ [] by rw [htext])
  constructor
  · intro key y hy
    have hmem : key ∈ entries.map Prod.fst :=
      List.mem_map.mpr ⟨(key, y), Json.mem_of_lookup_eq_some hy, rfl⟩
    rw [← Json.map_fst_map_sortKeys le] at hmem
    rw [← ((Json.sortFields_perm le _).map Prod.fst).mem_iff, ← Json.map_fst_eq_of_forall₂ hall,
      ((Json.sortFields_perm utf16Le _).map Prod.fst).mem_iff] at hmem
    exact hmem
  · intro key x hx
    rw [← Json.lookup_sortFields utf16Le hn] at hx
    obtain ⟨y, hy, hxy⟩ := Json.lookup_of_forall₂ hall hx
    rw [Json.lookup_sortFields le hn', Json.lookup_map_sortKeys, Option.map_eq_some_iff] at hy
    obtain ⟨w, hw, rfl⟩ := hy
    exact ⟨w, hw, hxy⟩

/-- When every property is there, the record is printed as an object. -/
theorem canonicalRecord_map_some (fields : List (String × Json)) :
    canonicalRecord (fields.map (Prod.map id some)) = canonicalText utf16Le (.obj fields) := by
  rw [canonicalRecord, canonicalText, Json.sortFields_map, Json.sortKeys_obj, Json.print_obj,
    Json.sortFields_map, Json.printRecord, Json.printRecord, List.map_map, List.map_map]
  rfl

end Sdk
end Pzdr
