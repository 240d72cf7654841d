import Mathlib

/-!
# Json.Value

JSON values with integer numbers, and sorting of object keys at every depth.

Strings are sequences of Unicode scalar values. An object keeps its fields in a list; a value that a
parser or a map type has built has no key twice (`DistinctKeys`), and then sorting keeps every field
(`get?_sortKeys`), whatever the order on keys.
-/

inductive Json where
  | null
  | bool (b : Bool)
  | num (i : Int)
  | str (s : String)
  | arr (xs : List Json)
  | obj (fields : List (String × Json))

namespace Json

@[elab_as_elim, induction_eliminator]
theorem induction {P : Json → Prop} (null : P null) (bool : ∀ b, P (bool b))
    (num : ∀ i, P (num i)) (str : ∀ s, P (str s)) (arr : ∀ xs, (∀ x ∈ xs, P x) → P (arr xs))
    (obj : ∀ fields, (∀ f ∈ fields, P f.2) → P (obj fields)) (v : Json) : P v := by
  refine Json.rec (motive_1 := P) (motive_2 := fun xs => ∀ x ∈ xs, P x)
    (motive_3 := fun fields => ∀ f ∈ fields, P f.2) (motive_4 := fun f => P f.2)
    null bool num str arr obj ?_ ?_ ?_ ?_ ?_ v
  · simp
  · intro x xs hx hxs
    simpa using ⟨hx, hxs⟩
  · simp
  · intro f fields hf hfields g hg
    rcases List.mem_cons.mp hg with rfl | hg
    · exact hf
    · exact hfields g hg
  · intro k v hv
    exact hv

def get? : Json → String → Option Json
  | .obj fields, key => fields.lookup key
  | _, _ => none

@[simp] theorem get?_obj (fields : List (String × Json)) (key : String) :
    (obj fields).get? key = fields.lookup key := rfl

section Fields

variable {α β : Type*} {R : α → β → Prop} {xs : List (String × α)} {ys : List (String × β)}

theorem map_fst_eq_of_forall₂ (h : List.Forall₂ (fun x y => x.1 = y.1 ∧ R x.2 y.2) xs ys) :
    xs.map Prod.fst = ys.map Prod.fst := by
  induction h with
  | nil => rfl
  | cons hxy _ ih => rw [List.map_cons, List.map_cons, hxy.1, ih]

theorem lookup_of_forall₂ (h : List.Forall₂ (fun x y => x.1 = y.1 ∧ R x.2 y.2) xs ys)
    {key : String} {x : α} (hx : xs.lookup key = some x) :
    ∃ y, ys.lookup key = some y ∧ R x y := by
  induction h with
  | nil => cases hx
  | @cons f g xs ys hfg _ ih =>
    rw [List.lookup_cons] at hx ⊢
    rw [← hfg.1]
    cases hk : key == f.1 with
    | true =>
      rw [hk] at hx
      cases hx
      exact ⟨g.2, rfl, hfg.2⟩
    | false =>
      rw [hk] at hx
      exact ih hx

end Fields

section Sorting

variable {α : Type*} (le : String → String → Bool)

def sortFields (fields : List (String × α)) : List (String × α) :=
  fields.insertionSort (fun f g => le f.1 g.1 = true)

theorem sortFields_perm (fields : List (String × α)) : (sortFields le fields).Perm fields :=
  List.perm_insertionSort _ _

@[simp] theorem mem_sortFields {fields : List (String × α)} {f : String × α} :
    f ∈ sortFields le fields ↔ f ∈ fields := (sortFields_perm le fields).mem_iff

/-- Only the order of keys that occur matters. -/
theorem orderedInsert_congr {le' : String → String → Bool} {f : String × α}
    {fields : List (String × α)} (h : ∀ g ∈ fields, le f.1 g.1 = le' f.1 g.1) :
    fields.orderedInsert (fun f g => le f.1 g.1 = true) f =
      fields.orderedInsert (fun f g => le' f.1 g.1 = true) f := by
  induction fields with
  | nil => rfl
  | cons g fields ih =>
    rw [List.forall_mem_cons] at h
    rw [List.orderedInsert_cons, List.orderedInsert_cons, h.1, ih h.2]

theorem sortFields_congr {le' : String → String → Bool} {fields : List (String × α)}
    (h : ∀ f ∈ fields, ∀ g ∈ fields, le f.1 g.1 = le' f.1 g.1) :
    sortFields le fields = sortFields le' fields := by
  induction fields with
  | nil => rfl
  | cons f fields ih =>
    have htail : sortFields le fields = sortFields le' fields := by
      apply ih
      intro g hg g' hg'
      exact h g (List.mem_cons_of_mem _ hg) g' (List.mem_cons_of_mem _ hg')
    show List.orderedInsert _ f (sortFields le fields) = List.orderedInsert _ f (sortFields le' fields)
    rw [htail]
    apply orderedInsert_congr
    intro g hg
    rw [mem_sortFields] at hg
    exact h f List.mem_cons_self g (List.mem_cons_of_mem _ hg)

theorem sortFields_map {β : Type*} (f : α → β) (fields : List (String × α)) :
    sortFields le (fields.map (Prod.map id f)) = (sortFields le fields).map (Prod.map id f) := by
  rw [sortFields, sortFields]
  symm
  apply List.map_insertionSort
  intro f _ g _
  rfl

theorem lookup_eq_some_of_mem {fields : List (String × α)} {key : String} {v : α}
    (hn : (fields.map Prod.fst).Nodup) (h : (key, v) ∈ fields) : fields.lookup key = some v := by
  induction fields with
  | nil => cases h
  | cons f fields ih =>
    rw [List.map_cons, List.nodup_cons] at hn
    rcases List.mem_cons.mp h with rfl | h
    · simp
    · have hne : key ≠ f.1 := by
        intro hkey
        exact hn.1 (List.mem_map.mpr ⟨(key, v), h, hkey⟩)
      rw [List.lookup_cons, show (key == f.1) = false by simpa using hne]
      exact ih hn.2 h

theorem mem_of_lookup_eq_some {fields : List (String × α)} {key : String} {v : α}
    (h : fields.lookup key = some v) : (key, v) ∈ fields := by
  obtain ⟨l₁, l₂, rfl, _⟩ := List.lookup_eq_some_iff.mp h
  simp

theorem lookup_sortFields {fields : List (String × α)} (hn : (fields.map Prod.fst).Nodup)
    (key : String) : (sortFields le fields).lookup key = fields.lookup key := by
  have hp := sortFields_perm le fields
  have hn' : ((sortFields le fields).map Prod.fst).Nodup := (hp.map Prod.fst).nodup_iff.mpr hn
  ext v
  constructor
  · intro h
    exact lookup_eq_some_of_mem hn (hp.mem_iff.mp (mem_of_lookup_eq_some h))
  · intro h
    exact lookup_eq_some_of_mem hn' (hp.mem_iff.mpr (mem_of_lookup_eq_some h))

/-! ## Sorting at every depth -/

mutual

def sortKeys : Json → Json
  | .null => .null
  | .bool b => .bool b
  | .num i => .num i
  | .str s => .str s
  | .arr xs => .arr (sortKeysAll xs)
  | .obj fields => .obj (sortFields le (sortKeysFields fields))

def sortKeysAll : List Json → List Json
  | [] => []
  | x :: xs => sortKeys x :: sortKeysAll xs

def sortKeysFields : List (String × Json) → List (String × Json)
  | [] => []
  | (k, v) :: fields => (k, sortKeys v) :: sortKeysFields fields

end

theorem sortKeysAll_eq (xs : List Json) : sortKeysAll le xs = xs.map (sortKeys le) := by
  induction xs with
  | nil => rfl
  | cons x xs ih => rw [sortKeysAll, ih, List.map_cons]

theorem sortKeysFields_eq (fields : List (String × Json)) :
    sortKeysFields le fields = fields.map (Prod.map id (sortKeys le)) := by
  induction fields with
  | nil => rfl
  | cons f fields ih => rw [sortKeysFields, ih, List.map_cons]; rfl

theorem sortKeys_obj (fields : List (String × Json)) :
    sortKeys le (.obj fields) =
      .obj (sortFields le (fields.map (Prod.map id (sortKeys le)))) := by
  rw [sortKeys, sortKeysFields_eq]

theorem map_fst_map_sortKeys (fields : List (String × Json)) :
    (fields.map (Prod.map id (sortKeys le))).map Prod.fst = fields.map Prod.fst := by
  simp

theorem lookup_map_sortKeys (fields : List (String × Json)) (key : String) :
    (fields.map (Prod.map id (sortKeys le))).lookup key =
      (fields.lookup key).map (sortKeys le) := by
  induction fields with
  | nil => rfl
  | cons f fields ih =>
    obtain ⟨k, v⟩ := f
    simp only [List.map_cons, Prod.map_apply, id_eq, List.lookup_cons, ih]
    cases key == k <;> rfl

end Sorting

/-! ## Keys -/

mutual

/-- The keys of all objects in the value. -/
def keys : Json → List String
  | .arr xs => keysAll xs
  | .obj fields => keysFields fields
  | _ => []

def keysAll : List Json → List String
  | [] => []
  | x :: xs => keys x ++ keysAll xs

def keysFields : List (String × Json) → List String
  | [] => []
  | (k, v) :: fields => k :: (keys v ++ keysFields fields)

end

theorem keysAll_eq (xs : List Json) : keysAll xs = xs.flatMap keys := by
  induction xs with
  | nil => rfl
  | cons x xs ih => rw [keysAll, ih, List.flatMap_cons]

theorem keysFields_eq (fields : List (String × Json)) :
    keysFields fields = fields.flatMap (fun f => f.1 :: keys f.2) := by
  induction fields with
  | nil => rfl
  | cons f fields ih => rw [keysFields, ih, List.flatMap_cons, List.cons_append]

theorem keys_subset_arr {x : Json} {xs : List Json} (h : x ∈ xs) : x.keys ⊆ (arr xs).keys := by
  intro k hk
  rw [keys, keysAll_eq]
  exact List.mem_flatMap.mpr ⟨x, h, hk⟩

theorem keys_subset_obj {f : String × Json} {fields : List (String × Json)} (h : f ∈ fields) :
    f.1 :: f.2.keys ⊆ (obj fields).keys := by
  intro k hk
  rw [keys, keysFields_eq]
  exact List.mem_flatMap.mpr ⟨f, h, hk⟩

theorem sortKeys_congr {le le' : String → String → Bool} {v : Json}
    (h : ∀ a ∈ v.keys, ∀ b ∈ v.keys, le a b = le' a b) : v.sortKeys le = v.sortKeys le' := by
  induction v with
  | arr xs ih =>
    rw [sortKeys, sortKeys, sortKeysAll_eq, sortKeysAll_eq, arr.injEq, List.map_inj_left]
    intro x hx
    apply ih x hx
    intro a ha b hb
    exact h a (keys_subset_arr hx ha) b (keys_subset_arr hx hb)
  | obj fields ih =>
    have hfields : fields.map (Prod.map id (sortKeys le)) =
        fields.map (Prod.map id (sortKeys le')) := by
      rw [List.map_inj_left]
      intro f hf
      refine Prod.ext rfl (ih f hf ?_)
      intro a ha b hb
      exact h a (keys_subset_obj hf (List.mem_cons_of_mem _ ha)) b
        (keys_subset_obj hf (List.mem_cons_of_mem _ hb))
    rw [sortKeys_obj, sortKeys_obj, hfields, obj.injEq]
    apply sortFields_congr
    intro f hf g hg
    obtain ⟨f', hf', rfl⟩ := List.mem_map.mp hf
    obtain ⟨g', hg', rfl⟩ := List.mem_map.mp hg
    exact h f'.1 (keys_subset_obj hf' List.mem_cons_self) g'.1
      (keys_subset_obj hg' List.mem_cons_self)
  | _ => rfl

/-! ## Distinct keys -/

mutual

/-- No object in the value has a key twice. -/
def DistinctKeys : Json → Prop
  | .arr xs => DistinctKeysAll xs
  | .obj fields => (fields.map Prod.fst).Nodup ∧ DistinctKeysFields fields
  | _ => True

def DistinctKeysAll : List Json → Prop
  | [] => True
  | x :: xs => DistinctKeys x ∧ DistinctKeysAll xs

def DistinctKeysFields : List (String × Json) → Prop
  | [] => True
  | (_, v) :: fields => DistinctKeys v ∧ DistinctKeysFields fields

end

theorem distinctKeysFields_iff (fields : List (String × Json)) :
    DistinctKeysFields fields ↔ ∀ f ∈ fields, DistinctKeys f.2 := by
  induction fields with
  | nil => simp [DistinctKeysFields]
  | cons f fields ih => simp [DistinctKeysFields, ih]

theorem DistinctKeys.get? {v w : Json} {key : String} (hv : v.DistinctKeys)
    (h : v.get? key = some w) : w.DistinctKeys := by
  cases v with
  | obj fields =>
    rw [DistinctKeys, distinctKeysFields_iff] at hv
    exact hv.2 (key, w) (mem_of_lookup_eq_some h)
  | _ => cases h

theorem get?_sortKeys (le : String → String → Bool) {v : Json} (hv : v.DistinctKeys)
    (key : String) : (v.sortKeys le).get? key = (v.get? key).map (sortKeys le) := by
  cases v with
  | obj fields =>
    rw [DistinctKeys] at hv
    rw [sortKeys_obj, get?_obj, get?_obj,
      lookup_sortFields le (by rw [map_fst_map_sortKeys]; exact hv.1), lookup_map_sortKeys]
  | _ => rfl

/-- Two values with the same sorted form have the same fields, up to sorting of what is in them. -/
theorem map_get?_eq_of_sortKeys_eq {le le' : String → String → Bool} {v w : Json}
    (hv : v.DistinctKeys) (hw : w.DistinctKeys) (h : v.sortKeys le = w.sortKeys le')
    (key : String) : (v.get? key).map (sortKeys le) = (w.get? key).map (sortKeys le') := by
  rw [← get?_sortKeys le hv, ← get?_sortKeys le' hw, h]

theorem isSome_lookup_iff {α : Type*} {fields : List (String × α)} {key : String} :
    (fields.lookup key).isSome ↔ key ∈ fields.map Prod.fst := by
  induction fields with
  | nil => simp
  | cons f fields ih =>
    rw [List.lookup_cons, List.map_cons, List.mem_cons]
    by_cases h : key = f.1
    · simp [h]
    · rw [beq_false_of_ne h, ih, or_iff_right h]

theorem isSome_get?_sortKeys (le : String → String → Bool) (v : Json) (key : String) :
    ((v.sortKeys le).get? key).isSome ↔ (v.get? key).isSome := by
  cases v with
  | obj fields =>
    rw [sortKeys_obj, get?_obj, get?_obj, isSome_lookup_iff, isSome_lookup_iff,
      ((sortFields_perm le _).map Prod.fst).mem_iff, map_fst_map_sortKeys]
  | _ => rfl

/-- Two values with the same sorted form have the same keys. -/
theorem isSome_get?_of_sortKeys_eq {le le' : String → String → Bool} {v w : Json}
    (h : v.sortKeys le = w.sortKeys le') (key : String) :
    (v.get? key).isSome ↔ (w.get? key).isSome := by
  rw [← isSome_get?_sortKeys le, h, isSome_get?_sortKeys]

@[simp] theorem sortKeys_eq_str {le : String → String → Bool} {v : Json} {s : String} :
    v.sortKeys le = .str s ↔ v = .str s := by
  cases v <;> simp [sortKeys]

@[simp] theorem sortKeys_eq_num {le : String → String → Bool} {v : Json} {i : Int} :
    v.sortKeys le = .num i ↔ v = .num i := by
  cases v <;> simp [sortKeys]

end Json
