import Pzdr.Json.Value

/-!
# Json.Order

Sorting of object keys by a total order.

* `sortKeys_eq_iff`: two orders sort a value alike just when they agree on the keys of each object
  in it.
* `Reordered`: equality up to the order of fields. `sortKeys_eq_iff_reordered`: sorting chooses one
  value among those that differ by it.
-/

namespace Json

/-- A total order on keys, as a test. -/
structure IsKeyOrder (le : String → String → Bool) : Prop where
  total : ∀ a b, le a b = true ∨ le b a = true
  trans : ∀ a b c, le a b = true → le b c = true → le a c = true
  antisymm : ∀ a b, le a b = true → le b a = true → a = b

section Fields

variable {α : Type*} {le le' : String → String → Bool} {fields : List (String × α)}

theorem IsKeyOrder.refl (hle : IsKeyOrder le) (a : String) : le a a = true := by
  rcases hle.total a a with h | h
  · exact h
  · exact h

theorem IsKeyOrder.pairwise (hle : IsKeyOrder le) (fields : List (String × α)) :
    (sortFields le fields).Pairwise (fun f g => le f.1 g.1 = true) := by
  have : Std.Total (fun f g : String × α => le f.1 g.1 = true) := ⟨fun f g => hle.total f.1 g.1⟩
  have : IsTrans (String × α) (fun f g => le f.1 g.1 = true) :=
    ⟨fun f g k => hle.trans f.1 g.1 k.1⟩
  exact List.pairwise_insertionSort _ fields

theorem eq_of_mem_of_fst_eq (hn : (fields.map Prod.fst).Nodup) {f g : String × α} (hf : f ∈ fields)
    (hg : g ∈ fields) (h : f.1 = g.1) : f = g :=
  List.inj_on_of_nodup_map hn hf hg h

/-- Sorting forgets the order of the fields. -/
theorem IsKeyOrder.sortFields_eq_of_perm (hle : IsKeyOrder le) {fields' : List (String × α)}
    (hn : (fields.map Prod.fst).Nodup) (h : fields.Perm fields') :
    sortFields le fields = sortFields le fields' := by
  have hperm : (sortFields le fields).Perm (sortFields le fields') :=
    (sortFields_perm le fields).trans (h.trans (sortFields_perm le fields').symm)
  refine hperm.eq_of_pairwise ?_ (hle.pairwise fields) (hle.pairwise fields')
  intro f g hf hg hfg hgf
  rw [mem_sortFields] at hf hg
  exact eq_of_mem_of_fst_eq hn hf (h.mem_iff.mpr hg) (hle.antisymm _ _ hfg hgf)

theorem IsKeyOrder.eq_of_pairwise (hle : IsKeyOrder le) (hle' : IsKeyOrder le')
    (h : fields.Pairwise (fun f g => le f.1 g.1 = true))
    (h' : fields.Pairwise (fun f g => le' f.1 g.1 = true)) {f g : String × α} (hf : f ∈ fields)
    (hg : g ∈ fields) : le f.1 g.1 = le' f.1 g.1 := by
  by_cases hkey : f.1 = g.1
  · rw [hkey, hle.refl, hle'.refl]
  have hboth : fields.Pairwise (fun f g => (le f.1 g.1 = true ∧ le' f.1 g.1 = true) ∨
      (le g.1 f.1 = true ∧ le' g.1 f.1 = true)) := (h.and h').imp Or.inl
  have hsymm : Std.Symm (fun f g : String × α => (le f.1 g.1 = true ∧ le' f.1 g.1 = true) ∨
      (le g.1 f.1 = true ∧ le' g.1 f.1 = true)) := ⟨fun _ _ => Or.symm⟩
  have hne : f ≠ g := fun hfg => hkey (congrArg Prod.fst hfg)
  rcases hboth.forall hf hg hne with ⟨h1, h2⟩ | ⟨h1, h2⟩
  · rw [h1, h2]
  · have hnot : ¬ le f.1 g.1 = true := fun h3 => hkey (hle.antisymm _ _ h3 h1)
    have hnot' : ¬ le' f.1 g.1 = true := fun h3 => hkey (hle'.antisymm _ _ h3 h2)
    rw [Bool.not_eq_true] at hnot hnot'
    rw [hnot, hnot']

end Fields

/-! ## Two orders -/

mutual

/-- The keys of each object in the value. -/
def keyLists : Json → List (List String)
  | .arr xs => keyListsAll xs
  | .obj fields => fields.map Prod.fst :: keyListsFields fields
  | _ => []

def keyListsAll : List Json → List (List String)
  | [] => []
  | x :: xs => keyLists x ++ keyListsAll xs

def keyListsFields : List (String × Json) → List (List String)
  | [] => []
  | (_, v) :: fields => keyLists v ++ keyListsFields fields

end

theorem keyListsAll_eq (xs : List Json) : keyListsAll xs = xs.flatMap keyLists := by
  induction xs with
  | nil => rfl
  | cons x xs ih => rw [keyListsAll, ih, List.flatMap_cons]

theorem keyListsFields_eq (fields : List (String × Json)) :
    keyListsFields fields = fields.flatMap (fun f => keyLists f.2) := by
  induction fields with
  | nil => rfl
  | cons f fields ih => rw [keyListsFields, ih, List.flatMap_cons]

/-- The orders agree on the keys of each object in the value. -/
def OrdersAgree (le le' : String → String → Bool) (v : Json) : Prop :=
  ∀ ks ∈ v.keyLists, ∀ a ∈ ks, ∀ b ∈ ks, le a b = le' a b

instance (le le' : String → String → Bool) (v : Json) : Decidable (OrdersAgree le le' v) :=
  inferInstanceAs (Decidable (∀ ks ∈ v.keyLists, ∀ a ∈ ks, ∀ b ∈ ks, le a b = le' a b))

section Orders

variable {le le' : String → String → Bool}

theorem ordersAgree_arr {xs : List Json} :
    OrdersAgree le le' (.arr xs) ↔ ∀ x ∈ xs, OrdersAgree le le' x := by
  simp only [OrdersAgree, keyLists, keyListsAll_eq, List.mem_flatMap, forall_exists_index, and_imp]
  exact ⟨fun h x hx ks hks => h ks x hx hks, fun h ks x hx hks => h x hx ks hks⟩

theorem ordersAgree_obj {fields : List (String × Json)} :
    OrdersAgree le le' (.obj fields) ↔
      (∀ f ∈ fields, ∀ g ∈ fields, le f.1 g.1 = le' f.1 g.1) ∧
        ∀ f ∈ fields, OrdersAgree le le' f.2 := by
  simp only [OrdersAgree, keyLists, keyListsFields_eq, List.forall_mem_cons, List.forall_mem_map,
    List.mem_flatMap, forall_exists_index, and_imp]
  refine and_congr_right fun _ => ?_
  exact ⟨fun h f hf ks hks => h ks f hf hks, fun h ks f hf hks => h f hf ks hks⟩

theorem distinctKeysAll_iff (xs : List Json) : DistinctKeysAll xs ↔ ∀ x ∈ xs, DistinctKeys x := by
  induction xs with
  | nil => simp [DistinctKeysAll]
  | cons x xs ih => simp [DistinctKeysAll, ih]

/-- The sorted fields tell the sorted value of each field. -/
theorem sortKeys_eq_of_sortFields_eq {fields : List (String × Json)}
    (hn : (fields.map Prod.fst).Nodup)
    (h : sortFields le (fields.map (Prod.map id (sortKeys le))) =
      sortFields le' (fields.map (Prod.map id (sortKeys le'))))
    {f : String × Json} (hf : f ∈ fields) : f.2.sortKeys le = f.2.sortKeys le' := by
  have hmem : (f.1, f.2.sortKeys le) ∈ sortFields le (fields.map (Prod.map id (sortKeys le))) := by
    rw [mem_sortFields]
    exact List.mem_map.mpr ⟨f, hf, rfl⟩
  rw [h, mem_sortFields] at hmem
  obtain ⟨g, hg, hfg⟩ := List.mem_map.mp hmem
  obtain ⟨hkey, hvalue⟩ := Prod.mk.inj hfg
  rw [eq_of_mem_of_fst_eq hn hg hf hkey] at hvalue
  exact hvalue.symm

theorem sortKeys_eq_iff (hle : IsKeyOrder le) (hle' : IsKeyOrder le') {v : Json}
    (hv : v.DistinctKeys) : v.sortKeys le = v.sortKeys le' ↔ OrdersAgree le le' v := by
  induction v with
  | arr xs ih =>
    rw [DistinctKeys, distinctKeysAll_iff] at hv
    rw [sortKeys, sortKeys, sortKeysAll_eq, sortKeysAll_eq, arr.injEq, List.map_inj_left,
      ordersAgree_arr]
    exact forall₂_congr fun x hx => ih x hx (hv x hx)
  | obj fields ih =>
    rw [DistinctKeys, distinctKeysFields_iff] at hv
    have hvalues : ∀ f ∈ fields, f.2.sortKeys le = f.2.sortKeys le' ↔ OrdersAgree le le' f.2 :=
      fun f hf => ih f hf (hv.2 f hf)
    rw [sortKeys_obj, sortKeys_obj, obj.injEq, ordersAgree_obj]
    constructor
    · intro h
      constructor
      · intro f hf g hg
        have hpair := hle.pairwise (fields.map (Prod.map id (sortKeys le)))
        have hpair' := hle'.pairwise (fields.map (Prod.map id (sortKeys le')))
        rw [← h] at hpair'
        have hmem : ∀ k ∈ fields, (k.1, k.2.sortKeys le) ∈
            sortFields le (fields.map (Prod.map id (sortKeys le))) := by
          intro k hk
          rw [mem_sortFields]
          exact List.mem_map.mpr ⟨k, hk, rfl⟩
        have hagree := hle.eq_of_pairwise hle' hpair hpair' (hmem f hf) (hmem g hg)
        exact hagree
      · intro f hf
        exact (hvalues f hf).mp (sortKeys_eq_of_sortFields_eq hv.1 h hf)
    · rintro ⟨hkeys, hagree⟩
      have hmap : fields.map (Prod.map id (sortKeys le)) =
          fields.map (Prod.map id (sortKeys le')) := by
        rw [List.map_inj_left]
        intro f hf
        exact Prod.ext rfl ((hvalues f hf).mpr (hagree f hf))
      rw [hmap]
      apply sortFields_congr
      intro f hf g hg
      obtain ⟨f', hf', rfl⟩ := List.mem_map.mp hf
      obtain ⟨g', hg', rfl⟩ := List.mem_map.mp hg
      exact hkeys f' hf' g' hg'
  | _ => simp [sortKeys, OrdersAgree, keyLists]

end Orders

/-! ## Equality up to the order of fields -/

/-- The fields of objects anywhere in the value may change places. -/
inductive Reordered : Json → Json → Prop where
  | refl {v : Json} : Reordered v v
  | trans {u v w : Json} : Reordered u v → Reordered v w → Reordered u w
  | perm {fields fields' : List (String × Json)} :
      fields.Perm fields' → Reordered (.obj fields) (.obj fields')
  | element {v w : Json} {xs ys : List Json} :
      Reordered v w → Reordered (.arr (xs ++ v :: ys)) (.arr (xs ++ w :: ys))
  | value {v w : Json} {key : String} {fields fields' : List (String × Json)} :
      Reordered v w → Reordered (.obj (fields ++ (key, v) :: fields'))
        (.obj (fields ++ (key, w) :: fields'))

namespace Reordered

theorem symm {v w : Json} (h : Reordered v w) : Reordered w v := by
  induction h with
  | refl => exact .refl
  | trans _ _ ih ih' => exact .trans ih' ih
  | perm h => exact .perm h.symm
  | element _ ih => exact .element ih
  | value _ ih => exact .value ih

theorem arr_map {f : Json → Json} : ∀ (pre xs : List Json), (∀ x ∈ xs, Reordered x (f x)) →
    Reordered (.arr (pre ++ xs)) (.arr (pre ++ xs.map f)) := by
  intro pre xs
  induction xs generalizing pre with
  | nil =>
    intro _
    exact .refl
  | cons x xs ih =>
    intro h
    rw [List.forall_mem_cons] at h
    have hrest := ih (pre ++ [f x]) h.2
    rw [List.append_assoc, List.append_assoc] at hrest
    exact .trans (.element h.1) hrest

theorem obj_map {f : Json → Json} : ∀ (pre fields : List (String × Json)),
    (∀ g ∈ fields, Reordered g.2 (f g.2)) →
    Reordered (.obj (pre ++ fields)) (.obj (pre ++ fields.map (Prod.map id f))) := by
  intro pre fields
  induction fields generalizing pre with
  | nil =>
    intro _
    exact .refl
  | cons g fields ih =>
    intro h
    rw [List.forall_mem_cons] at h
    have hrest := ih (pre ++ [(g.1, f g.2)]) h.2
    rw [List.append_assoc, List.append_assoc] at hrest
    exact .trans (.value h.1) hrest

end Reordered

section Reordering

variable {le : String → String → Bool} {v w : Json}

theorem reordered_sortKeys (le : String → String → Bool) (v : Json) :
    Reordered v (v.sortKeys le) := by
  induction v with
  | arr xs ih =>
    rw [sortKeys, sortKeysAll_eq]
    exact Reordered.arr_map [] xs ih
  | obj fields ih =>
    rw [sortKeys_obj]
    exact .trans (Reordered.obj_map [] fields ih) (.perm (sortFields_perm le _).symm)
  | _ => exact .refl

/-- Reordering keeps the keys of every object distinct, and the sorted value. -/
theorem Reordered.sortKeys_eq (hle : IsKeyOrder le) (h : Reordered v w) (hv : v.DistinctKeys) :
    w.DistinctKeys ∧ v.sortKeys le = w.sortKeys le := by
  induction h with
  | refl => exact ⟨hv, rfl⟩
  | trans _ _ ih ih' =>
    obtain ⟨hdistinct, heq⟩ := ih hv
    obtain ⟨hdistinct', heq'⟩ := ih' hdistinct
    exact ⟨hdistinct', heq.trans heq'⟩
  | @perm fields fields' h =>
    rw [DistinctKeys, distinctKeysFields_iff] at hv ⊢
    refine ⟨⟨(h.map Prod.fst).nodup_iff.mp hv.1, fun f hf => hv.2 f (h.mem_iff.mpr hf)⟩, ?_⟩
    rw [sortKeys_obj, sortKeys_obj, obj.injEq]
    apply hle.sortFields_eq_of_perm
    · rw [map_fst_map_sortKeys]
      exact hv.1
    · exact h.map _
  | @element v w xs ys _ ih =>
    rw [DistinctKeys, distinctKeysAll_iff] at hv ⊢
    obtain ⟨hw, heq⟩ := ih (hv v (by simp))
    constructor
    · intro x hx
      rw [List.mem_append, List.mem_cons] at hx
      rcases hx with hx | rfl | hx
      · exact hv x (by simp [hx])
      · exact hw
      · exact hv x (by simp [hx])
    · simp only [sortKeys, sortKeysAll_eq, List.map_append, List.map_cons, heq]
  | @value v w key fields fields' _ ih =>
    rw [DistinctKeys, distinctKeysFields_iff] at hv ⊢
    obtain ⟨hw, heq⟩ := ih (hv.2 (key, v) (by simp))
    refine ⟨⟨?_, ?_⟩, ?_⟩
    · simpa using hv.1
    · intro f hf
      rw [List.mem_append, List.mem_cons] at hf
      rcases hf with hf | rfl | hf
      · exact hv.2 f (by simp [hf])
      · exact hw
      · exact hv.2 f (by simp [hf])
    · simp only [sortKeys_obj, List.map_append, List.map_cons, Prod.map_apply, heq]

theorem sortKeys_eq_iff_reordered (hle : IsKeyOrder le) (hv : v.DistinctKeys) :
    v.sortKeys le = w.sortKeys le ↔ Reordered v w := by
  constructor
  · intro h
    have hw := (reordered_sortKeys le w).symm
    rw [← h] at hw
    exact .trans (reordered_sortKeys le v) hw
  · intro h
    exact (h.sortKeys_eq hle hv).2

theorem distinctKeys_of_sortKeys_eq (hle : IsKeyOrder le) (hv : v.DistinctKeys)
    (h : v.sortKeys le = w.sortKeys le) : w.DistinctKeys :=
  (((sortKeys_eq_iff_reordered hle hv).mp h).sortKeys_eq hle hv).1

/-- What reordering does to a field is a reordering of its value. -/
theorem get?_of_sortKeys_eq (hle : IsKeyOrder le) (hv : v.DistinctKeys)
    (h : v.sortKeys le = w.sortKeys le) {key : String} {x : Json} (hx : v.get? key = some x) :
    ∃ y, w.get? key = some y ∧ x.sortKeys le = y.sortKeys le := by
  have hget := map_get?_eq_of_sortKeys_eq hv (distinctKeys_of_sortKeys_eq hle hv h) h key
  rw [hx, Option.map_some] at hget
  obtain ⟨y, hy, hxy⟩ := Option.map_eq_some_iff.mp hget.symm
  exact ⟨y, hy, hxy.symm⟩

end Reordering
end Json
