import Pzdr.Merkle.Walk

/-!
# Merkle.Verify

The walk against the tree: completeness and soundness of inclusion and consistency proofs for
left-balanced trees, over an arbitrary node hash.

* `inclusion_complete`, `consistency_complete`: the honest siblings are accepted.
* `inclusion_sound`: a walk that ends at the root, on a list of any length, started at the hash of
  the leaf in its position and used exactly the honest siblings.
* `consistency_sound`: a walk that recomputes the root of a tree also recomputes, on its other
  component, the root of the prefix of the stated size.

The soundness results ask for collision freedom only on the pairs the walk hashes, which
`walkPairs` and `walk2Pairs` list.
-/

namespace Merkle

variable {H : Type*}

theorem zip_reverse {α β : Type*} {as : List α} {bs : List β} (h : as.length = bs.length) :
    (as.zip bs).reverse = as.reverse.zip bs.reverse := List.reverse_zipWith h

section Inclusion

variable (node : H → H → H) (empty : H)

theorem climb_append (ops ops' : List (Side × H)) (h : H) :
    climb node (ops ++ ops') h = climb node ops (climb node ops' h) := by
  induction ops with
  | nil => rfl
  | cons op ops ih =>
    obtain ⟨d, c⟩ := op
    cases d <;> simp only [List.cons_append, climb, ih]

theorem climbPairs_append (ops ops' : List (Side × H)) (h : H) :
    climbPairs node (ops ++ ops') h =
      climbPairs node ops (climb node ops' h) ++ climbPairs node ops' h := by
  induction ops with
  | nil => rfl
  | cons op ops ih =>
    obtain ⟨d, c⟩ := op
    cases d <;> simp only [List.cons_append, climbPairs, climb_append, ih]

/-- The pair hashed when a node on side `d` with hash `h` is combined with its sibling `c`. -/
def sidePair : Side → H → H → H × H
  | .left, c, h => (h, c)
  | .right, c, h => (c, h)

/-- One step of an inclusion walk. -/
def combine (d : Side) (c h : H) : H := node (sidePair d c h).1 (sidePair d c h).2

/-- One step of an inclusion walk that records the pairs it hashes. -/
def combineLog (d : Side) (c : H) (s : H × List (H × H)) : H × List (H × H) :=
  (combine node d c s.1, sidePair d c s.1 :: s.2)

/-- The pairs hashed by an inclusion walk. -/
def walkPairs (fn sn : Nat) (cs : List H) (h : H) : List (H × H) :=
  (walk (combineLog node) fn sn cs (h, [])).1.2

/-- One hash of every pair is one the walk has computed itself, or its start. -/
theorem walkPairs_of_forall {P : H → Prop} (hnode : ∀ l r, P (node l r)) (fn sn : Nat)
    (cs : List H) {h : H} (hh : P h) : ∀ q ∈ walkPairs node fn sn cs h, P q.1 ∨ P q.2 := by
  refine (walk_invariant (combineLog node)
    (I := fun s => P s.1 ∧ ∀ q ∈ s.2, P q.1 ∨ P q.2) ?_ cs fn sn (h, []) ⟨hh, by simp⟩).2
  intro d c s hs
  refine ⟨hnode _ _, ?_⟩
  intro q hq
  rcases List.mem_cons.mp hq with rfl | hq
  · cases d with
    | left => exact .inl hs.1
    | right => exact .inr hs.1
  · exact hs.2 q hq

theorem along_combine (ops : List (Side × H)) (h : H) :
    along (combine node) ops h = climb node ops.reverse h := by
  induction ops generalizing h with
  | nil => rfl
  | cons op ops ih =>
    obtain ⟨d, c⟩ := op
    rw [along_cons, ih, List.reverse_cons, climb_append]
    cases d <;> rfl

theorem along_combineLog (ops : List (Side × H)) (h : H) (qs : List (H × H)) :
    along (combineLog node) ops (h, qs) =
      (climb node ops.reverse h, climbPairs node ops.reverse h ++ qs) := by
  induction ops generalizing h qs with
  | nil => rfl
  | cons op ops ih =>
    obtain ⟨d, c⟩ := op
    rw [along_cons, combineLog, ih, List.reverse_cons, climb_append, climbPairs_append]
    cases d <;> simp [climb, climbPairs, combine, sidePair]

/-- Sides from the root down of a walk of length `k` that starts at leaf `i`. -/
def walkSides (n i k : Nat) : List Side :=
  List.replicate (k - (route n i).length) .right ++ route n i

theorem walk_combine {n i : Nat} {cs : List H} {h : H} (hi : i < n)
    (hlen : (route n i).length ≤ cs.length) :
    walk (combine node) i (n - 1) cs h =
      (climb node ((walkSides n i cs.length).zip cs.reverse) h, 0) := by
  have hs := steps_route hi
  have hsl : (steps i (n - 1)).length = (route n i).length := by rw [hs, List.length_reverse]
  rw [walk_long _ _ _ _ _ (by omega) (by omega), along_combine, hs, List.length_reverse,
    zip_reverse (by simp; omega), List.reverse_append, List.reverse_reverse,
    List.reverse_replicate, walkSides]

theorem walkPairs_eq {n i : Nat} {cs : List H} {h : H} (hi : i < n)
    (hlen : (route n i).length ≤ cs.length) :
    walkPairs node i (n - 1) cs h =
      climbPairs node ((walkSides n i cs.length).zip cs.reverse) h := by
  have hs := steps_route hi
  have hsl : (steps i (n - 1)).length = (route n i).length := by rw [hs, List.length_reverse]
  rw [walkPairs, walk_long _ _ _ _ _ (by omega) (by omega), along_combineLog, hs,
    List.length_reverse, zip_reverse (by simp; omega), List.reverse_append, List.reverse_reverse,
    List.reverse_replicate, walkSides, List.append_nil]

theorem inclusion_complete {ls : List H} {i : Nat} {x : H} (hx : ls[i]? = some x) :
    walk (combine node) i (ls.length - 1) (siblings node empty (route ls.length i) ls).reverse x =
      (root node empty ls, 0) := by
  obtain ⟨hi, _⟩ := List.getElem?_eq_some_iff.mp hx
  have hlen := siblings_length node empty (route ls.length i) ls
  have hclimb := climb_subtree node empty (subtree_route hx)
  rw [root_singleton] at hclimb
  rw [walk_combine node hi (by rw [List.length_reverse]; omega), List.reverse_reverse, walkSides,
    List.length_reverse, hlen, Nat.sub_self, List.replicate_zero, List.nil_append, hclimb]

/-- Soundness of inclusion, with no assumption on the list: a list that is too short ends below
the root, and a list that is too long would lead out of the tree. -/
theorem inclusion_sound {ls : List H} {i : Nat} {h : H} {cs : List H} (hi : i < ls.length)
    (hb : Binds node empty (walkPairs node i (ls.length - 1) cs h) ls)
    (heq : walk (combine node) i (ls.length - 1) cs h = (root node empty ls, 0)) :
    ls[i]? = some h ∧ cs = (siblings node empty (route ls.length i) ls).reverse := by
  have hlong : (route ls.length i).length ≤ cs.length := by
    by_contra hlt
    refine walk_short (combine node) cs i (ls.length - 1) h (by omega) ?_ (congrArg Prod.snd heq)
    rw [steps_route hi, List.length_reverse]
    omega
  rw [walk_combine node hi hlong, Prod.mk.injEq] at heq
  rw [walkPairs_eq node hi hlong] at hb
  have hzip : (walkSides ls.length i cs.length).length = cs.reverse.length := by
    simp [walkSides]; omega
  obtain ⟨sub, hsub, _, hroot, hsib⟩ :=
    climb_descend node empty (List.ne_nil_of_length_pos (by omega)) hb heq.1
  rw [List.map_fst_zip (by omega)] at hsub hsib
  rw [List.map_snd_zip (by omega)] at hsib
  have hj : cs.length - (route ls.length i).length = 0 := by
    by_contra hj
    rw [walkSides, subtree_overlong hi (by omega)] at hsub
    cases hsub
  rw [walkSides, hj, List.replicate_zero, List.nil_append] at hsub hsib
  have hx : ls[i]? = some ls[i] := List.getElem?_eq_getElem hi
  rw [subtree_route hx, Option.some.injEq] at hsub
  subst hsub
  rw [root_singleton] at hroot
  exact ⟨by rw [hx, hroot], by rw [hsib, List.reverse_reverse]⟩

end Inclusion

section Consistency

variable (node : H → H → H) (empty : H)

/-- One step of a consistency walk: the first component is the old root in the making, the second
the new root. -/
def combine2 (d : Side) (c : H) (s : H × H) : H × H :=
  (match d with
    | .left => s.1
    | .right => node c s.1, combine node d c s.2)

/-- The pairs that `climbOld` hashes. -/
def climbOldPairs : List (Side × H) → H → List (H × H)
  | [], _ => []
  | (.left, _) :: ops, h => climbOldPairs ops h
  | (.right, c) :: ops, h => (c, climbOld node ops h) :: climbOldPairs ops h

/-- One step of a consistency walk that records the pairs it hashes. -/
def combine2Log (d : Side) (c : H) (s : (H × H) × List (H × H)) : (H × H) × List (H × H) :=
  (combine2 node d c s.1,
    sidePair d c s.1.2 ::
      match d with
      | .left => s.2
      | .right => (c, s.1.1) :: s.2)

/-- The pairs hashed by a consistency walk; none if it fails on the way. -/
def walk2Pairs (fn sn : Nat) (cs : List H) (h : H) : List (H × H) :=
  match walkStrict (combine2Log node) fn sn cs ((h, h), []) with
  | some (s, _) => s.2
  | none => []

theorem climbOld_append (ops ops' : List (Side × H)) (h : H) :
    climbOld node (ops ++ ops') h = climbOld node ops (climbOld node ops' h) := by
  induction ops with
  | nil => rfl
  | cons op ops ih =>
    obtain ⟨d, c⟩ := op
    cases d <;> simp only [List.cons_append, climbOld, ih]

theorem climbOldPairs_append (ops ops' : List (Side × H)) (h : H) :
    climbOldPairs node (ops ++ ops') h =
      climbOldPairs node ops (climbOld node ops' h) ++ climbOldPairs node ops' h := by
  induction ops with
  | nil => rfl
  | cons op ops ih =>
    obtain ⟨d, c⟩ := op
    cases d <;> simp only [List.cons_append, climbOldPairs, climbOld_append, ih]

theorem along_combine2 (ops : List (Side × H)) (s : H × H) :
    along (combine2 node) ops s = (climbOld node ops.reverse s.1, climb node ops.reverse s.2) := by
  induction ops generalizing s with
  | nil => rfl
  | cons op ops ih =>
    obtain ⟨d, c⟩ := op
    rw [along_cons, ih, List.reverse_cons, climb_append, climbOld_append]
    cases d <;> rfl

theorem mem_along_combine2Log (ops : List (Side × H)) (s : H × H) (qs : List (H × H)) (q : H × H) :
    q ∈ (along (combine2Log node) ops (s, qs)).2 ↔
      q ∈ climbPairs node ops.reverse s.2 ∨ q ∈ climbOldPairs node ops.reverse s.1 ∨ q ∈ qs := by
  induction ops generalizing s qs with
  | nil => simp [along, climbPairs, climbOldPairs]
  | cons op ops ih =>
    obtain ⟨d, c⟩ := op
    rw [along_cons, List.reverse_cons, climbPairs_append, climbOldPairs_append]
    cases d with
    | left =>
      rw [show combine2Log node .left c (s, qs) =
        ((s.1, node s.2 c), (s.2, c) :: qs) from rfl, ih]
      simp [climb, climbOld, climbPairs, climbOldPairs]
      tauto
    | right =>
      rw [show combine2Log node .right c (s, qs) =
        ((node c s.1, node c s.2), (c, s.2) :: (c, s.1) :: qs) from rfl, ih]
      simp [climb, climbOld, climbPairs, climbOldPairs]
      tauto

theorem walk2_some_iff {m n : Nat} {cs : List H} {x : H} {r : H × H} (hpos : 0 < m) (hmn : m < n) :
    walkStrict (combine2 node) (skip (m - 1) (n - 1)).1 (skip (m - 1) (n - 1)).2 cs (x, x) =
        some (r, 0) ↔
      cs.length = (spine m n).length ∧
        r = (climbOld node ((spine m n).zip cs.reverse) x,
          climb node ((spine m n).zip cs.reverse) x) := by
  have hs : steps (skip (m - 1) (n - 1)).1 (skip (m - 1) (n - 1)).2 = (spine m n).reverse :=
    steps_spine hpos hmn
  rw [walkStrict_some_zero _ (skip_le (by omega)), hs, List.length_reverse]
  constructor
  · rintro ⟨hlen, rfl⟩
    rw [along_combine2, zip_reverse (by simp [hlen]), List.reverse_reverse]
    exact ⟨hlen, rfl⟩
  · rintro ⟨hlen, rfl⟩
    rw [along_combine2, zip_reverse (by simp [hlen]), List.reverse_reverse]
    exact ⟨hlen, rfl⟩

theorem mem_walk2Pairs {m n : Nat} {cs : List H} {x : H} (hpos : 0 < m) (hmn : m < n)
    (hlen : cs.length = (spine m n).length) (q : H × H) :
    q ∈ walk2Pairs node (skip (m - 1) (n - 1)).1 (skip (m - 1) (n - 1)).2 cs x ↔
      q ∈ climbPairs node ((spine m n).zip cs.reverse) x ∨
        q ∈ climbOldPairs node ((spine m n).zip cs.reverse) x := by
  have hs : steps (skip (m - 1) (n - 1)).1 (skip (m - 1) (n - 1)).2 = (spine m n).reverse :=
    steps_spine hpos hmn
  have hwalk : walkStrict (combine2Log node) (skip (m - 1) (n - 1)).1 (skip (m - 1) (n - 1)).2 cs
      ((x, x), []) = some (along (combine2Log node) ((spine m n).reverse.zip cs) ((x, x), []), 0) := by
    rw [walkStrict_some_zero _ (skip_le (by omega)), hs, List.length_reverse]
    exact ⟨hlen, rfl⟩
  rw [walk2Pairs, hwalk, mem_along_combine2Log, zip_reverse (by simp [hlen]), List.reverse_reverse]
  simp

theorem consistency_complete {ls sub : List H} {m : Nat} (hpos : 0 < m) (hm : m < ls.length)
    (hsub : subtree (spine m ls.length) ls = some sub) :
    walkStrict (combine2 node) (skip (m - 1) (ls.length - 1)).1 (skip (m - 1) (ls.length - 1)).2
        (siblings node empty (spine m ls.length) ls).reverse
        (root node empty sub, root node empty sub) =
      some ((root node empty (ls.take m), root node empty ls), 0) := by
  rw [walk2_some_iff node hpos hm, List.length_reverse, siblings_length, List.reverse_reverse,
    climbOld_spine node empty hpos (by omega) hsub, climb_subtree node empty hsub]
  exact ⟨rfl, rfl⟩

theorem consistency_sound {ls : List H} {m : Nat} {cs : List H} {x old : H} (hpos : 0 < m)
    (hm : m < ls.length)
    (hb : Binds node empty
      (walk2Pairs node (skip (m - 1) (ls.length - 1)).1 (skip (m - 1) (ls.length - 1)).2 cs x) ls)
    (heq : walkStrict (combine2 node) (skip (m - 1) (ls.length - 1)).1
      (skip (m - 1) (ls.length - 1)).2 cs (x, x) = some ((old, root node empty ls), 0)) :
    old = root node empty (ls.take m) ∧
      cs = (siblings node empty (spine m ls.length) ls).reverse := by
  obtain ⟨hlen, hr⟩ := (walk2_some_iff node hpos hm).mp heq
  rw [Prod.mk.injEq] at hr
  have hb' : Binds node empty (climbPairs node ((spine m ls.length).zip cs.reverse) x) ls :=
    hb.mono node empty (fun q hq => (mem_walk2Pairs node hpos hm hlen q).mpr (.inl hq))
      (List.Subset.refl _) (List.Subset.refl _)
  obtain ⟨sub, hsub, _, hroot, hsib⟩ :=
    climb_descend node empty (List.ne_nil_of_length_pos (by omega)) hb' hr.2.symm
  have hzip : (spine m ls.length).length = cs.reverse.length := by simp [hlen]
  rw [List.map_fst_zip (by omega)] at hsub hsib
  rw [List.map_snd_zip (by omega)] at hsib
  refine ⟨?_, by rw [hsib, List.reverse_reverse]⟩
  rw [hr.1, ← hsib, ← hroot]
  exact climbOld_spine node empty hpos (by omega) hsub

/-! ### The start of a consistency walk

`P` holds of whatever `node` computes. The first step of a walk combines the start only for the new
root, so the start is bound by the old root alone. -/

theorem climbOld_eq_climb (ops : List (Side × H)) (h : H) :
    climbOld node ops h = climb node (ops.filter (fun op => op.1 = .right)) h := by
  induction ops with
  | nil => rfl
  | cons op ops ih =>
    obtain ⟨d, c⟩ := op
    cases d with
    | left => simp [climbOld, ih]
    | right => simp [climbOld, climb, ih]

theorem climbOldPairs_eq_climbPairs (ops : List (Side × H)) (h : H) :
    climbOldPairs node ops h = climbPairs node (ops.filter (fun op => op.1 = .right)) h := by
  induction ops with
  | nil => rfl
  | cons op ops ih =>
    obtain ⟨d, c⟩ := op
    cases d with
    | left => simp [climbOldPairs, ih]
    | right => simp [climbOldPairs, climbPairs, climbOld_eq_climb, ih]

theorem climbPairs_of_forall {P : H → Prop} (hnode : ∀ l r, P (node l r)) {h : H} (hh : P h)
    (ops : List (Side × H)) : ∀ q ∈ climbPairs node ops h, P q.1 ∨ P q.2 := by
  have hclimb : ∀ ops : List (Side × H), P (climb node ops h) := by
    intro ops
    cases ops with
    | nil => exact hh
    | cons op ops =>
      obtain ⟨d, c⟩ := op
      cases d <;> exact hnode _ _
  induction ops with
  | nil =>
    intro q hq
    cases hq
  | cons op ops ih =>
    obtain ⟨d, c⟩ := op
    intro q hq
    cases d with
    | left =>
      rcases List.mem_cons.mp hq with rfl | hq
      · exact .inl (hclimb ops)
      · exact ih q hq
    | right =>
      rcases List.mem_cons.mp hq with rfl | hq
      · exact .inr (hclimb ops)
      · exact ih q hq

/-- Started at a value like those `node` computes, a walk hashes one such value in every step. -/
theorem walk2Pairs_of_forall {P : H → Prop} (hnode : ∀ l r, P (node l r)) {m n : Nat} {cs : List H}
    {x : H} {r : H × H} (hx : P x) (hpos : 0 < m) (hmn : m < n)
    (heq : walkStrict (combine2 node) (skip (m - 1) (n - 1)).1 (skip (m - 1) (n - 1)).2 cs (x, x) =
      some (r, 0)) :
    ∀ q ∈ walk2Pairs node (skip (m - 1) (n - 1)).1 (skip (m - 1) (n - 1)).2 cs x,
      P q.1 ∨ P q.2 := by
  intro q hq
  have hlen := ((walk2_some_iff node hpos hmn).mp heq).1
  rw [mem_walk2Pairs node hpos hmn hlen, climbOldPairs_eq_climbPairs] at hq
  rcases hq with hq | hq
  · exact climbPairs_of_forall node hnode hx _ q hq
  · exact climbPairs_of_forall node hnode hx _ q hq

theorem fst_of_mem_climbOldPairs {ops : List (Side × H)} {h : H} {q : H × H}
    (hq : q ∈ climbOldPairs node ops h) : q.1 ∈ ops.map Prod.snd := by
  induction ops with
  | nil => cases hq
  | cons op ops ih =>
    obtain ⟨d, c⟩ := op
    cases d with
    | left => exact List.mem_cons_of_mem _ (ih hq)
    | right =>
      rcases List.mem_cons.mp hq with rfl | hq
      · exact List.mem_cons_self
      · exact List.mem_cons_of_mem _ (ih hq)

theorem subtree_subset {ds : List Side} {ls sub : List H} (h : subtree ds ls = some sub) :
    sub ⊆ ls := by
  induction ds generalizing ls with
  | nil =>
    cases h
    exact List.Subset.refl _
  | cons d ds ih =>
    by_cases hlen : 2 ≤ ls.length
    · cases d with
      | left =>
        rw [subtree_left hlen] at h
        exact List.Subset.trans (ih h) (List.take_subset _ _)
      | right =>
        rw [subtree_right hlen] at h
        exact List.Subset.trans (ih h) (List.drop_subset _ _)
    · simp only [subtree, if_neg hlen] at h
      cases h

/-- A walk that recomputes both roots started at a value like those `node` computes. -/
theorem consistency_start {P : H → Prop} (hempty : P empty) (hnode : ∀ l r, P (node l r))
    {ls : List H} (hleaves : ∀ x ∈ ls, P x) {m : Nat} {cs : List H} {x : H} (hpos : 0 < m)
    (hm : m < ls.length)
    (hb : ∀ qs, (∀ q ∈ qs, P q.1 ∨ P q.2) →
      qs ⊆ walk2Pairs node (skip (m - 1) (ls.length - 1)).1 (skip (m - 1) (ls.length - 1)).2 cs x →
      Binds node empty qs ls ∧ Binds node empty qs (ls.take m))
    (heq : walkStrict (combine2 node) (skip (m - 1) (ls.length - 1)).1
      (skip (m - 1) (ls.length - 1)).2 cs (x, x) =
        some ((root node empty (ls.take m), root node empty ls), 0)) : P x := by
  obtain ⟨hlen, hr⟩ := (walk2_some_iff node hpos hm).mp heq
  rw [Prod.mk.injEq] at hr
  have hmem := mem_walk2Pairs node hpos hm hlen (x := x)
  obtain ⟨ds, hds⟩ := spine_eq_append_left hpos hm
  obtain ⟨init, c, hcs⟩ : ∃ init c, cs.reverse = init ++ [c] := by
    have hne : cs.reverse ≠ [] := by
      intro h
      have := congrArg List.length h
      simp [hlen, hds] at this
    exact ⟨_, _, (List.dropLast_concat_getLast hne).symm⟩
  have hinit : ds.length = init.length := by
    have := congrArg List.length hcs
    rw [List.length_reverse, hlen, hds] at this
    simpa using this
  rw [hds, hcs, List.zip_append hinit] at hr hmem
  -- the start is hashed with `c` first, and from there on every node is a digest
  have hnew : ∀ q ∈ climbPairs node (ds.zip init) (node x c), P q.1 ∨ P q.2 :=
    climbPairs_of_forall node hnode (hnode x c) _
  have hbnew := (hb _ hnew (fun q hq => (hmem q).mpr (.inl (by
    rw [climbPairs_append]
    exact List.mem_append_left _ hq)))).1
  have hroot : climb node (ds.zip init) (node x c) = root node empty ls := by
    rw [hr.2, climb_append]
    rfl
  obtain ⟨_, _, _, _, hsib⟩ :=
    climb_descend node empty (List.ne_nil_of_length_pos (by omega)) hbnew hroot
  have hold : ∀ q ∈ climbOldPairs node (ds.zip init) x, P q.1 ∨ P q.2 := by
    intro q hq
    have hfst := fst_of_mem_climbOldPairs node hq
    rw [← hsib] at hfst
    exact .inl (siblings_of_forall node empty hempty hnode _ hleaves _ hfst)
  have hbold := (hb _ hold (fun q hq => (hmem q).mpr (.inr (by
    rw [climbOldPairs_append]
    exact List.mem_append_left _ hq)))).2
  have hroot' : climbOld node (ds.zip init) x = root node empty (ls.take m) := by
    rw [hr.1, climbOld_append]
    rfl
  rw [climbOldPairs_eq_climbPairs] at hbold
  rw [climbOld_eq_climb] at hroot'
  obtain ⟨sub, hsub, _, hx, _⟩ := climb_descend node empty
    (List.ne_nil_of_length_pos (by rw [List.length_take]; omega)) hbold hroot'
  rw [← hx]
  refine root_of_forall node empty hempty hnode ?_
  intro y hy
  exact hleaves y (List.mem_of_mem_take (subtree_subset hsub hy))

end Consistency

end Merkle
