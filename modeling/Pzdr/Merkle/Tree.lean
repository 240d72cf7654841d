import Pzdr.Merkle.Split

/-!
# Merkle.Tree

Left-balanced hash trees over an arbitrary node hash, and what a root commits to.

A tree is never built: it is the list of its leaf hashes, cut at `split`. A path is read from the
root down as a list of `Side`s (which child is entered) with the hash of the other child.

* `climb_subtree`: the honest siblings of a subtree recompute the root from it.
* `climb_descend`: the converse. If any hash and any siblings climb to the root of a tree, and the
  node hash does not collide on the pairs involved, then the sides lead to a subtree, the hash is
  that subtree's root and the siblings are the honest ones.
* `root_injective`: two trees of one size with one root have the same leaves;
  `root_injective_of_binds`: so have trees of any two sizes, when nodes, leaves and `empty` are told
  apart.

Collision freedom is asked only of the pairs that are hashed on the two sides (`Binds`), so the
results apply to hash functions with a finite range.
-/

namespace Merkle

/-- Which child of a node a path enters. -/
inductive Side where
  | left
  | right
  deriving DecidableEq, Repr

variable {H : Type*}

theorem list_split_induction {P : List H → Prop} (small : ∀ ls : List H, ls.length < 2 → P ls)
    (step : ∀ ls : List H, 2 ≤ ls.length → P (ls.take (split ls.length)) →
      P (ls.drop (split ls.length)) → P ls) (ls : List H) : P ls := by
  induction hn : ls.length using Nat.strongRecOn generalizing ls with
  | ind n ih =>
    by_cases h : 2 ≤ ls.length
    · have hlt := split_lt h
      have hpos := split_pos ls.length
      exact step ls h (ih _ (by simp only [List.length_take]; omega) _ rfl)
        (ih _ (by simp only [List.length_drop]; omega) _ rfl)
    · exact small ls (by omega)

section Root

variable (node : H → H → H) (empty : H)

/-- Root of the tree over the leaf hashes `ls`; `empty` is the root of no leaves. -/
def root (ls : List H) : H :=
  if 2 ≤ ls.length then
    node (root (ls.take (split ls.length))) (root (ls.drop (split ls.length)))
  else ls.headD empty
termination_by ls.length
decreasing_by
  · have := split_lt ‹2 ≤ ls.length›
    simp only [List.length_take]; omega
  · have := split_pos ls.length
    simp only [List.length_drop]; omega

theorem root_nil : root node empty [] = empty := by
  rw [root]; rfl

theorem root_singleton (x : H) : root node empty [x] = x := by
  rw [root]; rfl

theorem root_node {ls : List H} (h : 2 ≤ ls.length) :
    root node empty ls = node (root node empty (ls.take (split ls.length)))
      (root node empty (ls.drop (split ls.length))) := by
  rw [root, if_pos h]

theorem root_pair (x y : H) : root node empty [x, y] = node x y := by
  have hsplit : split 2 = 1 := by decide
  rw [root_node node empty (by simp)]
  simp [hsplit, root_singleton]

/-- Every pair of child hashes that is hashed into a node of the tree. -/
def pairs (ls : List H) : List (H × H) :=
  if 2 ≤ ls.length then
    (root node empty (ls.take (split ls.length)), root node empty (ls.drop (split ls.length))) ::
      (pairs (ls.take (split ls.length)) ++ pairs (ls.drop (split ls.length)))
  else []
termination_by ls.length
decreasing_by
  · have := split_lt ‹2 ≤ ls.length›
    simp only [List.length_take]; omega
  · have := split_pos ls.length
    simp only [List.length_drop]; omega

theorem pairs_node {ls : List H} (h : 2 ≤ ls.length) :
    pairs node empty ls =
      (root node empty (ls.take (split ls.length)), root node empty (ls.drop (split ls.length))) ::
        (pairs node empty (ls.take (split ls.length)) ++
          pairs node empty (ls.drop (split ls.length))) := by
  rw [pairs, if_pos h]

theorem pairs_singleton (x : H) : pairs node empty [x] = [] := by
  rw [pairs, if_neg (by simp)]

theorem pairs_pair (x y : H) : pairs node empty [x, y] = [(x, y)] := by
  have hsplit : split 2 = 1 := by decide
  rw [pairs_node node empty (by simp)]
  simp [hsplit, root_singleton, pairs_singleton]

theorem pairs_take_subset {ls : List H} (h : 2 ≤ ls.length) :
    pairs node empty (ls.take (split ls.length)) ⊆ pairs node empty ls := by
  intro t ht
  rw [pairs_node node empty h]
  exact List.mem_cons_of_mem _ (List.mem_append_left _ ht)

theorem pairs_drop_subset {ls : List H} (h : 2 ≤ ls.length) :
    pairs node empty (ls.drop (split ls.length)) ⊆ pairs node empty ls := by
  intro t ht
  rw [pairs_node node empty h]
  exact List.mem_cons_of_mem _ (List.mem_append_right _ ht)

/-- A property of the leaves and of everything `node` computes holds of roots. -/
theorem root_of_forall {P : H → Prop} (hempty : P empty) (hnode : ∀ l r, P (node l r))
    {ls : List H} (h : ∀ x ∈ ls, P x) : P (root node empty ls) := by
  by_cases hlen : 2 ≤ ls.length
  · rw [root_node node empty hlen]
    exact hnode _ _
  · rw [root, if_neg hlen]
    cases ls with
    | nil => exact hempty
    | cons x ls => exact h x List.mem_cons_self

theorem pairs_of_forall {P : H → Prop} (hempty : P empty) (hnode : ∀ l r, P (node l r))
    {ls : List H} (h : ∀ x ∈ ls, P x) : ∀ t ∈ pairs node empty ls, P t.1 ∧ P t.2 := by
  induction ls using list_split_induction with
  | small ls hlen =>
    intro t ht
    rw [pairs, if_neg (by omega)] at ht
    cases ht
  | step ls hlen ihl ihr =>
    have hl : ∀ x ∈ ls.take (split ls.length), P x := fun x hx => h x (List.mem_of_mem_take hx)
    have hr : ∀ x ∈ ls.drop (split ls.length), P x := fun x hx => h x (List.mem_of_mem_drop hx)
    intro t ht
    rw [pairs_node node empty hlen, List.mem_cons, List.mem_append] at ht
    rcases ht with rfl | ht | ht
    · exact ⟨root_of_forall node empty hempty hnode hl, root_of_forall node empty hempty hnode hr⟩
    · exact ihl hl t ht
    · exact ihr hr t ht

/-! ## Subtrees and climbing -/

/-- The leaves below the node that `ds` leads to, read from the root down. -/
def subtree : List Side → List H → Option (List H)
  | [], ls => some ls
  | d :: ds, ls =>
    if 2 ≤ ls.length then
      match d with
      | .left => subtree ds (ls.take (split ls.length))
      | .right => subtree ds (ls.drop (split ls.length))
    else none

/-- The hashes beside the path `ds`, in the order of `ds`. -/
def siblings : List Side → List H → List H
  | [], _ => []
  | .left :: ds, ls =>
    root node empty (ls.drop (split ls.length)) :: siblings ds (ls.take (split ls.length))
  | .right :: ds, ls =>
    root node empty (ls.take (split ls.length)) :: siblings ds (ls.drop (split ls.length))

theorem siblings_length (ds : List Side) (ls : List H) :
    (siblings node empty ds ls).length = ds.length := by
  induction ds generalizing ls with
  | nil => rfl
  | cons d ds ih => cases d <;> simp [siblings, ih]

theorem siblings_of_forall {P : H → Prop} (hempty : P empty) (hnode : ∀ l r, P (node l r))
    (ds : List Side) {ls : List H} (h : ∀ x ∈ ls, P x) :
    ∀ x ∈ siblings node empty ds ls, P x := by
  induction ds generalizing ls with
  | nil =>
    intro x hx
    cases hx
  | cons d ds ih =>
    have hl : ∀ x ∈ ls.take (split ls.length), P x := fun x hx => h x (List.mem_of_mem_take hx)
    have hr : ∀ x ∈ ls.drop (split ls.length), P x := fun x hx => h x (List.mem_of_mem_drop hx)
    cases d with
    | left =>
      rw [siblings, List.forall_mem_cons]
      exact ⟨root_of_forall node empty hempty hnode hr, ih hl⟩
    | right =>
      rw [siblings, List.forall_mem_cons]
      exact ⟨root_of_forall node empty hempty hnode hl, ih hr⟩

/-- The hash a path from the root down computes from the hash `h` at its end. -/
def climb : List (Side × H) → H → H
  | [], h => h
  | (.left, c) :: ops, h => node (climb ops h) c
  | (.right, c) :: ops, h => node c (climb ops h)

/-- The pairs that `climb` hashes. -/
def climbPairs : List (Side × H) → H → List (H × H)
  | [], _ => []
  | (.left, c) :: ops, h => (climb node ops h, c) :: climbPairs ops h
  | (.right, c) :: ops, h => (c, climb node ops h) :: climbPairs ops h

/-- `node` does not collide between the pairs `qs` and the tree over `ls`: not with a node of it
on another pair, and not with a leaf of it. -/
structure Binds (qs : List (H × H)) (ls : List H) : Prop where
  inj : ∀ q ∈ qs, ∀ t ∈ pairs node empty ls, node q.1 q.2 = node t.1 t.2 → q = t
  leaf : ∀ q ∈ qs, ∀ x ∈ ls, node q.1 q.2 ≠ x

theorem Binds.mono {qs qs' : List (H × H)} {ls ls' : List H} (h : Binds node empty qs ls)
    (hq : qs' ⊆ qs) (hp : pairs node empty ls' ⊆ pairs node empty ls) (hl : ls' ⊆ ls) :
    Binds node empty qs' ls' :=
  ⟨fun q hmem t ht => h.inj q (hq hmem) t (hp ht), fun q hmem x hx => h.leaf q (hq hmem) x (hl hx)⟩

theorem climb_subtree {ds : List Side} {ls sub : List H} (h : subtree ds ls = some sub) :
    climb node (ds.zip (siblings node empty ds ls)) (root node empty sub) = root node empty ls := by
  induction ds generalizing ls with
  | nil => simp only [subtree, Option.some.injEq] at h; subst h; rfl
  | cons d ds ih =>
    simp only [subtree] at h
    split at h
    · rename_i hlen
      rw [root_node node empty hlen]
      cases d with
      | left => simp only [siblings, List.zip_cons_cons, climb, ih h]
      | right => simp only [siblings, List.zip_cons_cons, climb, ih h]
    · cases h

/-- Climbing to the root of a tree only succeeds along the tree: by induction on the path, the top
pair is the pair of the root's children, so the rest of the path climbs to one child. -/
theorem climb_descend {ops : List (Side × H)} {h : H} {ls : List H} (hne : ls ≠ [])
    (hb : Binds node empty (climbPairs node ops h) ls)
    (heq : climb node ops h = root node empty ls) :
    ∃ sub, subtree (ops.map Prod.fst) ls = some sub ∧ sub ≠ [] ∧ root node empty sub = h ∧
      siblings node empty (ops.map Prod.fst) ls = ops.map Prod.snd := by
  induction ops generalizing ls with
  | nil => exact ⟨ls, rfl, hne, heq.symm, rfl⟩
  | cons op ops ih =>
    obtain ⟨d, c⟩ := op
    have hlen : 2 ≤ ls.length := by
      by_contra hlt
      obtain ⟨x, rfl⟩ : ∃ x, ls = [x] := by
        rw [← List.length_eq_one_iff]
        have := List.length_pos_iff.mpr hne
        omega
      rw [root_singleton] at heq
      cases d with
      | left => exact hb.leaf (climb node ops h, c) (by simp [climbPairs]) x (by simp) heq
      | right => exact hb.leaf (c, climb node ops h) (by simp [climbPairs]) x (by simp) heq
    have hlt := split_lt hlen
    have hpos := split_pos ls.length
    have hrest : climbPairs node ops h ⊆ climbPairs node ((d, c) :: ops) h := by
      intro q hq
      cases d <;> exact List.mem_cons_of_mem _ hq
    have htop : (root node empty (ls.take (split ls.length)),
        root node empty (ls.drop (split ls.length))) ∈ pairs node empty ls := by
      rw [pairs_node node empty hlen]; exact List.mem_cons_self
    rw [root_node node empty hlen] at heq
    cases d with
    | left =>
      have hpair := hb.inj (climb node ops h, c) (by simp [climbPairs]) _ htop heq
      have hsub : ls.take (split ls.length) ≠ [] := by
        intro h0
        have := congrArg List.length h0
        simp only [List.length_take, List.length_nil] at this
        omega
      obtain ⟨sub, hs, hn, hr, hsib⟩ := ih hsub
        (hb.mono node empty hrest (pairs_take_subset node empty hlen) (List.take_subset _ _))
        (congrArg Prod.fst hpair)
      refine ⟨sub, by simp [subtree, hlen, hs], hn, hr, ?_⟩
      simpa [siblings, hsib] using (congrArg Prod.snd hpair).symm
    | right =>
      have hpair := hb.inj (c, climb node ops h) (by simp [climbPairs]) _ htop heq
      have hsub : ls.drop (split ls.length) ≠ [] := by
        intro h0
        have := congrArg List.length h0
        simp only [List.length_drop, List.length_nil] at this
        omega
      obtain ⟨sub, hs, hn, hr, hsib⟩ := ih hsub
        (hb.mono node empty hrest (pairs_drop_subset node empty hlen) (List.drop_subset _ _))
        (congrArg Prod.snd hpair)
      refine ⟨sub, by simp [subtree, hlen, hs], hn, hr, ?_⟩
      simpa [siblings, hsib] using (congrArg Prod.fst hpair).symm

theorem root_injective {ls ls' : List H} (hlen : ls.length = ls'.length)
    (hinj : ∀ q ∈ pairs node empty ls, ∀ t ∈ pairs node empty ls',
      node q.1 q.2 = node t.1 t.2 → q = t)
    (heq : root node empty ls = root node empty ls') : ls = ls' := by
  induction ls using list_split_induction generalizing ls' with
  | small ls h =>
    match ls, ls', hlen with
    | [], [], _ => rfl
    | [x], [y], _ => rw [root_singleton, root_singleton] at heq; rw [heq]
    | _ :: _ :: _, _, _ => simp only [List.length_cons] at h; omega
  | step ls h ihl ihr =>
    have h' : 2 ≤ ls'.length := by omega
    rw [root_node node empty h, root_node node empty h'] at heq
    have hpair := hinj _ (by rw [pairs_node node empty h]; exact List.mem_cons_self)
      _ (by rw [pairs_node node empty h']; exact List.mem_cons_self) heq
    have hl : ls.take (split ls.length) = ls'.take (split ls'.length) :=
      ihl (by simp [hlen])
        (fun q hq t ht => hinj q (pairs_take_subset node empty h hq) t
          (pairs_take_subset node empty h' ht)) (congrArg Prod.fst hpair)
    have hr : ls.drop (split ls.length) = ls'.drop (split ls'.length) :=
      ihr (by simp [hlen])
        (fun q hq t ht => hinj q (pairs_drop_subset node empty h hq) t
          (pairs_drop_subset node empty h' ht)) (congrArg Prod.snd hpair)
    rw [← List.take_append_drop (split ls.length) ls, hl, hr, List.take_append_drop]

/-- A hash that is no node of the tree is its root only if the tree has at most one leaf. -/
theorem root_of_ne_node {ls : List H} {x : H}
    (hnode : ∀ q ∈ pairs node empty ls, node q.1 q.2 ≠ x) (h : x = root node empty ls) :
    ls = [] ∧ x = empty ∨ ls = [x] := by
  by_cases hlen : 2 ≤ ls.length
  · rw [root_node node empty hlen] at h
    exact absurd h.symm (hnode _ (by rw [pairs_node node empty hlen]; exact List.mem_cons_self))
  · match ls with
    | [] =>
      rw [root_nil] at h
      exact .inl ⟨rfl, h⟩
    | [y] =>
      rw [root_singleton] at h
      exact .inr (by rw [h])
    | _ :: _ :: _ => simp only [List.length_cons] at hlen; omega

/-- Trees of any two sizes with one root have the same leaves, when neither collides with a node of
the other and `empty` is no hash of theirs. -/
theorem root_injective_of_binds {ls ls' : List H} (hb : Binds node empty (pairs node empty ls) ls')
    (hb' : Binds node empty (pairs node empty ls') ls)
    (hq : ∀ q ∈ pairs node empty ls, node q.1 q.2 ≠ empty)
    (hq' : ∀ q ∈ pairs node empty ls', node q.1 q.2 ≠ empty)
    (hx : ∀ x ∈ ls, x ≠ empty) (hx' : ∀ x ∈ ls', x ≠ empty)
    (heq : root node empty ls = root node empty ls') : ls = ls' := by
  induction ls using list_split_induction generalizing ls' with
  | small ls h =>
    match ls with
    | [] =>
      rw [root_nil] at heq
      rcases root_of_ne_node node empty hq' heq with ⟨rfl, _⟩ | rfl
      · rfl
      · exact absurd rfl (hx' empty List.mem_cons_self)
    | [x] =>
      rw [root_singleton] at heq
      have hnode : ∀ q ∈ pairs node empty ls', node q.1 q.2 ≠ x :=
        fun q hmem => hb'.leaf q hmem x List.mem_cons_self
      rcases root_of_ne_node node empty hnode heq with ⟨_, hempty⟩ | h
      · exact absurd hempty (hx x List.mem_cons_self)
      · exact h.symm
    | _ :: _ :: _ => simp only [List.length_cons] at h; omega
  | step ls h ihl ihr =>
    have hmem : (root node empty (ls.take (split ls.length)),
        root node empty (ls.drop (split ls.length))) ∈ pairs node empty ls := by
      rw [pairs_node node empty h]
      exact List.mem_cons_self
    rw [root_node node empty h] at heq
    by_cases h' : 2 ≤ ls'.length
    · have hsub := pairs_take_subset node empty h
      have hsub' := pairs_take_subset node empty h'
      have hsubr := pairs_drop_subset node empty h
      have hsubr' := pairs_drop_subset node empty h'
      rw [root_node node empty h'] at heq
      have hpair := hb.inj _ hmem _ (by rw [pairs_node node empty h']; exact List.mem_cons_self) heq
      have hl : ls.take (split ls.length) = ls'.take (split ls'.length) :=
        ihl (hb.mono node empty hsub hsub' (List.take_subset _ _))
          (hb'.mono node empty hsub' hsub (List.take_subset _ _))
          (fun q hmem => hq q (hsub hmem)) (fun q hmem => hq' q (hsub' hmem))
          (fun x hmem => hx x (List.mem_of_mem_take hmem))
          (fun x hmem => hx' x (List.mem_of_mem_take hmem)) (congrArg Prod.fst hpair)
      have hr : ls.drop (split ls.length) = ls'.drop (split ls'.length) :=
        ihr (hb.mono node empty hsubr hsubr' (List.drop_subset _ _))
          (hb'.mono node empty hsubr' hsubr (List.drop_subset _ _))
          (fun q hmem => hq q (hsubr hmem)) (fun q hmem => hq' q (hsubr' hmem))
          (fun x hmem => hx x (List.mem_of_mem_drop hmem))
          (fun x hmem => hx' x (List.mem_of_mem_drop hmem)) (congrArg Prod.snd hpair)
      rw [← List.take_append_drop (split ls.length) ls, hl, hr, List.take_append_drop]
    · match ls' with
      | [] =>
        rw [root_nil] at heq
        exact absurd heq (hq _ hmem)
      | [x] =>
        rw [root_singleton] at heq
        exact absurd heq (hb.leaf _ hmem x List.mem_cons_self)
      | _ :: _ :: _ => simp only [List.length_cons] at h'; omega

end Root

end Merkle
