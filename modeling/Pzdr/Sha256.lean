import Pzdr.Hash

/-!
# Pzdr.Sha256

SHA-256 as a function on byte strings with 32-byte digests, and the log hashes made from it.

Digests are shorter than inputs, so collision freedom is never asked of the whole function: it is
asked of a list of inputs (`CollisionFreeOn`), those that some run has hashed. Hashes that come from
outside may have any length. A node hash of one 32-byte child still determines both children
(`binds`).
-/

namespace Pzdr

structure Sha256 where
  hash : Bytes → Bytes
  length_hash : ∀ x, (hash x).length = 32

theorem ne_nil_of_length {x : Bytes} (h : x.length = 32) : x ≠ [] := by
  rintro rfl
  cases h

def leafInput (entry : Bytes) : Bytes := 0x00 :: entry

def nodeInput (children : Bytes × Bytes) : Bytes := 0x01 :: (children.1 ++ children.2)

namespace Sha256

variable (sha : Sha256)

def log : LogHash Bytes where
  emptyHash := sha.hash []
  leafHash entry := sha.hash (leafInput entry)
  nodeHash l r := sha.hash (nodeInput (l, r))

def CollisionFreeOn (xs : List Bytes) : Prop :=
  ∀ x ∈ xs, ∀ y ∈ xs, sha.hash x = sha.hash y → x = y

theorem CollisionFreeOn.mono {sha : Sha256} {xs ys : List Bytes} (h : sha.CollisionFreeOn xs)
    (hsub : ys ⊆ xs) : sha.CollisionFreeOn ys :=
  fun x hx y hy => h x (hsub hx) y (hsub hy)

/-- A child pair in which one child is as long as a digest. -/
def HasDigest (q : Bytes × Bytes) : Prop := q.1.length = 32 ∨ q.2.length = 32

theorem pair_eq_of_append_eq {q t : Bytes × Bytes} (hq : HasDigest q) (ht1 : t.1.length = 32)
    (ht2 : t.2.length = 32) (h : q.1 ++ q.2 = t.1 ++ t.2) : q = t := by
  rcases hq with hq | hq
  · obtain ⟨h1, h2⟩ := List.append_inj h (by omega)
    exact Prod.ext h1 h2
  · obtain ⟨h1, h2⟩ := List.append_inj' h (by omega)
    exact Prod.ext h1 h2

/-- The inputs hashed to compute the head of the log of `es`. -/
def treeInputs (es : List Bytes) : List Bytes :=
  [] :: es.map leafInput ++
    (Merkle.pairs sha.log.nodeHash sha.log.emptyHash (es.map sha.log.leafHash)).map nodeInput

/-- The empty log hashes the empty input. -/
@[simp] theorem treeInputs_nil : sha.treeInputs [] = [[]] := by
  rw [treeInputs, List.map_nil, Merkle.pairs, if_neg (by simp)]
  rfl

theorem treeInputs_singleton (e : Bytes) : sha.treeInputs [e] = [[], leafInput e] := by
  rw [treeInputs, List.map_singleton, List.map_singleton, Merkle.pairs_singleton]
  rfl

theorem treeInputs_pair (e e' : Bytes) : sha.treeInputs [e, e'] =
    [[], leafInput e, leafInput e', nodeInput (sha.log.leafHash e, sha.log.leafHash e')] := by
  simp only [treeInputs, List.map_cons, List.map_nil, Merkle.pairs_pair]
  rfl

theorem length_leafHash (e : Bytes) : (sha.log.leafHash e).length = 32 := sha.length_hash _

theorem length_nodeHash (l r : Bytes) : (sha.log.nodeHash l r).length = 32 := sha.length_hash _

theorem length_root (es : List Bytes) :
    (Merkle.root sha.log.nodeHash sha.log.emptyHash (es.map sha.log.leafHash)).length = 32 := by
  apply Merkle.root_of_forall (P := fun x : Bytes => x.length = 32)
  · exact sha.length_hash _
  · exact sha.length_nodeHash
  · intro x hx
    obtain ⟨e, _, rfl⟩ := List.mem_map.mp hx
    exact sha.length_leafHash e

theorem length_of_mem_pairs {es : List Bytes} {t : Bytes × Bytes}
    (ht : t ∈ Merkle.pairs sha.log.nodeHash sha.log.emptyHash (es.map sha.log.leafHash)) :
    t.1.length = 32 ∧ t.2.length = 32 := by
  refine Merkle.pairs_of_forall (P := fun x : Bytes => x.length = 32) _ _ (sha.length_hash _)
    sha.length_nodeHash ?_ t ht
  intro x hx
  obtain ⟨e, _, rfl⟩ := List.mem_map.mp hx
  exact sha.length_leafHash e

theorem binds {qs : List (Bytes × Bytes)} {es : List Bytes}
    (hc : sha.CollisionFreeOn (qs.map nodeInput ++ sha.treeInputs es))
    (hqs : ∀ q ∈ qs, HasDigest q) :
    Merkle.Binds sha.log.nodeHash sha.log.emptyHash qs (es.map sha.log.leafHash) := by
  have hq_mem : ∀ q ∈ qs, nodeInput q ∈ qs.map nodeInput ++ sha.treeInputs es := by
    intro q hq
    exact List.mem_append_left _ (List.mem_map_of_mem hq)
  constructor
  · intro q hq t ht h
    have ht_mem : nodeInput t ∈ qs.map nodeInput ++ sha.treeInputs es :=
      List.mem_append_right _ (List.mem_append_right _ (List.mem_map_of_mem ht))
    obtain ⟨ht1, ht2⟩ := sha.length_of_mem_pairs ht
    have hin := hc _ (hq_mem q hq) _ ht_mem h
    exact pair_eq_of_append_eq (hqs q hq) ht1 ht2 (List.cons.inj hin).2
  · intro q hq x hx h
    obtain ⟨e, he, rfl⟩ := List.mem_map.mp hx
    have he_mem : leafInput e ∈ qs.map nodeInput ++ sha.treeInputs es :=
      List.mem_append_right _ (List.mem_append_left _
        (List.mem_cons_of_mem _ (List.mem_map_of_mem he)))
    have hin := hc _ (hq_mem q hq) _ he_mem h
    exact absurd (List.cons.inj hin).1 (by decide)

theorem walkPairs_hasDigest (fn sn : Nat) (path : List Bytes) {leaf : Bytes}
    (h : leaf.length = 32) :
    ∀ q ∈ Merkle.walkPairs sha.log.nodeHash fn sn path leaf, HasDigest q :=
  Merkle.walkPairs_of_forall (P := fun x : Bytes => x.length = 32) _ sha.length_nodeHash fn sn path h

theorem length_take_append (x : Bytes) : ((x ++ List.replicate 32 0).take 32).length = 32 := by
  simp

/-- A hash to run the model on: the first 32 bytes of the input. -/
def firstBytes : Sha256 := ⟨fun x => (x ++ List.replicate 32 0).take 32, length_take_append⟩

/-- The same hash, with a digest of its own for one input. -/
def firstBytesBut (x₀ : Bytes) : Sha256 where
  hash x := if x = x₀ then List.replicate 32 0xFF else firstBytes.hash x
  length_hash x := by
    split
    · exact List.length_replicate
    · exact firstBytes.length_hash x

theorem firstBytesBut_of_ne {x x₀ : Bytes} (h : x ≠ x₀) :
    (firstBytesBut x₀).hash x = firstBytes.hash x := if_neg h

theorem firstBytesBut_self (x₀ : Bytes) :
    (firstBytesBut x₀).hash x₀ = List.replicate 32 0xFF := if_pos rfl

end Sha256
end Pzdr
