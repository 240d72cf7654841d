import Pzdr.Merkle.Verify

/-!
# Pzdr.Hash

The uses of SHA-256 in the transparency log, over an arbitrary type of hashes.

`LogHash` names the three of them; `CollisionFree` is the symbolic model of SHA-256 in which the
`0x00`-prefixed leaf hash and the `0x01`-prefixed node hash are injective with disjoint images.
`Term` is such a model: hashes are the terms that built them.
-/

namespace Pzdr

abbrev Bytes := List UInt8

/-- `SHA256("")`, `SHA256(0x00 || entry)` and `SHA256(0x01 || l || r)`. -/
structure LogHash (H : Type) where
  emptyHash : H
  leafHash : Bytes → H
  nodeHash : H → H → H

namespace LogHash

variable {H : Type}

structure CollisionFree (S : LogHash H) : Prop where
  leaf_inj : ∀ e e', S.leafHash e = S.leafHash e' → e = e'
  node_inj : ∀ l r l' r', S.nodeHash l r = S.nodeHash l' r' → l = l' ∧ r = r'
  disjoint : ∀ e l r, S.leafHash e ≠ S.nodeHash l r

/-- Without collisions, no walk can leave the tree of a log. -/
theorem CollisionFree.binds {S : LogHash H} (hS : S.CollisionFree) (qs : List (H × H))
    (es : List Bytes) : Merkle.Binds S.nodeHash S.emptyHash qs (es.map S.leafHash) := by
  constructor
  · intro q _ t _ h
    obtain ⟨hl, hr⟩ := hS.node_inj _ _ _ _ h
    exact Prod.ext hl hr
  · intro q _ x hx h
    obtain ⟨e, _, rfl⟩ := List.mem_map.mp hx
    exact hS.disjoint e q.1 q.2 h.symm

theorem CollisionFree.map_leafHash_inj {S : LogHash H} (hS : S.CollisionFree) {es es' : List Bytes}
    (h : es.map S.leafHash = es'.map S.leafHash) : es = es' :=
  List.map_injective_iff.mpr (fun _ _ => hS.leaf_inj _ _) h

/-- Equal roots of logs of one size mean equal logs. -/
theorem CollisionFree.root_inj {S : LogHash H} (hS : S.CollisionFree) {es es' : List Bytes}
    (hlen : es.length = es'.length)
    (h : Merkle.root S.nodeHash S.emptyHash (es.map S.leafHash) =
      Merkle.root S.nodeHash S.emptyHash (es'.map S.leafHash)) : es = es' := by
  apply hS.map_leafHash_inj
  refine Merkle.root_injective S.nodeHash S.emptyHash (by simpa using hlen) ?_ h
  intro q _ t _ hq
  obtain ⟨hl, hr⟩ := hS.node_inj _ _ _ _ hq
  exact Prod.ext hl hr

end LogHash

/-- Symbolic hashes. -/
inductive Term where
  | empty
  | leaf (e : Bytes)
  | node (l r : Term)
  deriving DecidableEq, Repr

def Term.logHash : LogHash Term := ⟨.empty, .leaf, .node⟩

theorem Term.collisionFree : Term.logHash.CollisionFree := by
  constructor
  · intro e e' h
    exact Term.leaf.inj h
  · intro l r l' r' h
    exact Term.node.inj h
  · intro e l r h
    cases h

end Pzdr
