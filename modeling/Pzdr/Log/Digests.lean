import Pzdr.Log.Consistency
import Pzdr.Sha256

/-!
# Log.Digests

The consistency walk with SHA-256, on hashes of any length. A walk that ends at the head of a log
has recomputed the head of the prefix exactly when it started at a digest (`walkAccepts_iff`): the
first step concatenates the start with the first hash of the proof, and only the new head sees it.
The head itself determines the entries, and so their number (`root_commits`).
-/

namespace Pzdr
namespace Log

variable (sha : Sha256)

/-- The head of the log of these entries. -/
def headOf (es : List Bytes) : Bytes :=
  Merkle.root sha.log.nodeHash sha.log.emptyHash (es.map sha.log.leafHash)

/-- The inputs that a consistency walk hashes. -/
def walkInputs (m : Nat) (firstRoot : Bytes) (n : Nat) (proof : List Bytes) : List Bytes :=
  match walkedHashes m firstRoot proof with
  | [] => []
  | x :: pr =>
    (Merkle.walk2Pairs sha.log.nodeHash (Merkle.skip (m - 1) (n - 1)).1
      (Merkle.skip (m - 1) (n - 1)).2 pr x).map nodeInput

/-- The walk starts at a hash of 32 bytes. -/
def StartsAtDigest (m : Nat) (firstRoot : Bytes) (proof : List Bytes) : Prop :=
  ∀ x ∈ (walkedHashes m firstRoot proof).head?, x.length = 32

variable {sha} {m : Nat} {es : List Bytes} {firstRoot : Bytes} {proof : List Bytes}

theorem walkAccepts_iff (hpos : 0 < m) (hlt : m < es.length)
    (hc : sha.CollisionFreeOn (walkInputs sha m firstRoot es.length proof ++
      sha.treeInputs (es.take m) ++ sha.treeInputs es))
    (h : WalkAccepts sha.log m firstRoot es.length (headOf sha es) proof) :
    firstRoot = headOf sha (es.take m) ↔ StartsAtDigest m firstRoot proof := by
  obtain ⟨x, pr, hhashes, hwalk⟩ := h
  have hlen : (es.map sha.log.leafHash).length = es.length := List.length_map _
  have hleaves : ∀ y ∈ es.map sha.log.leafHash, y.length = 32 := by
    intro y hy
    obtain ⟨e, _, rfl⟩ := List.mem_map.mp hy
    exact sha.length_leafHash e
  rw [walkInputs, hhashes] at hc
  rw [← hlen] at hwalk hc
  have hbinds : ∀ qs, (∀ q ∈ qs, Sha256.HasDigest q) →
      qs ⊆ Merkle.walk2Pairs sha.log.nodeHash
        (Merkle.skip (m - 1) ((es.map sha.log.leafHash).length - 1)).1
        (Merkle.skip (m - 1) ((es.map sha.log.leafHash).length - 1)).2 pr x →
      Merkle.Binds sha.log.nodeHash sha.log.emptyHash qs (es.map sha.log.leafHash) ∧
        Merkle.Binds sha.log.nodeHash sha.log.emptyHash qs ((es.map sha.log.leafHash).take m) := by
    intro qs hqs hsub
    have hmap := List.map_subset nodeInput hsub
    rw [← List.map_take]
    constructor
    · refine sha.binds (hc.mono ?_) hqs
      intro y hy
      simp only [List.mem_append] at hy ⊢
      rcases hy with hy | hy
      · exact .inl (.inl (hmap hy))
      · exact .inr hy
    · refine sha.binds (hc.mono ?_) hqs
      intro y hy
      simp only [List.mem_append] at hy ⊢
      rcases hy with hy | hy
      · exact .inl (.inl (hmap hy))
      · exact .inl (.inr hy)
  constructor
  · intro hfirst
    rw [StartsAtDigest, hhashes]
    rintro _ ⟨⟩
    rw [hfirst, headOf, headOf, List.map_take] at hwalk
    exact Merkle.consistency_start (P := fun y : Bytes => y.length = 32) sha.log.nodeHash
      sha.log.emptyHash (sha.length_hash _) sha.length_nodeHash hleaves hpos (by omega) hbinds hwalk
  · intro hstart
    have hx : x.length = 32 := hstart x (by rw [hhashes]; rfl)
    have hdigests := Merkle.walk2Pairs_of_forall (P := fun y : Bytes => y.length = 32)
      sha.log.nodeHash sha.length_nodeHash hx hpos (by omega) hwalk
    have hold := (Merkle.consistency_sound sha.log.nodeHash sha.log.emptyHash hpos (by omega)
      (hbinds _ hdigests (List.Subset.refl _)).1 hwalk).1
    rw [hold, headOf, List.map_take]

/-! ## What a head commits to -/

theorem eq_of_map_eq {α β : Type} {f : α → β} {xs ys : List α}
    (hinj : ∀ x ∈ xs, ∀ y ∈ ys, f x = f y → x = y) (h : xs.map f = ys.map f) : xs = ys := by
  induction xs generalizing ys with
  | nil => exact (List.map_eq_nil_iff.mp h.symm).symm
  | cons x xs ih =>
    cases ys with
    | nil => cases h
    | cons y ys =>
      obtain ⟨hxy, hrest⟩ := List.cons.inj h
      rw [hinj x List.mem_cons_self y List.mem_cons_self hxy, ih (fun x hx y hy =>
        hinj x (List.mem_cons_of_mem _ hx) y (List.mem_cons_of_mem _ hy)) hrest]

/-- Trees over two logs keep apart the inputs of entries, of nodes and of the empty log. -/
theorem root_inj_of_collisionFreeOn {es es' : List Bytes}
    (hsha : sha.CollisionFreeOn (sha.treeInputs es ++ sha.treeInputs es'))
    (h : headOf sha es = headOf sha es') :
    es.map sha.log.leafHash = es'.map sha.log.leafHash := by
  have hpairs : ∀ es : List Bytes, (Merkle.pairs sha.log.nodeHash sha.log.emptyHash
      (es.map sha.log.leafHash)).map nodeInput ⊆ sha.treeInputs es :=
    fun es => List.subset_append_right _ _
  have hbinds : ∀ es es' : List Bytes, sha.CollisionFreeOn (sha.treeInputs es ++ sha.treeInputs es') →
      Merkle.Binds sha.log.nodeHash sha.log.emptyHash (Merkle.pairs sha.log.nodeHash
        sha.log.emptyHash (es.map sha.log.leafHash)) (es'.map sha.log.leafHash) := by
    intro es es' hsha
    refine sha.binds (hsha.mono ?_) (fun q hq => .inl (sha.length_of_mem_pairs hq).1)
    exact List.append_subset.mpr ⟨List.Subset.trans (hpairs es) (List.subset_append_left _ _),
      List.subset_append_right _ _⟩
  have hempty : ∀ es es' : List Bytes, ([] : Bytes) ∈ sha.treeInputs es ++ sha.treeInputs es' :=
    fun _ _ => List.mem_append_left _ List.mem_cons_self
  have hnode : ∀ es es' : List Bytes, sha.CollisionFreeOn (sha.treeInputs es ++ sha.treeInputs es') →
      ∀ q ∈ Merkle.pairs sha.log.nodeHash sha.log.emptyHash (es.map sha.log.leafHash),
        sha.log.nodeHash q.1 q.2 ≠ sha.log.emptyHash := by
    intro es es' hsha q hq heq
    have hmem := List.mem_append_left (sha.treeInputs es') (hpairs es (List.mem_map_of_mem hq))
    cases hsha _ hmem _ (hempty es es') heq
  have hleaf : ∀ es es' : List Bytes, sha.CollisionFreeOn (sha.treeInputs es ++ sha.treeInputs es') →
      ∀ x ∈ es.map sha.log.leafHash, x ≠ sha.log.emptyHash := by
    intro es es' hsha x hx heq
    obtain ⟨e, he, rfl⟩ := List.mem_map.mp hx
    have hmem : leafInput e ∈ sha.treeInputs es ++ sha.treeInputs es' :=
      List.mem_append_left _ (List.mem_append_left _
        (List.mem_cons_of_mem _ (List.mem_map_of_mem he)))
    cases hsha _ hmem _ (hempty es es') heq
  have hsha' : sha.CollisionFreeOn (sha.treeInputs es' ++ sha.treeInputs es) :=
    hsha.mono (List.append_subset.mpr ⟨List.subset_append_right _ _, List.subset_append_left _ _⟩)
  exact Merkle.root_injective_of_binds _ _ (hbinds es es' hsha) (hbinds es' es hsha')
    (hnode es es' hsha) (hnode es' es hsha') (hleaf es es' hsha) (hleaf es' es hsha') h

/-- The head of a log commits to all of it. The inputs on which SHA-256 must not collide are those
hashed in the two logs. -/
theorem root_commits (sha : Sha256) (es es' : List Bytes)
    (hsha : sha.CollisionFreeOn (sha.treeInputs es ++ sha.treeInputs es'))
    (h : (Enclave.TransparencyLog.ofEntries sha.log es).root sha.log =
      (Enclave.TransparencyLog.ofEntries sha.log es').root sha.log) : es = es' := by
  rw [Enclave.TransparencyLog.ofEntries_root, Enclave.TransparencyLog.ofEntries_root] at h
  refine eq_of_map_eq ?_ (root_inj_of_collisionFreeOn hsha h)
  intro e he e' he' heq
  have hmem : ∀ es : List Bytes, ∀ e ∈ es, leafInput e ∈ sha.treeInputs es := fun es e he =>
    List.mem_append_left _ (List.mem_cons_of_mem _ (List.mem_map_of_mem he))
  have hin := hsha _ (List.mem_append_left _ (hmem es e he)) _
    (List.mem_append_right _ (hmem es' e' he')) heq
  exact (List.cons.inj hin).2

/-- Logs of two and of three entries. -/
theorem root_commits_three :
    (Enclave.TransparencyLog.ofEntries Sha256.firstBytes.log [[0x01], [0x02]]).root
        Sha256.firstBytes.log ≠
      (Enclave.TransparencyLog.ofEntries Sha256.firstBytes.log [[0x03], [0x02], [0x01]]).root
        Sha256.firstBytes.log := by
  have hpairs : ∀ x y z : Bytes, Merkle.pairs Sha256.firstBytes.log.nodeHash
      Sha256.firstBytes.log.emptyHash [x, y, z] =
        [(Sha256.firstBytes.log.nodeHash x y, z), (x, y)] := by
    intro x y z
    have hsplit : Merkle.split 3 = 2 := by decide
    rw [Merkle.pairs_node _ _ (by simp)]
    simp [hsplit, Merkle.root_pair, Merkle.root_singleton, Merkle.pairs_pair, Merkle.pairs_singleton]
  intro h
  have hlogs := root_commits Sha256.firstBytes [[0x01], [0x02]] [[0x03], [0x02], [0x01]] ?_ h
  · cases hlogs
  · rw [Sha256.treeInputs_pair, Sha256.treeInputs]
    simp only [List.map_cons, List.map_nil, hpairs]
    unfold Sha256.CollisionFreeOn
    decide

end Log
end Pzdr
