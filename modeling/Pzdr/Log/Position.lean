import Pzdr.Hex
import Pzdr.Sdk.Transparency
import Pzdr.Sha256
import Pzdr.Tools.Transparency

/-!
# Log.Position

Which positions an accepted inclusion path can state. The verifiers of the auditor's tool and of the
SDK refuse an index that is too large, but not one that is too small (`position_iff`): from a
negative index the walk never meets the right edge of the tree, so every path that is long enough
leads to a root that they accept.
-/

namespace Pzdr
namespace Log

/-- From a negative index the walk along a path of `size` digests ends at a digest, with nothing left
of the size. -/
theorem walk_negative (sha : Sha256) (l : Lang) (leaf : Bytes) {index size : Int} (hindex : index < 0)
    (hsize : 0 < size) :
    ∃ path root, (∀ x ∈ path, x ≠ []) ∧ root ≠ [] ∧
      SignedWalk.inclusionLoop sha.log l index (size - 1) leaf path = (root, 0) := by
  have hlt : size - 1 < 2 ^ size.toNat := by
    have : (size.toNat : Int) < 2 ^ size.toNat := by exact_mod_cast Nat.lt_two_pow_self
    omega
  refine ⟨List.replicate size.toNat (sha.hash []), _, ?_, ?_, Prod.ext rfl ?_⟩
  · intro x hx
    rw [List.eq_of_mem_replicate hx]
    exact ne_nil_of_length (sha.length_hash _)
  · refine ne_nil_of_length ?_
    refine SignedWalk.inclusionLoop_of_nodeHash sha.log l (P := fun h => h.length = 32)
      sha.length_nodeHash _ _ _ _ (.inr ?_)
    simp only [ne_eq, List.replicate_eq_nil_iff]
    omega
  · rw [SignedWalk.inclusionLoop_negative _ _ _ _ _ _ hindex (by omega), List.length_replicate]
    exact Int.ediv_eq_zero_of_lt (by omega) hlt

theorem position_iff (sha : Sha256) (leaf : Bytes) (index size : Int) :
    ((∀ path root, Tools.verifyInclusion sha.log leaf index size path root = true →
        0 ≤ index ∧ index < size) ↔ 0 ≤ index ∨ size ≤ 0) ∧
      ((∀ pathHex rootHex,
        Sdk.verifyInclusion sha.log Sdk.hexToBytes leaf index size pathHex rootHex = some true →
          0 ≤ index ∧ index < size) ↔ 0 ≤ index ∨ size ≤ 0) := by
  constructor
  · constructor
    · intro h
      by_contra hout
      have hindex : index < 0 := by omega
      have hsize : 0 < size := by omega
      obtain ⟨path, root, _, _, hwalk⟩ := walk_negative sha .python leaf hindex hsize
      have := h path root ((Tools.verifyInclusion_true _).mpr ⟨by omega, hsize, hwalk⟩)
      omega
    · intro h path root htrue
      obtain ⟨hlt, hpos, _⟩ := (Tools.verifyInclusion_true _).mp htrue
      omega
  · constructor
    · intro h
      by_contra hout
      have hindex : index < 0 := by omega
      have hsize : 0 < size := by omega
      obtain ⟨path, root, hpath, hroot, hwalk⟩ := walk_negative sha .typescript leaf hindex hsize
      have := h (path.map hexEncode) (hexEncode root) ((Sdk.verifyInclusion_true _ _).mpr
        ⟨by omega, hsize, path, root, Sdk.mapM_hexToBytes hpath,
          Sdk.hexToBytes_hexEncode hroot, hwalk⟩)
      omega
    · intro h pathHex rootHex htrue
      obtain ⟨hlt, hpos, _⟩ := (Sdk.verifyInclusion_true _ _).mp htrue
      omega

/-- A ledger with one entry, said to be at the position before it. -/
theorem position_negative : ∃ (index size : Int) (leaf root : Bytes) (rootHex : String),
    ¬ (0 ≤ index ∧ index < size) ∧
    Tools.verifyInclusion Sha256.firstBytes.log leaf index size [] root = true ∧
    Sdk.verifyInclusion Sha256.firstBytes.log Sdk.hexToBytes leaf index size [] rootHex =
      some true := by
  refine ⟨-1, 1, Sha256.firstBytes.log.leafHash [1], Sha256.firstBytes.log.leafHash [1],
    hexEncode (Sha256.firstBytes.log.leafHash [1]), by decide, rfl, ?_⟩
  exact (Sdk.verifyInclusion_true _ _).mpr ⟨by decide, by decide, [], _, rfl,
    Sdk.hexToBytes_hexEncode (ne_nil_of_length (Sha256.length_leafHash _ _)), rfl⟩

end Log
end Pzdr
