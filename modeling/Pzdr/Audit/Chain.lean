import Pzdr.Nitro.Chain
import Pzdr.Run

/-!
# Audit.Chain

What an accepted certificate chain means (`verifyChain_sound`): there is a path from the leaf to the
pinned root whose certificates come from different places of the bundle, every certificate of it is
valid at the time, and each is named, signed and may be issued by the next one. The loop that builds
the path ends on every bundle, as each round takes a certificate out of it (`rounds_le`).
-/

namespace Pzdr
namespace Audit

open Nitro

/-- A part of a list, in any order, is at different positions of it. -/
theorem exists_positions {α : Type*} {xs ys : List α} (h : xs.Subperm ys) :
    ∃ positions : List Nat, positions.Nodup ∧
      List.Forall₂ (fun x p => ys[p]? = some x) xs positions := by
  obtain ⟨l, hperm, hsub⟩ := h
  obtain ⟨is, hl, his⟩ := List.sublist_eq_map_getElem hsub
  have hpos : List.Forall₂ (fun x p => ys[p]? = some x) l (is.map Fin.val) := by
    rw [hl, List.forall₂_map_left_iff, List.forall₂_map_right_iff, List.forall₂_same]
    intro i _
    exact List.getElem?_eq_getElem i.isLt
  have hnodup : (is.map Fin.val).Nodup := by
    rw [List.Nodup, List.pairwise_map]
    exact his.imp (fun h => Nat.ne_of_lt h)
  obtain ⟨positions, hforall, hpositions⟩ := List.perm_comp_forall₂ hperm.symm hpos
  exact ⟨positions, hpositions.nodup_iff.mpr hnodup, hforall⟩

variable {Name Key Sig : Type} {X : X509 Name Key Sig}

theorem getElem?_forall₂ {α β : Type*} {R : α → β → Prop} {xs : List α} {ys : List β}
    (h : List.Forall₂ R xs ys) {i : Nat} {y : β} (hy : ys[i]? = some y) :
    ∃ x, xs[i]? = some x ∧ R x y := by
  induction h generalizing i with
  | nil => cases hy
  | cons hxy _ ih =>
    cases i with
    | zero =>
      cases hy
      exact ⟨_, rfl, hxy⟩
    | succ i => exact ih hy

/-- The loop has at most as many rounds as the bundle has certificates. -/
theorem rounds_le [DecidableEq Name] (root : Certificate Name) {s s' : PathState Name}
    {es : List Unit} (h : Run (fun s (_ : Unit) => s.next root) s es s') :
    es.length + s'.pool.length = s.pool.length := by
  refine h.trace_invariant (I := fun es t => es.length + t.pool.length = s.pool.length)
    (Nat.zero_add _) ?_
  intro es t e t' hstep ih
  have := PathState.length_pool hstep
  rw [List.length_append, List.length_singleton]
  omega

theorem verifyChain_sound [DecidableEq Name] (X : X509 Name Key Sig) (leafDer : Bytes)
    (cabundle : List Bytes) (rootPem : Bytes) (clock : Option Nat) :
    (verifyChain X leafDer cabundle rootPem clock = .ok () →
      ∃ now leaf root certs, ∃ positions : List Nat, clock = some now ∧
        X.fromDer leafDer = .ok leaf ∧ decodeRoot X rootPem = .ok root ∧ positions.Nodup ∧
        List.Forall₂ (fun cert p => ∃ der, cabundle[p]? = some der ∧ X.fromDer der = .ok cert)
          certs positions ∧
        (∀ cert ∈ leaf :: certs ++ [root], ValidAt cert now) ∧
        ∀ i cert issuer, (leaf :: certs ++ [root])[i]? = some cert →
          (leaf :: certs ++ [root])[i + 1]? = some issuer →
            cert.issuer = issuer.subject ∧ SignedBy X cert issuer ∧ IsCa X issuer i) ∧
    ∀ (root : Certificate Name) (s s' : PathState Name) (es : List Unit),
      Run (fun s (_ : Unit) => s.next root) s es s' → es.length ≤ s.pool.length := by
  constructor
  · intro h
    simp only [verifyChain, Except.bind_eq_ok, Except.mapError_eq_ok] at h
    obtain ⟨leaf, hleaf, pool, hpool, root, hroot, path, hpath, h⟩ := h
    cases clock with
    | none => cases h
    | some now =>
      simp only [Except.unit_bind_eq_ok, checkPath_ok, verifyCertValidity_ok, Nat.zero_add] at h
      obtain ⟨hissues, hvalid⟩ := h
      obtain ⟨certs, rfl, hsub⟩ := buildPath_ok hpath
      obtain ⟨positions, hnodup, hpositions⟩ := exists_positions hsub
      rw [List.nil_append] at hissues
      refine ⟨now, leaf, root, certs, positions, rfl, hleaf, hroot, hnodup, ?_,
        validAt_of_issues hvalid hissues, ?_⟩
      · refine hpositions.imp ?_
        intro cert p hp
        exact getElem?_forall₂ (decodeBundle_ok hpool) hp
      · intro i cert issuer hi hi'
        obtain ⟨_, hnamed, hca, hsigned⟩ := hissues i cert issuer hi hi'
        exact ⟨hnamed, hsigned, hca⟩
  · intro root s s' es hrun
    have := rounds_le root hrun
    omega

end Audit
end Pzdr
