import Pzdr.Enclave.Transparency
import Pzdr.Tools.Transparency

/-!
# Log.Consistency

What the consistency verifiers of the enclave and of the auditor's tool decide.

`Accepts` states it once, without loops: `Enclave.verifyConsistency` and `Tools.verifyConsistency`
both return true exactly when it holds. On it:

* `verifyConsistency_append_only`: an accepted transition between the heads of two logs is an
  extension, whatever hashes the proof is made of.
* `consistencyPath_complete`: the log's own proofs are accepted, for every hash function.
-/

namespace Pzdr
namespace Log

variable {H : Type} (S : LogHash H)

/-- The list both verifiers walk along: a first root that is the hash of a complete subtree is not
repeated in the proof. -/
def walkedHashes (m : Nat) (firstRoot : H) (proof : List H) : List H :=
  if m.isPowerOfTwo then firstRoot :: proof else proof

/-- The walk from the last leaf of `m` in a tree of `n`, started at the first hash of the list,
recomputes both roots. -/
def WalkAccepts (m : Nat) (firstRoot : H) (n : Nat) (secondRoot : H) (proof : List H) : Prop :=
  ∃ x pr, walkedHashes m firstRoot proof = x :: pr ∧
    Merkle.walkStrict (Merkle.combine2 S.nodeHash) (Merkle.skip (m - 1) (n - 1)).1
      (Merkle.skip (m - 1) (n - 1)).2 pr (x, x) = some ((firstRoot, secondRoot), 0)

def Accepts (m : Nat) (firstRoot : H) (n : Nat) (secondRoot : H) (proof : List H) : Prop :=
  (m = n ∧ firstRoot = secondRoot ∧ proof = []) ∨ (m = 0 ∧ 0 < n) ∨
    (0 < m ∧ m < n ∧ WalkAccepts S m firstRoot n secondRoot proof)

theorem and_pred_eq_zero {m : Nat} (h : 0 < m) : m &&& (m - 1) = 0 ↔ m.isPowerOfTwo :=
  Nat.and_sub_one_eq_zero_iff_isPowerOfTwo (by omega)

theorem signedWalk_eq (l : Lang) {m n : Nat} (hpos : 0 < m) (hmn : m < n) (x : H) (pr : List H) :
    SignedWalk.consistencyLoop S l
        (SignedWalk.skipOnes l ((m : Int) - 1).natAbs ((m : Int) - 1) ((n : Int) - 1)).1
        (SignedWalk.skipOnes l ((m : Int) - 1).natAbs ((m : Int) - 1) ((n : Int) - 1)).2 x x pr =
      (Merkle.walkStrict (Merkle.combine2 S.nodeHash) (Merkle.skip (m - 1) (n - 1)).1
        (Merkle.skip (m - 1) (n - 1)).2 pr (x, x)).map (fun r => (r.1.1, r.1.2, (r.2 : Int))) := by
  have hm : (m : Int) - 1 = ((m - 1 : Nat) : Int) := by omega
  have hn : (n : Int) - 1 = ((n - 1 : Nat) : Int) := by omega
  rw [hm, hn, Int.natAbs_natCast, SignedWalk.skipOnes_natCast _ _ _ _ (Nat.le_refl _),
    SignedWalk.consistencyLoop_natCast]

section Verifiers

variable [DecidableEq H]

/-- The verdict of a walk along a list of hashes. -/
def walkVerdict (m : Nat) (firstRoot : H) (n : Nat) (secondRoot : H) : List H → Bool
  | [] => false
  | x :: pr =>
    match Merkle.walkStrict (Merkle.combine2 S.nodeHash) (Merkle.skip (m - 1) (n - 1)).1
      (Merkle.skip (m - 1) (n - 1)).2 pr (x, x) with
    | none => false
    | some ((fr, sr), sn) => fr == firstRoot && sr == secondRoot && sn == 0

/-- The verdict when the sizes need no walk. -/
def easyVerdict (m : Nat) (firstRoot : H) (n : Nat) (secondRoot : H) (proof : List H) : Bool :=
  if m > n then false
  else if m = n then firstRoot == secondRoot && proof.isEmpty
  else true

variable {S} {m n : Nat} {r1 r2 : H} {proof : List H}

theorem walkVerdict_iff {hashes : List H} : walkVerdict S m r1 n r2 hashes = true ↔
    ∃ x pr, hashes = x :: pr ∧
      Merkle.walkStrict (Merkle.combine2 S.nodeHash) (Merkle.skip (m - 1) (n - 1)).1
        (Merkle.skip (m - 1) (n - 1)).2 pr (x, x) = some ((r1, r2), 0) := by
  cases hashes with
  | nil => simp [walkVerdict]
  | cons x pr =>
    rw [walkVerdict]
    constructor
    · intro h
      refine ⟨x, pr, rfl, ?_⟩
      split at h
      · cases h
      · rename_i fr sr sn hw
        simp only [Bool.and_eq_true, beq_iff_eq] at h
        obtain ⟨⟨rfl, rfl⟩, rfl⟩ := h
        exact hw
    · rintro ⟨_, _, ⟨rfl, rfl⟩, hw⟩
      rw [hw]
      simp

theorem easyVerdict_iff (h : ¬ (0 < m ∧ m < n)) :
    easyVerdict m r1 n r2 proof = true ↔ Accepts S m r1 n r2 proof := by
  unfold easyVerdict Accepts
  by_cases hgt : m > n
  · rw [if_pos hgt]
    simp only [Bool.false_eq_true, false_iff]
    omega
  rw [if_neg hgt]
  by_cases heq : m = n
  · rw [if_pos heq, Bool.and_eq_true, beq_iff_eq, List.isEmpty_iff]
    constructor
    · rintro ⟨hr, hp⟩
      exact .inl ⟨heq, hr, hp⟩
    · rintro (⟨_, hr, hp⟩ | ⟨_, _⟩ | ⟨_, _, _⟩)
      · exact ⟨hr, hp⟩
      · omega
      · omega
  · rw [if_neg heq]
    exact iff_of_true rfl (.inr (.inl (by omega)))

theorem enclave_easy (h : ¬ (0 < m ∧ m < n)) :
    Enclave.verifyConsistency S m r1 n r2 proof = easyVerdict m r1 n r2 proof := by
  rw [Enclave.verifyConsistency, easyVerdict]
  by_cases hgt : m > n
  · rw [if_pos hgt, if_pos hgt]
  rw [if_neg hgt, if_neg hgt]
  by_cases heq : m = n
  · rw [if_pos heq, if_pos heq]
  · rw [if_neg heq, if_neg heq, if_pos (by omega)]

theorem enclave_walk (hpos : 0 < m) (hmn : m < n) :
    Enclave.verifyConsistency S m r1 n r2 proof =
      walkVerdict S m r1 n r2 (walkedHashes m r1 proof) := by
  have hlist : (if m &&& (m - 1) = 0 then [r1] else []) ++ proof = walkedHashes m r1 proof := by
    rw [walkedHashes]
    by_cases hp : m.isPowerOfTwo
    · rw [if_pos hp, if_pos ((and_pred_eq_zero hpos).mpr hp)]; rfl
    · rw [if_neg hp, if_neg (fun h => hp ((and_pred_eq_zero hpos).mp h))]; rfl
  rw [Enclave.verifyConsistency, if_neg (by omega), if_neg (by omega), if_neg (by omega), hlist]
  cases walkedHashes m r1 proof with
  | nil => rfl
  | cons x pr =>
    simp only [Enclave.skipOnes_eq, Enclave.consistencyLoop_eq, walkVerdict]
    cases Merkle.walkStrict (Merkle.combine2 S.nodeHash) (Merkle.skip (m - 1) (n - 1)).1
      (Merkle.skip (m - 1) (n - 1)).2 pr (x, x) <;> rfl

theorem tools_easy (h : ¬ (0 < m ∧ m < n)) :
    Tools.verifyConsistency S m r1 n r2 proof = some (easyVerdict m r1 n r2 proof) := by
  rw [Tools.verifyConsistency, easyVerdict]
  by_cases hgt : m > n
  · rw [if_pos (by omega), if_pos hgt]
  rw [if_neg (by omega), if_neg hgt]
  by_cases heq : m = n
  · rw [if_pos (by omega), if_pos heq]
  · rw [if_neg (by omega), if_neg heq, if_pos (by omega)]

/-- The auditor's verifier raises when there is no hash to start from. -/
theorem tools_walk (hpos : 0 < m) (hmn : m < n) :
    Tools.verifyConsistency S m r1 n r2 proof =
      if walkedHashes m r1 proof = [] then none
      else some (walkVerdict S m r1 n r2 (walkedHashes m r1 proof)) := by
  have hlist : (if Int.land (m : Int) ((m : Int) - 1) = 0 then r1 :: proof else proof) =
      walkedHashes m r1 proof := by
    have hpred : (m : Int) - 1 = ((m - 1 : Nat) : Int) := by omega
    have hland : Int.land (m : Int) ((m : Int) - 1) = 0 ↔ m.isPowerOfTwo := by
      rw [hpred, ← and_pred_eq_zero hpos]
      show ((m &&& (m - 1) : Nat) : Int) = 0 ↔ _
      exact Int.natCast_eq_zero
    rw [walkedHashes]
    by_cases hp : m.isPowerOfTwo
    · rw [if_pos hp, if_pos (hland.mpr hp)]
    · rw [if_neg hp, if_neg (fun h => hp (hland.mp h))]
  rw [Tools.verifyConsistency, if_neg (by omega), if_neg (by omega), if_neg (by omega), hlist]
  cases walkedHashes m r1 proof with
  | nil => rfl
  | cons x pr =>
    simp only [signedWalk_eq S _ hpos hmn, walkVerdict, reduceCtorEq, if_false]
    cases Merkle.walkStrict (Merkle.combine2 S.nodeHash) (Merkle.skip (m - 1) (n - 1)).1
      (Merkle.skip (m - 1) (n - 1)).2 pr (x, x) <;> simp [beq_eq_decide]

theorem accepts_walk_iff (hpos : 0 < m) (hmn : m < n) :
    Accepts S m r1 n r2 proof ↔ walkVerdict S m r1 n r2 (walkedHashes m r1 proof) = true := by
  rw [walkVerdict_iff, Accepts, WalkAccepts]
  constructor
  · rintro (⟨h, _⟩ | ⟨h, _⟩ | ⟨_, _, h⟩)
    · omega
    · omega
    · exact h
  · intro h
    exact .inr (.inr ⟨hpos, hmn, h⟩)

variable (S)

theorem enclave_verifyConsistency_iff :
    Enclave.verifyConsistency S m r1 n r2 proof = true ↔ Accepts S m r1 n r2 proof := by
  by_cases h : 0 < m ∧ m < n
  · rw [enclave_walk h.1 h.2, accepts_walk_iff h.1 h.2]
  · rw [enclave_easy h, easyVerdict_iff h]

theorem tools_verifyConsistency_iff :
    Tools.verifyConsistency S m r1 n r2 proof = some true ↔ Accepts S m r1 n r2 proof := by
  by_cases h : 0 < m ∧ m < n
  · rw [tools_walk h.1 h.2, accepts_walk_iff h.1 h.2]
    by_cases hnil : walkedHashes m r1 proof = []
    · simp [hnil, walkVerdict]
    · rw [if_neg hnil, Option.some.injEq]
  · rw [tools_easy h, Option.some.injEq, easyVerdict_iff h]

end Verifiers

/-! ## Append-only -/

/-- A walk between the heads of two logs only succeeds if the first log is a prefix of the second:
the walk recomputes the head of the prefix, and equal heads are heads of equal logs. -/
theorem walkAccepts_prefix {S : LogHash H} (hS : S.CollisionFree) {es es' : List Bytes}
    (hpos : 0 < es.length) (hlt : es.length < es'.length) {proof : List H}
    (h : WalkAccepts S es.length
      (Merkle.root S.nodeHash S.emptyHash (es.map S.leafHash)) es'.length
      (Merkle.root S.nodeHash S.emptyHash (es'.map S.leafHash)) proof) : es <+: es' := by
  obtain ⟨x, pr, _, hwalk⟩ := h
  have hlen : (es'.map S.leafHash).length = es'.length := List.length_map _
  rw [← hlen] at hwalk
  obtain ⟨hold, _⟩ := Merkle.consistency_sound S.nodeHash S.emptyHash hpos (by omega)
    (hS.binds _ es') hwalk
  rw [← List.map_take] at hold
  have heq : es = es'.take es.length := hS.root_inj (by rw [List.length_take]; omega) hold
  rw [heq]
  exact List.take_prefix _ _

open Enclave.TransparencyLog (ofEntries) in
theorem verifyConsistency_append_only [DecidableEq H] (S : LogHash H) (hS : S.CollisionFree)
    (es es' : List Bytes)
    (h1 : 1 ≤ (ofEntries S es).size) (proof : List H)
    (h : Enclave.verifyConsistency S (ofEntries S es).size ((ofEntries S es).root S)
          (ofEntries S es').size ((ofEntries S es').root S) proof = true ∨
        Tools.verifyConsistency S (ofEntries S es).size ((ofEntries S es).root S)
          (ofEntries S es').size ((ofEntries S es').root S) proof = some true) :
    es <+: es' := by
  rw [tools_verifyConsistency_iff, enclave_verifyConsistency_iff, or_self,
    Enclave.TransparencyLog.ofEntries_root, Enclave.TransparencyLog.ofEntries_root,
    Enclave.TransparencyLog.ofEntries_size, Enclave.TransparencyLog.ofEntries_size] at h
  rw [Enclave.TransparencyLog.ofEntries_size] at h1
  rcases h with ⟨hlen, hroot, _⟩ | ⟨h0, _⟩ | ⟨hpos, hlt, hwalk⟩
  · obtain rfl := hS.root_inj hlen hroot
    exact List.prefix_rfl
  · omega
  · exact walkAccepts_prefix hS hpos hlt hwalk

/-- One entry and then a second one, with the second leaf as the whole proof. -/
theorem verifyConsistency_append_only_two : ([[1]] : List Bytes) <+: [[1], [2]] :=
  verifyConsistency_append_only Term.logHash Term.collisionFree [[1]] [[1], [2]] (by decide)
    [.leaf [2]] (.inl (by decide +kernel))

/-! ## Completeness -/

theorem consistencyPath_accepted (log : Enclave.TransparencyLog H) {m : Nat} (hpos : 0 < m)
    (hlt : m < log.leaves.length) :
    WalkAccepts S m (Enclave.mth S (log.leaves.take m)) log.leaves.length
      (Enclave.mth S log.leaves) (Enclave.subproof S m log.leaves true) := by
  obtain ⟨sub, hsub⟩ := Merkle.subtree_spine hpos (Nat.le_of_lt hlt)
  have hwalk := Merkle.consistency_complete S.nodeHash S.emptyHash hpos hlt hsub
  rw [Enclave.mth_eq_root, Enclave.mth_eq_root]
  refine ⟨_, _, ?_, hwalk⟩
  rw [walkedHashes, Enclave.subproof_true S hpos hlt]
  by_cases hp : m.isPowerOfTwo
  · -- then the spine ends at the whole prefix, whose root is the first root
    rw [Merkle.subtree_spine_pow hp (Nat.le_of_lt hlt), Option.some.injEq] at hsub
    rw [if_pos hp, if_pos hp, hsub]
  · rw [if_neg hp, if_neg hp, Enclave.subproof_false S hpos (by omega) hsub, Enclave.mth_eq_root]

/-- A log proves each of its earlier heads consistent with its head. -/
theorem consistencyPath_accepts (log : Enclave.TransparencyLog H) {m : Nat} (hm : m ≤ log.size) :
    ∃ r p, log.rootAt S m = some r ∧ log.consistencyPath S m = some p ∧
      Accepts S m r log.size (log.root S) p := by
  rw [Enclave.TransparencyLog.size] at hm ⊢
  rw [Enclave.TransparencyLog.rootAt, if_pos hm, Enclave.TransparencyLog.consistencyPath,
    if_neg (by omega), Enclave.TransparencyLog.root]
  rcases Nat.eq_or_lt_of_le hm with rfl | hlt
  · refine ⟨_, [], rfl, ?_, .inl ⟨rfl, by rw [List.take_length], rfl⟩⟩
    split <;> simp
  · rcases Nat.eq_zero_or_pos m with rfl | hpos
    · exact ⟨_, [], rfl, by rw [if_pos rfl], .inr (.inl ⟨rfl, hlt⟩)⟩
    · refine ⟨_, Enclave.subproof S m log.leaves true, rfl, ?_,
        .inr (.inr ⟨hpos, hlt, consistencyPath_accepted S log hpos hlt⟩)⟩
      rw [if_neg (by omega), if_neg (by omega)]

open Enclave (TransparencyLog) in
theorem consistencyPath_complete [DecidableEq H] (S : LogHash H) (log : TransparencyLog H)
    (m : Nat) :
    (m ≤ log.size → ∃ r p, log.rootAt S m = some r ∧ log.consistencyPath S m = some p ∧
      Enclave.verifyConsistency S m r log.size (log.root S) p = true ∧
      Tools.verifyConsistency S m r log.size (log.root S) p = some true) ∧
    (log.size < m → log.rootAt S m = none ∧ log.consistencyPath S m = none) := by
  constructor
  · intro hm
    obtain ⟨r, p, hr, hp, haccepts⟩ := consistencyPath_accepts S log hm
    exact ⟨r, p, hr, hp, (enclave_verifyConsistency_iff S).mpr haccepts,
      (tools_verifyConsistency_iff S).mpr haccepts⟩
  · intro hm
    rw [TransparencyLog.size] at hm
    exact ⟨if_neg (by omega), if_pos hm⟩

end Log
end Pzdr
