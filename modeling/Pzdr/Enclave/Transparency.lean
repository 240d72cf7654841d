import Pzdr.Hash

/-!
# Enclave.Transparency

`services/pzdr-enclave/src/transparency.rs`: the log the enclave keeps, its proofs, and the two
verifiers of its test build. Sizes are far below `usize::MAX` (a leaf takes 32 bytes of memory), so
`usize` is `Nat`.

The source recurses on slices; the model recurses on `take` and `drop` of a list. Each function is
then tied to the library: `mth` is `Merkle.root`, `inclusion` and `subproof` list the siblings of a
route and of a spine, and the loops are `Merkle.walk` and `Merkle.walkStrict`.
-/

namespace Pzdr
namespace Enclave

open Merkle (Side)

/-- `while k < n { k <<= 1 }`; `k` starts at 1 and stays positive. -/
def splitLoop (n k : Nat) (hk : 0 < k) : Nat :=
  if k < n then splitLoop n (k <<< 1) (by rw [Nat.shiftLeft_eq]; omega) else k
termination_by n - k
decreasing_by rw [Nat.shiftLeft_eq]; omega

def split (n : Nat) : Nat := splitLoop n 1 Nat.one_pos >>> 1

theorem splitLoop_pow {n a : Nat} (hlo : 2 ^ a < n) (hhi : n ≤ 2 ^ (a + 1)) :
    ∀ d b (hk : 0 < 2 ^ b), b + d = a + 1 → splitLoop n (2 ^ b) hk = 2 ^ (a + 1) := by
  intro d
  induction d with
  | zero =>
    intro b hk hb
    obtain rfl : b = a + 1 := by omega
    rw [splitLoop, if_neg (by omega)]
  | succ d ih =>
    intro b hk hb
    have hle : 2 ^ b ≤ 2 ^ a := Nat.pow_le_pow_right (by omega) (by omega)
    have hshift : 2 ^ b <<< 1 = 2 ^ (b + 1) := by rw [Nat.shiftLeft_eq, Nat.pow_succ]; rfl
    rw [splitLoop, if_pos (by omega)]
    simp only [hshift]
    exact ih (b + 1) (Nat.two_pow_pos _) (by omega)

theorem split_eq {n : Nat} (h : 2 ≤ n) : split n = Merkle.split n := by
  obtain ⟨a, ha, hlt, hle⟩ := Merkle.split_spec h
  have hloop := splitLoop_pow hlt hle (a + 1) 0 Nat.one_pos (by omega)
  rw [ha, split, show splitLoop n 1 Nat.one_pos = 2 ^ (a + 1) from hloop,
    Nat.shiftRight_eq_div_pow, Nat.pow_succ]
  omega

section Prover

variable {H : Type} (S : LogHash H)

def mth (leaves : List H) : H :=
  match leaves with
  | [] => S.emptyHash
  | [leaf] => leaf
  | a :: b :: rest =>
    let k := split (a :: b :: rest).length
    S.nodeHash (mth ((a :: b :: rest).take k)) (mth ((a :: b :: rest).drop k))
termination_by leaves.length
decreasing_by
  all_goals
    have h2 : 2 ≤ (a :: b :: rest).length := by simp
    have hlt := Merkle.split_lt h2
    have hpos := Merkle.split_pos (a :: b :: rest).length
    simp only [split_eq h2, List.length_take, List.length_drop]
    omega

/-- The empty slice is never passed: `inclusion_path` checks `idx < len`, and both halves of a
slice of two or more are non-empty. The source would recurse on it for ever. -/
def inclusion (leaves : List H) (m : Nat) : List H :=
  match leaves with
  | [] => []
  | [_] => []
  | a :: b :: rest =>
    let k := split (a :: b :: rest).length
    if m < k then
      inclusion ((a :: b :: rest).take k) m ++ [mth S ((a :: b :: rest).drop k)]
    else
      inclusion ((a :: b :: rest).drop k) (m - k) ++ [mth S ((a :: b :: rest).take k)]
termination_by leaves.length
decreasing_by
  all_goals
    have h2 : 2 ≤ (a :: b :: rest).length := by simp
    have hlt := Merkle.split_lt h2
    have hpos := Merkle.split_pos (a :: b :: rest).length
    simp only [split_eq h2, List.length_take, List.length_drop]
    omega

/-- Slices of fewer than two leaves are only passed with `m == n`: `consistency_path` checks
`0 < m < len`, and both calls keep `0 < m ≤ n`. -/
def subproof (m : Nat) (leaves : List H) (b : Bool) : List H :=
  if m = leaves.length then
    if b then [] else [mth S leaves]
  else
    match leaves with
    | [] => []
    | [_] => []
    | x :: y :: rest =>
      let k := split (x :: y :: rest).length
      if m ≤ k then
        subproof m ((x :: y :: rest).take k) b ++ [mth S ((x :: y :: rest).drop k)]
      else
        subproof (m - k) ((x :: y :: rest).drop k) false ++ [mth S ((x :: y :: rest).take k)]
termination_by leaves.length
decreasing_by
  all_goals
    have h2 : 2 ≤ (x :: y :: rest).length := by simp
    have hlt := Merkle.split_lt h2
    have hpos := Merkle.split_pos (x :: y :: rest).length
    simp only [split_eq h2, List.length_take, List.length_drop]
    omega

theorem mth_eq_root (leaves : List H) : mth S leaves = Merkle.root S.nodeHash S.emptyHash leaves := by
  induction leaves using Merkle.list_split_induction with
  | small ls h =>
    match ls, h with
    | [], _ => rw [mth, Merkle.root_nil]
    | [x], _ => rw [mth, Merkle.root_singleton]
    | _ :: _ :: _, h => simp only [List.length_cons] at h; omega
  | step ls h ihl ihr =>
    rw [Merkle.root_node _ _ h, ← ihl, ← ihr]
    match ls, h with
    | a :: b :: rest, h => rw [mth, split_eq h]

theorem mth_node {leaves : List H} (h : 2 ≤ leaves.length) :
    mth S leaves = S.nodeHash (mth S (leaves.take (Merkle.split leaves.length)))
      (mth S (leaves.drop (Merkle.split leaves.length))) := by
  rw [mth_eq_root, Merkle.root_node _ _ h, ← mth_eq_root, ← mth_eq_root]

theorem inclusion_node {leaves : List H} (h : 2 ≤ leaves.length) (m : Nat) :
    inclusion S leaves m =
      if m < Merkle.split leaves.length then
        inclusion S (leaves.take (Merkle.split leaves.length)) m ++
          [mth S (leaves.drop (Merkle.split leaves.length))]
      else
        inclusion S (leaves.drop (Merkle.split leaves.length)) (m - Merkle.split leaves.length) ++
          [mth S (leaves.take (Merkle.split leaves.length))] := by
  match leaves, h with
  | a :: b :: rest, h => rw [inclusion, split_eq h]

theorem inclusion_eq (leaves : List H) {m : Nat} (hm : m < leaves.length) :
    inclusion S leaves m = (Merkle.siblings S.nodeHash S.emptyHash
      (Merkle.route leaves.length m) leaves).reverse := by
  induction leaves using Merkle.list_split_induction generalizing m with
  | small ls h =>
    obtain ⟨x, rfl⟩ : ∃ x, ls = [x] := List.length_eq_one_iff.mp (by omega)
    rw [inclusion, Merkle.route_small h]
    rfl
  | step ls h ihl ihr =>
    have hlen := Merkle.length_take_split h
    rw [inclusion_node S h]
    split
    · rename_i hmk
      rw [ihl (by omega), hlen, mth_eq_root, Merkle.route_left h hmk, Merkle.siblings,
        List.reverse_cons]
    · rename_i hmk
      rw [ihr (by simp only [List.length_drop]; omega), List.length_drop, mth_eq_root,
        Merkle.route_right h (by omega), Merkle.siblings, List.reverse_cons]

theorem subproof_node {m : Nat} {leaves : List H} (b : Bool) (h : 2 ≤ leaves.length)
    (hm : m ≠ leaves.length) :
    subproof S m leaves b =
      if m ≤ Merkle.split leaves.length then
        subproof S m (leaves.take (Merkle.split leaves.length)) b ++
          [mth S (leaves.drop (Merkle.split leaves.length))]
      else
        subproof S (m - Merkle.split leaves.length)
            (leaves.drop (Merkle.split leaves.length)) false ++
          [mth S (leaves.take (Merkle.split leaves.length))] := by
  rw [subproof.eq_def, if_neg hm]
  match leaves, h with
  | x :: y :: rest, h => simp only [split_eq h]

theorem subproof_self (leaves : List H) (b : Bool) :
    subproof S leaves.length leaves b = if b then [] else [mth S leaves] := by
  rw [subproof.eq_def, if_pos rfl]

/-- With `b` false, `subproof` is the root at the end of the spine and then the siblings. -/
theorem subproof_false {leaves sub : List H} {m : Nat} (hpos : 0 < m) (hm : m ≤ leaves.length)
    (hsub : Merkle.subtree (Merkle.spine m leaves.length) leaves = some sub) :
    subproof S m leaves false = mth S sub :: (Merkle.siblings S.nodeHash S.emptyHash
      (Merkle.spine m leaves.length) leaves).reverse := by
  induction leaves using Merkle.list_split_induction generalizing m with
  | small ls h =>
    obtain rfl : m = ls.length := by omega
    rw [Merkle.spine_self] at hsub ⊢
    simp only [Merkle.subtree, Option.some.injEq] at hsub
    rw [subproof_self, hsub]
    rfl
  | step ls h ihl ihr =>
    rcases Nat.eq_or_lt_of_le hm with rfl | hlt
    · rw [Merkle.spine_self] at hsub ⊢
      simp only [Merkle.subtree, Option.some.injEq] at hsub
      rw [subproof_self, hsub]
      rfl
    · have hlen := Merkle.length_take_split h
      rw [subproof_node S false h (by omega)]
      split
      · rename_i hmk
        rw [Merkle.spine_left h hmk, Merkle.subtree_left h] at hsub
        rw [ihl hpos (by omega) (by rw [hlen]; exact hsub), hlen, mth_eq_root S (ls.drop _), Merkle.spine_left h hmk,
          Merkle.siblings, List.reverse_cons, List.cons_append]
      · rename_i hmk
        rw [Merkle.spine_right hlt (by omega), Merkle.subtree_right h] at hsub
        rw [ihr (by omega) (by simp only [List.length_drop]; omega)
            (by rw [List.length_drop]; exact hsub), List.length_drop,
          mth_eq_root S (ls.take _), Merkle.spine_right hlt (by omega), Merkle.siblings,
          List.reverse_cons, List.cons_append]

/-- With `b` true the first hash is left out exactly when the prefix is a complete subtree, which
is when its size is a power of two: then the verifier already holds it. -/
theorem subproof_true {leaves : List H} {m : Nat} (hpos : 0 < m) (hm : m < leaves.length) :
    subproof S m leaves true =
      if m.isPowerOfTwo then (Merkle.siblings S.nodeHash S.emptyHash
        (Merkle.spine m leaves.length) leaves).reverse
      else subproof S m leaves false := by
  induction leaves using Merkle.list_split_induction generalizing m with
  | small ls h => omega
  | step ls h ihl _ =>
    obtain ⟨a, ha, _⟩ := Merkle.split_spec h
    have hlen := Merkle.length_take_split h
    rw [subproof_node S true h (by omega), subproof_node S false h (by omega)]
    split
    · rename_i hmk
      rcases Nat.eq_or_lt_of_le hmk with rfl | hmlt
      · have hpow : (Merkle.split ls.length).isPowerOfTwo := ⟨a, ha⟩
        have hself := subproof_self S (ls.take (Merkle.split ls.length)) true
        rw [hlen] at hself
        rw [hself, if_pos rfl, if_pos hpow, Merkle.spine_left h hmk, Merkle.spine_self, mth_eq_root]
        rfl
      · rw [ihl hpos (by omega), hlen]
        split
        · rw [mth_eq_root, Merkle.spine_left h hmk, Merkle.siblings, List.reverse_cons]
        · rfl
    · rename_i hmk
      have hnot : ¬ m.isPowerOfTwo := fun hp => hmk (Merkle.le_split_of_isPowerOfTwo hp hm)
      rw [if_neg hnot]

/-- The hashes of a consistency proof are hashes of leaves and nodes. -/
theorem subproof_of_forall {P : H → Prop} (hempty : P S.emptyHash)
    (hnode : ∀ l r, P (S.nodeHash l r)) {leaves : List H} (h : ∀ x ∈ leaves, P x) (m : Nat)
    (b : Bool) : ∀ x ∈ subproof S m leaves b, P x := by
  have hroot : ∀ {ls : List H}, (∀ x ∈ ls, P x) → P (mth S ls) := by
    intro ls hls
    rw [mth_eq_root]
    exact Merkle.root_of_forall _ _ hempty hnode hls
  have hself : ∀ {ls : List H} (b : Bool), (∀ x ∈ ls, P x) →
      ∀ x ∈ subproof S ls.length ls b, P x := by
    intro ls b hls x hx
    rw [subproof_self] at hx
    split at hx
    · cases hx
    · rw [List.mem_singleton] at hx
      rw [hx]
      exact hroot hls
  induction leaves using Merkle.list_split_induction generalizing m b with
  | small ls hlen =>
    by_cases hm : m = ls.length
    · rw [hm]
      exact hself b h
    · intro x hx
      rw [subproof.eq_def, if_neg hm] at hx
      split at hx
      · cases hx
      · cases hx
      · simp only [List.length_cons] at hlen
        omega
  | step ls hlen ihl ihr =>
    have hl : ∀ x ∈ ls.take (Merkle.split ls.length), P x := fun x hx => h x (List.mem_of_mem_take hx)
    have hr : ∀ x ∈ ls.drop (Merkle.split ls.length), P x := fun x hx => h x (List.mem_of_mem_drop hx)
    by_cases hm : m = ls.length
    · rw [hm]
      exact hself b h
    · intro x hx
      rw [subproof_node S b hlen hm] at hx
      split at hx
      · rcases List.mem_append.mp hx with hx | hx
        · exact ihl hl m b x hx
        · rw [List.mem_singleton] at hx
          rw [hx]
          exact hroot hr
      · rcases List.mem_append.mp hx with hx | hx
        · exact ihr hr _ false x hx
        · rw [List.mem_singleton] at hx
          rw [hx]
          exact hroot hl

end Prover

/-! ## `TransparencyLog` -/

structure TransparencyLog (H : Type) where
  leaves : List H

namespace TransparencyLog

variable {H : Type} (S : LogHash H)

def new : TransparencyLog H := ⟨[]⟩

/-- The log after the append, and the index of the new entry. -/
def append (log : TransparencyLog H) (entry : Bytes) : TransparencyLog H × Nat :=
  (⟨log.leaves ++ [S.leafHash entry]⟩, log.leaves.length)

def size (log : TransparencyLog H) : Nat := log.leaves.length

def root (log : TransparencyLog H) : H := mth S log.leaves

def rootAt (log : TransparencyLog H) (size : Nat) : Option H :=
  if size ≤ log.leaves.length then some (mth S (log.leaves.take size)) else none

def inclusionPath (log : TransparencyLog H) (idx : Nat) : Option (List H) :=
  if idx < log.leaves.length then some (inclusion S log.leaves idx) else none

def consistencyPath (log : TransparencyLog H) (m : Nat) : Option (List H) :=
  if m > log.leaves.length then none
  else if m = 0 then some []
  else if m = log.leaves.length then some []
  else some (subproof S m log.leaves true)

def leafAt (log : TransparencyLog H) (idx : Nat) : Option H := log.leaves[idx]?

/-- The log that a sequence of appends builds. -/
def ofEntries (entries : List Bytes) : TransparencyLog H :=
  entries.foldl (fun log entry => (log.append S entry).1) new

theorem foldl_append_leaves (entries : List Bytes) (log : TransparencyLog H) :
    (entries.foldl (fun log entry => (log.append S entry).1) log).leaves =
      log.leaves ++ entries.map S.leafHash := by
  induction entries generalizing log with
  | nil => simp
  | cons e entries ih => rw [List.foldl_cons, ih]; simp [append]

@[simp] theorem ofEntries_leaves (entries : List Bytes) :
    (ofEntries S entries).leaves = entries.map S.leafHash := by
  rw [ofEntries, foldl_append_leaves]; rfl

@[simp] theorem ofEntries_size (entries : List Bytes) :
    (ofEntries S entries).size = entries.length := by
  rw [size, ofEntries_leaves, List.length_map]

theorem ofEntries_root (entries : List Bytes) :
    (ofEntries S entries).root S =
      Merkle.root S.nodeHash S.emptyHash (entries.map S.leafHash) := by
  rw [root, ofEntries_leaves, mth_eq_root]

end TransparencyLog

/-! ## Verifiers -/

section Loops

variable {H : Type} (S : LogHash H)

/-- `while f_n.is_multiple_of(2) && f_n != 0 { f_n >>= 1; s_n >>= 1 }` -/
def promote (fn sn : Nat) : Nat × Nat :=
  if fn % 2 = 0 ∧ fn ≠ 0 then promote (fn >>> 1) (sn >>> 1) else (fn, sn)
termination_by fn
decreasing_by rw [Nat.shiftRight_one]; omega

/-- The loop of `verify_inclusion` over the path; gives the final `h` and `s_n`. -/
def inclusionLoop : Nat → Nat → H → List H → H × Nat
  | _, sn, h, [] => (h, sn)
  | fn, sn, h, sib :: path =>
    if fn % 2 = 1 ∨ fn = sn then
      let (fn', sn') := promote fn sn
      inclusionLoop (fn' >>> 1) (sn' >>> 1) (S.nodeHash sib h) path
    else inclusionLoop (fn >>> 1) (sn >>> 1) (S.nodeHash h sib) path

/-- `while f_n % 2 == 1 { f_n >>= 1; s_n >>= 1 }` -/
def skipOnes (fn sn : Nat) : Nat × Nat :=
  if fn % 2 = 1 then skipOnes (fn >>> 1) (sn >>> 1) else (fn, sn)
termination_by fn
decreasing_by rw [Nat.shiftRight_one]; omega

/-- The loop of `verify_consistency` over `pr[1..]`; `none` is its early `return false`. -/
def consistencyLoop : Nat → Nat → H → H → List H → Option (H × H × Nat)
  | _, sn, fr, sr, [] => some (fr, sr, sn)
  | fn, sn, fr, sr, c :: pr =>
    if sn = 0 then none
    else if fn % 2 = 1 ∨ fn = sn then
      let (fn', sn') := promote fn sn
      consistencyLoop (fn' >>> 1) (sn' >>> 1) (S.nodeHash c fr) (S.nodeHash c sr) pr
    else consistencyLoop (fn >>> 1) (sn >>> 1) fr (S.nodeHash sr c) pr

theorem promote_eq (fn sn : Nat) : promote fn sn = Merkle.promote fn sn := by
  induction fn, sn using promote.induct with
  | case1 fn sn h ih =>
    rw [promote, if_pos h, ih, Merkle.promote_half sn h.1 h.2, Nat.shiftRight_one,
      Nat.shiftRight_one]
  | case2 fn sn h => rw [promote, if_neg h, Merkle.promote_stop sn (by omega)]

theorem skipOnes_eq (fn sn : Nat) : skipOnes fn sn = Merkle.skip fn sn := by
  induction fn, sn using skipOnes.induct with
  | case1 fn sn h ih =>
    rw [skipOnes, if_pos h, ih, Merkle.skip_odd sn h, Nat.shiftRight_one, Nat.shiftRight_one]
  | case2 fn sn h => rw [skipOnes, if_neg h, Merkle.skip_even sn (by omega)]

theorem inclusionLoop_eq : ∀ (path : List H) (fn sn : Nat) (h : H),
    inclusionLoop S fn sn h path = Merkle.walk (Merkle.combine S.nodeHash) fn sn path h := by
  intro path
  induction path with
  | nil => intro fn sn h; rfl
  | cons c path ih =>
    intro fn sn h
    simp only [inclusionLoop, Merkle.walk, promote_eq, Nat.shiftRight_one, ih]
    rfl

theorem consistencyLoop_eq : ∀ (pr : List H) (fn sn : Nat) (fr sr : H),
    consistencyLoop S fn sn fr sr pr =
      (Merkle.walkStrict (Merkle.combine2 S.nodeHash) fn sn pr (fr, sr)).map
        (fun r => (r.1.1, r.1.2, r.2)) := by
  intro pr
  induction pr with
  | nil => intro fn sn fr sr; rfl
  | cons c pr ih =>
    intro fn sn fr sr
    simp only [consistencyLoop, Merkle.walkStrict, promote_eq, Nat.shiftRight_one, ih]
    split
    · rfl
    · split <;> rfl

end Loops

section Verifier

variable {H : Type} [DecidableEq H] (S : LogHash H)

def verifyInclusion (leaf : H) (index size : Nat) (path : List H) (root : H) : Bool :=
  if index ≥ size ∨ size = 0 then false
  else
    let (h, sn) := inclusionLoop S index (size - 1) leaf path
    h == root && sn == 0

def verifyConsistency (firstSize : Nat) (firstRoot : H) (secondSize : Nat) (secondRoot : H)
    (proof : List H) : Bool :=
  if firstSize > secondSize then false
  else if firstSize = secondSize then firstRoot == secondRoot && proof.isEmpty
  else if firstSize = 0 then true
  else
    match (if firstSize &&& (firstSize - 1) = 0 then [firstRoot] else []) ++ proof with
    | [] => false
    | x :: pr =>
      let (fn, sn) := skipOnes (firstSize - 1) (secondSize - 1)
      match consistencyLoop S fn sn x x pr with
      | none => false
      | some (fr, sr, sn) => fr == firstRoot && sr == secondRoot && sn == 0

theorem verifyInclusion_iff {leaf : H} {index size : Nat} {path : List H} {root : H} :
    verifyInclusion S leaf index size path root = true ↔
      index < size ∧
        Merkle.walk (Merkle.combine S.nodeHash) index (size - 1) path leaf = (root, 0) := by
  rw [verifyInclusion]
  split
  · simp only [Bool.false_eq_true, false_iff]
    rintro ⟨hlt, _⟩
    omega
  · simp only [inclusionLoop_eq, Bool.and_eq_true, beq_iff_eq]
    constructor
    · rintro ⟨hh, hsn⟩
      exact ⟨by omega, Prod.ext hh hsn⟩
    · rintro ⟨_, hw⟩
      rw [hw]
      exact ⟨rfl, rfl⟩

end Verifier

end Enclave
end Pzdr
