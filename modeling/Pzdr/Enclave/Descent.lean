import Pzdr.Enclave.Transparency

/-!
# Enclave.Descent

The recursions of `transparency.rs` with everything that could go wrong in them: a slice out of range,
a subtraction below zero, a recursive call on an empty slice or on one that is not smaller. Each is
`none`. `mth_checked`, `inclusion_checked` and `subproof_checked` say that none of them happens, so
each recursion ends after at most as many calls in depth as there are leaves.

How many hashes a proof has is bounded by the depth of the tree, through the route and the spine that
the proof follows.
-/

namespace Pzdr
namespace Enclave

section Checked

variable {H : Type}

/-- `&leaves[..k]` -/
def sliceTo (leaves : List H) (k : Nat) : Option (List H) :=
  if k ≤ leaves.length then some (leaves.take k) else none

/-- `&leaves[k..]` -/
def sliceFrom (leaves : List H) (k : Nat) : Option (List H) :=
  if k ≤ leaves.length then some (leaves.drop k) else none

def checkedSub (a b : Nat) : Option Nat := if b ≤ a then some (a - b) else none

/-- What a recursion on `leaves` may be called on. -/
abbrev Smaller (leaves : List H) :=
  {part : List H // 0 < part.length ∧ part.length < leaves.length}

def smaller (leaves part : List H) : Option (Smaller leaves) :=
  if h : 0 < part.length ∧ part.length < leaves.length then some ⟨part, h⟩ else none

end Checked

section Prover

variable {H : Type} (S : LogHash H)

def mthChecked (leaves : List H) : Option H :=
  match leaves with
  | [] => some S.emptyHash
  | [leaf] => some leaf
  | a :: b :: rest => do
    let k := split (a :: b :: rest).length
    let left ← sliceTo (a :: b :: rest) k >>= smaller (a :: b :: rest)
    let right ← sliceFrom (a :: b :: rest) k >>= smaller (a :: b :: rest)
    return S.nodeHash (← mthChecked left.val) (← mthChecked right.val)
termination_by leaves.length
decreasing_by
  · exact left.property.2
  · exact right.property.2

def inclusionChecked (leaves : List H) (m : Nat) : Option (List H) :=
  if leaves.length = 1 then some []
  else
    let k := split leaves.length
    if m < k then do
      let left ← sliceTo leaves k >>= smaller leaves
      let p ← inclusionChecked left.val m
      let right ← sliceFrom leaves k
      return p ++ [← mthChecked S right]
    else do
      let right ← sliceFrom leaves k >>= smaller leaves
      let m' ← checkedSub m k
      let p ← inclusionChecked right.val m'
      let left ← sliceTo leaves k
      return p ++ [← mthChecked S left]
termination_by leaves.length
decreasing_by
  · exact left.property.2
  · exact right.property.2

def subproofChecked (m : Nat) (leaves : List H) (b : Bool) : Option (List H) :=
  if m = leaves.length then
    if b then some [] else do return [← mthChecked S leaves]
  else
    let k := split leaves.length
    if m ≤ k then do
      let left ← sliceTo leaves k >>= smaller leaves
      let p ← subproofChecked m left.val b
      let right ← sliceFrom leaves k
      return p ++ [← mthChecked S right]
    else do
      let right ← sliceFrom leaves k >>= smaller leaves
      let m' ← checkedSub m k
      let p ← subproofChecked m' right.val false
      let left ← sliceTo leaves k
      return p ++ [← mthChecked S left]
termination_by leaves.length
decreasing_by
  · exact left.property.2
  · exact right.property.2

/-! ## Nothing goes wrong -/

theorem split_halves {n : Nat} (h : 2 ≤ n) :
    (split n).isPowerOfTwo ∧ split n < n ∧ n ≤ 2 * split n := by
  rw [split_eq h]
  obtain ⟨a, ha, _⟩ := Merkle.split_spec h
  exact ⟨⟨a, ha⟩, Merkle.split_lt h, Merkle.le_two_mul_split h⟩

theorem sliceTo_split {leaves : List H} (h : 2 ≤ leaves.length) :
    sliceTo leaves (Merkle.split leaves.length) =
      some (leaves.take (Merkle.split leaves.length)) :=
  if_pos (Merkle.split_lt h).le

theorem sliceFrom_split {leaves : List H} (h : 2 ≤ leaves.length) :
    sliceFrom leaves (Merkle.split leaves.length) =
      some (leaves.drop (Merkle.split leaves.length)) :=
  if_pos (Merkle.split_lt h).le

/-- Both halves are non-empty and smaller. -/
theorem smaller_take {leaves : List H} (h : 2 ≤ leaves.length) :
    ∃ part : Smaller leaves, part.val = leaves.take (Merkle.split leaves.length) ∧
      smaller leaves (leaves.take (Merkle.split leaves.length)) = some part := by
  have hlt := Merkle.split_lt h
  have hpos := Merkle.split_pos leaves.length
  have hlen := Merkle.length_take_split h
  exact ⟨⟨_, by omega, by omega⟩, rfl, dif_pos ⟨by omega, by omega⟩⟩

theorem smaller_drop {leaves : List H} (h : 2 ≤ leaves.length) :
    ∃ part : Smaller leaves, part.val = leaves.drop (Merkle.split leaves.length) ∧
      smaller leaves (leaves.drop (Merkle.split leaves.length)) = some part := by
  have hlt := Merkle.split_lt h
  have hpos := Merkle.split_pos leaves.length
  have hlen : (leaves.drop (Merkle.split leaves.length)).length =
      leaves.length - Merkle.split leaves.length := List.length_drop
  exact ⟨⟨_, by omega, by omega⟩, rfl, dif_pos ⟨by omega, by omega⟩⟩

theorem mth_checked (leaves : List H) : mthChecked S leaves = some (mth S leaves) := by
  induction leaves using Merkle.list_split_induction with
  | small ls h =>
    rcases ls with _ | ⟨x, _ | ⟨y, rest⟩⟩
    · rw [mthChecked, mth]
    · rw [mthChecked, mth]
    · simp only [List.length_cons] at h
      omega
  | step ls h ihl ihr =>
    rw [mth_node S h]
    obtain ⟨left, hleft, htake⟩ := smaller_take h
    obtain ⟨right, hright, hdrop⟩ := smaller_drop h
    rcases ls with _ | ⟨a, _ | ⟨b, rest⟩⟩
    · simp at h
    · simp at h
    · rw [mthChecked]
      simp only [split_eq h, sliceTo_split h, sliceFrom_split h, htake, hdrop, hleft, hright,
        Option.bind_eq_bind, Option.bind_some, ihl, ihr, Option.pure_def]

theorem inclusion_checked {leaves : List H} {m : Nat} (hm : m < leaves.length) :
    inclusionChecked S leaves m = some (inclusion S leaves m) := by
  induction leaves using Merkle.list_split_induction generalizing m with
  | small ls h =>
    obtain ⟨x, rfl⟩ : ∃ x, ls = [x] := List.length_eq_one_iff.mp (by omega)
    rw [inclusionChecked, inclusion]
    rfl
  | step ls h ihl ihr =>
    have hlen := Merkle.length_take_split h
    rw [inclusionChecked, if_neg (by omega), inclusion_node S h, split_eq h]
    obtain ⟨left, hleft, htake⟩ := smaller_take h
    obtain ⟨right, hright, hdrop⟩ := smaller_drop h
    simp only [sliceTo_split h, sliceFrom_split h, htake, hdrop, hleft, hright,
      Option.bind_eq_bind, Option.bind_some, mth_checked, Option.pure_def]
    split
    · rw [ihl (by omega)]
      rfl
    · rename_i hmk
      rw [checkedSub, if_pos (by omega), Option.bind_some, ihr (by rw [List.length_drop]; omega)]
      rfl

theorem subproof_checked {leaves : List H} {m : Nat} (hpos : 0 < m) (hm : m ≤ leaves.length)
    (b : Bool) : subproofChecked S m leaves b = some (subproof S m leaves b) := by
  have hself : ∀ (ls : List H) (b : Bool),
      subproofChecked S ls.length ls b = some (subproof S ls.length ls b) := by
    intro ls b
    rw [subproofChecked, if_pos rfl, subproof_self, mth_checked]
    cases b <;> rfl
  induction leaves using Merkle.list_split_induction generalizing m b with
  | small ls h =>
    obtain rfl : m = ls.length := by omega
    exact hself ls b
  | step ls h ihl ihr =>
    have hlen := Merkle.length_take_split h
    by_cases heq : m = ls.length
    · rw [heq]
      exact hself ls b
    · rw [subproofChecked, if_neg heq, subproof_node S b h heq, split_eq h]
      obtain ⟨left, hleft, htake⟩ := smaller_take h
      obtain ⟨right, hright, hdrop⟩ := smaller_drop h
      simp only [sliceTo_split h, sliceFrom_split h, htake, hdrop, hleft, hright,
        Option.bind_eq_bind, Option.bind_some, mth_checked, Option.pure_def]
      split
      · rw [ihl hpos (by omega)]
        rfl
      · rw [checkedSub, if_pos (by omega), Option.bind_some,
          ihr (by omega) (by rw [List.length_drop]; omega)]
        rfl

/-! ## How long a proof is -/

theorem length_inclusion {leaves : List H} {m : Nat} (hm : m < leaves.length) :
    (inclusion S leaves m).length ≤ Nat.clog 2 leaves.length := by
  have hroute := Merkle.subtree_route (List.getElem?_eq_getElem hm)
  have hdepth := Merkle.subtree_depth hroute (Nat.le_pow_clog Nat.one_lt_two _)
  rw [inclusion_eq S leaves hm, List.length_reverse, Merkle.siblings_length]
  exact hdepth

/-- The siblings of the spine, and perhaps the root at its end. -/
theorem length_subproof {leaves : List H} {m : Nat} (hpos : 0 < m) (hm : m ≤ leaves.length)
    (b : Bool) : (subproof S m leaves b).length ≤ Nat.clog 2 leaves.length + 1 := by
  obtain ⟨sub, hsub⟩ := Merkle.subtree_spine hpos hm
  have hdepth := Merkle.subtree_depth hsub (Nat.le_pow_clog Nat.one_lt_two _)
  have hfalse : (subproof S m leaves false).length ≤ Nat.clog 2 leaves.length + 1 := by
    rw [subproof_false S hpos hm hsub, List.length_cons, List.length_reverse,
      Merkle.siblings_length]
    omega
  cases b with
  | false => exact hfalse
  | true =>
    rcases Nat.eq_or_lt_of_le hm with rfl | hlt
    · rw [subproof_self]
      exact Nat.zero_le _
    · rw [subproof_true S hpos hlt]
      split
      · rw [List.length_reverse, Merkle.siblings_length]
        omega
      · exact hfalse

theorem recursions_descend (leaves : List H) :
    (∀ n, 2 ≤ n → (split n).isPowerOfTwo ∧ split n < n ∧ n ≤ 2 * split n) ∧
      mthChecked S leaves = some (mth S leaves) ∧
      (∀ idx < leaves.length,
        inclusionChecked S leaves idx = some (inclusion S leaves idx) ∧
        (inclusion S leaves idx).length ≤ Nat.clog 2 leaves.length) ∧
      ∀ m b, 1 ≤ m → m ≤ leaves.length →
        subproofChecked S m leaves b = some (subproof S m leaves b) ∧
        (subproof S m leaves b).length ≤ Nat.clog 2 leaves.length + 1 :=
  ⟨fun _ => split_halves, mth_checked S leaves,
    fun _ hidx => ⟨inclusion_checked S hidx, length_inclusion S hidx⟩,
    fun _ b hpos hm => ⟨subproof_checked S hpos hm b, length_subproof S hpos hm b⟩⟩

end Prover

end Enclave
end Pzdr
