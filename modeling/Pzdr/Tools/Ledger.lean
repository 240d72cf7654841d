import Pzdr.Enclave.Transparency
import Pzdr.Hex

/-!
# Tools.Ledger

The reference prover: the proof builders of `tools/pzdr_verify.py` and the log of
`tools/pzdr_ledger.py`. `none` stands for a raised exception, here a recursion that does not end
(`RecursionError`): it is on a slice that is as long as the one before.
-/

namespace Pzdr
namespace Tools

/-- `_split`; the loop is that of `Enclave.split`. -/
def split (n : Nat) : Nat := Enclave.splitLoop n 1 Nat.one_pos >>> 1

theorem split_eq {n : Nat} (h : 2 ≤ n) : split n = Merkle.split n := Enclave.split_eq h

theorem split_small {n : Nat} (h : n < 2) : split n = 0 := by
  rw [split, Enclave.splitLoop, if_neg (by omega)]
  rfl

theorem split_lt_or (n : Nat) : split n < n ∨ n = 0 ∧ split n = 0 := by
  by_cases h2 : 2 ≤ n
  · rw [split_eq h2]
    exact .inl (Merkle.split_lt h2)
  · rw [split_small (by omega)]
    omega

section Prover

variable {H : Type} (S : LogHash H)

def merkleRoot (leaves : List H) : H :=
  match leaves with
  | [] => S.emptyHash
  | [leaf] => leaf
  | a :: b :: rest =>
    let k := split (a :: b :: rest).length
    S.nodeHash (merkleRoot ((a :: b :: rest).take k)) (merkleRoot ((a :: b :: rest).drop k))
termination_by leaves.length
decreasing_by
  all_goals
    have h2 : 2 ≤ (a :: b :: rest).length := by simp
    have hlt := Merkle.split_lt h2
    have hpos := Merkle.split_pos (a :: b :: rest).length
    simp only [split_eq h2, List.length_take, List.length_drop]
    omega

def inclusionPath (leaves : List H) (m : Nat) : Option (List H) :=
  if leaves.length = 1 then some []
  else
    let k := split leaves.length
    if m < k then
      (inclusionPath (leaves.take k) m).map (fun path => path ++ [merkleRoot S (leaves.drop k)])
    else if k = 0 then none
    else
      (inclusionPath (leaves.drop k) (m - k)).map
        (fun path => path ++ [merkleRoot S (leaves.take k)])
termination_by leaves.length
decreasing_by
  all_goals
    have := split_lt_or leaves.length
    simp only [List.length_take, List.length_drop]
    omega

/-- `_subproof` -/
def subproof (m : Nat) (leaves : List H) (b : Bool) : Option (List H) :=
  if m = leaves.length then some (if b then [] else [merkleRoot S leaves])
  else
    let k := split leaves.length
    if m ≤ k then
      (subproof m (leaves.take k) b).map (fun path => path ++ [merkleRoot S (leaves.drop k)])
    else if k = 0 then none
    else
      (subproof (m - k) (leaves.drop k) false).map
        (fun path => path ++ [merkleRoot S (leaves.take k)])
termination_by leaves.length
decreasing_by
  all_goals
    have := split_lt_or leaves.length
    simp only [List.length_take, List.length_drop]
    omega

def consistencyPath (leaves : List H) (m : Nat) : Option (List H) :=
  if m = leaves.length then some [] else subproof S m leaves true

end Prover

/-! ## `TransparencyLog` -/

structure TransparencyLog where
  entries : List Bytes
  leaves : List Bytes

namespace TransparencyLog

variable (S : LogHash Bytes)

def new : TransparencyLog := ⟨[], []⟩

/-- The log after the append, and the index of the new entry. -/
def append (log : TransparencyLog) (entry : Bytes) : TransparencyLog × Nat :=
  (⟨log.entries ++ [entry], log.leaves ++ [S.leafHash entry]⟩, log.entries.length)

def size (log : TransparencyLog) : Nat := log.leaves.length

def root (log : TransparencyLog) : Bytes := merkleRoot S log.leaves

def inclusion (log : TransparencyLog) (idx : Nat) : Option (List String) :=
  (inclusionPath S log.leaves idx).map (fun path => path.map hexEncode)

def consistency (log : TransparencyLog) (m : Nat) : Option (List String) :=
  (consistencyPath S log.leaves m).map (fun path => path.map hexEncode)

/-- The log that a sequence of appends builds. -/
def ofEntries (entries : List Bytes) : TransparencyLog :=
  entries.foldl (fun log entry => (log.append S entry).1) new

theorem foldl_append (entries : List Bytes) (log : TransparencyLog) :
    entries.foldl (fun log entry => (log.append S entry).1) log =
      ⟨log.entries ++ entries, log.leaves ++ entries.map S.leafHash⟩ := by
  induction entries generalizing log with
  | nil => simp
  | cons e entries ih =>
    rw [List.foldl_cons, ih]
    simp [append]

@[simp] theorem ofEntries_eq (entries : List Bytes) :
    ofEntries S entries = ⟨entries, entries.map S.leafHash⟩ := by
  rw [ofEntries, foldl_append]
  rfl

end TransparencyLog

/-! ## Against the enclave's functions -/

section Agree

variable {H : Type} (S : LogHash H)

theorem merkleRoot_eq (leaves : List H) : merkleRoot S leaves = Enclave.mth S leaves := by
  induction leaves using Merkle.list_split_induction with
  | small ls h =>
    rcases ls with _ | ⟨x, _ | ⟨y, rest⟩⟩
    · rw [merkleRoot, Enclave.mth]
    · rw [merkleRoot, Enclave.mth]
    · simp only [List.length_cons] at h
      omega
  | step ls h ihl ihr =>
    rw [Enclave.mth_node S h, ← ihl, ← ihr]
    rcases ls with _ | ⟨a, _ | ⟨b, rest⟩⟩
    · simp at h
    · simp at h
    · rw [merkleRoot, split_eq h]

theorem inclusionPath_eq {leaves : List H} {m : Nat} (hm : m < leaves.length) :
    inclusionPath S leaves m = some (Enclave.inclusion S leaves m) := by
  induction leaves using Merkle.list_split_induction generalizing m with
  | small ls h =>
    obtain ⟨x, rfl⟩ : ∃ x, ls = [x] := List.length_eq_one_iff.mp (by omega)
    rw [inclusionPath, Enclave.inclusion]
    rfl
  | step ls h ihl ihr =>
    have hpos := Merkle.split_pos ls.length
    have hlen := Merkle.length_take_split h
    rw [inclusionPath, if_neg (by omega), Enclave.inclusion_node S h, split_eq h]
    simp only [merkleRoot_eq]
    split
    · rw [ihl (by omega), Option.map_some]
    · rw [if_neg (by omega), ihr (by rw [List.length_drop]; omega), Option.map_some]

theorem subproof_eq {leaves : List H} {m : Nat} (hpos : 0 < m) (hm : m ≤ leaves.length) (b : Bool) :
    subproof S m leaves b = some (Enclave.subproof S m leaves b) := by
  induction leaves using Merkle.list_split_induction generalizing m b with
  | small ls h =>
    obtain rfl : m = ls.length := by omega
    rw [subproof, if_pos rfl, Enclave.subproof_self, merkleRoot_eq]
  | step ls h ihl ihr =>
    have hsplit := Merkle.split_pos ls.length
    have hlen := Merkle.length_take_split h
    by_cases heq : m = ls.length
    · rw [heq, subproof, if_pos rfl, Enclave.subproof_self, merkleRoot_eq]
    · rw [subproof, if_neg heq, Enclave.subproof_node S b h heq, split_eq h]
      simp only [merkleRoot_eq]
      split
      · rw [ihl hpos (by omega), Option.map_some]
      · rw [if_neg (by omega), ihr (by omega) (by rw [List.length_drop]; omega), Option.map_some]

/-- From size 0 the recursion goes down to the empty slice, with a hash for every cut. -/
theorem subproof_zero_ne_nil {leaves : List H} (h : leaves ≠ []) (b : Bool) :
    subproof S 0 leaves b ≠ some [] := by
  have hlen : 0 ≠ leaves.length := fun hzero => h (List.length_eq_zero_iff.mp hzero.symm)
  rw [subproof, if_neg hlen]
  simp

end Agree

end Tools
end Pzdr
