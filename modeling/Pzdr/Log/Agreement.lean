import Pzdr.Hex
import Pzdr.Log.Consistency
import Pzdr.Sdk.Transparency
import Pzdr.Sha256

/-!
# Log.Agreement

When the three consistency verifiers give one verdict. They differ in two places: the auditor's tool
reads the first hash of an empty list (`IndexError`), and the SDK tests the first size for a power of
two on its last 32 bits.

`verifyConsistency_agree_iff` says for which sizes they agree on every proof.
-/

namespace Pzdr
namespace Log

/-! ## The test on 32 bits -/

/-- What the SDK takes for a power of two, is one. -/
def TestsRight (m : Nat) : Prop :=
  m % 2 ^ 32 = 0 ∨ (m % 2 ^ 32).isPowerOfTwo → m.isPowerOfTwo

theorem isPowerOfTwoTest_iff {m : Nat} (hpos : 0 < m) :
    Sdk.isPowerOfTwoTest m = true ↔ m % 2 ^ 32 = 0 ∨ (m % 2 ^ 32).isPowerOfTwo := by
  have hpred : (m : Int) - 1 = ((m - 1 : Nat) : Int) := by omega
  have hand : Sdk.isPowerOfTwoTest m = true ↔ (m % 2 ^ 32) &&& ((m - 1) % 2 ^ 32) = 0 := by
    rw [Sdk.isPowerOfTwoTest, hpred, BitVec.ofInt_natCast, BitVec.ofInt_natCast, beq_iff_eq,
      ← BitVec.toNat_inj, BitVec.toNat_and, BitVec.toNat_ofNat, BitVec.toNat_ofNat]
    rfl
  rw [hand]
  by_cases hzero : m % 2 ^ 32 = 0
  · rw [hzero, Nat.zero_and]
    exact iff_of_true rfl (.inl rfl)
  · have hlow : (m - 1) % 2 ^ 32 = m % 2 ^ 32 - 1 := by omega
    rw [hlow, Nat.and_sub_one_eq_zero_iff_isPowerOfTwo hzero, or_iff_right hzero]

/-- A power of two passes the test. -/
theorem isPowerOfTwoTest_of_isPowerOfTwo {m : Nat} (h : m.isPowerOfTwo) :
    Sdk.isPowerOfTwoTest m = true := by
  rw [isPowerOfTwoTest_iff (Nat.pos_of_isPowerOfTwo h)]
  obtain ⟨k, rfl⟩ := h
  rcases Nat.lt_or_ge k 32 with hk | hk
  · right
    rw [Nat.mod_eq_of_lt (Nat.pow_lt_pow_right (by omega) hk)]
    exact ⟨k, rfl⟩
  · left
    exact Nat.mod_eq_zero_of_dvd (Nat.pow_dvd_pow 2 hk)

theorem testsRight_iff {m : Nat} (hpos : 0 < m) :
    TestsRight m ↔ (Sdk.isPowerOfTwoTest m = true ↔ m.isPowerOfTwo) := by
  rw [TestsRight, ← isPowerOfTwoTest_iff hpos]
  constructor
  · intro h
    exact ⟨h, isPowerOfTwoTest_of_isPowerOfTwo⟩
  · intro h
    exact h.mp

/-! ## The SDK's verdict -/

theorem length_of_mapM {α β : Type*} {f : α → Option β} {xs : List α} {ys : List β}
    (h : xs.mapM f = some ys) : xs.length = ys.length := by
  induction xs generalizing ys with
  | nil =>
    cases h
    rfl
  | cons x xs ih =>
    simp only [List.mapM_cons, Option.bind_eq_bind, Option.bind_eq_some_iff] at h
    obtain ⟨y, _, ys, hys, h⟩ := h
    cases h
    rw [List.length_cons, List.length_cons, ih hys]

section Sdk

variable {H : Type} [DecidableEq H] {S : LogHash H} {hexToBytes : String → Option H} {m n : Nat}
  {r1 r2 : H} {hex1 hex2 : String} {proof : List H} {proofHex : List String}

theorem sdk_easy (h1 : hexToBytes hex1 = some r1) (h2 : hexToBytes hex2 = some r2)
    (hp : proofHex.mapM hexToBytes = some proof) (h : ¬ (0 < m ∧ m < n)) :
    Sdk.verifyConsistency S hexToBytes m hex1 n hex2 proofHex =
      some (easyVerdict m r1 n r2 proof) := by
  have hempty : proofHex.isEmpty = proof.isEmpty := by
    rw [Bool.eq_iff_iff, List.isEmpty_iff_length_eq_zero, List.isEmpty_iff_length_eq_zero,
      length_of_mapM hp]
  unfold Sdk.verifyConsistency easyVerdict
  simp only [h1, h2, Option.bind_eq_bind, Option.bind_some, hempty]
  by_cases hgt : m > n
  · rw [if_pos (by omega), if_pos hgt]
    rfl
  rw [if_neg (by omega), if_neg hgt]
  by_cases heq : m = n
  · rw [if_pos (by omega), if_pos heq]
    rfl
  · rw [if_neg (by omega), if_neg heq, if_pos (by omega)]
    rfl

theorem sdk_walk (h1 : hexToBytes hex1 = some r1) (h2 : hexToBytes hex2 = some r2)
    (hp : proofHex.mapM hexToBytes = some proof) (hpos : 0 < m) (hmn : m < n) :
    Sdk.verifyConsistency S hexToBytes m hex1 n hex2 proofHex =
      some (walkVerdict S m r1 n r2
        (if Sdk.isPowerOfTwoTest m then r1 :: proof else proof)) := by
  unfold Sdk.verifyConsistency
  simp only [h1, h2, hp, Option.bind_eq_bind, Option.bind_some]
  rw [if_neg (by omega), if_neg (by omega), if_neg (by omega)]
  cases (if Sdk.isPowerOfTwoTest m then r1 :: proof else proof) with
  | nil => rfl
  | cons x pr =>
    simp only [signedWalk_eq S _ hpos hmn, walkVerdict]
    cases Merkle.walkStrict (Merkle.combine2 S.nodeHash) (Merkle.skip (m - 1) (n - 1)).1
      (Merkle.skip (m - 1) (n - 1)).2 pr (x, x) <;> simp [beq_eq_decide]

end Sdk

/-! ## Agreement -/

/-- All three verifiers return, with one verdict. -/
def Agree (sha : Sha256) (m : Nat) (r1 : Bytes) (n : Nat) (r2 : Bytes) (proof : List Bytes) :
    Prop :=
  ∃ verdict, Enclave.verifyConsistency sha.log m r1 n r2 proof = verdict ∧
    Tools.verifyConsistency sha.log m r1 n r2 proof = some verdict ∧
    Sdk.verifyConsistency sha.log Sdk.hexToBytes m (hexEncode r1) n (hexEncode r2)
      (proof.map hexEncode) = some verdict

variable {sha : Sha256} {m n : Nat} {r1 r2 : Bytes} {proof : List Bytes}

theorem agree_easy (h1 : r1.length = 32) (h2 : r2.length = 32) (hp : ∀ x ∈ proof, x.length = 32)
    (h : ¬ (0 < m ∧ m < n)) : Agree sha m r1 n r2 proof :=
  ⟨_, enclave_easy h, tools_easy h, sdk_easy (Sdk.hexToBytes_hexEncode (ne_nil_of_length h1))
    (Sdk.hexToBytes_hexEncode (ne_nil_of_length h2)) (Sdk.mapM_hexToBytes (fun x hx => ne_nil_of_length (hp x hx))) h⟩

theorem agree_walk_iff (h1 : r1.length = 32) (h2 : r2.length = 32)
    (hp : ∀ x ∈ proof, x.length = 32) (hpos : 0 < m) (hmn : m < n) :
    Agree sha m r1 n r2 proof ↔ walkedHashes m r1 proof ≠ [] ∧
      walkVerdict sha.log m r1 n r2 (walkedHashes m r1 proof) =
        walkVerdict sha.log m r1 n r2 (if Sdk.isPowerOfTwoTest m then r1 :: proof else proof) := by
  rw [Agree, enclave_walk hpos hmn, tools_walk hpos hmn,
    sdk_walk (Sdk.hexToBytes_hexEncode (ne_nil_of_length h1))
      (Sdk.hexToBytes_hexEncode (ne_nil_of_length h2)) (Sdk.mapM_hexToBytes (fun x hx => ne_nil_of_length (hp x hx))) hpos hmn]
  by_cases hnil : walkedHashes m r1 proof = []
  · simp [hnil]
  · rw [if_neg hnil, and_iff_right hnil]
    constructor
    · rintro ⟨verdict, rfl, _, hsdk⟩
      exact (Option.some.inj hsdk).symm
    · intro heq
      exact ⟨_, rfl, rfl, congrArg some heq.symm⟩

/-- The verdicts differ on the honest proof between two sizes of which the SDK takes the first for a
power of two: it walks along one hash more than there are steps. -/
theorem exists_not_agree (sha : Sha256) (hpos : 0 < m) (hmn : m < n) (h : ¬ TestsRight m) :
    ∃ r1 r2 proof, r1.length = 32 ∧ r2.length = 32 ∧ (∀ x ∈ proof, x.length = 32) ∧
      proof ≠ [] ∧ ¬ Agree sha m r1 n r2 proof := by
  rw [testsRight_iff hpos] at h
  have htest : Sdk.isPowerOfTwoTest m = true ∧ ¬ m.isPowerOfTwo := by
    constructor
    · by_contra hfalse
      exact h ⟨fun ht => absurd ht hfalse, isPowerOfTwoTest_of_isPowerOfTwo⟩
    · intro hpow
      exact h ⟨fun _ => hpow, isPowerOfTwoTest_of_isPowerOfTwo⟩
  let leaves := List.replicate n sha.log.emptyHash
  have hdigest : ∀ x ∈ leaves, x.length = 32 := by
    intro x hx
    rw [(List.mem_replicate.mp hx).2]
    exact sha.length_hash _
  have hroot : ∀ {ls : List Bytes}, (∀ x ∈ ls, x.length = 32) →
      (Enclave.mth sha.log ls).length = 32 := by
    intro ls hls
    rw [Enclave.mth_eq_root]
    exact Merkle.root_of_forall (P := fun x : Bytes => x.length = 32) _ _ (sha.length_hash _)
      sha.length_nodeHash hls
  have hlen : leaves.length = n := List.length_replicate
  have hsub := Enclave.subproof_of_forall (P := fun x : Bytes => x.length = 32) sha.log
    (sha.length_hash _) sha.length_nodeHash hdigest m true
  have hwalk := consistencyPath_accepted sha.log ⟨leaves⟩ hpos (by rw [hlen]; exact hmn)
  simp only [hlen] at hwalk
  have hprefix : ∀ x ∈ leaves.take m, x.length = 32 :=
    fun x hx => hdigest x (List.mem_of_mem_take hx)
  have hr1 := hroot hprefix
  have hr2 := hroot hdigest
  obtain ⟨x, pr, hlist, hw⟩ := hwalk
  have hwalked : walkedHashes m (Enclave.mth sha.log (leaves.take m))
      (Enclave.subproof sha.log m leaves true) = Enclave.subproof sha.log m leaves true := by
    rw [walkedHashes, if_neg htest.2]
  have hproof : Enclave.subproof sha.log m leaves true = x :: pr := hwalked.symm.trans hlist
  refine ⟨_, _, _, hr1, hr2, hsub, by rw [hproof]; exact List.cons_ne_nil _ _, ?_⟩
  rw [agree_walk_iff hr1 hr2 hsub hpos hmn, if_pos htest.1, hwalked]
  rintro ⟨_, heq⟩
  rw [walkVerdict_iff.mpr ⟨x, pr, hproof, hw⟩, eq_comm, walkVerdict_iff] at heq
  obtain ⟨_, _, hcons, hw'⟩ := heq
  obtain ⟨_, rfl⟩ := List.cons.inj hcons
  have h1 := ((Merkle.walk2_some_iff _ hpos hmn).mp hw).1
  have h2 := ((Merkle.walk2_some_iff _ hpos hmn).mp hw').1
  rw [hproof, List.length_cons] at h2
  omega

theorem walkedHashes_eq_nil (m : Nat) (r : Bytes) (proof : List Bytes) :
    walkedHashes m r proof = [] ↔ ¬ m.isPowerOfTwo ∧ proof = [] := by
  rw [walkedHashes]
  by_cases hp : m.isPowerOfTwo
  · simp [hp]
  · simp [hp]

/-- On the same list of hashes the verdicts are the same. -/
theorem agree_of_testsRight (h1 : r1.length = 32) (h2 : r2.length = 32)
    (hp : ∀ x ∈ proof, x.length = 32) (h : m = 0 ∨ n ≤ m ∨ TestsRight m)
    (hne : m = 0 ∨ n ≤ m ∨ m.isPowerOfTwo ∨ proof ≠ []) : Agree sha m r1 n r2 proof := by
  by_cases hwalk : 0 < m ∧ m < n
  · obtain ⟨hpos, hmn⟩ := hwalk
    have htest : TestsRight m := by
      rcases h with h | h | h
      · omega
      · omega
      · exact h
    rw [testsRight_iff hpos] at htest
    rw [agree_walk_iff h1 h2 hp hpos hmn, ne_eq, walkedHashes_eq_nil, walkedHashes]
    constructor
    · rintro ⟨hpow, hnil⟩
      rcases hne with h | h | h | h
      · omega
      · omega
      · exact hpow h
      · exact h hnil
    · by_cases hpow : m.isPowerOfTwo
      · rw [if_pos hpow, if_pos (htest.mpr hpow)]
      · rw [if_neg hpow, if_neg (fun ht => hpow (htest.mp ht))]
  · exact agree_easy h1 h2 hp hwalk

theorem testsRight_of_isPowerOfTwo (h : m.isPowerOfTwo) : TestsRight m := fun _ => h

/-- For the empty proof and for the others: the sizes between which all three verifiers agree. -/
theorem verifyConsistency_agree_iff (sha : Sha256) (m n : Nat) :
    (∀ r1 r2, r1.length = 32 → r2.length = 32 →
      (Agree sha m r1 n r2 [] ↔ m = 0 ∨ n ≤ m ∨ m.isPowerOfTwo)) ∧
    ((∀ r1 r2 proof, r1.length = 32 → r2.length = 32 → (∀ x ∈ proof, x.length = 32) →
      proof ≠ [] → Agree sha m r1 n r2 proof) ↔ m = 0 ∨ n ≤ m ∨ TestsRight m) := by
  constructor
  · intro r1 r2 h1 h2
    constructor
    · intro h
      by_contra hcon
      have hwalk : 0 < m ∧ m < n := by omega
      rw [agree_walk_iff h1 h2 (by simp) hwalk.1 hwalk.2, ne_eq, walkedHashes_eq_nil] at h
      exact h.1 ⟨fun hpow => hcon (.inr (.inr hpow)), rfl⟩
    · intro h
      refine agree_of_testsRight h1 h2 (by simp) ?_ ?_
      · exact h.imp_right (Or.imp_right testsRight_of_isPowerOfTwo)
      · exact h.imp_right (Or.imp_right .inl)
  · constructor
    · intro h
      by_contra hcon
      have hwalk : 0 < m ∧ m < n := by omega
      obtain ⟨r1, r2, proof, h1, h2, hp, hne, hnot⟩ :=
        exists_not_agree sha hwalk.1 hwalk.2 (fun ht => hcon (.inr (.inr ht)))
      exact hnot (h r1 r2 proof h1 h2 hp hne)
    · intro h r1 r2 proof h1 h2 hp hne
      exact agree_of_testsRight h1 h2 hp h (.inr (.inr (.inr hne)))

/-- The auditor's tool raises on the empty proof from size 3 to size 4, and the SDK rejects an honest
proof from size `2 ^ 32 + 1`. -/
theorem verifyConsistency_disagree :
    ¬ Agree .firstBytes 3 (List.replicate 32 0) 4 (List.replicate 32 0) [] ∧
    ∃ r1 r2 proof, r1.length = 32 ∧ r2.length = 32 ∧ (∀ x ∈ proof, x.length = 32) ∧
      proof ≠ [] ∧ ¬ Agree .firstBytes (2 ^ 32 + 1) r1 (2 ^ 32 + 2) r2 proof := by
  constructor
  · rw [agree_walk_iff List.length_replicate List.length_replicate (by simp) (by omega) (by omega),
      ne_eq, walkedHashes_eq_nil]
    rintro ⟨hne, _⟩
    exact hne ⟨by decide, rfl⟩
  · refine exists_not_agree .firstBytes (by omega) (by omega) ?_
    intro htest
    have hpow : (2 ^ 32 + 1).isPowerOfTwo := htest (.inr ⟨0, rfl⟩)
    exact absurd hpow (by decide)

end Log
end Pzdr
