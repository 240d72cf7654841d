import Pzdr.Audit.Auditor
import Pzdr.Log.Digests
import Pzdr.Tools.Generate

/-!
# Audit.Bundle

What the transitions of a passed bundle say about the log of its signed checkpoint. The command
checks every transition on its own and compares none of them with the checkpoint.

`verifyBundle_append_only_iff`: in a passed bundle every transition leads from a prefix of the log to
its signed head exactly if every transition ends at the checkpoint's size and root, starts at a size
that is not negative, with the empty root for size zero, and walks from a digest.
`verifyBundle_append_only_unrelated` is a passed bundle about an empty log and a transition between
trees that nobody has signed.
-/

namespace Pzdr
namespace Audit

open Enclave (Message Platform State samplePlatform)
open Log
open Tools (consistencyItem fromhexOf iterate asInt)
open Tools.Platform (readTransition)

/-- The transition leads from a prefix of the log to its head. -/
def AppendOnly (sha : Sha256) (log : List Bytes) (t : Json) : Prop :=
  ∃ r, readTransition t = some r ∧ r.secondSize = log.length ∧ r.secondRoot = headOf sha log ∧
    ∃ m : Nat, r.firstSize = m ∧ m ≤ log.length ∧ r.firstRoot = headOf sha (log.take m)

/-- The transition ends at this size and root, and has a start. -/
def Linked (sha : Sha256) (size : Int) (root : Bytes) (t : Json) : Prop :=
  ∃ r, readTransition t = some r ∧ r.secondSize = size ∧ r.secondRoot = root ∧
    0 ≤ r.firstSize ∧ (r.firstSize = 0 → r.firstRoot = sha.hash []) ∧
    (0 < r.firstSize → r.firstSize < r.secondSize →
      StartsAtDigest r.firstSize.toNat r.firstRoot r.proof)

/-- The inputs hashed for a transition and for the prefix of the log of its first size. -/
def transitionInputs (sha : Sha256) (log : List Bytes) (t : Json) : List Bytes :=
  match readTransition t with
  | some r => walkInputs sha r.firstSize.toNat r.firstRoot log.length r.proof ++
      sha.treeInputs (log.take r.firstSize.toNat)
  | none => []

variable {T : Tools.Platform} {log : List Bytes} {t : Json}

theorem appendOnly_iff (hok : T.consistencyOk t = some true)
    (hc : T.sha.CollisionFreeOn (transitionInputs T.sha log t ++ T.sha.treeInputs log)) :
    AppendOnly T.sha log t ↔ Linked T.sha log.length (headOf T.sha log) t := by
  obtain ⟨⟨first, firstRoot, second, secondRoot, proof⟩, hr, hverify⟩ :=
    Option.bind_eq_some_iff.mp hok
  rw [transitionInputs, hr] at hc
  simp only [AppendOnly, Linked, hr, Option.some.injEq, exists_eq_left']
  refine and_congr_right fun hsize => and_congr_right fun hroot => ?_
  dsimp only at hverify hsize hroot hc
  subst hsize hroot
  by_cases hneg : first < 0
  · -- a negative size is no size of a prefix
    simp only [not_le.mpr hneg, false_and, iff_false]
    rintro ⟨m, rfl, _⟩
    omega
  obtain ⟨m, rfl⟩ := Int.eq_ofNat_of_zero_le (not_lt.mp hneg)
  rw [tools_verifyConsistency_iff] at hverify
  rw [Int.toNat_natCast] at hc ⊢
  have hcast : ∀ m' : Nat, (m : Int) = m' ↔ m = m' := fun m' => Int.natCast_inj
  simp only [hcast, exists_eq_left']
  rcases hverify with ⟨rfl, rfl, _⟩ | ⟨rfl, hpos⟩ | ⟨hpos, hlt, hwalk⟩
  · -- both ends are the head
    have hempty : log.length = 0 → headOf T.sha log = T.sha.hash [] := by
      intro h
      rw [List.length_eq_zero_iff.mp h]
      exact Merkle.root_nil _ _
    rw [List.take_length]
    refine iff_of_true ⟨le_refl _, rfl⟩ ⟨by omega, ?_, ?_⟩
    · intro h
      exact hempty (by omega)
    · intro _ h
      omega
  · have hempty : headOf T.sha (log.take 0) = T.sha.hash [] := Merkle.root_nil _ _
    rw [hempty]
    constructor
    · rintro ⟨_, hroot⟩
      exact ⟨by omega, fun _ => hroot, fun h => by omega⟩
    · rintro ⟨_, hroot, _⟩
      exact ⟨by omega, hroot rfl⟩
  · have hiff := walkAccepts_iff hpos hlt hc hwalk
    constructor
    · rintro ⟨_, hroot⟩
      exact ⟨by omega, fun h => by omega, fun _ _ => hiff.mp hroot⟩
    · rintro ⟨_, _, hstart⟩
      exact ⟨by omega, hiff.mpr (hstart (by omega) (by omega))⟩

/-- All that is hashed for the transitions and for the log. -/
def bundleInputs (sha : Sha256) (log : List Bytes) (items : List Json) : List Bytes :=
  items.flatMap (transitionInputs sha log) ++ sha.treeInputs log

/-- Size and root of the bundle's checkpoint. -/
def signedHead (bundle : Json) : Option (Int × Bytes) := do
  let cp ← bundle.get? "checkpoint"
  let root ← fromhexOf (← cp.get? "root_hex")
  let size ← asInt (← cp.get? "size")
  return (size, root)

/-- The transition ends at the bundle's checkpoint and has a start. -/
def LinkedTo (sha : Sha256) (bundle t : Json) : Prop :=
  ∃ size root, signedHead bundle = some (size, root) ∧ Linked sha size root t

theorem verifyBundle_append_only_iff (T : Tools.Platform) (bundle : Json) (log : List Bytes)
    (items : List Json) (hpass : T.cmdVerifyBundle bundle = some true)
    (hhead : signedHead bundle = some ((log.length : Int), headOf T.sha log))
    (hitems : (bundle.get? "consistency").bind iterate = some items)
    (hsha : T.sha.CollisionFreeOn (bundleInputs T.sha log items)) :
    (∀ t ∈ items, AppendOnly T.sha log t) ↔ ∀ t ∈ items, LinkedTo T.sha bundle t := by
  obtain ⟨items', hitems', hall⟩ := Tools.Platform.cmdVerifyBundle_consistency hpass
  rw [hitems, Option.some.injEq] at hitems'
  subst hitems'
  refine forall₂_congr fun t ht => ?_
  rw [appendOnly_iff (hall t ht) (hsha.mono ?_), LinkedTo, hhead]
  · simp
  · intro x hx
    rcases List.mem_append.mp hx with hx | hx
    · exact List.mem_append_left _ (List.mem_flatMap.mpr ⟨t, ht, hx⟩)
    · exact List.mem_append_right _ hx

/-! ## Reading a bundle -/

theorem fromhexOf_hexEncode (bs : Bytes) : fromhexOf (.str (hexEncode bs)) = some bs :=
  Tools.fromhex_hexEncode bs

/-- The hashes of a path, written and read. -/
theorem iterate_hashes (hashes : List Bytes) :
    (iterate (.arr ((hashes.map hexEncode).map .str))).bind (fun xs => xs.mapM fromhexOf) =
      some hashes := by
  rw [List.map_map]
  exact mapM_fromhexOf hashes

theorem readTransition_consistencyItem (m n : Nat) (firstRoot secondRoot : Bytes)
    (hashes : List Bytes) :
    readTransition (consistencyItem m (hexEncode firstRoot) n (hexEncode secondRoot)
      (hashes.map hexEncode)) = some ⟨m, firstRoot, n, secondRoot, hashes⟩ := by
  have hfrom : (consistencyItem m (hexEncode firstRoot) n (hexEncode secondRoot)
      (hashes.map hexEncode)).get? "from" =
        some (.obj [("size", .num m), ("root_hex", .str (hexEncode firstRoot))]) := rfl
  have hto : (consistencyItem m (hexEncode firstRoot) n (hexEncode secondRoot)
      (hashes.map hexEncode)).get? "to" =
        some (.obj [("size", .num n), ("root_hex", .str (hexEncode secondRoot))]) := rfl
  have hproof : (consistencyItem m (hexEncode firstRoot) n (hexEncode secondRoot)
      (hashes.map hexEncode)).get? "proof" = some (.arr ((hashes.map hexEncode).map .str)) := rfl
  have hsize : ∀ (size : Int) (root : Json),
      (Json.obj [("size", .num size), ("root_hex", root)]).get? "size" = some (.num size) :=
    fun _ _ => rfl
  have hroot : ∀ (size : Json) (root : Bytes),
      (Json.obj [("size", size), ("root_hex", .str (hexEncode root))]).get? "root_hex" =
        some (.str (hexEncode root)) := fun _ _ => rfl
  have hhashes := iterate_hashes hashes
  rw [iterate, Option.bind_some] at hhashes
  unfold readTransition
  rw [hfrom, hto, hproof]
  simp only [Option.bind_eq_bind, Option.bind_some, iterate, hhashes, hsize, hroot, asInt,
    fromhexOf_hexEncode, Option.pure_def]

/-! ## Two bundles

The enclave has signed one head, and the bundle lists one transition and no entries. -/

section Sample

variable (size : Nat) (root : Bytes)

def sampleBundle (t : Json) : Json := .obj [
  ("proof_verifier_key_hex", .str (hexEncode (samplePlatform []).proofPk)),
  ("checkpoint", ((samplePlatform []).signCheckpoint size root 1).toJson),
  ("inclusions", .arr []),
  ("consistency", .arr [t])]

/-- An enclave that has signed this head. -/
def sampleState : State :=
  ⟨0, .new, [], [], [.checkpoint .ledgerRoot (Platform.checkpointStatement size root 1)]⟩

def sampleAuditor : Tools.Platform := sampleTool ((sampleState size root).signed.map Message.bytes)

variable {size root} {t : Json}

theorem sampleBundle_checkpoint : (sampleBundle size root t).get? "checkpoint" =
    some ((samplePlatform []).signCheckpoint size root 1).toJson := rfl

theorem sampleBundle_key : Tools.dictGet (sampleBundle size root t) "proof_verifier_key_hex" =
    some (.str (hexEncode (samplePlatform []).proofPk)) := rfl

theorem sampleBundle_inclusions :
    (sampleBundle size root t).get? "inclusions" = some (.arr []) := rfl

theorem sampleBundle_root : ((samplePlatform []).signCheckpoint size root 1).toJson.get? "root_hex" =
    some (.str (hexEncode root)) :=
  signCheckpoint_get? rfl

theorem signedHead_sample : signedHead (sampleBundle size root t) = some ((size : Int), root) := by
  have hsize : ((samplePlatform []).signCheckpoint size root 1).toJson.get? "size" =
      some (.num size) := signCheckpoint_get? rfl
  simp only [signedHead, sampleBundle_checkpoint, Option.bind_eq_bind, Option.bind_some,
    sampleBundle_root, fromhexOf_hexEncode, hsize, asInt, Option.pure_def]

theorem pyOr_sample (key : Json) : Tools.pyOr (.str (hexEncode (samplePlatform []).proofPk)) key =
    .str (hexEncode (samplePlatform []).proofPk) :=
  if_pos (truthy_key (@sample_toolReads [] .boot))

theorem checkCheckpointSignature_sample : (sampleAuditor size root).checkCheckpointSignature
    ((samplePlatform []).signCheckpoint size root 1).toJson
    (.str (hexEncode (samplePlatform []).proofPk)) = some true := by
  have hsigned : Message.checkpoint .ledgerRoot (Platform.checkpointStatement size root 1) ∈
      (sampleState size root).signed := List.mem_cons_self
  exact checkCheckpointSignature_signCheckpoint (sample_toolReads (sampleState size root)) hsigned

theorem cmdVerifyInclusion_sample :
    (sampleAuditor size root).cmdVerifyInclusion (sampleBundle size root t)
      (.str (hexEncode (samplePlatform []).proofPk)) = some true := by
  refine (Tools.Platform.cmdVerifyInclusion_eq sampleBundle_checkpoint sampleBundle_root
    (fromhexOf_hexEncode _) sampleBundle_key sampleBundle_inclusions rfl).trans ?_
  rw [pyOr_sample, checkCheckpointSignature_sample]
  rfl

theorem cmdVerifyConsistency_sample (h : (sampleAuditor size root).consistencyOk t = some true) :
    (sampleAuditor size root).cmdVerifyConsistency (sampleBundle size root t) = some true := by
  have htransitions : (sampleBundle size root t).get? "consistency" = some (.arr [t]) := rfl
  unfold Tools.Platform.cmdVerifyConsistency
  simp only [htransitions, Option.bind_eq_bind, Option.bind_some, iterate,
    Tools.Platform.allOk_iff]
  exact ⟨trivial, by simpa using h⟩

theorem cmdVerifyBundle_sample (h : (sampleAuditor size root).consistencyOk t = some true) :
    (sampleAuditor size root).cmdVerifyBundle (sampleBundle size root t) = some true := by
  have hpolicy : (sampleAuditor size root).policyOk (sampleBundle size root t) [] = some true := rfl
  have hattestation : Tools.Platform.attestationOk (sampleBundle size root t) []
      (.str (hexEncode (samplePlatform []).proofPk)) = some true := rfl
  exact Tools.Platform.cmdVerifyBundle_of sampleBundle_key sampleBundle_inclusions rfl rfl
    cmdVerifyInclusion_sample (cmdVerifyConsistency_sample h) hpolicy hattestation

end Sample

/-- Nobody has signed the trees of the transition, and the signed log is empty. -/
theorem verifyBundle_append_only_unrelated : ∃ (auditor : Tools.Platform) (bundle t : Json),
    auditor.cmdVerifyBundle bundle = some true ∧ bundle.get? "consistency" = some (.arr [t]) ∧
    signedHead bundle = some (0, headOf auditor.sha []) ∧ ¬ AppendOnly auditor.sha [] t := by
  have hhead : headOf (samplePlatform []).sha [] = (samplePlatform []).sha.hash [] :=
    Merkle.root_nil _ _
  have hconsistency : (sampleAuditor 0 ((samplePlatform []).sha.hash [])).consistencyOk
      (consistencyItem 0 (hexEncode [0xFF]) 5 (hexEncode [0xAA]) ([].map hexEncode)) = some true := by
    unfold Tools.Platform.consistencyOk
    rw [readTransition_consistencyItem]
    rfl
  refine ⟨sampleAuditor 0 ((samplePlatform []).sha.hash []), _, _,
    cmdVerifyBundle_sample hconsistency, rfl, ?_, ?_⟩
  · rw [signedHead_sample, ← hhead]
    rfl
  · rintro ⟨r, hr, hsize, _⟩
    rw [readTransition_consistencyItem] at hr
    cases hr
    cases hsize

theorem second_collisionFree : Sha256.firstBytes.CollisionFreeOn [
    nodeInput (Sha256.firstBytes.log.leafHash [0x01], Sha256.firstBytes.log.leafHash [0x02]),
    [], leafInput [0x01], leafInput [0x02]] := by
  unfold Sha256.CollisionFreeOn
  decide

/-- The transition from the first entry of a log to its second one. -/
theorem verifyBundle_append_only_second : ∃ (auditor : Tools.Platform) (bundle t : Json),
    auditor.cmdVerifyBundle bundle = some true ∧ bundle.get? "consistency" = some (.arr [t]) ∧
    (∃ r, readTransition t = some r ∧ r.firstSize = 1 ∧ r.secondSize = 2) ∧
    AppendOnly auditor.sha [[0x01], [0x02]] t := by
  let sha := Sha256.firstBytes
  let leaf := sha.log.leafHash
  have hroot : headOf sha [[0x01], [0x02]] = sha.log.nodeHash (leaf [0x01]) (leaf [0x02]) :=
    Merkle.root_pair _ _ _ _
  generalize hroot' : sha.log.nodeHash (leaf [0x01]) (leaf [0x02]) = root at hroot
  obtain ⟨t, ht⟩ : ∃ t, consistencyItem 1 (hexEncode (leaf [0x01])) 2 (hexEncode root)
      ([leaf [0x02]].map hexEncode) = t := ⟨_, rfl⟩
  have hread : readTransition t = some ⟨1, leaf [0x01], 2, root, [leaf [0x02]]⟩ :=
    ht ▸ readTransition_consistencyItem 1 2 _ root _
  have hskip : Merkle.skip 0 1 = (0, 1) := Merkle.skip_even 1 rfl
  have hwalked : walkedHashes 1 (leaf [0x01]) [leaf [0x02]] = [leaf [0x01], leaf [0x02]] := rfl
  have hconsistency : (sampleAuditor 2 root).consistencyOk t = some true := by
    have hverify : Tools.verifyConsistency sha.log ((1 : Nat) : Int) (leaf [0x01]) ((2 : Nat) : Int)
        root [leaf [0x02]] = some true := by
      refine (tools_verifyConsistency_iff _).mpr (.inr (.inr ⟨by decide, by decide, _, _, hwalked, ?_⟩))
      rw [← hroot', Nat.sub_self, hskip]
      rfl
    unfold Tools.Platform.consistencyOk
    rw [hread]
    exact hverify
  have hpass := cmdVerifyBundle_sample hconsistency
  refine ⟨sampleAuditor 2 root, _, t, hpass, rfl, ⟨_, hread, rfl, rfl⟩, ?_⟩
  refine List.forall_mem_singleton.mp ((verifyBundle_append_only_iff (sampleAuditor 2 root) _
    [[0x01], [0x02]] [t] hpass ?_ rfl ?_).mpr ?_)
  · rw [signedHead_sample, ← hroot]
    rfl
  · have hpairs : Merkle.walk2Pairs sha.log.nodeHash 0 1 [leaf [0x02]] (leaf [0x01]) =
        [(leaf [0x01], leaf [0x02])] := rfl
    refine second_collisionFree.mono ?_
    show bundleInputs sha [[0x01], [0x02]] [t] ⊆ _
    simp [bundleInputs, transitionInputs, hread, walkInputs, hwalked, hskip, hpairs,
      Sha256.treeInputs_pair, Sha256.treeInputs_singleton]
    exact ⟨.inl rfl, .inl rfl⟩
  · intro t' ht'
    rw [List.mem_singleton.mp ht']
    refine ⟨2, root, signedHead_sample, _, hread, rfl, rfl, Int.one_nonneg, ?_, ?_⟩
    · intro h
      cases h
    · intro _ _ x hx
      have hx : x ∈ (walkedHashes 1 (leaf [0x01]) [leaf [0x02]]).head? := hx
      rw [hwalked] at hx
      obtain rfl : leaf [0x01] = x := Option.some.inj (Option.mem_def.mp hx)
      exact Sha256.length_leafHash _ _

end Audit
end Pzdr
