import Pzdr.Audit.Answer

/-!
# Audit.Receipt

What an accepted receipt says about the enclave's ledger.

`verifyReceipt_recorded`: in every run, if `verifyReceipt` accepts a proof and a receipt with a
natural index, the ledger has the checkpoint's size and more, and its entry at that index is this
proof, appended for one of the run's requests.
-/

namespace Pzdr
namespace Audit

open Enclave
open Platform (entryBytes)
open Sdk (prop verifyReceipt receiptInputs entryBytesOf JsVal)

/-- The inputs hashed for the heads of the ledger of this state, and of its earlier states. -/
def hashedInputs (P : Platform) (s : State) : List Bytes :=
  (List.range (s.entries.length + 1)).flatMap
    (fun k => P.sha.treeInputs ((s.entries.take k).map entryBytes))

variable {P : Platform} {D : Sdk.Platform} {s : State}

theorem treeInputs_subset {k : Nat} (h : k ≤ s.entries.length) :
    P.sha.treeInputs ((s.entries.take k).map entryBytes) ⊆ hashedInputs P s := by
  intro x hx
  exact List.mem_flatMap.mpr ⟨k, List.mem_range.mpr (by omega), hx⟩

theorem leafInput_mem_hashedInputs {e : SignedProof} (h : e ∈ s.entries) :
    leafInput (entryBytes e) ∈ hashedInputs P s := by
  apply treeInputs_subset (Nat.le_refl _)
  rw [List.take_length]
  exact List.mem_append_left _ (List.mem_cons_of_mem _
    (List.mem_map_of_mem (List.mem_map_of_mem h)))

/-- The head of `size` leaves is the head of the first `size` entries. -/
theorem rootAt_entries (h : Consistent P s) {size : Nat} {root : Bytes}
    (hroot : s.ledger.rootAt P.sha.log size = some root) :
    size ≤ s.entries.length ∧ root = Merkle.root P.sha.log.nodeHash P.sha.log.emptyHash
      (((s.entries.take size).map entryBytes).map P.sha.log.leafHash) := by
  have hle := TransparencyLog.le_size_of_rootAt _ hroot
  rw [TransparencyLog.size, h.leaves, List.length_map] at hle
  refine ⟨hle, ?_⟩
  rw [TransparencyLog.rootAt, h.leaves, List.length_map, if_pos hle, Option.some.injEq,
    mth_eq_root] at hroot
  rw [← hroot, List.map_map, ← List.map_take]
  rfl

/-- The walk from an accepted receipt to a signed head of the ledger: it starts at the leaf of the
entry with this index. -/
theorem leafHash_eq_of_walk (h : Consistent P s) {size index : Nat} {entry root : Bytes}
    {path : List Bytes} (hroot : s.ledger.rootAt P.sha.log size = some root) (hi : index < size)
    (hsha : P.sha.CollisionFreeOn ((Merkle.walkPairs P.sha.log.nodeHash index (size - 1) path
      (P.sha.log.leafHash entry)).map nodeInput ++ hashedInputs P s))
    (hwalk : Merkle.walk (Merkle.combine P.sha.log.nodeHash) index (size - 1) path
      (P.sha.log.leafHash entry) = (root, 0)) :
    ∃ e, s.entries[index]? = some e ∧
      P.sha.log.leafHash entry = P.sha.log.leafHash (entryBytes e) := by
  obtain ⟨hle, rfl⟩ := rootAt_entries h hroot
  have hlen : ((s.entries.take size).map entryBytes).length = size := by
    rw [List.length_map, List.length_take, Nat.min_eq_left hle]
  have hbinds := P.sha.binds (hsha.mono (List.append_subset.mpr ⟨List.subset_append_left _ _,
    List.Subset.trans (treeInputs_subset hle) (List.subset_append_right _ _)⟩))
    (P.sha.walkPairs_hasDigest _ _ path (P.sha.length_leafHash entry))
  generalize hes : (s.entries.take size).map entryBytes = es at hlen hbinds hwalk
  rw [← hlen] at hi hbinds hwalk
  obtain ⟨hleaf, _⟩ := Log.walk_sound hi hbinds hwalk
  subst hes
  rw [List.getElem_map, List.getElem_take] at hleaf
  exact ⟨_, List.getElem?_eq_getElem _, hleaf⟩

theorem verifyReceipt_recorded (P : Platform) (D : Sdk.Platform) {es : List Event} {s : State}
    (hrun : Run P.step State.boot es s) (hunf : Unforgeable P D s) {proof receipt keyHex : JsVal}
    {index : Nat} (hkey : D.fromHex keyHex = some P.proofPk)
    (hsha : P.sha.CollisionFreeOn (receiptInputs P.sha proof receipt ++ hashedInputs P s))
    (hindex : prop receipt "index" = some (some (.num index)))
    (hv : verifyReceipt P.sha D proof receipt keyHex = some true) :
    (∃ size : Nat, ((prop receipt "checkpoint").bind fun c => prop c "size") =
        some (some (.num size)) ∧ size ≤ s.ledger.size) ∧
    s.ledger.leafAt index = some (P.sha.log.leafHash (entryBytesOf proof)) ∧
    ∃ e, s.entries[index]? = some e ∧ entryBytes e = entryBytesOf proof ∧
      ∃ session ∈ s.sessions, session.Recorded e := by
  have h := reachable_consistent hrun
  obtain ⟨_, checkpoint, _, index', size, auditPath, rootHex, hcheckpoint, hsigned, _, _, hindex',
    hsize, hpath, hroot, hincl⟩ := Sdk.verifyReceipt_iff.mp hv
  obtain ⟨origin, c, hm, hsize', hroot', _⟩ := verifyCheckpoint_signed h hunf hkey hsigned
  rw [hindex, Option.some.injEq] at hindex'
  rw [hsize', Option.some.injEq] at hsize
  rw [hroot', Option.some.injEq] at hroot
  subst hindex' hsize hroot
  obtain ⟨root, hhead, hhex⟩ := h.heads origin c hm
  obtain ⟨hle, hrootEq⟩ := rootAt_entries h hhead
  obtain ⟨hashes, pathHex, rfl, hpathHex, hincl⟩ := Sdk.checkInclusion_num hincl
  obtain ⟨hlt, path, root', hp, hr, hwalk⟩ := (Sdk.verifyInclusion_iff _ _).mp hincl
  -- the root in the checkpoint is the one the walk ends at
  have hne : root ≠ [] := by
    rw [hrootEq]
    exact List.ne_nil_of_length_pos (by rw [P.sha.length_root]; decide)
  rw [hhex, Sdk.hexToBytes_hexEncode hne, Option.some.injEq] at hr
  subst hr
  rw [Sdk.receiptInputs_eq P.sha hcheckpoint hindex hsize' hpath hpathHex hp] at hsha
  obtain ⟨e, he, hleaf⟩ := leafHash_eq_of_walk h hhead hlt
    (hsha.mono (List.subset_cons_self _ _)) hwalk
  have hmem := List.mem_of_getElem? he
  have hinput := hsha _ (by simp) _ (List.mem_append_right _ (leafInput_mem_hashedInputs hmem)) hleaf
  have hbytes : entryBytes e = entryBytesOf proof := (List.cons.inj hinput).2.symm
  refine ⟨⟨c.size, by rw [hcheckpoint, Option.bind_some, hsize'], ?_⟩, ?_, e, he, hbytes,
    h.entries e hmem⟩
  · rw [← h.size_eq]
    exact hle
  · rw [TransparencyLog.leafAt, h.leaves, List.getElem?_map, he, Option.map_some, hbytes]

/-! ## Two requests -/

/-- A request, and then a malformed one. -/
def servedEvents (body : Bytes) : List Event := [
  .request body "demo", .fetchAdd 0, .signProof 0 1 [] [], .append 0 1 5,
  .request [] "acme", .fetchAdd 1, .signProof 1 2 [] [], .append 1 2 5]

/-- The proof of the malformed request. -/
def malformedProof (P : Platform) : SignedProof :=
  P.signProof (P.statement (P.decide []) "acme" 2 2 [] [])

/-- Its receipt. -/
def malformedReceipt (P : Platform) (root path : Bytes) : Json :=
  object [("index", .num (1 : Nat)),
    ("leaf_hash_hex", .str (hexEncode (P.sha.log.leafHash (entryBytes (malformedProof P))))),
    ("audit_path", Platform.encodeHashes [path]),
    ("checkpoint", (P.signCheckpoint (2 : Nat) root 2).toJson)]

theorem inclusion_pair (S : LogHash Bytes) (x y : Bytes) : inclusion S [x, y] 1 = [x] := by
  have hsplit : Merkle.split 2 = 1 := by decide
  rw [inclusion_node S (by simp)]
  simp [hsplit, inclusion, mth]

theorem servedEvents_run (P : Platform) (body : Bytes) : ∃ s proof receipt root,
    Run P.step State.boot (servedEvents body) s ∧
    proof = P.signProof (P.statement (P.decide body) "demo" 1 1 [] []) ∧
    s.entries = [proof, malformedProof P] ∧ s.sessions = [
      ⟨body, "demo", .done proof (Platform.response (P.decide body) proof receipt 5)⟩,
      ⟨[], "acme", .done (malformedProof P) (Platform.response (P.decide []) (malformedProof P)
        (malformedReceipt P root (P.sha.log.leafHash (entryBytes proof))) 5)⟩] := by
  obtain ⟨s, proof, receipt, root, hrun, hproof, hentries, hsessions⟩ :
      ∃ s proof receipt root, Run P.step State.boot (servedEvents body) s ∧
        proof = P.signProof (P.statement (P.decide body) "demo" 1 1 [] []) ∧
        s.entries = [proof, malformedProof P] ∧ s.sessions = [
          ⟨body, "demo", .done proof (Platform.response (P.decide body) proof receipt 5)⟩,
          ⟨[], "acme", .done (malformedProof P) (Platform.response (P.decide []) (malformedProof P)
            (object [("index", .num (1 : Nat)),
              ("leaf_hash_hex", .str (hexEncode (P.sha.log.leafHash (entryBytes (malformedProof P))))),
              ("audit_path", Platform.encodeHashes (inclusion P.sha.log s.ledger.leaves 1)),
              ("checkpoint", (P.signCheckpoint (2 : Nat) root 2).toJson)]) 5)⟩] :=
    ⟨_, _, _, _, Run.of_foldlM rfl, rfl, rfl, rfl⟩
  have hpath : inclusion P.sha.log s.ledger.leaves 1 = [P.sha.log.leafHash (entryBytes proof)] := by
    rw [(reachable_consistent hrun).leaves, hentries]
    exact inclusion_pair _ _ _
  rw [hpath] at hsessions
  exact ⟨s, proof, receipt, root, hrun, hproof, hentries, hsessions⟩

/-- Crates whose hash has a digest of its own for the entry of the malformed request. -/
def separatingPlatform : Platform :=
  { samplePlatform [] with
    sha := .firstBytesBut (leafInput (entryBytes (malformedProof (samplePlatform [])))) }

theorem brace_entryBytes (proof : SignedProof) : ∃ t, entryBytes proof = 0x7b :: t := by
  rw [entryBytes, canonicalJson_eq, SignedProof.toJson, object, canonicalBytes, canonicalText,
    Json.sortKeys_obj, Json.print_obj, Json.printRecord]
  exact ⟨_, rfl⟩

theorem malformedProof_separating :
    malformedProof separatingPlatform = malformedProof (samplePlatform []) := by
  have hpolicy : Policy.defaultV1.policyHash separatingPlatform.sha =
      Policy.defaultV1.policyHash (samplePlatform []).sha := by
    have hne : canonicalJson Policy.defaultV1.toJson ≠
        leafInput (entryBytes (malformedProof (samplePlatform []))) := by
      intro h
      have hhead : (canonicalJson Policy.defaultV1.toJson).head? = some 0x7b := by
        rw [canonicalJson_eq, Policy.toJson, object, canonicalBytes, canonicalText,
          Json.sortKeys_obj, Json.print_obj, Json.printRecord]
        rfl
      rw [h] at hhead
      cases hhead
    rw [Policy.policyHash, Policy.policyHash]
    exact congrArg hexEncode (Sha256.firstBytesBut_of_ne hne)
  have hdecide : (samplePlatform []).decide [] =
      .failed "malformed_request" "" "gateway" false := rfl
  have hdecide' : separatingPlatform.decide [] =
      .failed "malformed_request" "" "gateway" false := rfl
  simp only [malformedProof, Platform.signProof, hdecide, hdecide', Platform.statement,
    Platform.policyDecision, hpolicy]
  rfl

/-- Neither the entries of such a ledger nor the nodes above them collide. -/
theorem separating_collisionFree {proof : SignedProof} {node : Bytes × Bytes} {xs : List Bytes}
    (h : ∀ x ∈ xs, x = [] ∨ x = leafInput (entryBytes proof) ∨
      x = leafInput (entryBytes (malformedProof separatingPlatform)) ∨ x = nodeInput node) :
    separatingPlatform.sha.CollisionFreeOn xs := by
  rw [malformedProof_separating] at h
  generalize hx₀ : leafInput (entryBytes (malformedProof (samplePlatform []))) = x₀ at h
  have hsha : separatingPlatform.sha = .firstBytesBut x₀ := hx₀ ▸ rfl
  obtain ⟨t, ht⟩ := brace_entryBytes proof
  -- the digest of its own starts with a byte that no other one starts with
  have hhead : ∀ x ∈ xs, x ≠ x₀ → (Sha256.firstBytes.hash x).head? ≠ some 0xFF := by
    intro x hx hne
    rcases h x hx with rfl | rfl | rfl | rfl
    · decide
    · simp [Sha256.firstBytes, leafInput]
    · exact absurd rfl hne
    · simp [Sha256.firstBytes, nodeInput]
  rw [hsha]
  intro x hx y hy heq
  by_cases hxe : x = x₀ <;> by_cases hye : y = x₀
  · rw [hxe, hye]
  · rw [hxe, Sha256.firstBytesBut_self, Sha256.firstBytesBut_of_ne hye] at heq
    exact absurd (heq ▸ rfl) (hhead y hy hye)
  · rw [hye, Sha256.firstBytesBut_self, Sha256.firstBytesBut_of_ne hxe] at heq
    exact absurd (heq ▸ rfl) (hhead x hx hxe)
  · rw [Sha256.firstBytesBut_of_ne hxe, Sha256.firstBytesBut_of_ne hye] at heq
    rcases h x hx with rfl | rfl | rfl | rfl <;> rcases h y hy with rfl | rfl | rfl | rfl <;>
      first
      | rfl
      | exact absurd rfl hxe
      | exact absurd rfl hye
      | simp [Sha256.firstBytes, leafInput, nodeInput, ht] at heq

section Evidence

variable {P : Platform} {s : State}

theorem receiptInputs_malformed {root path : Bytes} (hpath : path ≠ []) :
    receiptInputs P.sha (some (malformedProof P).toJson) (some (malformedReceipt P root path)) =
      [leafInput (entryBytesOf (some (malformedProof P).toJson)), nodeInput (path,
        P.sha.log.leafHash (entryBytesOf (some (malformedProof P).toJson)))] := by
  rw [malformedReceipt, Sdk.receiptInputs_eq P.sha (prop_object (by simp) rfl)
    (prop_object (by simp) rfl) (prop_object (by simp) rfl) (prop_object (by simp) rfl) rfl
    (Sdk.mapM_hexToBytes (List.forall_mem_singleton.mpr hpath))]
  rfl

theorem hashedInputs_pair {proof proof' : SignedProof} (h : s.entries = [proof, proof']) :
    ∀ x ∈ hashedInputs P s, x = [] ∨ x = leafInput (entryBytes proof) ∨
      x = leafInput (entryBytes proof') ∨ x = nodeInput (P.sha.log.leafHash (entryBytes proof),
        P.sha.log.leafHash (entryBytes proof')) := by
  intro x hx
  rw [hashedInputs, h] at hx
  simp [List.range_succ, Sha256.treeInputs_singleton, Sha256.treeInputs_pair] at hx
  obtain hx | hx | hx := hx
  exacts [.inl hx, .inr (.inl hx), hx]

/-- What is hashed to serve the two requests, and to check the second receipt. -/
theorem evidence_collisionFree {proof : SignedProof} {root : Bytes}
    (h : Consistent separatingPlatform s)
    (hentries : s.entries = [proof, malformedProof separatingPlatform]) {response : Json}
    (hsession : ⟨[], "acme", .done (malformedProof separatingPlatform) response⟩ ∈ s.sessions) :
    separatingPlatform.sha.CollisionFreeOn (receiptInputs separatingPlatform.sha
      (some (malformedProof separatingPlatform).toJson) (some (malformedReceipt separatingPlatform root
        (separatingPlatform.sha.log.leafHash (entryBytes proof)))) ++
      hashedInputs separatingPlatform s) := by
  have hpath : separatingPlatform.sha.log.leafHash (entryBytes proof) ≠ [] :=
    List.ne_nil_of_length_pos (by rw [Sha256.length_leafHash]; decide)
  apply separating_collisionFree
  intro x hx
  rcases List.mem_append.mp hx with hx | hx
  · rw [receiptInputs_malformed hpath, entryBytesOf_proof h hsession rfl] at hx
    simp only [List.mem_cons, List.not_mem_nil, or_false] at hx
    exact .inr (.inr hx)
  · exact hashedInputs_pair hentries x hx

end Evidence

/-- The libraries of a client of the separating platform read what it signs. -/
theorem separating_reads (s : State) :
    Reads separatingPlatform (Sdk.samplePlatform (s.signed.map Message.bytes)) s :=
  have h := sample_reads [] s
  ⟨h.fromHex, h.atob, h.bufferFromBase64, h.verify⟩

/-- The receipt for the second entry, with the first one on its path. -/
theorem verifyReceipt_recorded_second : ∃ s proof receipt,
    Run separatingPlatform.step State.boot (servedEvents []) s ∧ s.entries.length = 2 ∧
    verifyReceipt separatingPlatform.sha (Sdk.samplePlatform (s.signed.map Message.bytes))
      (some proof) (some receipt) (some (.str (hexEncode separatingPlatform.proofPk))) = some true ∧
    ∃ e, s.entries[1]? = some e ∧ entryBytes e = entryBytesOf (some proof) ∧
      ∃ session ∈ s.sessions, session.Recorded e := by
  obtain ⟨s, proof, _, root, hrun, _, hentries, hsessions⟩ := servedEvents_run separatingPlatform []
  have h := reachable_consistent hrun
  have hmem := hsessions ▸ List.mem_cons_of_mem _ List.mem_cons_self
  have hv := answer_verifies (separating_reads s) h hmem rfl
  rw [Platform.response_get?_proof, Platform.response_get?_receipt] at hv
  have hkey := (separating_reads s).fromHex separatingPlatform.proofPk
  refine ⟨s, _, _, hrun, by rw [hentries]; rfl, hv, (verifyReceipt_recorded separatingPlatform _ hrun
    (sample_unforgeable [] s) hkey (evidence_collisionFree h hentries hmem)
      (prop_object (by simp) rfl) hv).2.2⟩

end Audit
end Pzdr
