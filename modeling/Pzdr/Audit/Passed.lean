import Pzdr.Audit.Bundles
import Pzdr.Audit.Canonical

/-!
# Audit.Passed

What a passed bundle says about the enclave whose proof key it names, whoever made the bundle.

`verifyBundle_recorded`: the checkpoint is a head of the enclave's ledger, and a listed proof with a
natural index is the entry of the ledger at this index, up to the order of keys. If there is one,
the policy in the bundle is the enclave's, and the attestation in it names the enclave's measurement
and keys.
-/

namespace Pzdr
namespace Audit

open Enclave (Consistent Message Platform SignedProof State)
open Enclave.Platform (entryBytes)
open Log
open Tools (dictGet truthy fromhexOf iterate asInt)
open Tools.Platform (failIf)

/-- A signature that the tool accepts under the proof key is on a message the enclave signed. -/
def Attributed (P : Platform) (T : Tools.Platform) (s : State) : Prop :=
  ∀ ed25519, T.ed25519 = some ed25519 → ∀ sig msg, ed25519 P.proofPk sig msg = true →
    ∃ m ∈ s.signed, m.bytes = msg

variable {P : Platform} {T : Tools.Platform} {s : State}

/-! ## The checkpoint -/

theorem verify_attributed (hT : Attributed P T s) {key : Json} {sig msg : Bytes}
    (hkey : fromhexOf key = some P.proofPk) (hv : T.verify key sig msg = true) :
    ∃ m ∈ s.signed, m.bytes = msg := by
  rw [Tools.Platform.verify, hkey] at hv
  cases hed : T.ed25519 with
  | none =>
    rw [hed] at hv
    cases hv
  | some ed25519 =>
    rw [hed] at hv
    exact hT ed25519 hed sig msg hv

/-- A checkpoint that the tool accepts is one that the enclave signed. -/
theorem checkCheckpointSignature_signed (hT : Attributed P T s) {cp key : Json}
    (hkey : fromhexOf key = some P.proofPk) (hv : T.checkCheckpointSignature cp key = some true) :
    ∃ origin c, .checkpoint origin c ∈ s.signed ∧ cp.get? "size" = some (.num c.size) ∧
      cp.get? "root_hex" = some (.str c.rootHex) := by
  rw [Tools.Platform.checkCheckpointSignature] at hv
  split at hv
  · cases hv
  simp only [Option.bind_eq_bind, Option.bind_eq_some_iff] at hv
  obtain ⟨signed, _, hv⟩ := hv
  split at hv
  · cases hv
  simp only [Option.bind_eq_some_iff, Option.pure_def] at hv
  obtain ⟨_, _, sig, _, msg, hmsg, hv⟩ := hv
  simp only [Tools.Platform.checkpointMsg, Option.bind_eq_bind, Option.bind_eq_some_iff] at hmsg
  obtain ⟨rootHex, hroot, size, hsize, timestamp, _, hmsg⟩ := hmsg
  obtain ⟨m, hm, hbytes⟩ := verify_attributed hT hkey (Option.some.inj hv)
  rw [← Option.some.inj hmsg] at hbytes
  cases m with
  | proof statement =>
    have hsorted := sortKeys_eq_of_canonicalBytes_eq hbytes
    have hid : statement.toJson.get? "proof_id" = some (.str statement.proofId) :=
      Enclave.object_get? statement.nodup_fields _
    have hsome := (Json.isSome_get?_of_sortKeys_eq hsorted "proof_id").mp (by rw [hid]; rfl)
    exact absurd hsome (by simp [Json.get?_obj, List.lookup])
  | checkpoint origin c =>
    have hsorted := sortKeys_eq_of_canonicalBytes_eq hbytes
    have hsize' : c.toJson.get? "size" = some (.num c.size) :=
      Enclave.object_get? c.nodup_fields _
    have hroot' : c.toJson.get? "root_hex" = some (.str c.rootHex) :=
      Enclave.object_get? c.nodup_fields _
    obtain ⟨y, hy, hysize⟩ :=
      Json.get?_of_sortKeys_eq isKeyOrder_codePointLe c.plain.distinct hsorted hsize'
    obtain ⟨z, hz, hzroot⟩ :=
      Json.get?_of_sortKeys_eq isKeyOrder_codePointLe c.plain.distinct hsorted hroot'
    obtain rfl : size = y := Option.some.inj hy
    obtain rfl : rootHex = z := Option.some.inj hz
    refine ⟨origin, c, hm, ?_, ?_⟩
    · rw [hsize, Json.sortKeys_eq_num.mp hysize.symm]
    · rw [hroot, Json.sortKeys_eq_str.mp hzroot.symm]

/-! ## A listed proof -/

/-- The inputs hashed for a listed proof. -/
def itemInputs (sha : Sha256) (size : Nat) (item : Json) : List Bytes :=
  match item.get? "proof", (item.get? "index").bind asInt,
    ((item.get? "audit_path").bind iterate).bind (fun hashes => hashes.mapM fromhexOf) with
  | some p, some index, some path =>
    leafInput (Tools.Platform.entryBytes p) ::
      (Merkle.walkPairs sha.log.nodeHash index.toNat (size - 1) path
        (sha.log.leafHash (Tools.Platform.entryBytes p))).map nodeInput
  | _, _, _ => []

/-- The values that the check of a listed proof has read. -/
theorem inclusionOk_true {cp keyHex item : Json} {root : Bytes}
    (h : T.inclusionOk cp root keyHex item = some true) :
    ∃ p index size path, item.get? "proof" = some p ∧ (item.get? "index").bind asInt = some index ∧
      (cp.get? "size").bind asInt = some size ∧
      ((item.get? "audit_path").bind iterate).bind (fun hashes => hashes.mapM fromhexOf) =
        some path ∧
      Tools.verifyInclusion T.sha.log (T.sha.log.leafHash (Tools.Platform.entryBytes p)) index size
        path root = true := by
  obtain ⟨p, hp, h⟩ := Option.bind_eq_some_iff.mp h
  dsimp only at h
  split at h
  · obtain ⟨_, _, h⟩ := Option.bind_eq_some_iff.mp h
    obtain ⟨_, _, h⟩ := Option.bind_eq_some_iff.mp h
    cases h
  obtain ⟨auditPath, hauditPath, h⟩ := Option.bind_eq_some_iff.mp h
  obtain ⟨hashes, hhashes, h⟩ := Option.bind_eq_some_iff.mp h
  obtain ⟨path, hpath, h⟩ := Option.bind_eq_some_iff.mp h
  obtain ⟨index', hindex', h⟩ := Option.bind_eq_some_iff.mp h
  obtain ⟨index, hindex, h⟩ := Option.bind_eq_some_iff.mp h
  obtain ⟨size', hsize', h⟩ := Option.bind_eq_some_iff.mp h
  obtain ⟨size, hsize, h⟩ := Option.bind_eq_some_iff.mp h
  refine ⟨p, index, size, path, hp, by rw [hindex', Option.bind_some, hindex],
    by rw [hsize', Option.bind_some, hsize], ?_, ?_⟩
  · rw [hauditPath, Option.bind_some, hhashes, Option.bind_some, hpath]
  -- with and without the signature
  · split at h
    all_goals
      obtain ⟨sigOk, _, h⟩ := Option.bind_eq_some_iff.mp h
      obtain ⟨_, _, h⟩ := Option.bind_eq_some_iff.mp h
      obtain ⟨_, _, h⟩ := Option.bind_eq_some_iff.mp h
      exact ((Bool.and_eq_true _ _).mp (Option.some.inj h)).1

theorem passed_recorded (h : Consistent P s) (hsha : T.sha = P.sha) {cp keyHex item : Json}
    {size i : Nat} {root : Bytes} (hsize : cp.get? "size" = some (.num size))
    (hhead : s.ledger.rootAt P.sha.log size = some root)
    (hfree : P.sha.CollisionFreeOn (itemInputs P.sha size item ++ hashedInputs P s))
    (hok : T.inclusionOk cp root keyHex item = some true)
    (hi : (item.get? "index").bind asInt = some (i : Int)) :
    ∃ p e, item.get? "proof" = some p ∧ s.entries[i]? = some e ∧ Json.Reordered e.toJson p ∧
      p.sortKeys codePointLe = e.toJson.sortKeys codePointLe := by
  obtain ⟨p, index, size', path, hp, hindex, hsize', hpath, hincl⟩ := inclusionOk_true hok
  obtain rfl : (i : Int) = index := Option.some.inj (hi.symm.trans hindex)
  rw [hsize, Option.bind_some, asInt, Option.some.injEq] at hsize'
  subst hsize'
  rw [hsha] at hincl
  obtain ⟨hlt, hwalk⟩ := (Tools.verifyInclusion_iff _).mp hincl
  simp only [itemInputs, hp, hindex, hpath, Int.toNat_natCast] at hfree
  obtain ⟨e, he, hleaf⟩ := leafHash_eq_of_walk h hhead hlt
    (hfree.mono (List.subset_cons_self _ _)) hwalk
  have hinput := hfree _ List.mem_cons_self _ (List.mem_append_right _
    (leafInput_mem_hashedInputs (List.mem_of_getElem? he))) hleaf
  have hbytes : Tools.canonicalJson p = Enclave.canonicalJson e.toJson := (List.cons.inj hinput).2
  have hsorted := sortKeys_eq_of_canonicalBytes_eq hbytes
  have hplain : Plain e.toJson := by
    obtain ⟨session, hs, response, hdone⟩ := h.entries e (List.mem_of_getElem? he)
    refine Enclave.SignedProof.plain (h.wellFormed ?_)
    exact (h.proofs _).mpr ⟨session, hs, e, by rw [hdone]; rfl, rfl⟩
  exact ⟨p, e, hp, he, (Json.sortKeys_eq_iff_reordered isKeyOrder_codePointLe hplain.distinct).mp
    hsorted.symm, hsorted⟩

/-! ## Its statement -/

section Statement

variable {v w : Json} {key text : String}

theorem dictGet_of_get? {x : Json} (h : v.get? key = some x) : dictGet v key = some x := by
  cases v with
  | obj fields =>
    rw [Json.get?_obj] at h
    rw [dictGet, h, Option.getD_some]
  | _ => cases h

theorem truthy_of_get? {x : Json} (h : v.get? key = some x) : truthy v = true := by
  cases v with
  | obj fields =>
    cases fields with
    | nil => cases h
    | cons f fields => rfl
  | _ => cases h

/-- A text in a value is also in its reorderings. -/
theorem get?_str_of_reordered (hv : v.DistinctKeys) (h : v.Reordered w)
    (hx : v.get? key = some (.str text)) : w.get? key = some (.str text) := by
  obtain ⟨y, hy, hxy⟩ := Json.get?_of_sortKeys_eq isKeyOrder_codePointLe hv
    (h.sortKeys_eq isKeyOrder_codePointLe hv).2 hx
  rw [hy, Json.sortKeys_eq_str.mp hxy.symm]

theorem exists_get?_of_reordered (hv : v.DistinctKeys) (h : v.Reordered w) {x : Json}
    (hx : v.get? key = some x) : ∃ y, w.get? key = some y ∧ x.Reordered y := by
  obtain ⟨y, hy, hxy⟩ := Json.get?_of_sortKeys_eq isKeyOrder_codePointLe hv
    (h.sortKeys_eq isKeyOrder_codePointLe hv).2 hx
  exact ⟨y, hy, (Json.sortKeys_eq_iff_reordered isKeyOrder_codePointLe (hv.get? hx)).mp hxy⟩

@[simp] theorem pyEq_str_right : Tools.pyEq v (.str text) = true ↔ v = .str text := by
  cases v <;> simp [Tools.pyEq, asInt]

@[simp] theorem pyEq_str_left : Tools.pyEq (.str text) v = true ↔ v = .str text := by
  cases v with
  | str t =>
    rw [Tools.pyEq_str, beq_iff_eq, Json.str.injEq]
    exact eq_comm
  | _ => simp [Tools.pyEq]

@[simp] theorem pyEq_null_right : Tools.pyEq v .null = true ↔ v = .null := by
  cases v <;> simp [Tools.pyEq, asInt]

@[simp] theorem failIf_eq_nil {condition : Bool} {message : String} :
    failIf condition message = [] ↔ condition = false := by
  cases condition <;> simp [failIf]

end Statement

section Entry

variable {p : Json} {outcome : Enclave.Outcome} {tenant : String} {counter now : Nat}
  {proofId sessionId : Bytes}

/-- The statement of a proof that is the enclave's up to the order of keys. -/
theorem exists_statement_of_reordered
    (h : (P.signProof (P.statement outcome tenant counter now proofId sessionId)).toJson.Reordered p) :
    ∃ stmt, p.get? "statement" = some stmt ∧
      (P.statement outcome tenant counter now proofId sessionId).toJson.Reordered stmt :=
  exists_get?_of_reordered
    (Enclave.SignedProof.plain (P.statement_wellFormed _ _ _ _ _ _)).distinct h (signProof_statement _)

theorem statement_get?_str {stmt : Json} {key text : String}
    (h : (P.statement outcome tenant counter now proofId sessionId).toJson.Reordered stmt)
    (hkey : (P.statement outcome tenant counter now proofId sessionId).fields.lookup key =
      some (.str text)) : dictGet stmt key = some (.str text) :=
  dictGet_of_get? (get?_str_of_reordered
    (Enclave.ProofStatement.plain (P.statement_wellFormed _ _ _ _ _ _)).distinct h
    ((Enclave.object_get? (Enclave.ProofStatement.nodup_fields _) key).trans hkey))

theorem distinct_defaultPolicyDocument : Tools.defaultPolicyDocument.DistinctKeys := by
  simp [Tools.defaultPolicyDocument, Json.DistinctKeys, Json.DistinctKeysFields,
    Json.DistinctKeysAll]

/-- A policy that the check of an entry accepts is the enclave's. -/
theorem passed_policy (hsha : T.sha = P.sha) {policy : Json}
    (h : (P.signProof (P.statement outcome tenant counter now proofId sessionId)).toJson.Reordered p)
    (hfree : P.sha.CollisionFreeOn
      [Tools.canonicalJson policy, Tools.canonicalJson Tools.defaultPolicyDocument])
    (hpass : T.checkPolicy p policy = some []) : Tools.defaultPolicyDocument.Reordered policy := by
  obtain ⟨stmt, hstmt, hreordered⟩ := exists_statement_of_reordered h
  obtain ⟨allow, reason, tenant', processor, hdecision⟩ : ∃ allow reason tenant' processor,
      (P.statement outcome tenant counter now proofId sessionId).toJson.get? "policy_decision" =
        some (P.policyDecision allow reason tenant' processor) := by
    rw [Enclave.ProofStatement.toJson, Enclave.object_get? (Enclave.ProofStatement.nodup_fields _)]
    cases outcome <;> exact ⟨_, _, _, _, rfl⟩
  have hdistinct := (Enclave.ProofStatement.plain
    (P.statement_wellFormed outcome tenant counter now proofId sessionId)).distinct
  obtain ⟨decided, hdecided, hd⟩ := exists_get?_of_reordered hdistinct hreordered hdecision
  have hhash : decided.get? "policy_hash" =
      some (.str (T.policyHash Tools.defaultPolicyDocument)) := by
    rw [policyHash_default hsha]
    refine get?_str_of_reordered (hdistinct.get? hdecision) hd ?_
    exact (Enclave.object_get? (by simp) _).trans rfl
  have hor : Tools.pyOr decided (.obj []) = decided := by
    rw [Tools.pyOr, if_pos (truthy_of_get? hhash)]
  simp only [Tools.Platform.checkPolicy, hstmt, dictGet_of_get? hdecided, hor,
    dictGet_of_get? hhash, Option.bind_eq_bind, Option.bind_some, Option.bind_eq_some_iff,
    Option.pure_def, Option.some.injEq, List.append_eq_nil_iff, failIf_eq_nil] at hpass
  obtain ⟨_, _, _, _, ⟨hequal, _⟩, _⟩ := hpass
  rw [Bool.not_eq_false', pyEq_str_right, Json.str.injEq, Tools.Platform.policyHash,
    Tools.Platform.policyHash, hsha] at hequal
  have hbytes := hfree _ (by simp) _ (by simp) (hexEncode_injective hequal)
  exact (Json.sortKeys_eq_iff_reordered isKeyOrder_codePointLe distinct_defaultPolicyDocument).mp
    (sortKeys_eq_of_canonicalBytes_eq hbytes)

/-- The attestation names the enclave's measurement and its keys; it may leave out the proof key. -/
structure Attested (P : Platform) (att : Json) : Prop where
  measurement : dictGet att "measurement" = some (.str P.expectedPcr0)
  channelPublicKey : dictGet att "channel_public_key_hex" = some (.str (hexEncode P.channelPk))
  proofVerifierKey : dictGet att "proof_verifier_key_hex" = some .null ∨
    dictGet att "proof_verifier_key_hex" = some (.str (hexEncode P.proofPk))

theorem passed_attestation {att expectedPcr0 key : Json}
    (h : (P.signProof (P.statement outcome tenant counter now proofId sessionId)).toJson.Reordered p)
    (hkey : truthy key = true)
    (hpass : Tools.Platform.checkAttestationBinding att p expectedPcr0 key = some []) :
    key = .str (hexEncode P.proofPk) ∧ Attested P att ∧
      (truthy expectedPcr0 = true → expectedPcr0 = .str P.expectedPcr0) := by
  obtain ⟨stmt, hstmt, hreordered⟩ := exists_statement_of_reordered h
  have hchannel : dictGet stmt "channel_public_key_hex" = some (.str (hexEncode P.channelPk)) :=
    statement_get?_str hreordered (by cases outcome <;> rfl)
  have hmeasurement : dictGet stmt "measurement" = some (.str P.expectedPcr0) :=
    statement_get?_str hreordered (by cases outcome <;> rfl)
  have hproof : dictGet stmt "proof_verifier_key_hex" = some (.str (hexEncode P.proofPk)) :=
    statement_get?_str hreordered (by cases outcome <;> rfl)
  simp only [Tools.Platform.checkAttestationBinding, hstmt, hchannel, hmeasurement, hproof,
    Option.bind_eq_bind, Option.bind_some, Option.bind_eq_some_iff, Option.pure_def,
    Option.some.injEq, List.append_eq_nil_iff, failIf_eq_nil] at hpass
  obtain ⟨attChannel, hattChannel, attMeasurement, hattMeasurement, attKey, hattKey,
    ⟨⟨⟨hc, hm⟩, hpcr0⟩, hk⟩, hs⟩ := hpass
  simp only [Bool.not_eq_false', pyEq_str_right] at hc hm
  simp only [hkey, Bool.true_and, Bool.not_eq_false', pyEq_str_left] at hs
  subst hc hm hs
  simp only [hkey, Bool.true_and, Bool.not_eq_false', Bool.or_eq_true, pyEq_null_right,
    pyEq_str_right] at hk
  refine ⟨rfl, ⟨hattMeasurement, hattChannel, ?_⟩, ?_⟩
  · rcases hk with rfl | rfl
    · exact .inl hattKey
    · exact .inr hattKey
  · intro htrue
    simpa [htrue] using hpcr0

end Entry

/-! ## A passed bundle -/

/-- All that is hashed for the listed proofs, for the policy and for the ledger. -/
def passedInputs (P : Platform) (s : State) (bundle : Json) (items : List Json) : List Bytes :=
  items.flatMap (itemInputs P.sha ((signedHead bundle).elim 0 (fun head => head.1.toNat))) ++
    (Tools.canonicalJson Tools.defaultPolicyDocument ::
      (bundle.get? "policy").toList.map Tools.canonicalJson) ++ hashedInputs P s

/-- What an item with a natural index says about the enclave. -/
structure Vouches (P : Platform) (s : State) (bundle key p : Json) (i : Nat) : Prop where
  entry : ∃ e, s.entries[i]? = some e ∧ e.toJson.Reordered p ∧
    ∃ session ∈ s.sessions, session.Recorded e
  policy : ∀ policy, bundle.get? "policy" = some policy →
    Tools.defaultPolicyDocument.Reordered policy
  attestation : ∀ att, bundle.get? "attestation" = some att →
    key = .str (hexEncode P.proofPk) ∧ Attested P att ∧
      ∀ pcr0, dictGet bundle "expected_pcr0" = some pcr0 → truthy pcr0 = true →
        pcr0 = .str P.expectedPcr0

/-- The parts of a passed bundle. -/
theorem cmdVerifyBundle_true {bundle : Json} (h : T.cmdVerifyBundle bundle = some true) :
    ∃ key items, dictGet bundle "proof_verifier_key_hex" = some key ∧
      (bundle.get? "inclusions").bind iterate = some items ∧
      T.cmdVerifyInclusion bundle key = some true ∧ T.policyOk bundle items = some true ∧
      Tools.Platform.attestationOk bundle items key = some true := by
  simp only [Tools.Platform.cmdVerifyBundle, Option.bind_eq_bind, Option.bind_eq_some_iff,
    Option.pure_def, Option.some.injEq, Bool.and_eq_true] at h
  obtain ⟨key, hkey, inclusions, hinclusions, items, hitems, _, _, inclusion, hinclusion, _, _,
    policy, hpolicy, attestation, hattestation, ⟨⟨⟨_, rfl⟩, _⟩, rfl⟩, rfl⟩ := h
  exact ⟨key, items, hkey, by rw [hinclusions, Option.bind_some, hitems], hinclusion, hpolicy,
    hattestation⟩

theorem cmdVerifyInclusion_true {bundle key : Json} {items : List Json}
    (hkey : dictGet bundle "proof_verifier_key_hex" = some key)
    (hitems : (bundle.get? "inclusions").bind iterate = some items)
    (h : T.cmdVerifyInclusion bundle key = some true) :
    ∃ cp root, bundle.get? "checkpoint" = some cp ∧ (cp.get? "root_hex").bind fromhexOf = some root ∧
      T.checkCheckpointSignature cp key = some true ∧
      ∀ item ∈ items, T.inclusionOk cp root key item = some true := by
  have hor : Tools.pyOr key key = key := by
    rw [Tools.pyOr]
    split <;> rfl
  simp only [Tools.Platform.cmdVerifyInclusion, Option.bind_eq_bind, Option.bind_eq_some_iff, hkey,
    Option.some.injEq, exists_eq_left', hor] at h
  obtain ⟨cp, hcp, rootHex, hrootHex, root, hroot, cpOk, hcpOk, inclusions, hinclusions, items',
    hitems', hall⟩ := h
  rw [hinclusions, Option.bind_some, hitems', Option.some.injEq] at hitems
  subst hitems
  obtain ⟨rfl, hitem⟩ := Tools.Platform.allOk_iff.mp hall
  exact ⟨cp, root, hcp, by rw [hrootHex, Option.bind_some, hroot], hcpOk, hitem⟩

theorem policyOk_true {bundle policy item p : Json} {items : List Json}
    (h : T.policyOk bundle items = some true) (hpolicy : bundle.get? "policy" = some policy)
    (hitem : item ∈ items) (hp : item.get? "proof" = some p) : T.checkPolicy p policy = some [] := by
  rw [Tools.Platform.policyOk, hpolicy] at h
  have hcheck := (Tools.Platform.allOk_iff.mp h).2 item hitem
  simpa [hp, Option.bind_eq_some_iff, List.isEmpty_iff] using hcheck

theorem attestationOk_true {bundle att key item p pcr0 : Json} {items : List Json}
    (h : Tools.Platform.attestationOk bundle items key = some true)
    (hatt : bundle.get? "attestation" = some att)
    (hpcr0 : dictGet bundle "expected_pcr0" = some pcr0) (hitem : item ∈ items)
    (hp : item.get? "proof" = some p) :
    Tools.Platform.checkAttestationBinding att p pcr0 key = some [] := by
  rw [Tools.Platform.attestationOk, hatt] at h
  simp only [hpcr0, Option.bind_eq_bind, Option.bind_some] at h
  have hcheck := (Tools.Platform.allOk_iff.mp h).2 item hitem
  simpa [hp, Option.bind_eq_some_iff, List.isEmpty_iff] using hcheck

theorem itemInputs_subset {bundle item : Json} {items : List Json} {size : Nat} {root : Bytes}
    (hsigned : signedHead bundle = some ((size : Int), root)) (hitem : item ∈ items) :
    itemInputs P.sha size item ++ hashedInputs P s ⊆ passedInputs P s bundle items := by
  rw [passedInputs, hsigned, Option.elim_some, Int.toNat_natCast]
  intro x hx
  rcases List.mem_append.mp hx with hx | hx
  · exact List.mem_append_left _ (List.mem_append_left _ (List.mem_flatMap.mpr ⟨item, hitem, hx⟩))
  · exact List.mem_append_right _ hx

theorem policyInputs_subset {bundle policy : Json} {items : List Json}
    (hpolicy : bundle.get? "policy" = some policy) :
    [Tools.canonicalJson policy, Tools.canonicalJson Tools.defaultPolicyDocument] ⊆
      passedInputs P s bundle items := by
  intro x hx
  refine List.mem_append_left _ (List.mem_append_right _ ?_)
  rw [hpolicy]
  simpa [or_comm] using hx

theorem verifyBundle_recorded (P : Platform) (T : Tools.Platform) {es : List Enclave.Event}
    {s : State} (hrun : Run P.step State.boot es s) (hsha : T.sha = P.sha)
    (hT : Attributed P T s) {bundle key : Json} {items : List Json}
    (hkey : dictGet bundle "proof_verifier_key_hex" = some key)
    (hproofPk : fromhexOf key = some P.proofPk)
    (hitems : (bundle.get? "inclusions").bind iterate = some items)
    (hpass : T.cmdVerifyBundle bundle = some true)
    (hfree : P.sha.CollisionFreeOn (passedInputs P s bundle items)) :
    (∃ size : Nat, size ≤ s.ledger.size ∧ signedHead bundle =
      some ((size : Int), headOf P.sha ((s.entries.take size).map entryBytes))) ∧
    ∀ item ∈ items, ∃ p index, item.get? "proof" = some p ∧
      (item.get? "index").bind asInt = some index ∧
      ∀ i : Nat, index = i → Vouches P s bundle key p i := by
  have h := Enclave.reachable_consistent hrun
  obtain ⟨key', items', hkey', hitems', hinclusion, hpolicy, hattestation⟩ :=
    cmdVerifyBundle_true hpass
  obtain rfl := Option.some.inj (hkey.symm.trans hkey')
  obtain rfl := Option.some.inj (hitems.symm.trans hitems')
  obtain ⟨cp, root, hcp, hroot, hcpOk, hall⟩ := cmdVerifyInclusion_true hkey hitems hinclusion
  -- the checkpoint
  obtain ⟨origin, c, hc, hsize, hrootHex⟩ := checkCheckpointSignature_signed hT hproofPk hcpOk
  obtain ⟨root', hhead, hhex⟩ := h.heads origin c hc
  rw [hrootHex, hhex, Option.bind_some, fromhexOf_hexEncode, Option.some.injEq] at hroot
  subst hroot
  obtain ⟨hle, hrootEq⟩ := rootAt_entries h hhead
  have hsigned : signedHead bundle = some ((c.size : Int), root') := by
    simp only [signedHead, hcp, hrootHex, hhex, fromhexOf_hexEncode, hsize, asInt,
      Option.bind_eq_bind, Option.bind_some, Option.pure_def]
  refine ⟨⟨c.size, h.size_eq ▸ hle, by rw [hsigned, hrootEq]; rfl⟩, ?_⟩
  intro item hitem
  obtain ⟨p, index, _, _, hp, hindex, _⟩ := inclusionOk_true (hall item hitem)
  refine ⟨p, index, hp, hindex, ?_⟩
  rintro i rfl
  obtain ⟨p', e, hp', he, hreordered, _⟩ := passed_recorded h hsha hsize hhead
    (hfree.mono (itemInputs_subset hsigned hitem)) (hall item hitem) hindex
  obtain rfl := Option.some.inj (hp.symm.trans hp')
  obtain ⟨session, hs, response, hdone⟩ := h.entries e (List.mem_of_getElem? he)
  obtain ⟨counter, now, proofId, sessionId, rfl⟩ :=
    h.sessions session hs e (by rw [hdone]; rfl)
  refine ⟨⟨_, he, hreordered, session, hs, response, hdone⟩, ?_, ?_⟩
  · intro policy hget
    exact passed_policy hsha hreordered (hfree.mono (policyInputs_subset hget))
      (policyOk_true hpolicy hget hitem hp)
  · intro att hget
    obtain ⟨pcr0, hpcr0⟩ : ∃ pcr0, dictGet bundle "expected_pcr0" = some pcr0 := by
      cases bundle with
      | obj fields => exact ⟨_, rfl⟩
      | _ => cases hget
    have htruthy : truthy key = true := by
      by_contra hfalse
      rw [Tools.Platform.checkCheckpointSignature, if_pos (by simp [hfalse])] at hcpOk
      cases hcpOk
    obtain ⟨hname, hattested, hmeasured⟩ := passed_attestation hreordered htruthy
      (attestationOk_true hattestation hget hpcr0 hitem hp)
    refine ⟨hname, hattested, ?_⟩
    intro pcr0' hpcr0' htrue
    obtain rfl := Option.some.inj (hpcr0.symm.trans hpcr0')
    exact hmeasured htrue

/-! ## A ledger with one entry -/

open Enclave in
/-- One malformed request, and the receipt for it. -/
def malformedEvents : List Event := [
  .request [] "demo", .fetchAdd 0, .signProof 0 1 [] [], .append 0 1 5]

theorem malformed_signed : ∃ s att origin c proof,
    Run (Enclave.samplePlatform []).step Enclave.State.boot malformedEvents s ∧
    (Enclave.samplePlatform []).publishAttestation (fun userData _ => some userData) 1 = some att ∧
    .checkpoint origin c ∈ s.signed ∧ c.size = 1 ∧ s.entries = [proof] :=
  ⟨_, _, _, _, _, Run.of_foldlM rfl, rfl, List.mem_of_getElem? (i := 1) rfl, rfl, rfl⟩

theorem hashedInputs_single {s : State} {proof : SignedProof} (h : s.entries = [proof]) :
    ∀ x ∈ hashedInputs (Enclave.samplePlatform []) s, x = [] ∨ x = leafInput (entryBytes proof) := by
  intro x hx
  rw [hashedInputs, h] at hx
  simpa [List.range_succ, Sha256.treeInputs_singleton] using hx

theorem sample_attributed (s : State) :
    Attributed (Enclave.samplePlatform []) (sampleTool (s.signed.map Message.bytes)) s := by
  intro ed25519 hed sig msg hv
  cases hed
  have hmem : msg ∈ s.signed.map Message.bytes := by
    rw [Bool.and_eq_true, List.contains_iff_mem] at hv
    exact hv.2
  obtain ⟨m, hm, rfl⟩ := List.mem_map.mp hmem
  exact ⟨m, hm, rfl⟩

/-- A hash that keeps the first bytes tells no bytes, a leaf that is JSON and JSON apart. -/
theorem sample_collisionFree {xs : List Bytes} {proof : SignedProof}
    (h : ∀ x ∈ xs, (x = [] ∨ x = leafInput (entryBytes proof)) ∨
      x = Tools.canonicalJson Tools.defaultPolicyDocument) :
    (Enclave.samplePlatform []).sha.CollisionFreeOn xs := by
  have hhead : ∀ fields', ∃ t, canonicalBytes codePointLe (.obj fields') = 0x7b :: t := by
    intro fields'
    rw [canonicalBytes, canonicalText, Json.sortKeys_obj, Json.print_obj, Json.printRecord]
    exact ⟨_, rfl⟩
  obtain ⟨t, ht⟩ : ∃ t, entryBytes proof = 0x7b :: t := hhead _
  obtain ⟨u, hu⟩ : ∃ u, Tools.canonicalJson Tools.defaultPolicyDocument = 0x7b :: u := hhead _
  intro x hx y hy heq
  rcases h x hx with (rfl | rfl) | rfl <;> rcases h y hy with (rfl | rfl) | rfl <;>
    first
      | rfl
      | simp [Enclave.samplePlatform, Sha256.firstBytes, leafInput, ht, hu] at heq

theorem verifyBundle_recorded_malformed : ∃ s bundle p,
    Run (Enclave.samplePlatform []).step State.boot malformedEvents s ∧
    (sampleTool (s.signed.map Message.bytes)).cmdVerifyBundle bundle = some true ∧
    Vouches (Enclave.samplePlatform []) s bundle
      (.str (hexEncode (Enclave.samplePlatform []).proofPk)) p 0 := by
  obtain ⟨s, att, origin, c, proof, hrun, hatt, hc, hsize, hentries⟩ := malformed_signed
  obtain ⟨b, hb, hcount, _, hpresents⟩ := exists_ledgerBundle
    (Enclave.reachable_consistent hrun) (sample_toolReads s) (names_publishAttestation hatt) hc
    [0] [1] (by simp [hsize]) (by simp [hsize])
  rw [hentries, hsize] at hpresents hb
  -- the item of the only entry
  obtain ⟨item, hitems⟩ := List.length_eq_one_iff.mp hcount
  obtain ⟨i, path, p, hp, hpath, hitem, _⟩ := hpresents.inclusions item (by simp [hitems])
  obtain ⟨rfl, hbytes⟩ : i = 0 ∧ entryBytes proof = Tools.canonicalJson p := by
    cases i with
    | zero => exact ⟨rfl, by simpa using hp⟩
    | succ i => simp at hp
  obtain rfl : path = [] := by
    rw [Tools.TransparencyLog.ofEntries_eq] at hpath
    simpa [Tools.TransparencyLog.inclusion, Tools.inclusionPath] using hpath.symm
  have hkeyHex : b.keyHex = hexEncode (Enclave.samplePlatform []).proofPk ∧
      b.policy = Tools.defaultPolicyDocument := by
    simp only [ledgerBundle, Option.bind_eq_bind, Option.bind_eq_some_iff] at hb
    obtain ⟨_, _, _, _, hb⟩ := hb
    cases Option.some.inj hb
    exact ⟨rfl, rfl⟩
  have hsigned : signedHead b.toJson = some (((1 : Nat) : Int), headOf
      (sampleTool (s.signed.map Message.bytes)).sha (([proof].take 1).map entryBytes)) := by
    have hcp : b.toJson.get? "checkpoint" = some b.checkpoint := rfl
    simp only [signedHead, hcp, hpresents.root, hpresents.size, fromhexOf_hexEncode, asInt,
      Option.bind_eq_bind, Option.bind_some, Option.pure_def]
    rfl
  have hlisted : (b.toJson.get? "inclusions").bind iterate = some [item] := by
    rw [← hitems]
    rfl
  have hfree : (Enclave.samplePlatform []).sha.CollisionFreeOn
      (passedInputs (Enclave.samplePlatform []) s b.toJson [item]) := by
    refine @sample_collisionFree _ proof ?_
    intro x hx
    have hpolicy : b.toJson.get? "policy" = some Tools.defaultPolicyDocument :=
      congrArg some hkeyHex.2
    have hinputs : itemInputs (Enclave.samplePlatform []).sha 1 item =
        [leafInput (entryBytes proof)] := by
      rw [hitem, hbytes]
      rfl
    rw [passedInputs, hsigned, hpolicy, Option.elim_some, Int.toNat_natCast, List.flatMap_singleton,
      hinputs] at hx
    simp only [List.mem_append, List.mem_cons, List.not_mem_nil, or_false, Option.toList_some,
      List.map_cons, List.map_nil, or_self] at hx
    rcases hx with (rfl | rfl) | hx
    · exact .inl (.inr rfl)
    · exact .inr rfl
    · exact .inl (hashedInputs_single hentries x hx)
  have hkey : dictGet b.toJson "proof_verifier_key_hex" =
      some (.str (hexEncode (Enclave.samplePlatform []).proofPk)) := by
    rw [← hkeyHex.1]
    rfl
  obtain ⟨_, hall⟩ := verifyBundle_recorded (Enclave.samplePlatform []) _ hrun rfl
    (sample_attributed s) hkey (fromhexOf_hexEncode _) hlisted hpresents.passes hfree
  obtain ⟨p', index, _, hindex, hvouches⟩ := hall item List.mem_cons_self
  have hzero : (item.get? "index").bind asInt = some ((0 : Nat) : Int) := by
    rw [hitem]
    rfl
  exact ⟨s, b.toJson, p', hrun, hpresents.passes,
    hvouches 0 (Option.some.inj (hindex.symm.trans hzero))⟩

end Audit
end Pzdr
