import Pzdr.Except
import Pzdr.Hash
import Pzdr.Lines
import Pzdr.Unicode

/-!
# Nitro.Chain

`crates/nitro-attestation/src/lib.rs`: the certificate path of an attestation document
(`verify_chain`). Decoding and the arithmetic of P-384 are those of the crates (`X509`).

The path is first built by names alone (`buildPath`), then every certificate of it is checked against
the next one (`checkPath`).
-/

namespace Pzdr

namespace Nitro

inductive NitroError where
  | cbor (message : String)
  | cose (message : String)
  | certChain (message : String)
  | signature
  | pcrMismatch (expected got : String)
  | expired (ts skew : Int)
  | missing (field : String)
  deriving DecidableEq, Repr

/-! ## Certificates -/

structure Extension where
  extnId : String
  extnValue : Bytes

structure BasicConstraints where
  ca : Bool
  pathLenConstraint : Option Nat

structure KeyUsage where
  keyCertSign : Bool

/-- What the verifiers read of a certificate. Times are in seconds since 1970; `tbs` and `signature`
have no value where the crate fails to give one. -/
structure Certificate (Name : Type) where
  raw : Bytes
  subject : Name
  issuer : Name
  notBefore : Nat
  notAfter : Nat
  extensions : Option (List Extension)
  spki : Bytes
  tbs : Except String Bytes
  signature : Option Bytes

/-- The crates `x509_cert`, `base64` and `p384`. Errors are texts. -/
structure X509 (Name Key Sig : Type) where
  fromDer : Bytes → Except String (Certificate Name)
  base64Decode : Bytes → Option Bytes
  display : Name → String
  basicConstraints : Bytes → Except String BasicConstraints
  keyUsage : Bytes → Except String KeyUsage
  verifyingKey : Bytes → Except String Key
  signatureFromDer : Bytes → Except String Sig
  signatureFromSlice : Bytes → Except String Sig
  verify : Key → Bytes → Sig → Bool

/-- What the lines before and after the base64 text of a PEM document start with. -/
def pemDashes : Bytes := Utf8.encode "-----".toList

/-- The source's own `pem_rfc7468`, over the standard engine of the crate `base64`. -/
def decodeVec (base64Decode : Bytes → Option Bytes) (pem : Bytes) :
    Except String (String × Bytes) := do
  match Utf8.decode? pem with
  | none => throw "not utf-8"
  | some _ =>
    let lines := (Lines.lines pem).filter (fun l => !pemDashes.isPrefixOf l)
    match base64Decode lines.flatten with
    | none => throw "base64 decode"
    | some der => return ("CERTIFICATE", der)

variable {Name Key Sig : Type} (X : X509 Name Key Sig)

def basicConstraintsOid : String := "2.5.29.19"

def keyUsageOid : String := "2.5.29.15"

def checkBasicConstraints (subordinateCaCount : Nat) (label : String) (value : Bytes) :
    Except NitroError Unit := do
  let bc ← (X.basicConstraints value).mapError
    (fun e => .certChain (label ++ ": bad BasicConstraints: " ++ e))
  if !bc.ca then throw (.certChain (label ++ ": BasicConstraints present but cA=FALSE"))
  else if bc.pathLenConstraint.any (fun limit => subordinateCaCount > limit) then
    throw (.certChain (label ++ ": pathLenConstraint exceeded"))
  else return ()

def checkKeyUsage (label : String) (value : Bytes) : Except NitroError Unit := do
  let usage ← (X.keyUsage value).mapError (fun e => .certChain (label ++ ": bad KeyUsage: " ++ e))
  if !usage.keyCertSign then
    throw (.certChain (label ++ ": KeyUsage does not permit certificate signing"))
  else return ()

/-- The body of the loop over the extensions; `valid` is `basic_constraints_valid`. -/
def checkExtension (subordinateCaCount : Nat) (label : String) (valid : Bool) (ext : Extension) :
    Except NitroError Bool := do
  (if ext.extnId = basicConstraintsOid then
    checkBasicConstraints X subordinateCaCount label ext.extnValue else .ok ())
  (if ext.extnId = keyUsageOid then checkKeyUsage X label ext.extnValue else .ok ())
  return valid || ext.extnId == basicConstraintsOid

def assertCaConstraints (cert : Certificate Name) (subordinateCaCount : Nat) (label : String) :
    Except NitroError Unit := do
  match cert.extensions with
  | none => throw (.certChain (label ++ ": no extensions, cannot be a CA"))
  | some exts =>
    let valid ← exts.foldlM (checkExtension X subordinateCaCount label) false
    if valid then return ()
    else throw (.certChain (label ++ ": BasicConstraints extension missing — not a CA"))

def verifyCertValidity (cert : Certificate Name) (nowUnixSecs : Nat) (label : String) :
    Except NitroError Unit :=
  if nowUnixSecs < cert.notBefore ∨ nowUnixSecs > cert.notAfter then
    .error (.certChain (label ++ " not valid at current time"))
  else .ok ()

def verifyCertSignature (cert issuer : Certificate Name) (label : String) :
    Except NitroError Unit := do
  let verifyingKey ← (X.verifyingKey issuer.spki).mapError
    (fun e => .certChain (label ++ " issuer SPKI not P-384: " ++ e))
  let tbsDer ← cert.tbs.mapError (fun e => .certChain (label ++ " tbs der: " ++ e))
  match cert.signature with
  | none => throw (.certChain (label ++ " signature has unused bits"))
  | some signatureBytes =>
    let signature ← (X.signatureFromDer signatureBytes).mapError
      (fun e => .certChain (label ++ " signature der: " ++ e))
    if X.verify verifyingKey tbsDer signature then return ()
    else throw (.certChain (label ++ " signature verification failed"))

/-! ## The path -/

/-- `position` and `remove`: the first element with the property, and the others. -/
def removeFirst {α : Type} (p : α → Bool) : List α → Option (α × List α)
  | [] => none
  | x :: xs => if p x then some (x, xs) else (removeFirst p xs).map (fun r => (r.1, x :: r.2))

theorem removeFirst_perm {α : Type} {p : α → Bool} {xs ys : List α} {y : α}
    (h : removeFirst p xs = some (y, ys)) : p y = true ∧ xs.Perm (y :: ys) := by
  induction xs generalizing ys with
  | nil => cases h
  | cons x xs ih =>
    rw [removeFirst] at h
    split at h
    · rename_i hp
      cases h
      exact ⟨hp, List.Perm.refl _⟩
    · obtain ⟨⟨z, zs⟩, hr, heq⟩ := Option.map_eq_some_iff.mp h
      cases heq
      obtain ⟨hp, hperm⟩ := ih hr
      exact ⟨hp, (hperm.cons x).trans (List.Perm.swap _ _ _)⟩

theorem removeFirst_eq_none {α : Type} {p : α → Bool} {xs : List α} :
    removeFirst p xs = none ↔ ∀ x ∈ xs, p x = false := by
  induction xs with
  | nil => simp [removeFirst]
  | cons x xs ih =>
    rw [removeFirst, List.forall_mem_cons, ← ih]
    cases p x <;> simp

section Path

variable [DecidableEq Name]

/-- The loop that builds the path: `last` is the last certificate of the chain and `chain` the ones
before it. -/
structure PathState (Name : Type) where
  chain : List (Certificate Name)
  last : Certificate Name
  pool : List (Certificate Name)

/-- One round of the loop; `none` if it is left. -/
def PathState.next (root : Certificate Name) (s : PathState Name) : Option (PathState Name) :=
  if s.last.issuer = root.subject then none
  else (removeFirst (fun candidate => decide (candidate.subject = s.last.issuer)) s.pool).map
    (fun r => ⟨s.chain ++ [s.last], r.1, r.2⟩)

theorem PathState.next_some {root : Certificate Name} {s s' : PathState Name}
    (h : s.next root = some s') : s'.chain = s.chain ++ [s.last] ∧
      s'.last.subject = s.last.issuer ∧ s.pool.Perm (s'.last :: s'.pool) := by
  unfold next at h
  split at h
  · cases h
  · obtain ⟨⟨y, ys⟩, hr, rfl⟩ := Option.map_eq_some_iff.mp h
    obtain ⟨hp, hperm⟩ := removeFirst_perm hr
    exact ⟨rfl, of_decide_eq_true hp, hperm⟩

theorem PathState.next_eq_none {root : Certificate Name} {s : PathState Name}
    (hissuer : s.last.issuer ≠ root.subject) :
    s.next root = none ↔ ∀ cert ∈ s.pool, cert.subject ≠ s.last.issuer := by
  rw [PathState.next, if_neg hissuer, Option.map_eq_none_iff, removeFirst_eq_none]
  simp

/-- Every round takes a certificate from the pool. -/
theorem PathState.length_pool {root : Certificate Name} {s s' : PathState Name}
    (h : s.next root = some s') : s'.pool.length + 1 = s.pool.length := by
  rw [(next_some h).2.2.length_eq, List.length_cons]

def buildPath (root : Certificate Name) (s : PathState Name) :
    Except NitroError (List (Certificate Name)) :=
  if s.last.issuer = root.subject then .ok (s.chain ++ [s.last])
  else
    match _h : s.next root with
    | none => .error (.certChain ("no issuer found for chain cert " ++ toString s.chain.length ++
        ": issuer=" ++ X.display s.last.issuer))
    | some s' => buildPath root s'
termination_by s.pool.length
decreasing_by
  have := PathState.length_pool _h
  omega

def checkNames (cert issuer : Certificate Name) (idx : Nat) : Except NitroError Unit :=
  if cert.issuer ≠ issuer.subject then
    .error (.certChain ("issuer/subject mismatch at chain index " ++ toString idx ++ ": issuer=" ++
      X.display cert.issuer ++ " subject=" ++ X.display issuer.subject))
  else .ok ()

/-- The loop over the chain, from the certificate at `idx` on. -/
def checkPath (root : Certificate Name) (now : Nat) :
    Nat → List (Certificate Name) → Except NitroError Unit
  | _, [] => .ok ()
  | idx, cert :: rest => do
    verifyCertValidity cert now ("chain cert " ++ toString idx)
    let issuer := rest.head?.getD root
    checkNames X cert issuer idx
    assertCaConstraints X issuer idx ("issuer of chain cert " ++ toString idx)
    verifyCertSignature X cert issuer ("chain cert " ++ toString idx)
    checkPath root now (idx + 1) rest

/-- The loop that decodes the bundle, from the entry at `i` on. -/
def decodeBundle : Nat → List Bytes → Except NitroError (List (Certificate Name))
  | _, [] => .ok []
  | i, der :: rest => do
    let cert ← (X.fromDer der).mapError
      (fun e => .certChain ("cabundle cert " ++ toString i ++ ": " ++ e))
    let certs ← decodeBundle (i + 1) rest
    return cert :: certs

def decodeRoot (rootPem : Bytes) : Except NitroError (Certificate Name) := do
  match Utf8.decode? rootPem with
  | none => throw (.certChain "root not utf-8")
  | some _ =>
    -- the text of the error is printed with its quotes
    let (_, rootDer) ← (decodeVec X.base64Decode rootPem).mapError
      (fun e => .certChain ("root pem: \"" ++ e ++ "\""))
    (X.fromDer rootDer).mapError (fun e => .certChain ("root: " ++ e))

/-- `clock` is the system clock in seconds, without a value before 1970. -/
def verifyChain (leafDer : Bytes) (cabundle : List Bytes) (rootPem : Bytes) (clock : Option Nat) :
    Except NitroError Unit := do
  let leaf ← (X.fromDer leafDer).mapError (fun e => .certChain ("leaf: " ++ e))
  let pool ← decodeBundle X 0 cabundle
  let root ← decodeRoot X rootPem
  let chain ← buildPath X root ⟨[], leaf, pool⟩
  match clock with
  | none => throw (.certChain "system clock before unix epoch")
  | some now =>
    checkPath X root now 0 chain
    verifyCertValidity root now "pinned AWS root"

end Path

/-! ## What the checks establish -/

/-- The certificate may issue in a path below it with this many certificates of CAs. -/
def IsCa (cert : Certificate Name) (subordinateCaCount : Nat) : Prop :=
  ∃ exts, cert.extensions = some exts ∧
    (∃ ext ∈ exts, ext.extnId = basicConstraintsOid) ∧
    (∀ ext ∈ exts, ext.extnId = basicConstraintsOid → ∃ bc,
      X.basicConstraints ext.extnValue = .ok bc ∧ bc.ca = true ∧
        ∀ limit, bc.pathLenConstraint = some limit → subordinateCaCount ≤ limit) ∧
    ∀ ext ∈ exts, ext.extnId = keyUsageOid → ∃ usage,
      X.keyUsage ext.extnValue = .ok usage ∧ usage.keyCertSign = true

def SignedBy (cert issuer : Certificate Name) : Prop :=
  ∃ key tbs bytes signature, X.verifyingKey issuer.spki = .ok key ∧ cert.tbs = .ok tbs ∧
    cert.signature = some bytes ∧ X.signatureFromDer bytes = .ok signature ∧
    X.verify key tbs signature = true

def ValidAt (cert : Certificate Name) (now : Nat) : Prop :=
  cert.notBefore ≤ now ∧ now ≤ cert.notAfter

section Spec

variable {X} {cert issuer root : Certificate Name} {now idx count : Nat} {label : String}

theorem checkBasicConstraints_ok {value : Bytes} :
    checkBasicConstraints X count label value = .ok () ↔ ∃ bc,
      X.basicConstraints value = .ok bc ∧ bc.ca = true ∧
        ∀ limit, bc.pathLenConstraint = some limit → count ≤ limit := by
  simp only [checkBasicConstraints, Except.bind_eq_ok, Except.mapError_eq_ok]
  refine exists_congr fun bc => and_congr_right fun _ => ?_
  cases hca : bc.ca with
  | false => simp [throw, throwThe, MonadExceptOf.throw]
  | true =>
    cases hlen : bc.pathLenConstraint with
    | none => simp [pure, Except.pure]
    | some limit =>
      by_cases hle : count ≤ limit
      · simp [hle, pure, Except.pure, Nat.not_lt.mpr hle]
      · simp [hle, Nat.not_le.mp hle, throw, throwThe, MonadExceptOf.throw]

theorem checkKeyUsage_ok {value : Bytes} : checkKeyUsage X label value = .ok () ↔
    ∃ usage, X.keyUsage value = .ok usage ∧ usage.keyCertSign = true := by
  simp only [checkKeyUsage, Except.bind_eq_ok, Except.mapError_eq_ok]
  refine exists_congr fun usage => and_congr_right fun _ => ?_
  cases usage.keyCertSign <;> simp [throw, throwThe, MonadExceptOf.throw, pure, Except.pure]

theorem ite_eq_ok {p : Prop} [Decidable p] {x : Except NitroError Unit} :
    (if p then x else .ok ()) = .ok () ↔ (p → x = .ok ()) := by
  by_cases h : p <;> simp [h]

theorem checkExtension_ok {valid b : Bool} {ext : Extension} :
    checkExtension X count label valid ext = .ok b ↔
      (ext.extnId = basicConstraintsOid → ∃ bc, X.basicConstraints ext.extnValue = .ok bc ∧
        bc.ca = true ∧ ∀ limit, bc.pathLenConstraint = some limit → count ≤ limit) ∧
      (ext.extnId = keyUsageOid → ∃ usage, X.keyUsage ext.extnValue = .ok usage ∧
        usage.keyCertSign = true) ∧
      b = (valid || ext.extnId == basicConstraintsOid) := by
  simp only [checkExtension, Except.unit_bind_eq_ok, ite_eq_ok, checkBasicConstraints_ok,
    checkKeyUsage_ok, pure, Except.pure, Except.ok.injEq]
  rw [eq_comm (a := b)]

theorem checkExtensions_ok {exts : List Extension} {valid b : Bool} :
    exts.foldlM (checkExtension X count label) valid = .ok b ↔
      (∀ ext ∈ exts, ext.extnId = basicConstraintsOid → ∃ bc,
        X.basicConstraints ext.extnValue = .ok bc ∧ bc.ca = true ∧
          ∀ limit, bc.pathLenConstraint = some limit → count ≤ limit) ∧
      (∀ ext ∈ exts, ext.extnId = keyUsageOid → ∃ usage,
        X.keyUsage ext.extnValue = .ok usage ∧ usage.keyCertSign = true) ∧
      b = (valid || exts.any (fun ext => ext.extnId == basicConstraintsOid)) := by
  induction exts generalizing valid with
  | nil =>
    rw [List.foldlM_nil]
    constructor
    · intro h
      cases h
      simp
    · rintro ⟨_, _, rfl⟩
      simp [pure, Except.pure]
  | cons ext exts ih =>
    simp only [List.foldlM_cons, Except.bind_eq_ok, checkExtension_ok, ih, List.forall_mem_cons,
      List.any_cons]
    constructor
    · rintro ⟨_, ⟨hbc, hku, rfl⟩, hbcs, hkus, hb⟩
      exact ⟨⟨hbc, hbcs⟩, ⟨hku, hkus⟩, by rw [hb, Bool.or_assoc]⟩
    · rintro ⟨⟨hbc, hbcs⟩, ⟨hku, hkus⟩, hb⟩
      exact ⟨_, ⟨hbc, hku, rfl⟩, hbcs, hkus, by rw [hb, Bool.or_assoc]⟩

theorem assertCaConstraints_ok : assertCaConstraints X cert count label = .ok () ↔
    IsCa X cert count := by
  unfold assertCaConstraints IsCa
  cases cert.extensions with
  | none => simp [throw, throwThe, MonadExceptOf.throw]
  | some exts =>
    simp only [Except.bind_eq_ok, checkExtensions_ok, Bool.false_or, Option.some.injEq,
      exists_eq_left']
    have hany : exts.any (fun ext => ext.extnId == basicConstraintsOid) = true ↔
        ∃ ext ∈ exts, ext.extnId = basicConstraintsOid := by simp
    rw [← hany]
    cases exts.any (fun ext => ext.extnId == basicConstraintsOid) with
    | false => simp [throw, throwThe, MonadExceptOf.throw]
    | true => simp [pure, Except.pure]

theorem verifyCertValidity_ok : verifyCertValidity cert now label = .ok () ↔ ValidAt cert now := by
  unfold verifyCertValidity ValidAt
  split
  · simp only [reduceCtorEq, false_iff]
    omega
  · simp only [true_iff]
    omega

theorem verifyCertSignature_ok : verifyCertSignature X cert issuer label = .ok () ↔
    SignedBy X cert issuer := by
  simp only [verifyCertSignature, SignedBy, Except.bind_eq_ok, Except.mapError_eq_ok]
  refine exists_congr fun key => ?_
  constructor
  · rintro ⟨hkey, tbs, htbs, h⟩
    cases hsig : cert.signature with
    | none =>
      rw [hsig] at h
      cases h
    | some bytes =>
      rw [hsig] at h
      simp only [Except.bind_eq_ok, Except.mapError_eq_ok] at h
      obtain ⟨signature, hs, h⟩ := h
      split at h
      · rename_i hv
        exact ⟨tbs, bytes, signature, hkey, htbs, rfl, hs, hv⟩
      · cases h
  · rintro ⟨tbs, bytes, signature, hkey, htbs, hsig, hs, hv⟩
    refine ⟨hkey, tbs, htbs, ?_⟩
    rw [hsig]
    simp only [Except.bind_eq_ok, Except.mapError_eq_ok]
    exact ⟨signature, hs, by rw [if_pos hv]; rfl⟩

theorem checkNames_ok [DecidableEq Name] :
    checkNames X cert issuer idx = .ok () ↔ cert.issuer = issuer.subject := by
  unfold checkNames
  by_cases h : cert.issuer = issuer.subject <;> simp [h]

end Spec

/-- The certificate at index `i` of a path and the next one, its issuer. -/
structure Issues (cert issuer : Certificate Name) (now i : Nat) : Prop where
  valid : ValidAt cert now
  named : cert.issuer = issuer.subject
  ca : IsCa X issuer i
  signed : SignedBy X cert issuer

variable {X}

theorem checkPath_ok [DecidableEq Name] {root : Certificate Name} {now idx : Nat}
    {chain : List (Certificate Name)} : checkPath X root now idx chain = .ok () ↔
      ∀ i cert issuer, (chain ++ [root])[i]? = some cert →
        (chain ++ [root])[i + 1]? = some issuer → Issues X cert issuer now (idx + i) := by
  induction chain generalizing idx with
  | nil => simp [checkPath]
  | cons c rest ih =>
    have hnext : (c :: rest ++ [root])[1]? = some (rest.head?.getD root) := by
      cases rest <;> rfl
    simp only [checkPath, Except.unit_bind_eq_ok, verifyCertValidity_ok, checkNames_ok,
      assertCaConstraints_ok, verifyCertSignature_ok, ih]
    constructor
    · rintro ⟨hvalid, hnames, hca, hsigned, hrest⟩ i cert issuer hi hi'
      cases i with
      | zero =>
        rw [Nat.zero_add, hnext, Option.some.injEq] at hi'
        cases hi
        subst hi'
        exact ⟨hvalid, hnames, hca, hsigned⟩
      | succ i =>
        have := hrest i cert issuer hi hi'
        rwa [Nat.add_right_comm] at this
    · intro h
      obtain ⟨hvalid, hnames, hca, hsigned⟩ := h 0 c _ rfl hnext
      refine ⟨hvalid, hnames, hca, hsigned, ?_⟩
      intro i cert issuer hi hi'
      have := h (i + 1) cert issuer hi hi'
      rwa [← Nat.add_assoc, Nat.add_right_comm] at this

/-- Every certificate but the root is in its place followed by its issuer. -/
theorem validAt_of_issues {root : Certificate Name} {path : List (Certificate Name)} {now : Nat}
    (hroot : ValidAt root now)
    (h : ∀ i cert issuer, (path ++ [root])[i]? = some cert →
      (path ++ [root])[i + 1]? = some issuer → Issues X cert issuer now i) :
    ∀ cert ∈ path ++ [root], ValidAt cert now := by
  intro cert hcert
  rcases List.mem_append.mp hcert with hcert | hcert
  · obtain ⟨i, hi⟩ := List.mem_iff_getElem?.mp hcert
    have hlt := (List.getElem?_eq_some_iff.mp hi).1
    have hlast : i + 1 < (path ++ [root]).length := by
      rw [List.length_append, List.length_singleton]
      omega
    exact (h i cert _ (by rw [List.getElem?_append_left hlt, hi])
      (List.getElem?_eq_getElem hlast)).valid
  · rw [List.mem_singleton] at hcert
    rwa [hcert]

section BuildPath

variable [DecidableEq Name] {root : Certificate Name} {s s' : PathState Name}
  {path : List (Certificate Name)}

theorem buildPath_of_issuer (h : s.last.issuer = root.subject) :
    buildPath X root s = .ok (s.chain ++ [s.last]) := by
  rw [buildPath, if_pos h]

theorem buildPath_of_next (h : s.next root = some s') :
    buildPath X root s = buildPath X root s' := by
  have hissuer : s.last.issuer ≠ root.subject := by
    intro hissuer
    rw [PathState.next, if_pos hissuer] at h
    cases h
  rw [buildPath, if_neg hissuer]
  split
  · rename_i hnone
    rw [h] at hnone
    cases hnone
  · rename_i s'' hs
    rw [h, Option.some.injEq] at hs
    rw [hs]

theorem buildPath_of_none (hissuer : s.last.issuer ≠ root.subject) (h : s.next root = none) :
    buildPath X root s ≠ .ok path := by
  rw [buildPath, if_neg hissuer]
  split
  · simp
  · rename_i s' hs
    rw [h] at hs
    cases hs

theorem buildPath_ok (h : buildPath X root s = .ok path) :
    ∃ certs, path = s.chain ++ s.last :: certs ∧ certs.Subperm s.pool := by
  induction s using buildPath.induct root with
  | case1 s hissuer =>
    rw [buildPath_of_issuer hissuer, Except.ok.injEq] at h
    exact ⟨[], h.symm, List.nil_subperm⟩
  | case2 s hissuer hnone => exact absurd h (buildPath_of_none hissuer hnone)
  | case3 s hissuer s' hs ih =>
    rw [buildPath_of_next hs] at h
    obtain ⟨certs, rfl, hsub⟩ := ih h
    obtain ⟨hchain, _, hperm⟩ := PathState.next_some hs
    refine ⟨s'.last :: certs, by rw [hchain, List.append_assoc, List.singleton_append], ?_⟩
    exact (List.subperm_cons _).mpr hsub |>.trans hperm.symm.subperm

end BuildPath

theorem decodeBundle_ok {i : Nat} {cabundle : List Bytes} {pool : List (Certificate Name)}
    (h : decodeBundle X i cabundle = .ok pool) :
    List.Forall₂ (fun der cert => X.fromDer der = .ok cert) cabundle pool := by
  induction cabundle generalizing i pool with
  | nil =>
    cases h
    exact .nil
  | cons der rest ih =>
    simp only [decodeBundle, Except.bind_eq_ok, Except.mapError_eq_ok] at h
    obtain ⟨cert, hcert, certs, hcerts, h⟩ := h
    cases h
    exact .cons hcert (ih hcerts)

theorem decodeBundle_of_forall₂ {cabundle : List Bytes} {pool : List (Certificate Name)}
    (h : List.Forall₂ (fun der cert => X.fromDer der = .ok cert) cabundle pool) (i : Nat) :
    decodeBundle X i cabundle = .ok pool := by
  induction h generalizing i with
  | nil => rfl
  | cons hder _ ih =>
    rw [decodeBundle, hder, ih (i + 1)]
    rfl

end Nitro
end Pzdr
