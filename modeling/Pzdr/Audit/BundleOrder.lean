import Pzdr.Audit.Attestation
import Pzdr.Audit.Chain

/-!
# Audit.BundleOrder

What the order of the bundle decides. The verifier follows the names of issuers and takes the first
certificate with the name, before it checks any of them. On the bundle in one order or another it
goes every way that the names allow (`Way`), so the order is without effect exactly if the checks
give all of these ways one verdict (`verifyChain_perm_iff`).
-/

namespace Pzdr
namespace Audit

open Nitro

variable {Name Key Sig : Type}

/-- The issuers that names lead to from the certificate `last` through a pool, up to the root's name
or to one that no certificate of the pool has. -/
inductive Way (root : Certificate Name) :
    Certificate Name → List (Certificate Name) → List (Certificate Name) → Prop where
  | root {last : Certificate Name} {pool : List (Certificate Name)} :
      last.issuer = root.subject → Way root last pool []
  | stuck {last : Certificate Name} {pool : List (Certificate Name)} :
      last.issuer ≠ root.subject → (∀ cert ∈ pool, cert.subject ≠ last.issuer) →
        Way root last pool []
  | next {last issuer : Certificate Name} {pool rest certs : List (Certificate Name)} :
      last.issuer ≠ root.subject → issuer.subject = last.issuer → pool.Perm (issuer :: rest) →
        Way root issuer rest certs → Way root last pool (issuer :: certs)

/-- The path up to the root passes the checks. -/
def Accepted (X : X509 Name Key Sig) (root : Certificate Name) (clock : Option Nat)
    (path : List (Certificate Name)) : Prop :=
  ∃ now, clock = some now ∧ Trusted X now (path ++ [root])

/-- It does not matter which way is gone. -/
def WaysAgree (X : X509 Name Key Sig) (root leaf : Certificate Name)
    (pool : List (Certificate Name)) (clock : Option Nat) : Prop :=
  ∀ certs certs', Way root leaf pool certs → Way root leaf pool certs' →
    (Accepted X root clock (leaf :: certs) ↔ Accepted X root clock (leaf :: certs'))

namespace Way

variable {root last : Certificate Name} {pool pool' certs certs' : List (Certificate Name)}

/-- The order of the pool does not matter to the names. -/
theorem perm (hperm : pool.Perm pool') (h : Way root last pool certs) :
    Way root last pool' certs := by
  cases h with
  | root hroot => exact .root hroot
  | stuck hne hnone => exact .stuck hne (fun cert hcert => hnone cert (hperm.mem_iff.mpr hcert))
  | next hne hsubject hrest hway => exact .next hne hsubject (hperm.symm.trans hrest) hway

/-- Distinct names leave one way. -/
theorem unique (hnodup : (pool.map Certificate.subject).Nodup) (h : Way root last pool certs)
    (h' : Way root last pool certs') : certs = certs' := by
  induction h generalizing certs' with
  | root hroot =>
    cases h' with
    | root _ => rfl
    | stuck _ _ => rfl
    | next hne _ _ _ => exact absurd hroot hne
  | stuck _ hnone =>
    cases h' with
    | root _ => rfl
    | stuck _ _ => rfl
    | next _ hsubject hrest _ =>
      exact absurd hsubject (hnone _ (hrest.mem_iff.mpr List.mem_cons_self))
  | @next last issuer pool rest certs hne hsubject hrest _ ih =>
    cases h' with
    | root hroot => exact absurd hroot hne
    | stuck _ hnone => exact absurd hsubject (hnone _ (hrest.mem_iff.mpr List.mem_cons_self))
    | @next _ issuer' _ rest' _ _ hsubject' hrest' hway' =>
      have hinj := List.inj_on_of_nodup_map hnodup
      obtain rfl : issuer = issuer' := hinj (hrest.mem_iff.mpr List.mem_cons_self)
        (hrest'.mem_iff.mpr List.mem_cons_self) (hsubject.trans hsubject'.symm)
      have hperm : rest'.Perm rest := (hrest'.symm.trans hrest).cons_inv
      have hrestNodup := (hrest.map Certificate.subject).nodup_iff.mp hnodup
      rw [List.map_cons, List.nodup_cons] at hrestNodup
      rw [ih hrestNodup.2 (hway'.perm hperm)]

end Way

theorem waysAgree_of_nodup {X : X509 Name Key Sig} {root leaf : Certificate Name}
    {pool : List (Certificate Name)} (hnodup : (pool.map Certificate.subject).Nodup)
    {clock : Option Nat} : WaysAgree X root leaf pool clock := by
  intro certs certs' hway hway'
  rw [hway.unique hnodup hway']

/-! ## The ways that the builder goes -/

section Build

variable [DecidableEq Name] {X : X509 Name Key Sig} {root : Certificate Name}

/-- The builder goes one way; its result is the path, if that ends below the root. -/
theorem way_of_buildPath (X : X509 Name Key Sig) (root : Certificate Name) (s : PathState Name) :
    ∃ certs, Way root s.last s.pool certs ∧ ∀ path, buildPath X root s = .ok path ↔
      path = s.chain ++ s.last :: certs ∧ Named (s.last :: certs ++ [root]) := by
  induction s using buildPath.induct root with
  | case1 s hissuer =>
    refine ⟨[], .root hissuer, fun path => ?_⟩
    rw [buildPath_of_issuer hissuer]
    simp [Named, hissuer, eq_comm]
  | case2 s hissuer hnone =>
    refine ⟨[], .stuck hissuer ((PathState.next_eq_none hissuer).mp hnone), fun path => ?_⟩
    simp [Named, hissuer, buildPath_of_none hissuer hnone]
  | case3 s hissuer s' hs ih =>
    obtain ⟨hchain, hsubject, hperm⟩ := PathState.next_some hs
    obtain ⟨certs, hway, hbuild⟩ := ih
    refine ⟨s'.last :: certs, .next hissuer hsubject hperm hway, fun path => ?_⟩
    simp [buildPath_of_next hs, hbuild, hchain, Named, hsubject]

/-- In some order of the pool the builder goes this way. -/
theorem buildPath_of_way (X : X509 Name Key Sig) {last : Certificate Name}
    {pool certs : List (Certificate Name)} (h : Way root last pool certs) :
    ∃ pool', pool.Perm pool' ∧ ∀ chain path, buildPath X root ⟨chain, last, pool'⟩ = .ok path ↔
      path = chain ++ last :: certs ∧ Named (last :: certs ++ [root]) := by
  induction h with
  | @root last pool hissuer =>
    refine ⟨pool, List.Perm.refl _, fun chain path => ?_⟩
    rw [buildPath_of_issuer hissuer]
    simp [Named, hissuer, eq_comm]
  | @stuck last pool hissuer hnone =>
    refine ⟨pool, List.Perm.refl _, fun chain path => ?_⟩
    have hnext : PathState.next root ⟨chain, last, pool⟩ = none :=
      (PathState.next_eq_none hissuer).mpr hnone
    simp [Named, hissuer, buildPath_of_none hissuer hnext]
  | @next last issuer pool rest certs hissuer hsubject hrest _ ih =>
    obtain ⟨rest', hperm, hbuild⟩ := ih
    refine ⟨issuer :: rest', hrest.trans (hperm.cons issuer), fun chain path => ?_⟩
    have hnext : PathState.next root ⟨chain, last, issuer :: rest'⟩ =
        some ⟨chain ++ [last], issuer, rest'⟩ := by
      simp [PathState.next, removeFirst, hissuer, hsubject]
    simp [buildPath_of_next hnext, hbuild, Named, hsubject]

end Build

/-! ## The bundle -/

section Bundle

variable {X : X509 Name Key Sig}

/-- The certificates of the bundle in another order. -/
theorem decodeBundle_perm {cabundle cabundle' : List Bytes} {pool : List (Certificate Name)}
    (hpool : decodeBundle X 0 cabundle = .ok pool) (hperm : cabundle.Perm cabundle') :
    ∃ pool', pool.Perm pool' ∧ decodeBundle X 0 cabundle' = .ok pool' := by
  obtain ⟨pool', hall, hpool'⟩ := List.perm_comp_forall₂ hperm.symm (decodeBundle_ok hpool)
  exact ⟨pool', hpool'.symm, decodeBundle_of_forall₂ hall 0⟩

/-- Every order of the certificates is that of a bundle. -/
theorem exists_bundle_of_perm {cabundle : List Bytes} {pool pool' : List (Certificate Name)}
    (hpool : decodeBundle X 0 cabundle = .ok pool) (hperm : pool.Perm pool') :
    ∃ cabundle', cabundle.Perm cabundle' ∧ decodeBundle X 0 cabundle' = .ok pool' := by
  obtain ⟨cabundle', hall, hbundle⟩ :=
    List.perm_comp_forall₂ hperm.symm (decodeBundle_ok hpool).flip
  exact ⟨cabundle', hbundle.symm, decodeBundle_of_forall₂ hall.flip 0⟩

variable [DecidableEq Name] {leafDer rootPem : Bytes} {clock : Option Nat}
  {root leaf : Certificate Name} {cabundle : List Bytes} {pool : List (Certificate Name)}

/-- The verdict on a bundle is that of the checks on the path that is built from it. -/
theorem verifyChain_accepted (hleaf : X.fromDer leafDer = .ok leaf)
    (hpool : decodeBundle X 0 cabundle = .ok pool) (hroot : decodeRoot X rootPem = .ok root)
    {certs : List (Certificate Name)} (hbuild : ∀ path, buildPath X root ⟨[], leaf, pool⟩ = .ok path ↔
      path = leaf :: certs ∧ Named (leaf :: certs ++ [root])) :
    verifyChain X leafDer cabundle rootPem clock = .ok () ↔ Accepted X root clock (leaf :: certs) := by
  simp only [verifyChain_iff hroot, PathOf, hleaf, hpool, Except.ok.injEq, exists_and_left,
    exists_eq_left', hbuild, Accepted]
  constructor
  · rintro ⟨now, hclock, _, ⟨rfl, _⟩, htrusted⟩
    exact ⟨now, hclock, htrusted⟩
  · rintro ⟨now, hclock, htrusted⟩
    exact ⟨now, hclock, _, ⟨rfl, htrusted.named⟩, htrusted⟩

theorem verifyChain_perm_iff (X : X509 Name Key Sig) (leafDer : Bytes) (cabundle : List Bytes)
    (rootPem : Bytes) (clock : Option Nat) (leaf root : Certificate Name)
    (pool : List (Certificate Name)) (hleaf : X.fromDer leafDer = .ok leaf)
    (hpool : decodeBundle X 0 cabundle = .ok pool) (hroot : decodeRoot X rootPem = .ok root) :
    (∀ cabundle', cabundle.Perm cabundle' → (verifyChain X leafDer cabundle' rootPem clock = .ok () ↔
      verifyChain X leafDer cabundle rootPem clock = .ok ())) ↔ WaysAgree X root leaf pool clock := by
  constructor
  · intro h certs certs' hway hway'
    -- each way is the one that the builder goes on some order of the bundle
    have hverdict : ∀ certs, Way root leaf pool certs → (Accepted X root clock (leaf :: certs) ↔
        verifyChain X leafDer cabundle rootPem clock = .ok ()) := by
      intro certs hway
      obtain ⟨pool', hperm, hbuild⟩ := buildPath_of_way X hway
      obtain ⟨cabundle', hbundle, hpool'⟩ := exists_bundle_of_perm hpool hperm
      rw [← h cabundle' hbundle, verifyChain_accepted hleaf hpool' hroot (hbuild [])]
    rw [hverdict certs hway, hverdict certs' hway']
  · intro h cabundle' hbundle
    obtain ⟨pool', hperm, hpool'⟩ := decodeBundle_perm hpool hbundle
    obtain ⟨certs, hway, hbuild⟩ := way_of_buildPath X root ⟨[], leaf, pool⟩
    obtain ⟨certs', hway', hbuild'⟩ := way_of_buildPath X root ⟨[], leaf, pool'⟩
    rw [verifyChain_accepted hleaf hpool hroot hbuild,
      verifyChain_accepted hleaf hpool' hroot hbuild']
    exact h certs' certs (hway'.perm hperm.symm) hway

end Bundle

/-! ## A renewed issuer -/

/-- The certificate of a zone, and the same one renewed. -/
def zoneIssuer (raw : Bytes) (notAfter : Nat) : Certificate String where
  raw := raw
  subject := "zone.aws.nitro-enclaves"
  issuer := "aws.nitro-enclaves"
  notBefore := 0
  notAfter := notAfter
  extensions := some sampleExtensions
  spki := [0x04, 0x03]
  tbs := .ok raw
  signature := some (sampleSign [0x04, 0x01] raw)

def expiredIssuer : Certificate String := zoneIssuer [0x30, 0x01, 0x03] 10

def renewedIssuer : Certificate String := zoneIssuer [0x30, 0x01, 0x04] 100

def zoneLeaf : Certificate String where
  raw := [0x30, 0x01, 0x05]
  subject := "enclave"
  issuer := "zone.aws.nitro-enclaves"
  notBefore := 0
  notAfter := 100
  extensions := none
  spki := [0x04, 0x04]
  tbs := .ok [0x05]
  signature := some (sampleSign [0x04, 0x03] [0x05])

def zoneX509 : X509 String Bytes Bytes where
  __ := sampleX509
  fromDer bs :=
    match [sampleRoot, expiredIssuer, renewedIssuer, zoneLeaf].find? (fun cert => cert.raw = bs) with
    | some cert => .ok cert
    | none => .error ""

theorem decodeRoot_zone : decodeRoot zoneX509 (Utf8.encode samplePem.toList) = .ok sampleRoot := by
  have hbase64 : zoneX509.base64Decode (Utf8.encode "MAEB".toList) = some sampleRoot.raw := by
    simp [zoneX509, sampleX509]
  simp only [decodeRoot, Utf8.decode?_encode, decodeVec_sample hbase64]
  rfl

/-- The issuer that comes first is the one that is checked. -/
theorem verifyChain_zone {first second : Certificate String}
    (hpool : decodeBundle zoneX509 0 [first.raw, second.raw] = .ok [first, second])
    (hsubject : first.subject = zoneLeaf.issuer) (hissuer : first.issuer = sampleRoot.subject) :
    verifyChain zoneX509 zoneLeaf.raw [first.raw, second.raw] (Utf8.encode samplePem.toList)
        (some 50) = .ok () ↔ Trusted zoneX509 50 [zoneLeaf, first, sampleRoot] := by
  have hnext : PathState.next sampleRoot ⟨[], zoneLeaf, [first, second]⟩ =
      some ⟨[zoneLeaf], first, [second]⟩ := by
    simp [PathState.next, removeFirst, hsubject, zoneLeaf, sampleRoot]
  have hbuild : ∀ path, buildPath zoneX509 sampleRoot ⟨[], zoneLeaf, [first, second]⟩ = .ok path ↔
      path = [zoneLeaf, first] ∧ Named [zoneLeaf, first, sampleRoot] := by
    intro path
    rw [buildPath_of_next hnext, buildPath_of_issuer hissuer]
    simp [Named, hsubject, hissuer, eq_comm]
  rw [verifyChain_accepted rfl hpool decodeRoot_zone hbuild]
  simp [Accepted]

theorem trusted_renewed : Trusted zoneX509 50 [zoneLeaf, renewedIssuer, sampleRoot] where
  valid := by simp [ValidAt, zoneLeaf, renewedIssuer, zoneIssuer, sampleRoot]
  named := by simp [Named, zoneLeaf, renewedIssuer, zoneIssuer, sampleRoot]
  signed := by
    simp [Signed, SignedBy, zoneX509, sampleX509, zoneLeaf, renewedIssuer, zoneIssuer, sampleRoot]
  ca i issuer hi := by
    cases i with
    | zero =>
      cases hi
      exact isCa_sampleExtensions rfl rfl rfl 0
    | succ i =>
      cases i with
      | zero =>
        cases hi
        exact isCa_sampleExtensions rfl rfl rfl 1
      | succ i => cases hi

/-- The leaf's own issuer stands between the leaf and the root. -/
theorem verifyChain_sound_renewed : ∃ (certs : List (Certificate String)) (positions : List Nat),
    verifyChain zoneX509 zoneLeaf.raw [renewedIssuer.raw, expiredIssuer.raw]
      (Utf8.encode samplePem.toList) (some 50) = .ok () ∧
    certs ≠ [] ∧ positions.Nodup ∧
    List.Forall₂ (fun cert p => ∃ der, [renewedIssuer.raw, expiredIssuer.raw][p]? = some der ∧
      zoneX509.fromDer der = .ok cert) certs positions ∧
    ∀ i cert issuer, (zoneLeaf :: certs ++ [sampleRoot])[i]? = some cert →
      (zoneLeaf :: certs ++ [sampleRoot])[i + 1]? = some issuer → IsCa zoneX509 issuer i := by
  have hpool : decodeBundle zoneX509 0 [renewedIssuer.raw, expiredIssuer.raw] =
      .ok [renewedIssuer, expiredIssuer] := rfl
  have hverified := (verifyChain_zone hpool rfl rfl).mpr trusted_renewed
  obtain ⟨now, leaf, root, certs, positions, _, hleaf, hroot, hnodup, hpositions, _, hissues⟩ :=
    (verifyChain_sound zoneX509 zoneLeaf.raw [renewedIssuer.raw, expiredIssuer.raw]
      (Utf8.encode samplePem.toList) (some 50)).1 hverified
  obtain rfl : zoneLeaf = leaf := Except.ok.inj hleaf
  obtain rfl : sampleRoot = root := Except.ok.inj (decodeRoot_zone.symm.trans hroot)
  refine ⟨certs, positions, hverified, ?_, hnodup, hpositions,
    fun i cert issuer hi hi' => (hissues i cert issuer hi hi').2.2⟩
  rintro rfl
  have hnames : zoneLeaf.issuer = sampleRoot.subject := (hissues 0 _ _ rfl rfl).1
  exact absurd hnames (by decide)

theorem not_trusted_expired : ¬ Trusted zoneX509 50 [zoneLeaf, expiredIssuer, sampleRoot] := by
  intro h
  exact absurd (h.valid expiredIssuer (by simp)).2 (by decide)

theorem verifyChain_perm_renewed : ∃ (cabundle cabundle' : List Bytes)
    (pool : List (Certificate String)), cabundle.Perm cabundle' ∧
    decodeBundle zoneX509 0 cabundle = .ok pool ∧
    verifyChain zoneX509 zoneLeaf.raw cabundle (Utf8.encode samplePem.toList) (some 50) = .ok () ∧
    verifyChain zoneX509 zoneLeaf.raw cabundle' (Utf8.encode samplePem.toList) (some 50) ≠ .ok () := by
  refine ⟨[renewedIssuer.raw, expiredIssuer.raw], [expiredIssuer.raw, renewedIssuer.raw],
    [renewedIssuer, expiredIssuer], .swap _ _ _, rfl, ?_, ?_⟩
  · exact (verifyChain_zone rfl rfl rfl).mpr trusted_renewed
  · intro h
    exact not_trusted_expired ((verifyChain_zone rfl rfl rfl).mp h)

theorem verifyChain_perm_distinct :
    verifyChain zoneX509 zoneLeaf.raw [sampleRoot.raw, renewedIssuer.raw]
        (Utf8.encode samplePem.toList) (some 50) = .ok () ↔
      verifyChain zoneX509 zoneLeaf.raw [renewedIssuer.raw, sampleRoot.raw]
        (Utf8.encode samplePem.toList) (some 50) = .ok () :=
  (verifyChain_perm_iff zoneX509 zoneLeaf.raw [renewedIssuer.raw, sampleRoot.raw] _ (some 50)
    zoneLeaf sampleRoot [renewedIssuer, sampleRoot] rfl rfl decodeRoot_zone).mpr
    (waysAgree_of_nodup (by simp [renewedIssuer, zoneIssuer, sampleRoot])) _ (.swap _ _ _)

end Audit
end Pzdr
