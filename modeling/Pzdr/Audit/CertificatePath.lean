import Pzdr.Nitro.Chain
import Pzdr.Sdk.Attestation

/-!
# Audit.CertificatePath

The certificate paths of the Rust verifier and of the SDK. One looks for issuers by name and checks
the signatures of the path that it has found, the other one looks for issuers by name and signature;
one ends below the pinned root, the other one at it.

`validateCertificatePath_ok`: on a bundle with distinct subjects and under a self-issued root, the
SDK accepts the paths that the verifier accepts, if the root is in the bundle and has signed itself
and no certificate of the path expires within the current second.
-/

namespace Pzdr
namespace Audit

open Nitro
open Sdk (Date Node Thrown X509Certificate call call_ok throwIf throwIf_ok)

section

variable {Name Key Sig PublicKey : Type}

/-- What the decoder has made of some bytes. -/
def Decoded (X : X509 Name Key Sig) (cert : Certificate Name) : Prop :=
  X.fromDer cert.raw = .ok cert

theorem Decoded.eq_of_raw {X : X509 Name Key Sig} {cert cert' : Certificate Name}
    (h : Decoded X cert) (h' : Decoded X cert') (hraw : cert.raw = cert'.raw) : cert = cert' := by
  rw [Decoded, hraw, h'] at h
  exact (Except.ok.inj h).symm

/-- The X.509 libraries decode and verify alike: `view` is the SDK's picture of a certificate. -/
structure X509Alike (X : X509 Name Key Sig) (N : Node PublicKey)
    (view : Certificate Name → X509Certificate PublicKey) : Prop where
  der : ∀ bs, N.x509Der bs = (X.fromDer bs).toOption.map view
  fromDer_raw : ∀ bs cert, X.fromDer bs = .ok cert → cert.raw = bs
  raw : ∀ cert, (view cert).raw = cert.raw
  names : ∀ cert issuer, (view cert).issuer = (view issuer).subject ↔ cert.issuer = issuer.subject
  validFrom : ∀ cert, (view cert).validFrom = 1000 * (cert.notBefore : Int)
  validTo : ∀ cert, (view cert).validTo = 1000 * (cert.notAfter : Int)
  -- the SDK's flag is about the basic constraints and the key usage, not about the path length
  ca : ∀ cert, (view cert).ca = true ↔ IsCa X cert 0
  verify : ∀ cert issuer, Decoded X cert → (SignedBy X cert issuer ↔
    ∃ key, (view issuer).publicKey = some key ∧ N.verify (view cert) key = true)

/-- The certificate's path length constraint allows this many certificates of CAs below it. -/
def PathLength (X : X509 Name Key Sig) (cert : Certificate Name) (count : Nat) : Prop :=
  ∀ exts, cert.extensions = some exts → ∀ ext ∈ exts, ext.extnId = basicConstraintsOid →
    ∀ bc, X.basicConstraints ext.extnValue = .ok bc →
      ∀ limit, bc.pathLenConstraint = some limit → count ≤ limit

theorem isCa_iff {X : X509 Name Key Sig} {cert : Certificate Name} {count : Nat} :
    IsCa X cert count ↔ IsCa X cert 0 ∧ PathLength X cert count := by
  constructor
  · rintro ⟨exts, hexts, hex, hbc, hku⟩
    refine ⟨⟨exts, hexts, hex, ?_, hku⟩, ?_⟩
    · intro ext hext hid
      obtain ⟨bc, hok, hca, _⟩ := hbc ext hext hid
      exact ⟨bc, hok, hca, fun limit _ => Nat.zero_le limit⟩
    · intro exts' hexts' ext hext hid bc hok limit hlimit
      rw [hexts, Option.some.injEq] at hexts'
      subst hexts'
      obtain ⟨bc', hok', _, hlen⟩ := hbc ext hext hid
      rw [hok, Except.ok.injEq] at hok'
      subst hok'
      exact hlen limit hlimit
  · rintro ⟨⟨exts, hexts, hex, hbc, hku⟩, hlen⟩
    refine ⟨exts, hexts, hex, ?_, hku⟩
    intro ext hext hid
    obtain ⟨bc, hok, hca, _⟩ := hbc ext hext hid
    exact ⟨bc, hok, hca, hlen exts hexts ext hext hid bc hok⟩

end

/-! ## The next issuer -/

section Issuer

variable {Name Key Sig PublicKey : Type} {X : X509 Name Key Sig} {N : Node PublicKey}
  {view : Certificate Name → X509Certificate PublicKey}

theorem issuedBy_true (hX : X509Alike X N view) {cert issuer : Certificate Name}
    (hcert : Decoded X cert) :
    Sdk.issuedBy N (view cert) (view issuer) = .ok true ↔
      cert.issuer = issuer.subject ∧ SignedBy X cert issuer := by
  unfold Sdk.issuedBy
  rw [hX.verify cert issuer hcert, ← hX.names]
  by_cases hname : (view cert).issuer = (view issuer).subject
  · rw [if_pos hname]
    cases (view issuer).publicKey with
    | none => simp [call, Except.map]
    | some key => simp [call, Except.map, hname]
  · simp [hname]

theorem issuedBy_of_ne (hX : X509Alike X N view) {cert issuer : Certificate Name}
    (h : issuer.subject ≠ cert.issuer) :
    Sdk.issuedBy N (view cert) (view issuer) = .ok false := by
  have hname : ¬ (view cert).issuer = (view issuer).subject := by
    rw [hX.names]
    exact fun heq => h heq.symm
  exact if_neg hname

theorem findIssuer_of_forall_ne (hX : X509Alike X N view) {cert : Certificate Name}
    {pool : List (Certificate Name)} (h : ∀ c ∈ pool, c.subject ≠ cert.issuer) :
    Sdk.findIssuer N (view cert) (pool.map view) = .ok none := by
  induction pool with
  | nil => rfl
  | cons c pool ih =>
    rw [List.forall_mem_cons] at h
    rw [List.map_cons, Sdk.findIssuer, issuedBy_of_ne hX h.1, ih h.2]
    rfl

/-- The first certificate with a name is the only one. -/
theorem removeFirst_subject [DecidableEq Name] {name : Name} {pool : List (Certificate Name)}
    (hnodup : (pool.map Certificate.subject).Nodup) {c : Certificate Name} (hc : c ∈ pool)
    (hname : c.subject = name) :
    ∃ rest, removeFirst (fun candidate => decide (candidate.subject = name)) pool =
      some (c, rest) := by
  induction pool with
  | nil => cases hc
  | cons d pool ih =>
    rw [List.map_cons, List.nodup_cons] at hnodup
    rw [removeFirst]
    by_cases hd : d.subject = name
    · rcases List.mem_cons.mp hc with rfl | hc
      · exact ⟨pool, by rw [if_pos (decide_eq_true hd)]⟩
      · have hmem := List.mem_map_of_mem (f := Certificate.subject) hc
        rw [hname, ← hd] at hmem
        exact absurd hmem hnodup.1
    · rw [if_neg (by simpa using hd)]
      rcases List.mem_cons.mp hc with rfl | hc
      · exact absurd hname hd
      · obtain ⟨rest, hrest⟩ := ih hnodup.2 hc
        exact ⟨d :: rest, by rw [hrest]; rfl⟩

theorem findIssuer_view [DecidableEq Name] (hX : X509Alike X N view) {cert : Certificate Name}
    (hcert : Decoded X cert) {pool : List (Certificate Name)} (hnodup : (pool.map Certificate.subject).Nodup)
    {r : X509Certificate PublicKey × List (X509Certificate PublicKey)} :
    Sdk.findIssuer N (view cert) (pool.map view) = .ok (some r) ↔ ∃ issuer rest,
      removeFirst (fun candidate => decide (candidate.subject = cert.issuer)) pool =
        some (issuer, rest) ∧ SignedBy X cert issuer ∧ r = (view issuer, rest.map view) := by
  induction pool generalizing r with
  | nil => simp [Sdk.findIssuer, removeFirst]
  | cons c pool ih =>
    rw [List.map_cons, List.nodup_cons] at hnodup
    rw [List.map_cons, Sdk.findIssuer, removeFirst]
    by_cases hc : c.subject = cert.issuer
    · -- no certificate after this one has the name
      have hrest : Sdk.findIssuer N (view cert) (pool.map view) = .ok none := by
        refine findIssuer_of_forall_ne hX ?_
        intro d hd hname
        rw [← hc] at hname
        exact hnodup.1 (hname ▸ List.mem_map_of_mem hd)
      simp only [hrest, Except.bind_eq_ok, if_pos (decide_eq_true hc), Option.some.injEq,
        Prod.mk.injEq]
      constructor
      · rintro ⟨found, hfound, h⟩
        cases found with
        | false => cases h
        | true =>
          obtain ⟨_, hsigned⟩ := (issuedBy_true hX hcert).mp hfound
          rw [if_pos rfl] at h
          cases h
          exact ⟨c, pool, ⟨rfl, rfl⟩, hsigned, rfl⟩
      · rintro ⟨_, _, ⟨rfl, rfl⟩, hsigned, rfl⟩
        exact ⟨true, (issuedBy_true hX hcert).mpr ⟨hc.symm, hsigned⟩, rfl⟩
    · rw [issuedBy_of_ne hX hc, if_neg (by simpa using hc)]
      simp only [Except.bind_eq_ok, Except.ok.injEq, exists_eq_left', Bool.false_eq_true, if_false,
        Option.map_eq_some_iff]
      constructor
      · rintro ⟨found, hfound, h⟩
        cases found with
        | none => cases h
        | some s =>
          cases h
          obtain ⟨issuer, rest, hremove, hsigned, rfl⟩ := (ih hnodup.2).mp hfound
          exact ⟨issuer, c :: rest, ⟨_, hremove, rfl⟩, hsigned, rfl⟩
      · rintro ⟨_, _, ⟨⟨issuer, rest⟩, hremove, heq⟩, hsigned, rfl⟩
        cases heq
        exact ⟨some (view issuer, rest.map view), (ih hnodup.2).mpr ⟨_, _, hremove, hsigned, rfl⟩,
          rfl⟩

end Issuer

/-! ## The path -/

section Path

variable {Name Key Sig PublicKey : Type} {X : X509 Name Key Sig} {N : Node PublicKey}
  {view : Certificate Name → X509Certificate PublicKey}

/-- Each certificate names the next one as its issuer. -/
def Named (chain : List (Certificate Name)) : Prop :=
  chain.IsChain (fun cert issuer => cert.issuer = issuer.subject)

/-- Each certificate is signed by the next one. -/
def Signed (X : X509 Name Key Sig) (chain : List (Certificate Name)) : Prop :=
  chain.IsChain (SignedBy X)

/-- The SDK's loop is at the root where the verifier's is left. -/
theorem extendChain_root (root : Certificate Name) (hX : X509Alike X N view)
    (chain pool : List (X509Certificate PublicKey)) :
    Sdk.extendChain N root.raw chain (view root) pool = .ok (chain ++ [view root]) := by
  rw [Sdk.extendChain, if_pos (hX.raw root)]

theorem next_eq [DecidableEq Name] {root : Certificate Name} {s s' : PathState Name}
    (hissuer : s.last.issuer ≠ root.subject) : s.next root = some s' ↔
      removeFirst (fun candidate => decide (candidate.subject = s.last.issuer)) s.pool =
        some (s'.last, s'.pool) ∧ s'.chain = s.chain ++ [s.last] := by
  rw [PathState.next, if_neg hissuer, Option.map_eq_some_iff]
  constructor
  · rintro ⟨⟨issuer, rest⟩, hremove, rfl⟩
    exact ⟨hremove, rfl⟩
  · rintro ⟨hremove, hchain⟩
    exact ⟨_, hremove, by rw [← hchain]⟩

theorem extendChain_step [DecidableEq Name] (hX : X509Alike X N view) {root last : Certificate Name}
    {pool : List (Certificate Name)} (hroot : Decoded X root) (hlast : Decoded X last)
    (hnodup : (pool.map Certificate.subject).Nodup) (hne : last ≠ root)
    {chain out : List (X509Certificate PublicKey)} :
    Sdk.extendChain N root.raw chain (view last) (pool.map view) = .ok out ↔ ∃ issuer rest,
      removeFirst (fun candidate => decide (candidate.subject = last.issuer)) pool =
        some (issuer, rest) ∧ SignedBy X last issuer ∧
        Sdk.extendChain N root.raw (chain ++ [view last]) (view issuer) (rest.map view) =
          .ok out := by
  have hraw : (view last).raw ≠ root.raw := by
    rw [hX.raw]
    exact fun h => hne (hlast.eq_of_raw hroot h)
  rw [Sdk.extendChain_ok hraw]
  simp only [findIssuer_view hX hlast hnodup]
  constructor
  · rintro ⟨_, ⟨issuer, rest, hremove, hsigned, rfl⟩, hout⟩
    exact ⟨issuer, rest, hremove, hsigned, hout⟩
  · rintro ⟨issuer, rest, hremove, hsigned, hout⟩
    exact ⟨_, ⟨issuer, rest, hremove, hsigned, rfl⟩, hout⟩

/-- A round keeps the pool decoded, with distinct subjects and with the root in it: the issuer that is
taken has not the root's name. -/
theorem pool_next [DecidableEq Name] {root : Certificate Name} {s s' : PathState Name}
    (hs : s.next root = some s') (hissuer : s.last.issuer ≠ root.subject)
    (hdecoded : ∀ c ∈ s.last :: s.pool, Decoded X c)
    (hnodup : (s.pool.map Certificate.subject).Nodup) (hmem : root ∈ s.pool) :
    (∀ c ∈ s'.last :: s'.pool, Decoded X c) ∧ (s'.pool.map Certificate.subject).Nodup ∧
      root ∈ s'.pool ∧ s'.last ≠ root := by
  obtain ⟨_, hsubject, hperm⟩ := PathState.next_some hs
  have hne : s'.last ≠ root := by
    intro h
    rw [h] at hsubject
    exact hissuer hsubject.symm
  refine ⟨?_, ?_, ?_, hne⟩
  · intro c hc
    exact hdecoded c (List.mem_cons_of_mem _ (hperm.mem_iff.mpr hc))
  · have := (hperm.map Certificate.subject).nodup_iff.mp hnodup
    exact (List.nodup_cons.mp this).2
  · rcases List.mem_cons.mp (hperm.mem_iff.mp hmem) with h | h
    · exact absurd h.symm hne
    · exact h

theorem extendChain_iff [DecidableEq Name] (hX : X509Alike X N view) {root : Certificate Name}
    (hroot : Decoded X root) {s : PathState Name}
    (hdecoded : ∀ c ∈ s.last :: s.pool, Decoded X c) (hnodup : (s.pool.map Certificate.subject).Nodup)
    (hmem : root ∈ s.pool) (hne : s.last ≠ root) {chain out : List (X509Certificate PublicKey)} :
    Sdk.extendChain N root.raw chain (view s.last) (s.pool.map view) = .ok out ↔ ∃ certs,
      buildPath X root s = .ok (s.chain ++ s.last :: certs) ∧
        Signed X (s.last :: certs ++ [root]) ∧
        out = chain ++ (s.last :: certs ++ [root]).map view := by
  induction s using buildPath.induct root generalizing chain out with
  | case1 s hissuer =>
    -- the issuer is the root
    obtain ⟨rest, hrest⟩ := removeFirst_subject hnodup hmem hissuer.symm
    rw [extendChain_step hX hroot (hdecoded _ List.mem_cons_self) hnodup hne,
      buildPath_of_issuer hissuer, hrest]
    constructor
    · rintro ⟨_, _, heq, hsigned, hout⟩
      cases heq
      rw [extendChain_root root hX, Except.ok.injEq] at hout
      exact ⟨[], rfl, by simpa [Signed] using hsigned, by simp [← hout]⟩
    · rintro ⟨certs, hpath, hsigned, rfl⟩
      obtain rfl : certs = [] := by simpa using hpath
      refine ⟨root, rest, rfl, by simpa [Signed] using hsigned, ?_⟩
      rw [extendChain_root root hX]
      simp
  | case2 s hissuer hnone =>
    rw [extendChain_step hX hroot (hdecoded _ List.mem_cons_self) hnodup hne]
    constructor
    · rintro ⟨issuer, rest, hremove, _⟩
      have hs : s.next root = some ⟨s.chain ++ [s.last], issuer, rest⟩ :=
        (next_eq hissuer).mpr ⟨hremove, rfl⟩
      rw [hnone] at hs
      cases hs
    · rintro ⟨certs, hpath, _⟩
      exact absurd hpath (buildPath_of_none hissuer hnone)
  | case3 s hissuer s' hs ih =>
    obtain ⟨hremove, hchain⟩ := (next_eq hissuer).mp hs
    obtain ⟨hdecoded', hnodup', hmem', hne'⟩ := pool_next hs hissuer hdecoded hnodup hmem
    rw [extendChain_step hX hroot (hdecoded _ List.mem_cons_self) hnodup hne, hremove,
      buildPath_of_next hs]
    constructor
    · rintro ⟨_, _, heq, hsigned, hout⟩
      cases heq
      obtain ⟨certs, hpath, hsigned', rfl⟩ := (ih hdecoded' hnodup' hmem' hne').mp hout
      refine ⟨s'.last :: certs, ?_, ?_, ?_⟩
      · rw [hpath, hchain, List.append_assoc, List.singleton_append]
      · exact List.isChain_cons_cons.mpr ⟨hsigned, hsigned'⟩
      · simp
    · rintro ⟨certs, hpath, hsigned, rfl⟩
      obtain ⟨certs', hpath', _⟩ := buildPath_ok hpath
      rw [hchain, List.append_assoc, List.singleton_append, List.append_cancel_left_eq,
        List.cons.injEq] at hpath'
      obtain rfl := hpath'.2
      obtain ⟨hfirst, hsigned'⟩ := List.isChain_cons_cons.mp hsigned
      refine ⟨_, _, rfl, hfirst, (ih hdecoded' hnodup' hmem' hne').mpr ⟨certs', ?_, hsigned', ?_⟩⟩
      · rw [hpath, hchain, List.append_assoc, List.singleton_append]
      · simp

/-- The path that the verifier has built names its issuers. -/
theorem buildPath_named [DecidableEq Name] {root : Certificate Name} {s : PathState Name}
    {certs : List (Certificate Name)} (h : buildPath X root s = .ok (s.chain ++ s.last :: certs)) :
    Named (s.last :: certs ++ [root]) := by
  induction s using buildPath.induct root generalizing certs with
  | case1 s hissuer =>
    rw [buildPath_of_issuer hissuer, Except.ok.injEq, List.append_cancel_left_eq,
      List.cons.injEq] at h
    rw [← h.2]
    simpa [Named] using hissuer
  | case2 s hissuer hnone => exact absurd h (buildPath_of_none hissuer hnone)
  | case3 s hissuer s' hs ih =>
    obtain ⟨hchain, hsubject, _⟩ := PathState.next_some hs
    rw [buildPath_of_next hs] at h
    obtain ⟨certs', hpath', _⟩ := buildPath_ok h
    rw [hchain, List.append_assoc, List.singleton_append, List.append_cancel_left_eq,
      List.cons.injEq] at hpath'
    obtain rfl := hpath'.2
    refine List.isChain_cons_cons.mpr ⟨hsubject.symm, ih ?_⟩
    rw [h, hchain, List.append_assoc, List.singleton_append]

end Path

/-! ## What each verifier asks of a path -/

section Checks

variable {Name Key Sig PublicKey : Type} {X : X509 Name Key Sig} {N : Node PublicKey}
  {view : Certificate Name → X509Certificate PublicKey}

theorem isChain_iff_getElem? {α : Type} {R : α → α → Prop} {l : List α} :
    l.IsChain R ↔ ∀ i a b, l[i]? = some a → l[i + 1]? = some b → R a b := by
  rw [List.isChain_iff_getElem]
  constructor
  · intro h i a b ha hb
    obtain ⟨hi, rfl⟩ := List.getElem?_eq_some_iff.mp hb
    rw [List.getElem?_eq_getElem (by omega), Option.some.injEq] at ha
    exact ha ▸ h i hi
  · intro h i hi
    exact h i _ _ (List.getElem?_eq_getElem _) (List.getElem?_eq_getElem _)

/-- What the verifier asks of a path, the root at its end included. -/
structure Trusted (X : X509 Name Key Sig) (now : Nat) (chain : List (Certificate Name)) : Prop where
  valid : ∀ cert ∈ chain, ValidAt cert now
  named : Named chain
  signed : Signed X chain
  ca : ∀ i issuer, chain[i + 1]? = some issuer → IsCa X issuer i

theorem trusted_iff {root : Certificate Name} {path : List (Certificate Name)} {now : Nat} :
    Trusted X now (path ++ [root]) ↔ ValidAt root now ∧ ∀ i cert issuer,
      (path ++ [root])[i]? = some cert → (path ++ [root])[i + 1]? = some issuer →
        Issues X cert issuer now (0 + i) := by
  constructor
  · rintro ⟨hvalid, hnamed, hsigned, hca⟩
    refine ⟨hvalid root (List.mem_append_right _ List.mem_cons_self), ?_⟩
    intro i cert issuer hi hi'
    rw [Nat.zero_add]
    exact ⟨hvalid cert (List.mem_of_getElem? hi), isChain_iff_getElem?.mp hnamed i _ _ hi hi',
      hca i issuer hi', isChain_iff_getElem?.mp hsigned i _ _ hi hi'⟩
  · rintro ⟨hroot, hissues⟩
    simp only [Nat.zero_add] at hissues
    refine ⟨validAt_of_issues hroot hissues, ?_, ?_, ?_⟩
    · exact isChain_iff_getElem?.mpr fun i cert issuer hi hi' => (hissues i _ _ hi hi').named
    · exact isChain_iff_getElem?.mpr fun i cert issuer hi hi' => (hissues i _ _ hi hi').signed
    · intro i issuer hi'
      have hlt := (List.getElem?_eq_some_iff.mp hi').1
      exact (hissues i _ issuer (List.getElem?_eq_getElem (by omega)) hi').ca

/-- The path that the verifier builds from the leaf through the bundle. -/
def PathOf [DecidableEq Name] (X : X509 Name Key Sig) (leafDer : Bytes) (bundle : List Bytes)
    (root : Certificate Name) (path : List (Certificate Name)) : Prop :=
  ∃ leaf pool, X.fromDer leafDer = .ok leaf ∧ decodeBundle X 0 bundle = .ok pool ∧
    buildPath X root ⟨[], leaf, pool⟩ = .ok path

theorem PathOf.unique [DecidableEq Name] {leafDer : Bytes} {bundle : List Bytes}
    {root : Certificate Name} {path path' : List (Certificate Name)}
    (h : PathOf X leafDer bundle root path) (h' : PathOf X leafDer bundle root path') :
    path = path' := by
  obtain ⟨leaf, pool, hleaf, hpool, hpath⟩ := h
  obtain ⟨leaf', pool', hleaf', hpool', hpath'⟩ := h'
  rw [hleaf, Except.ok.injEq] at hleaf'
  rw [hpool, Except.ok.injEq] at hpool'
  subst hleaf' hpool'
  rw [hpath, Except.ok.injEq] at hpath'
  exact hpath'

theorem verifyChain_iff [DecidableEq Name] {leafDer rootPem : Bytes} {bundle : List Bytes}
    {root : Certificate Name} (hroot : decodeRoot X rootPem = .ok root) {clock : Option Nat} :
    verifyChain X leafDer bundle rootPem clock = .ok () ↔ ∃ now path, clock = some now ∧
      PathOf X leafDer bundle root path ∧ Trusted X now (path ++ [root]) := by
  simp only [verifyChain, hroot, Except.bind_eq_ok, Except.mapError_eq_ok, Except.ok.injEq,
    exists_eq_left', trusted_iff, PathOf]
  cases clock with
  | none => simp [throw, throwThe, MonadExceptOf.throw]
  | some now =>
    simp only [Except.unit_bind_eq_ok, checkPath_ok, verifyCertValidity_ok]
    constructor
    · rintro ⟨leaf, hleaf, pool, hpool, path, hpath, hissues, hvalid⟩
      exact ⟨now, path, rfl, ⟨leaf, pool, hleaf, hpool, hpath⟩, hvalid, hissues⟩
    · rintro ⟨_, path, ⟨⟩, ⟨leaf, pool, hleaf, hpool, hpath⟩, hvalid, hissues⟩
      exact ⟨leaf, hleaf, pool, hpool, path, hpath, hissues, hvalid⟩

/-- The system clock at this time; it has no value before 1970. -/
def systemClock (now : Date) : Option Nat :=
  if 0 ≤ now.ms then some (now.ms / 1000).toNat else none

/-- The SDK's validity window, which ends with the first millisecond of the last second. -/
theorem certIsValid_iff (hX : X509Alike X N view) {cert : Certificate Name} {now : Date} :
    Sdk.certIsValid (view cert) now = true ↔ (∃ secs, systemClock now = some secs ∧
      ValidAt cert secs) ∧ now.ms ≤ 1000 * (cert.notAfter : Int) := by
  unfold Sdk.certIsValid systemClock ValidAt
  rw [Bool.and_eq_true, decide_eq_true_eq, decide_eq_true_eq, hX.validFrom, hX.validTo]
  by_cases hpos : 0 ≤ now.ms
  · simp only [if_pos hpos, Option.some.injEq, exists_eq_left']
    omega
  · simp only [if_neg hpos, reduceCtorEq, false_and, exists_false, iff_false]
    omega

theorem x509Der_eq_some (hX : X509Alike X N view) {bs : Bytes} {cert : X509Certificate PublicKey} :
    N.x509Der bs = some cert ↔ ∃ c, X.fromDer bs = .ok c ∧ cert = view c := by
  rw [hX.der]
  cases X.fromDer bs <;> simp [Except.toOption, eq_comm]

theorem mapM_x509Der (hX : X509Alike X N view) {bundle : List Bytes} {i : Nat}
    {supplied : List (X509Certificate PublicKey)} :
    bundle.mapM (fun der => call (N.x509Der der)) = .ok supplied ↔
      ∃ pool, decodeBundle X i bundle = .ok pool ∧ supplied = pool.map view := by
  induction bundle generalizing i supplied with
  | nil =>
    simp only [List.mapM_nil, decodeBundle]
    constructor
    · intro h
      cases h
      exact ⟨[], rfl, rfl⟩
    · rintro ⟨_, ⟨⟩, rfl⟩
      rfl
  | cons der bundle ih =>
    simp only [List.mapM_cons, decodeBundle, Except.bind_eq_ok, Except.mapError_eq_ok, call_ok,
      @ih (i + 1), x509Der_eq_some hX]
    constructor
    · rintro ⟨_, ⟨cert, hcert, rfl⟩, _, ⟨pool, hpool, rfl⟩, h⟩
      cases h
      exact ⟨cert :: pool, ⟨cert, hcert, pool, hpool, rfl⟩, rfl⟩
    · rintro ⟨_, ⟨cert, hcert, pool, hpool, h⟩, rfl⟩
      cases h
      exact ⟨_, ⟨cert, hcert, rfl⟩, _, ⟨pool, hpool, rfl⟩, rfl⟩

theorem decoded_of_fromDer (hX : X509Alike X N view) {bs : Bytes} {cert : Certificate Name}
    (h : X.fromDer bs = .ok cert) : Decoded X cert := by
  rw [Decoded, hX.fromDer_raw bs cert h, h]

theorem decoded_of_decodeRoot (hX : X509Alike X N view) {rootPem : Bytes}
    {root : Certificate Name} (h : decodeRoot X rootPem = .ok root) : Decoded X root := by
  unfold decodeRoot at h
  split at h
  · cases h
  · simp only [Except.bind_eq_ok, Except.mapError_eq_ok] at h
    obtain ⟨rootDer, _, hroot⟩ := h
    exact decoded_of_fromDer hX hroot

theorem mem_pool_iff (hX : X509Alike X N view) {bundle : List Bytes}
    {pool : List (Certificate Name)} (h : decodeBundle X 0 bundle = .ok pool) :
    (∀ cert ∈ pool, Decoded X cert) ∧
      ∀ cert, Decoded X cert → (cert ∈ pool ↔ cert.raw ∈ bundle) := by
  have hall := decodeBundle_ok h
  clear h
  induction hall with
  | nil => simp
  | cons hder _ ih =>
    rw [List.forall_mem_cons]
    refine ⟨⟨decoded_of_fromDer hX hder, ih.1⟩, ?_⟩
    intro cert hcert
    rw [List.mem_cons, List.mem_cons, ih.2 cert hcert, ← hX.fromDer_raw _ _ hder]
    refine or_congr_left ⟨fun h => by rw [h], ?_⟩
    exact hcert.eq_of_raw (decoded_of_fromDer hX hder)

theorem extendChain_checked_iff [DecidableEq Name] (hX : X509Alike X N view)
    {root leaf : Certificate Name} {pool : List (Certificate Name)} {now : Date}
    (hdecoded : ∀ c ∈ leaf :: pool, Decoded X c) (hnodup : (pool.map Certificate.subject).Nodup)
    (hmem : root ∈ pool) (hissued : root.issuer = root.subject) (hca : IsCa X root 0)
    (hself : SignedBy X root root) :
    (∃ chain, Sdk.extendChain N root.raw [] (view leaf) (pool.map view) = .ok chain ∧
        Sdk.checkChain now 0 chain = .ok ()) ↔
      ∃ path, buildPath X root ⟨[], leaf, pool⟩ = .ok path ∧ Signed X (path ++ [root]) ∧
        (∀ cert ∈ path ++ [root], Sdk.certIsValid (view cert) now = true) ∧
        ∀ cert ∈ (path ++ [root]).tail, IsCa X cert 0 := by
  have hroot : Decoded X root := hdecoded root (List.mem_cons_of_mem _ hmem)
  by_cases hleaf : leaf = root
  · -- the verifier asks that the root issued itself
    subst hleaf
    rw [extendChain_root leaf hX, buildPath_of_issuer hissued]
    simp [Sdk.checkChain_ok, Signed, hself, hca]
  · have hextend : ∀ chain,
        Sdk.extendChain N root.raw [] (view leaf) (pool.map view) = .ok chain ↔ ∃ certs,
          buildPath X root ⟨[], leaf, pool⟩ = .ok (leaf :: certs) ∧
            Signed X (leaf :: certs ++ [root]) ∧ chain = (leaf :: certs ++ [root]).map view :=
      fun chain => extendChain_iff hX hroot (s := ⟨[], leaf, pool⟩) hdecoded hnodup hmem hleaf
    simp only [hextend, Sdk.checkChain_ok]
    constructor
    · rintro ⟨_, ⟨certs, hpath, hsigned, rfl⟩, hvalid, hcas⟩
      rw [← List.map_tail] at hcas
      simp only [List.forall_mem_map, hX.ca] at hvalid hcas
      exact ⟨_, hpath, hsigned, hvalid, hcas⟩
    · rintro ⟨path, hpath, hsigned, hvalid, hcas⟩
      obtain ⟨certs, rfl, _⟩ := buildPath_ok hpath
      rw [List.nil_append] at hsigned hvalid hcas
      refine ⟨_, ⟨certs, hpath, hsigned, rfl⟩, ?_, ?_⟩
      · simpa only [List.forall_mem_map] using hvalid
      · rw [← List.map_tail]
        simpa only [List.forall_mem_map, hX.ca] using hcas

/-- The certificates of a document under this root, as they are issued for enclaves. -/
structure RegularChain [DecidableEq Name] (X : X509 Name Key Sig) (leafDer : Bytes)
    (bundle : List Bytes) (root : Certificate Name) : Prop where
  selfIssued : root.issuer = root.subject
  ca : IsCa X root 0
  subjects : ∀ pool, decodeBundle X 0 bundle = .ok pool → (pool.map Certificate.subject).Nodup
  pathLength : ∀ path, PathOf X leafDer bundle root path →
    ∀ i issuer, (path ++ [root])[i + 1]? = some issuer → PathLength X issuer i

theorem trusted_of_checked [DecidableEq Name] (hX : X509Alike X N view) {leafDer : Bytes}
    {bundle : List Bytes} {root : Certificate Name} (h : RegularChain X leafDer bundle root)
    {path : List (Certificate Name)} (hpath : PathOf X leafDer bundle root path) {now : Date} :
    (Signed X (path ++ [root]) ∧
      (∀ cert ∈ path ++ [root], Sdk.certIsValid (view cert) now = true) ∧
      ∀ cert ∈ (path ++ [root]).tail, IsCa X cert 0) ↔
    (∃ secs, systemClock now = some secs ∧ Trusted X secs (path ++ [root])) ∧
      ∀ cert ∈ path ++ [root], now.ms ≤ 1000 * (cert.notAfter : Int) := by
  obtain ⟨leaf, pool, _, _, hbuild⟩ := id hpath
  obtain ⟨certs, rfl, _⟩ := buildPath_ok hbuild
  have hnamed : Named (leaf :: certs ++ [root]) := buildPath_named hbuild
  simp only [certIsValid_iff hX]
  constructor
  · rintro ⟨hsigned, hvalid, hcas⟩
    obtain ⟨⟨secs, hclock, _⟩, _⟩ := hvalid leaf List.mem_cons_self
    refine ⟨⟨secs, hclock, ?_, hnamed, hsigned, ?_⟩, fun cert hcert => (hvalid cert hcert).2⟩
    · intro cert hcert
      obtain ⟨⟨secs', hclock', hvalid'⟩, _⟩ := hvalid cert hcert
      rw [hclock, Option.some.injEq] at hclock'
      exact hclock' ▸ hvalid'
    · intro i issuer hi
      refine isCa_iff.mpr ⟨hcas issuer (List.mem_of_getElem? (i := i) hi), ?_⟩
      exact h.pathLength _ hpath i issuer hi
  · rintro ⟨⟨secs, hclock, htrusted⟩, hexpiry⟩
    refine ⟨htrusted.signed, ?_, ?_⟩
    · intro cert hcert
      exact ⟨⟨secs, hclock, htrusted.valid cert hcert⟩, hexpiry cert hcert⟩
    · intro cert hcert
      obtain ⟨i, hi⟩ := List.mem_iff_getElem?.mp hcert
      exact (isCa_iff.mp (htrusted.ca i cert hi)).1

theorem validateCertificatePath_iff [DecidableEq Name] (hX : X509Alike X N view)
    {leafDer rootPem : Bytes} {bundle : List Bytes} {root : Certificate Name} {pem : String}
    (hroot : decodeRoot X rootPem = .ok root) (hpem : N.x509Pem pem = some (view root))
    (h : RegularChain X leafDer bundle root) {now : Date} {cert : X509Certificate PublicKey} :
    Sdk.validateCertificatePath N leafDer bundle pem now = .ok cert ↔
      (∃ leaf, X.fromDer leafDer = .ok leaf ∧ cert = view leaf) ∧
      verifyChain X leafDer bundle rootPem (systemClock now) = .ok () ∧
      root.raw ∈ bundle ∧ SignedBy X root root ∧
      ∀ path, PathOf X leafDer bundle root path →
        ∀ c ∈ path ++ [root], now.ms ≤ 1000 * (c.notAfter : Int) := by
  rw [Sdk.validateCertificatePath_ok, verifyChain_iff hroot]
  simp only [hpem, mapM_x509Der (i := 0) hX, x509Der_eq_some hX, Option.some.injEq]
  have hrootDecoded := decoded_of_decodeRoot hX hroot
  constructor
  · rintro ⟨_, _, chain, key, rfl, ⟨pool, hpool, rfl⟩, ⟨_, hmem, hraw⟩, ⟨leaf, hleaf, rfl⟩,
      hchain, hcheck, hkey, hverify⟩
    obtain ⟨hdecoded, hpoolMem⟩ := mem_pool_iff hX hpool
    obtain ⟨c, hc, rfl⟩ := List.mem_map.mp hmem
    rw [hX.raw, hX.raw] at hraw
    obtain rfl := (hdecoded c hc).eq_of_raw hrootDecoded hraw
    rw [hX.raw] at hchain
    have hself : SignedBy X c c := (hX.verify c c hrootDecoded).mpr ⟨key, hkey, hverify⟩
    obtain ⟨path, hbuild, hchecked⟩ := (extendChain_checked_iff hX
      (List.forall_mem_cons.mpr ⟨decoded_of_fromDer hX hleaf, hdecoded⟩) (h.subjects pool hpool)
      hc h.selfIssued h.ca hself).mp ⟨chain, hchain, hcheck⟩
    have hpath : PathOf X leafDer bundle c path := ⟨leaf, pool, hleaf, hpool, hbuild⟩
    obtain ⟨⟨secs, hclock, htrusted⟩, hexpiry⟩ := (trusted_of_checked hX h hpath).mp hchecked
    refine ⟨⟨leaf, hleaf, rfl⟩, ⟨secs, path, hclock, hpath, htrusted⟩,
      (hpoolMem c hrootDecoded).mp hc, hself, ?_⟩
    intro path' hpath'
    rwa [hpath'.unique hpath]
  · rintro ⟨⟨leaf, hleaf, rfl⟩, ⟨secs, path, hclock, hpath, htrusted⟩, hmem, hself, hexpiry⟩
    have hchecked := (trusted_of_checked hX h hpath).mpr ⟨⟨secs, hclock, htrusted⟩,
      hexpiry path hpath⟩
    obtain ⟨leaf', pool, hleaf', hpool, hbuild⟩ := hpath
    rw [hleaf, Except.ok.injEq] at hleaf'
    subst hleaf'
    obtain ⟨hdecoded, hpoolMem⟩ := mem_pool_iff hX hpool
    have hc := (hpoolMem root hrootDecoded).mpr hmem
    obtain ⟨chain, hchain, hcheck⟩ := (extendChain_checked_iff hX
      (List.forall_mem_cons.mpr ⟨decoded_of_fromDer hX hleaf, hdecoded⟩) (h.subjects pool hpool)
      hc h.selfIssued h.ca hself).mpr ⟨path, hbuild, hchecked⟩
    obtain ⟨key, hkey, hverify⟩ := (hX.verify root root hrootDecoded).mp hself
    refine ⟨_, _, chain, key, rfl, ⟨pool, hpool, rfl⟩, ⟨view root, List.mem_map_of_mem hc, rfl⟩,
      ⟨leaf, hleaf, rfl⟩, ?_, hcheck, hkey, hverify⟩
    rw [hX.raw]
    exact hchain

end Checks

end Audit
end Pzdr
