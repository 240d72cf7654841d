import Pzdr.Cbor
import Pzdr.Hex
import Pzdr.Nitro.Chain

/-!
# Nitro.Document

`crates/nitro-attestation/src/lib.rs`: an attestation document (`parse`, `assert_measurement_matches`,
`assert_fresh`, `verify_signature`, `parse_and_verify`). Decoding is that of the crates (`Cose`).

The integers of a document are narrowed as Rust's `as` does it, and overflowing arithmetic wraps, as
in a release build; `assertFreshChecked` is `assert_fresh` in a build that checks for overflow.
-/

namespace Pzdr
namespace Nitro

open Cbor

structure VerifiedAttestation where
  moduleId : String
  digest : String
  pcrs : Std.TreeMap Nat String
  userData : Option Bytes
  nonce : Option Bytes
  publicKey : Option Bytes
  timestampMs : Int
  certificateChain : List Bytes

/-! ## The payload -/

/-- `as usize` -/
def asUsize (n : Int) : Nat := (n % 2 ^ 64).toNat

/-- `as i64` -/
def asI64 (n : Int) : Int := n.bmod (2 ^ 64)

def InI64 (n : Int) : Prop := -2 ^ 63 ≤ n ∧ n < 2 ^ 63

instance : DecidablePred InI64 := fun n => inferInstanceAs (Decidable (-2 ^ 63 ≤ n ∧ n < 2 ^ 63))

/-- The result of an operation on `i64`; `none` is the panic on overflow. -/
def checkedI64 (n : Int) : Option Int := if InI64 n then some n else none

/-- The variables of `parse` that the loop over the payload fills in. -/
structure Fields where
  moduleId : Option String := none
  digest : Option String := none
  timestamp : Option Int := none
  pcrs : Std.TreeMap Nat String := ∅
  cert : Option Bytes := none
  cabundle : List Bytes := []
  publicKey : Option Bytes := none
  userData : Option Bytes := none
  nonce : Option Bytes := none

def insertPcr (pcrs : Std.TreeMap Nat String) (entry : Value × Value) : Std.TreeMap Nat String :=
  match entry.1.asInteger, entry.2.asBytes with
  | some idx, some bytes => pcrs.insert (asUsize idx.val) (hexEncode bytes)
  | _, _ => pcrs

def insertPcrs (v : Value) (pcrs : Std.TreeMap Nat String) : Std.TreeMap Nat String :=
  match v.asMap with
  | some pmap => pmap.foldl insertPcr pcrs
  | none => pcrs

def pushCerts (v : Value) (cabundle : List Bytes) : List Bytes :=
  match v.asArray with
  | some arr => cabundle ++ arr.filterMap Value.asBytes
  | none => cabundle

def Fields.set (f : Fields) (key : String) (v : Value) : Fields :=
  if key = "module_id" then { f with moduleId := v.asText }
  else if key = "digest" then { f with digest := v.asText }
  else if key = "timestamp" then { f with timestamp := v.asInteger.map (fun i => asI64 i.val) }
  else if key = "pcrs" then { f with pcrs := insertPcrs v f.pcrs }
  else if key = "certificate" then { f with cert := v.asBytes }
  else if key = "cabundle" then { f with cabundle := pushCerts v f.cabundle }
  else if key = "public_key" then { f with publicKey := v.asBytes }
  else if key = "user_data" then { f with userData := v.asBytes }
  else if key = "nonce" then { f with nonce := v.asBytes }
  else f

/-- The body of the loop. -/
def parseEntry (f : Fields) (entry : Value × Value) : Except NitroError Fields :=
  match entry.1.asText with
  | none => .error (.cbor "non-text key in payload")
  | some key => .ok (f.set key entry.2)

def required {α : Type} (field : String) : Option α → Except NitroError α
  | none => .error (.missing field)
  | some a => .ok a

def Fields.finish (f : Fields) : Except NitroError VerifiedAttestation := do
  let moduleId ← required "module_id" f.moduleId
  let digest ← required "digest" f.digest
  let timestampMs ← required "timestamp" f.timestamp
  return {
    moduleId := moduleId, digest := digest, pcrs := f.pcrs, userData := f.userData, nonce := f.nonce,
    publicKey := f.publicKey, timestampMs := timestampMs,
    certificateChain := f.cert.toList ++ f.cabundle }

/-- `parse`, from the decoded payload map on. -/
def parsePayload (entries : List (Value × Value)) : Except NitroError VerifiedAttestation := do
  let f ← entries.foldlM parseEntry {}
  f.finish

/-! ## The document -/

/-- `RegisteredLabelWithPrivate<iana::Algorithm>` -/
inductive Algorithm where
  | assigned (i : Int)
  | privateUse (i : Int)
  | text (s : String)
  deriving DecidableEq, Repr

def Algorithm.es384 : Algorithm := .assigned (-35)

/-- What the verifiers read of a `COSE_Sign1` structure; the protected header stands as received. -/
structure CoseSign1 where
  protectedBytes : Bytes
  alg : Option Algorithm
  payload : Option Bytes
  signature : Bytes

/-- The crates `coset` and `ciborium`. Errors are texts. -/
structure Cose where
  fromSlice : Bytes → Except String CoseSign1
  fromReader : Bytes → Except String Value
  tbsData : CoseSign1 → Bytes → Bytes
  display : Option Algorithm → String

section Verifier

variable {Name Key Sig : Type} (C : Cose) (X : X509 Name Key Sig)

def parse (docBytes : Bytes) : Except NitroError VerifiedAttestation := do
  let cose ← (C.fromSlice docBytes).mapError .cose
  let payload ← required "payload" cose.payload
  let value ← (C.fromReader payload).mapError .cbor
  match value.asMap with
  | none => throw (.cbor "payload not a map")
  | some entries => parsePayload entries

def VerifiedAttestation.assertMeasurementMatches (v : VerifiedAttestation)
    (expectedPcr0Hex : String) : Except NitroError Unit :=
  match v.pcrs[0]? with
  | some got =>
    if got.toLower = expectedPcr0Hex.toLower then .ok () else .error (.pcrMismatch expectedPcr0Hex got)
  | none => .error (.missing "PCR0")

def VerifiedAttestation.assertFresh (v : VerifiedAttestation) (nowMs maxSkewSecs : Int) :
    Except NitroError Unit :=
  let deltaSecs := (asI64 (nowMs - v.timestampMs)).tdiv 1000
  if |deltaSecs| > maxSkewSecs then
    .error (.expired (v.timestampMs.tdiv 1000) maxSkewSecs)
  else .ok ()

def VerifiedAttestation.assertFreshChecked (v : VerifiedAttestation) (nowMs maxSkewSecs : Int) :
    Option (Except NitroError Unit) := do
  let deltaMs ← checkedI64 (nowMs - v.timestampMs)
  let deltaSecs ← checkedI64 (deltaMs.tdiv 1000)
  let distanceSecs ← checkedI64 |deltaSecs|
  if distanceSecs > maxSkewSecs then
    let ts ← checkedI64 (v.timestampMs.tdiv 1000)
    return .error (.expired ts maxSkewSecs)
  else return .ok ()

def verifyCoseSignature (cose : CoseSign1) (leafDer : Bytes) : Except NitroError Unit := do
  if cose.alg ≠ some .es384 then
    throw (.cose ("protected header alg must be ES384, got " ++ C.display cose.alg))
  else
    let cert ← (X.fromDer leafDer).mapError (fun e => .certChain ("leaf: " ++ e))
    let vk ← (X.verifyingKey cert.spki).mapError (fun e => .cose ("spki not P-384: " ++ e))
    let sig ← (X.signatureFromSlice cose.signature).mapError (fun e => .cose ("sig parse: " ++ e))
    if X.verify vk (C.tbsData cose []) sig then return () else throw .signature

variable [DecidableEq Name]

def verifySignature (docBytes : Bytes) (parsed : VerifiedAttestation) (awsRootPem : Bytes)
    (clock : Option Nat) : Except NitroError Unit := do
  let cose ← (C.fromSlice docBytes).mapError .cose
  match parsed.certificateChain with
  | [] => throw (.missing "leaf certificate")
  | leafDer :: cabundle =>
    verifyChain X leafDer cabundle awsRootPem clock
    verifyCoseSignature C X cose leafDer

def parseAndVerify (docBytes awsRootPem : Bytes) (nowMs maxSkewSecs : Int)
    (expectedPcr0Hex : Option String) (clock : Option Nat) :
    Except NitroError VerifiedAttestation := do
  let parsed ← parse C docBytes
  verifySignature C X docBytes parsed awsRootPem clock
  parsed.assertFresh nowMs maxSkewSecs
  match expectedPcr0Hex with
  | some pcr0 => parsed.assertMeasurementMatches pcr0
  | none => .ok ()
  return parsed

end Verifier

/-! ## What the loop over the payload does -/

section Loop

variable {entries : List (Value × Value)} {f f' : Fields}

theorem parseEntry_ok {e : Value × Value} :
    parseEntry f e = .ok f' ↔ ∃ key, e.1.asText = some key ∧ f.set key e.2 = f' := by
  unfold parseEntry
  cases e.1.asText <;> simp

theorem exists_foldlM_parseEntry_ok : (∃ f', entries.foldlM parseEntry f = .ok f') ↔
    ∀ e ∈ entries, e.1.asText.isSome = true := by
  induction entries generalizing f with
  | nil => simp [pure, Except.pure]
  | cons e entries ih =>
    simp only [List.foldlM_cons, Except.bind_eq_ok, parseEntry_ok, List.forall_mem_cons,
      Option.isSome_iff_exists]
    constructor
    · rintro ⟨f', _, ⟨key, hkey, rfl⟩, h⟩
      exact ⟨⟨key, hkey⟩, by simpa [Option.isSome_iff_exists] using ih.mp ⟨f', h⟩⟩
    · rintro ⟨⟨key, hkey⟩, h⟩
      obtain ⟨f', hf'⟩ := (ih (f := f.set key e.2)).mpr
        (by simpa [Option.isSome_iff_exists] using h)
      exact ⟨f', _, ⟨key, hkey, rfl⟩, hf'⟩

/-- A variable that one key sets has, after the loop, what the value of this key makes of it. -/
theorem foldlM_parseEntry {α : Type} (var : Fields → α) (key : String) (read : Value → α → α)
    (hset : ∀ f k v, var (f.set k v) = if k = key then read v (var f) else var f)
    (hkeys : (keys Value.asText entries).Nodup) (h : entries.foldlM parseEntry f = .ok f') :
    var f' = (find Value.asText entries key).elim (var f) (fun v => read v (var f)) := by
  induction entries generalizing f with
  | nil =>
    cases h
    rfl
  | cons e entries ih =>
    simp only [List.foldlM_cons, Except.bind_eq_ok, parseEntry_ok] at h
    obtain ⟨_, ⟨k, hk, rfl⟩, h⟩ := h
    rw [ih (nodup_keys_of_cons hkeys) h, hset]
    by_cases heq : k = key
    · subst heq
      rw [find_cons_of_eq hk, find_eq_none.mpr (not_mem_keys_of_cons hkeys hk), if_pos rfl]
      rfl
    · have hne : e.1.asText ≠ some key := by
        rw [hk, ne_eq, Option.some.injEq]
        exact heq
      rw [find_cons_of_ne hne, if_neg heq]

/-- What every entry preserves holds after the loop. -/
theorem foldlM_parseEntry_of_forall {P : Fields → Prop} (hset : ∀ f k v, P f → P (f.set k v))
    (hf : P f) (h : entries.foldlM parseEntry f = .ok f') : P f' := by
  induction entries generalizing f with
  | nil =>
    cases h
    exact hf
  | cons e entries ih =>
    simp only [List.foldlM_cons, Except.bind_eq_ok, parseEntry_ok] at h
    obtain ⟨_, ⟨k, _, rfl⟩, h⟩ := h
    exact ih (hset f k e.2 hf) h

theorem required_ok {α : Type} {field : String} {o : Option α} {a : α} :
    required field o = .ok a ↔ o = some a := by
  cases o <;> simp [required]

theorem Fields.moduleId_set (f : Fields) (k : String) (v : Value) :
    (f.set k v).moduleId = if k = "module_id" then v.asText else f.moduleId := by
  simp only [set, apply_ite Fields.moduleId]
  by_cases h : k = "module_id" <;> simp [h]

theorem Fields.digest_set (f : Fields) (k : String) (v : Value) :
    (f.set k v).digest = if k = "digest" then v.asText else f.digest := by
  simp only [set, apply_ite Fields.digest]
  by_cases h : k = "digest" <;> simp [h]

theorem Fields.timestamp_set (f : Fields) (k : String) (v : Value) :
    (f.set k v).timestamp = if k = "timestamp" then v.asInteger.map (fun i => asI64 i.val) else f.timestamp := by
  simp only [set, apply_ite Fields.timestamp]
  by_cases h : k = "timestamp" <;> simp [h]

theorem Fields.pcrs_set (f : Fields) (k : String) (v : Value) :
    (f.set k v).pcrs = if k = "pcrs" then insertPcrs v f.pcrs else f.pcrs := by
  simp only [set, apply_ite Fields.pcrs]
  by_cases h : k = "pcrs" <;> simp [h]

theorem Fields.cert_set (f : Fields) (k : String) (v : Value) :
    (f.set k v).cert = if k = "certificate" then v.asBytes else f.cert := by
  simp only [set, apply_ite Fields.cert]
  by_cases h : k = "certificate" <;> simp [h]

theorem Fields.cabundle_set (f : Fields) (k : String) (v : Value) :
    (f.set k v).cabundle = if k = "cabundle" then pushCerts v f.cabundle else f.cabundle := by
  simp only [set, apply_ite Fields.cabundle]
  by_cases h : k = "cabundle" <;> simp [h]

theorem Fields.publicKey_set (f : Fields) (k : String) (v : Value) :
    (f.set k v).publicKey = if k = "public_key" then v.asBytes else f.publicKey := by
  simp only [set, apply_ite Fields.publicKey]
  by_cases h : k = "public_key" <;> simp [h]

theorem Fields.userData_set (f : Fields) (k : String) (v : Value) :
    (f.set k v).userData = if k = "user_data" then v.asBytes else f.userData := by
  simp only [set, apply_ite Fields.userData]
  by_cases h : k = "user_data" <;> simp [h]

theorem Fields.nonce_set (f : Fields) (k : String) (v : Value) :
    (f.set k v).nonce = if k = "nonce" then v.asBytes else f.nonce := by
  simp only [set, apply_ite Fields.nonce]
  by_cases h : k = "nonce" <;> simp [h]

/-- The variables after the loop, from the values of the keys. -/
def Fields.read (value : String → Option Value) : Fields where
  moduleId := (value "module_id").bind Value.asText
  digest := (value "digest").bind Value.asText
  timestamp := ((value "timestamp").bind Value.asInteger).map (fun i => asI64 i.val)
  pcrs := (value "pcrs").elim ∅ (fun v => insertPcrs v ∅)
  cert := (value "certificate").bind Value.asBytes
  cabundle := (value "cabundle").elim [] (fun v => pushCerts v [])
  publicKey := (value "public_key").bind Value.asBytes
  userData := (value "user_data").bind Value.asBytes
  nonce := (value "nonce").bind Value.asBytes

theorem foldlM_parseEntry_eq (hkeys : (keys Value.asText entries).Nodup)
    (h : entries.foldlM parseEntry {} = .ok f') : f' = .read (find Value.asText entries) := by
  have hbind : ∀ {α : Type} (o : Option Value) (g : Value → Option α),
      o.elim none g = o.bind g := by
    intro α o g
    cases o <;> rfl
  have hvar := fun {α : Type} (var : Fields → α) (key : String) (read : Value → α → α)
    (hset : ∀ f k v, var (f.set k v) = if k = key then read v (var f) else var f) =>
      foldlM_parseEntry var key read hset hkeys h
  have hmodule := hvar Fields.moduleId "module_id" (fun v _ => v.asText) Fields.moduleId_set
  have hdigest := hvar Fields.digest "digest" (fun v _ => v.asText) Fields.digest_set
  have htimestamp := hvar Fields.timestamp "timestamp"
    (fun v _ => v.asInteger.map (fun i => asI64 i.val)) Fields.timestamp_set
  have hpcrs := hvar Fields.pcrs "pcrs" insertPcrs Fields.pcrs_set
  have hcert := hvar Fields.cert "certificate" (fun v _ => v.asBytes) Fields.cert_set
  have hbundle := hvar Fields.cabundle "cabundle" pushCerts Fields.cabundle_set
  have hkey := hvar Fields.publicKey "public_key" (fun v _ => v.asBytes) Fields.publicKey_set
  have hdata := hvar Fields.userData "user_data" (fun v _ => v.asBytes) Fields.userData_set
  have hnonce := hvar Fields.nonce "nonce" (fun v _ => v.asBytes) Fields.nonce_set
  cases f'
  simp only at hmodule hdigest htimestamp hpcrs hcert hbundle hkey hdata hnonce
  rw [Fields.read, hmodule, hdigest, htimestamp, hpcrs, hcert, hbundle, hkey, hdata, hnonce]
  simp only [hbind, Option.map_bind]
  rfl

theorem parsePayload_ok {v : VerifiedAttestation} (hkeys : (keys Value.asText entries).Nodup) :
    parsePayload entries = .ok v ↔ (∀ e ∈ entries, e.1.asText.isSome = true) ∧
      (Fields.read (find Value.asText entries)).finish = .ok v := by
  rw [parsePayload, Except.bind_eq_ok, ← exists_foldlM_parseEntry_ok (f := {})]
  constructor
  · rintro ⟨f, hf, hfinish⟩
    exact ⟨⟨f, hf⟩, by rwa [← foldlM_parseEntry_eq hkeys hf]⟩
  · rintro ⟨⟨f, hf⟩, hfinish⟩
    exact ⟨f, hf, by rwa [foldlM_parseEntry_eq hkeys hf]⟩

theorem Fields.finish_ok {v : VerifiedAttestation} : f.finish = .ok v ↔
    f.moduleId = some v.moduleId ∧ f.digest = some v.digest ∧ f.timestamp = some v.timestampMs ∧
      v.pcrs = f.pcrs ∧ v.certificateChain = f.cert.toList ++ f.cabundle ∧
      v.publicKey = f.publicKey ∧ v.userData = f.userData ∧ v.nonce = f.nonce := by
  simp only [finish, Except.bind_eq_ok, required_ok]
  constructor
  · rintro ⟨_, hmodule, _, hdigest, _, htimestamp, h⟩
    cases h
    exact ⟨hmodule, hdigest, htimestamp, rfl, rfl, rfl, rfl, rfl⟩
  · rintro ⟨hmodule, hdigest, htimestamp, hpcrs, hchain, hkey, hdata, hnonce⟩
    refine ⟨_, hmodule, _, hdigest, _, htimestamp, ?_⟩
    rw [← hpcrs, ← hchain, ← hkey, ← hdata, ← hnonce]
    rfl

end Loop

/-! ## The narrowing casts -/

theorem asUsize_eq {n : Int} (h : 0 ≤ n) (h' : n < 2 ^ 64) : (asUsize n : Int) = n := by
  unfold asUsize
  omega

theorem asI64_eq {n : Int} (h : -2 ^ 63 ≤ n) (h' : n < 2 ^ 63) : asI64 n = n := by
  unfold asI64
  rw [Int.bmod_def]
  omega

theorem inI64_asI64 (n : Int) : InI64 (asI64 n) := by
  unfold InI64 asI64
  rw [Int.bmod_def]
  omega

section Pcrs

variable {pcrs : Std.TreeMap Nat String} {pmap : List (Value × Value)} {k : Nat} {text : String}

/-- An entry that is no measurement is skipped. -/
theorem insertPcr_eq_or (pcrs : Std.TreeMap Nat String) (e : Value × Value) :
    (∃ i b, e = (.integer i, .bytes b) ∧
      insertPcr pcrs e = pcrs.insert (asUsize (Integer.val i)) (hexEncode b)) ∨
      (∀ i b, e ≠ (.integer i, .bytes b)) ∧ insertPcr pcrs e = pcrs := by
  obtain ⟨key, value⟩ := e
  cases hi : key.asInteger with
  | none =>
    refine .inr ⟨?_, by simp only [insertPcr, hi]⟩
    rintro i b h
    cases h
    cases hi
  | some i =>
    cases hb : value.asBytes with
    | none =>
      refine .inr ⟨?_, by simp only [insertPcr, hi, hb]⟩
      rintro i b h
      cases h
      cases hb
    | some b =>
      refine .inl ⟨i, b, ?_, by simp only [insertPcr, hi, hb]⟩
      rw [Value.asInteger_eq_some.mp hi, Value.asBytes_eq_some.mp hb]

/-- A `pcrs` map binds the integer `n` itself to the byte string `b`. -/
def Measures (pmap : List (Value × Value)) (n : Int) (b : Bytes) : Prop :=
  ∃ i : Integer, i.val = n ∧ (.integer i, .bytes b) ∈ pmap

/-- With distinct indices, an index is bound once. -/
theorem Measures.unique {i : Integer} {b b' : Bytes}
    (hkeys : (keys Value.asInteger ((.integer i, .bytes b) :: pmap)).Nodup)
    (h : Measures pmap i.val b') : False := by
  obtain ⟨j, hj, hmem⟩ := h
  obtain rfl : j = i := by
    cases j
    cases i
    cases hj
    rfl
  exact not_mem_keys_of_cons hkeys rfl (mem_keys.mpr ⟨_, hmem, rfl⟩)

/-- Without a negative index among the measurements, the loop keeps every index as it is. -/
theorem getElem?_foldl_insertPcr (hkeys : (keys Value.asInteger pmap).Nodup)
    (hpos : ∀ n b, Measures pmap n b → 0 ≤ n) :
    (pmap.foldl insertPcr pcrs)[k]? = some text ↔
      (∃ b, Measures pmap k b ∧ hexEncode b = text) ∨
        (∀ b, ¬ Measures pmap k b) ∧ pcrs[k]? = some text := by
  induction pmap generalizing pcrs with
  | nil => simp [Measures]
  | cons e pmap ih =>
    rw [List.foldl_cons, ih (nodup_keys_of_cons hkeys)]
    · obtain ⟨i, b, rfl, heq⟩ | ⟨hne, heq⟩ := insertPcr_eq_or pcrs e
      · have hidx : (asUsize i.val : Int) = i.val :=
          asUsize_eq (hpos i.val b ⟨i, rfl, List.mem_cons_self⟩) i.upper
        have hcons : ∀ n b', Measures ((.integer i, .bytes b) :: pmap) n b' ↔
            (i.val = n ∧ b = b') ∨ Measures pmap n b' := by
          intro n b'
          simp only [Measures, List.mem_cons, Prod.mk.injEq, Value.integer.injEq,
            Value.bytes.injEq]
          constructor
          · rintro ⟨j, hj, ⟨rfl, rfl⟩ | hmem⟩
            · exact .inl ⟨hj, rfl⟩
            · exact .inr ⟨j, hj, hmem⟩
          · rintro (⟨hj, rfl⟩ | ⟨j, hj, hmem⟩)
            · exact ⟨i, hj, .inl ⟨rfl, rfl⟩⟩
            · exact ⟨j, hj, .inr hmem⟩
        simp only [hcons, heq, Std.TreeMap.getElem?_insert, compare_eq_iff_eq]
        by_cases hk : i.val = k
        · have hk' : asUsize i.val = k := by omega
          have hnew : ∀ b', ¬ Measures pmap k b' := by
            intro b' h
            exact (hk ▸ h).unique hkeys
          rw [if_pos hk']
          simp [hk, hnew]
        · have hk' : asUsize i.val ≠ k := by omega
          rw [if_neg hk']
          simp [hk]
      · have hcons : ∀ n b', Measures (e :: pmap) n b' ↔ Measures pmap n b' := by
          intro n b'
          unfold Measures
          refine exists_congr fun j => and_congr_right fun _ => ?_
          rw [List.mem_cons, or_iff_right (Ne.symm (hne j b'))]
        simp only [hcons, heq]
    · intro n b h
      obtain ⟨i, hi, hmem⟩ := h
      exact hpos n b ⟨i, hi, List.mem_cons_of_mem e hmem⟩

end Pcrs

/-! ## The checks on a document -/

section Checks

variable {v : VerifiedAttestation}

theorem assertMeasurementMatches_ok {pcr0 : String} : v.assertMeasurementMatches pcr0 = .ok () ↔
    ∃ got, v.pcrs[0]? = some got ∧ got.toLower = pcr0.toLower := by
  unfold VerifiedAttestation.assertMeasurementMatches
  cases v.pcrs[0]? with
  | none => simp
  | some got =>
    by_cases h : got.toLower = pcr0.toLower <;> simp [h]

theorem assertFresh_ok {nowMs maxSkewSecs : Int} : v.assertFresh nowMs maxSkewSecs = .ok () ↔
    |(asI64 (nowMs - v.timestampMs)).tdiv 1000| ≤ maxSkewSecs := by
  unfold VerifiedAttestation.assertFresh
  by_cases h : |(asI64 (nowMs - v.timestampMs)).tdiv 1000| ≤ maxSkewSecs
  · simp [h]
  · simp [h, lt_of_not_ge h]

variable {Name Key Sig : Type} {C : Cose} {X : X509 Name Key Sig} {docBytes awsRootPem : Bytes}

theorem parseAndVerify_ok [DecidableEq Name] {nowMs maxSkewSecs : Int}
    {expectedPcr0Hex : Option String} {clock : Option Nat} :
    parseAndVerify C X docBytes awsRootPem nowMs maxSkewSecs expectedPcr0Hex clock = .ok v ↔
      parse C docBytes = .ok v ∧ verifySignature C X docBytes v awsRootPem clock = .ok () ∧
        v.assertFresh nowMs maxSkewSecs = .ok () ∧
        ∀ pcr0, expectedPcr0Hex = some pcr0 → v.assertMeasurementMatches pcr0 = .ok () := by
  rw [parseAndVerify, Except.bind_eq_ok]
  constructor
  · rintro ⟨parsed, hparsed, h⟩
    rw [Except.unit_bind_eq_ok, Except.unit_bind_eq_ok] at h
    obtain ⟨hsig, hfresh, h⟩ := h
    cases expectedPcr0Hex with
    | none =>
      cases h
      exact ⟨hparsed, hsig, hfresh, by simp⟩
    | some pcr0 =>
      obtain ⟨hpcr0, h⟩ := Except.unit_bind_eq_ok.mp h
      cases h
      exact ⟨hparsed, hsig, hfresh, by simpa using hpcr0⟩
  · rintro ⟨hparsed, hsig, hfresh, hpcr0⟩
    refine ⟨v, hparsed, ?_⟩
    rw [Except.unit_bind_eq_ok, Except.unit_bind_eq_ok]
    refine ⟨hsig, hfresh, ?_⟩
    cases expectedPcr0Hex with
    | none => rfl
    | some pcr0 => exact Except.unit_bind_eq_ok.mpr ⟨hpcr0 pcr0 rfl, rfl⟩

theorem verifyCoseSignature_ok {cose : CoseSign1} {leafDer : Bytes} :
    verifyCoseSignature C X cose leafDer = .ok () ↔ cose.alg = some .es384 ∧ ∃ cert vk sig,
      X.fromDer leafDer = .ok cert ∧ X.verifyingKey cert.spki = .ok vk ∧
        X.signatureFromSlice cose.signature = .ok sig ∧
        X.verify vk (C.tbsData cose []) sig = true := by
  unfold verifyCoseSignature
  by_cases halg : cose.alg = some .es384
  · rw [if_neg (not_not.mpr halg)]
    simp only [Except.bind_eq_ok, Except.mapError_eq_ok, halg, true_and]
    constructor
    · rintro ⟨cert, hcert, vk, hvk, sig, hsig, h⟩
      split at h
      · rename_i hverify
        exact ⟨cert, vk, sig, hcert, hvk, hsig, hverify⟩
      · cases h
    · rintro ⟨cert, vk, sig, hcert, hvk, hsig, hverify⟩
      exact ⟨cert, hcert, vk, hvk, sig, hsig, by rw [if_pos hverify]; rfl⟩
  · rw [if_pos halg]
    simp [halg, throw, throwThe, MonadExceptOf.throw]

theorem verifySignature_cons [DecidableEq Name] {v : VerifiedAttestation} {cose : CoseSign1}
    {leafDer : Bytes} {cabundle : List Bytes} {clock : Option Nat}
    (hdoc : C.fromSlice docBytes = .ok cose) (hchain : v.certificateChain = leafDer :: cabundle) :
    verifySignature C X docBytes v awsRootPem clock = .ok () ↔
      verifyChain X leafDer cabundle awsRootPem clock = .ok () ∧
        verifyCoseSignature C X cose leafDer = .ok () := by
  simp only [verifySignature, hdoc, hchain, Except.mapError, Except.bind_eq_ok, Except.ok.injEq,
    exists_eq_left']
  constructor
  · rintro ⟨_, hpath, hsig⟩
    exact ⟨hpath, hsig⟩
  · rintro ⟨hpath, hsig⟩
    exact ⟨(), hpath, hsig⟩

theorem exists_parsePayload (h : parse C docBytes = .ok v) :
    ∃ entries, parsePayload entries = .ok v := by
  simp only [parse, Except.bind_eq_ok] at h
  obtain ⟨cose, _, payload, _, value, _, h⟩ := h
  split at h
  · cases h
  · exact ⟨_, h⟩

/-- A parsed timestamp is an `i64`. -/
theorem inI64_timestampMs (h : parse C docBytes = .ok v) : InI64 v.timestampMs := by
  obtain ⟨entries, h⟩ := exists_parsePayload h
  rw [parsePayload, Except.bind_eq_ok] at h
  obtain ⟨f, hf, h⟩ := h
  have hall : ∀ t ∈ f.timestamp, InI64 t := by
    refine foldlM_parseEntry_of_forall (P := fun f => ∀ t ∈ f.timestamp, InI64 t) ?_ ?_ hf
    · intro f k w hfields t ht
      rw [Fields.timestamp_set] at ht
      split at ht
      · obtain ⟨i, _, rfl⟩ := Option.map_eq_some_iff.mp ht
        exact inI64_asI64 i.val
      · exact hfields t ht
    · intro t ht
      cases ht
  exact hall _ (Fields.finish_ok.mp h).2.2.1

theorem parse_eq_parsePayload {payload : Bytes} {cose : CoseSign1} {entries : List (Value × Value)}
    (hdoc : C.fromSlice docBytes = .ok cose) (hpayload : cose.payload = some payload)
    (hmap : C.fromReader payload = .ok (.map entries)) :
    parse C docBytes = parsePayload entries := by
  simp only [parse, hdoc, hpayload, hmap, Except.mapError, required, bind, Except.bind, Value.asMap]

end Checks

end Nitro
end Pzdr
