import Pzdr.Nitro.Document

/-!
# Audit.Measurement

The measurements and the time that an attestation document is accepted for. `parse` narrows the
integers of the payload instead of refusing those that do not fit, so a negative index of `pcrs`
stands for a measurement register that the payload does not name.

`parse_faithful_iff`: what is parsed is what the payload says exactly if all its integers fit, or if
it has not the form of an attestation at all. `parse_faithful_foreign` is a payload without a PCR0
whose PCR0 is accepted.
-/

namespace Pzdr
namespace Audit

open Cbor Nitro

/-- The payload's `pcrs` map binds the integer `n` itself to the byte string `b`. -/
def Binds (entries : List (Value × Value)) (n : Int) (b : Bytes) : Prop :=
  ∃ pmap, (.text "pcrs", .map pmap) ∈ entries ∧ Measures pmap n b

/-- The payload's timestamp is the integer `t`. -/
def Stamps (entries : List (Value × Value)) (t : Int) : Prop :=
  ∃ i : Integer, (.text "timestamp", .integer i) ∈ entries ∧ i.val = t

structure DistinctKeys (entries : List (Value × Value)) : Prop where
  text : (keys Value.asText entries).Nodup
  pcrs : ∀ pmap, (.text "pcrs", .map pmap) ∈ entries → (keys Value.asInteger pmap).Nodup

/-- The indices are in the range of `usize`, the timestamp in that of `i64`. -/
structure Fits (entries : List (Value × Value)) : Prop where
  pcrs : ∀ n b, Binds entries n b → 0 ≤ n ∧ n < 2 ^ 64
  timestamp : ∀ t, Stamps entries t → -2 ^ 63 ≤ t ∧ t < 2 ^ 63

/-- The payload has the form of an attestation. -/
structure Complete (entries : List (Value × Value)) : Prop where
  text : ∀ e ∈ entries, e.1.asText.isSome = true
  moduleId : ∃ s, (.text "module_id", .text s) ∈ entries
  digest : ∃ s, (.text "digest", .text s) ∈ entries
  timestamp : ∃ t, Stamps entries t

structure Faithful (entries : List (Value × Value)) (r : Except NitroError VerifiedAttestation) :
    Prop where
  pcrs : ∀ v, r = .ok v → ∀ (k : Nat) b, v.pcrs[k]? = some (hexEncode b) ↔ Binds entries k b
  timestamp : ∀ v, r = .ok v → Stamps entries v.timestampMs
  rejects : ¬ Fits entries → ∃ e, r = .error e

/-- An accepted measurement and an accepted time are in the payload. -/
structure Supported (entries : List (Value × Value)) (nowMs maxSkewSecs : Int)
    (expectedPcr0Hex : Option String) : Prop where
  measurement : ∀ pcr0, expectedPcr0Hex = some pcr0 →
    ∃ b, Binds entries 0 b ∧ (hexEncode b).toLower = pcr0.toLower
  timestamp : ∃ t, Stamps entries t ∧ |(asI64 (nowMs - t)).tdiv 1000| ≤ maxSkewSecs

section Payload

variable {entries : List (Value × Value)} {v : VerifiedAttestation}

theorem find_text (h : DistinctKeys entries) {key : String} {w : Value} :
    find Value.asText entries key = some w ↔ (.text key, w) ∈ entries := by
  rw [find_eq_some h.text]
  constructor
  · rintro ⟨⟨k, _⟩, hmem, hk, rfl⟩
    obtain rfl := Value.asText_eq_some.mp hk
    exact hmem
  · intro hmem
    exact ⟨_, hmem, rfl, rfl⟩

theorem find_text_bind (h : DistinctKeys entries) {α : Type} {key : String}
    {read : Value → Option α} {a : α} : (find Value.asText entries key).bind read = some a ↔
      ∃ w, (.text key, w) ∈ entries ∧ read w = some a := by
  simp only [Option.bind_eq_some_iff, find_text h]

theorem parsePayload_ok_of (h : DistinctKeys entries) (hv : parsePayload entries = .ok v) :
    (∃ i : Integer, (.text "timestamp", .integer i) ∈ entries ∧ asI64 i.val = v.timestampMs) ∧
      v.pcrs = (find Value.asText entries "pcrs").elim ∅ (fun w => insertPcrs w ∅) := by
  obtain ⟨_, hread⟩ := (parsePayload_ok h.text).mp hv
  obtain ⟨_, _, htimestamp, hpcrs, _⟩ := Fields.finish_ok.mp hread
  obtain ⟨i, hi, heq⟩ := Option.map_eq_some_iff.mp htimestamp
  obtain ⟨w, hmem, hw⟩ := (find_text_bind h).mp hi
  obtain rfl := Value.asInteger_eq_some.mp hw
  exact ⟨⟨i, hmem, heq⟩, hpcrs⟩

/-- `parse` succeeds on the payloads that have the form of an attestation, and on no others. -/
theorem complete_iff (h : DistinctKeys entries) :
    Complete entries ↔ ∃ v, parsePayload entries = .ok v := by
  simp only [parsePayload_ok h.text, Fields.finish_ok]
  constructor
  · rintro ⟨htext, ⟨m, hm⟩, ⟨d, hd⟩, _, i, hi, rfl⟩
    refine ⟨⟨m, d, _, _, _, _, asI64 i.val, _⟩, htext, ?_, ?_, ?_, rfl, rfl, rfl, rfl, rfl⟩
    · exact (find_text_bind h).mpr ⟨_, hm, rfl⟩
    · exact (find_text_bind h).mpr ⟨_, hd, rfl⟩
    · exact Option.map_eq_some_iff.mpr ⟨i, (find_text_bind h).mpr ⟨_, hi, rfl⟩, rfl⟩
  · rintro ⟨v, htext, hm, hd, ht, _⟩
    obtain ⟨w, hmem, hw⟩ := (find_text_bind h).mp hm
    obtain rfl := Value.asText_eq_some.mp hw
    obtain ⟨w', hmem', hw'⟩ := (find_text_bind h).mp hd
    obtain rfl := Value.asText_eq_some.mp hw'
    obtain ⟨i, hi, _⟩ := Option.map_eq_some_iff.mp ht
    obtain ⟨w'', hmem'', hw''⟩ := (find_text_bind h).mp hi
    obtain rfl := Value.asInteger_eq_some.mp hw''
    exact ⟨htext, ⟨_, hmem⟩, ⟨_, hmem'⟩, _, i, hmem'', rfl⟩

theorem getElem?_pcrs (h : DistinctKeys entries) (hpos : ∀ n b, Binds entries n b → 0 ≤ n)
    (k : Nat) (text : String) :
    ((find Value.asText entries "pcrs").elim ∅ (fun w => insertPcrs w ∅))[k]? = some text ↔
      ∃ b, Binds entries k b ∧ hexEncode b = text := by
  cases hfind : find Value.asText entries "pcrs" with
  | none =>
    have hnone : ∀ b, ¬ Binds entries k b := by
      rintro b ⟨pmap, hmem, _⟩
      rw [(find_text h).mpr hmem] at hfind
      cases hfind
    simp [hnone]
  | some w =>
    have hpcrs : ∀ n b, Binds entries n b ↔ ∃ pmap, w = .map pmap ∧ Measures pmap n b := by
      intro n b
      simp only [Binds, ← find_text h, hfind, Option.some.injEq]
    rw [Option.elim_some, insertPcrs]
    cases hw : w.asMap with
    | none =>
      have hnone : ∀ b, ¬ Binds entries k b := by
        intro b hb
        obtain ⟨pmap, rfl, _⟩ := (hpcrs k b).mp hb
        cases hw
      simp [hnone]
    | some pmap =>
      obtain rfl := Value.asMap_eq_some.mp hw
      have hbinds : ∀ n b, Binds entries n b ↔ Measures pmap n b := by
        intro n b
        simp [hpcrs]
      simp only [hbinds]
      rw [getElem?_foldl_insertPcr (h.pcrs pmap ((find_text h).mp hfind))]
      · simp
      · intro n b hm
        exact hpos n b ((hbinds n b).mpr hm)

theorem faithful_of_fits (h : DistinctKeys entries) (hfits : Fits entries)
    {r : Except NitroError VerifiedAttestation} (hr : r = parsePayload entries) :
    Faithful entries r := by
  subst hr
  refine ⟨?_, ?_, fun hnot => absurd hfits hnot⟩
  · intro v hv k b
    rw [(parsePayload_ok_of h hv).2, getElem?_pcrs h fun n b hb => (hfits.pcrs n b hb).1]
    constructor
    · rintro ⟨b', hb', heq⟩
      rwa [← hexEncode_injective heq]
    · intro hb
      exact ⟨b, hb, rfl⟩
  · intro v hv
    obtain ⟨i, hi, heq⟩ := (parsePayload_ok_of h hv).1
    obtain ⟨hlower, hupper⟩ := hfits.timestamp i.val ⟨i, hi, rfl⟩
    exact ⟨i, hi, by rw [← heq, asI64_eq hlower hupper]⟩

theorem faithful_iff (h : DistinctKeys entries) :
    Faithful entries (parsePayload entries) ↔ (Complete entries → Fits entries) := by
  constructor
  · intro hf hc
    obtain ⟨v, hv⟩ := (complete_iff h).mp hc
    by_contra hfits
    obtain ⟨e, he⟩ := hf.rejects hfits
    rw [hv] at he
    cases he
  · intro hc
    by_cases hcomplete : Complete entries
    · exact faithful_of_fits h (hc hcomplete) rfl
    · rw [complete_iff h] at hcomplete
      cases hp : parsePayload entries with
      | ok v => exact absurd ⟨v, hp⟩ hcomplete
      | error e =>
        refine ⟨?_, ?_, fun _ => ⟨e, rfl⟩⟩
        · intro v hv
          cases hv
        · intro v hv
          cases hv

end Payload

/-- Only the payload's own values count, exactly where every integer of the payload fits. -/
theorem parse_faithful_iff (C : Cose) (docBytes payload : Bytes) (cose : CoseSign1)
    (entries : List (Value × Value)) (hdoc : C.fromSlice docBytes = .ok cose)
    (hpayload : cose.payload = some payload) (hmap : C.fromReader payload = .ok (.map entries))
    (hkeys : DistinctKeys entries) :
    (Faithful entries (parse C docBytes) ∧
      ∀ (Name Key Sig : Type) [DecidableEq Name] (X : X509 Name Key Sig) awsRootPem nowMs
        maxSkewSecs expectedPcr0Hex clock v,
        parseAndVerify C X docBytes awsRootPem nowMs maxSkewSecs expectedPcr0Hex clock = .ok v →
          Supported entries nowMs maxSkewSecs expectedPcr0Hex) ↔
      (Complete entries → Fits entries) := by
  rw [parse_eq_parsePayload hdoc hpayload hmap, faithful_iff hkeys, and_iff_left_iff_imp]
  intro hc Name Key Sig _ X awsRootPem nowMs maxSkewSecs expectedPcr0Hex clock v hv
  rw [parseAndVerify_ok, parse_eq_parsePayload hdoc hpayload hmap, assertFresh_ok] at hv
  obtain ⟨hparsed, _, hfresh, hpcr0⟩ := hv
  have hfits := hc ((complete_iff hkeys).mpr ⟨v, hparsed⟩)
  constructor
  · intro pcr0 hexp
    obtain ⟨got, hgot, heq⟩ := assertMeasurementMatches_ok.mp (hpcr0 pcr0 hexp)
    rw [(parsePayload_ok_of hkeys hparsed).2] at hgot
    have hpos : ∀ n b, Binds entries n b → 0 ≤ n := fun n b hb => (hfits.pcrs n b hb).1
    obtain ⟨b, hb, rfl⟩ := (getElem?_pcrs hkeys hpos 0 got).mp hgot
    exact ⟨b, hb, heq⟩
  · exact ⟨_, (faithful_of_fits hkeys hfits rfl).timestamp v hparsed, hfresh⟩

/-! ## Two documents

Their payloads differ in the timestamp and in the index of their one measurement. -/

def sampleText (s : String) : Bytes := .ofNat (0x60 + s.length) :: Utf8.encode s.toList

def samplePayload (timestamp index : Bytes) : Bytes :=
  0xA4 :: sampleText "module_id" ++ sampleText "i" ++ sampleText "digest" ++ sampleText "SHA384" ++
    sampleText "timestamp" ++ timestamp ++ sampleText "pcrs" ++ 0xA1 :: index ++ [0x41, 0xAA]

def sampleEntries (timestamp index : Integer) : List (Value × Value) :=
  [(.text "module_id", .text "i"), (.text "digest", .text "SHA384"),
    (.text "timestamp", .integer timestamp),
    (.text "pcrs", .map [(.integer index, .bytes [0xAA])])]

def sampleHeader : Bytes := [0xA1, 0x01, 0x38, 0x22]

def sampleCoseSign1 (payload : Bytes) : CoseSign1 :=
  ⟨sampleHeader, some .es384, some payload, List.replicate 96 0⟩

def sampleDocument (payload : Bytes) : Bytes :=
  [0x84, 0x44] ++ sampleHeader ++ [0xA0, 0x58, .ofNat payload.length] ++ payload ++ [0x58, 0x60] ++
    List.replicate 96 0

/-- The crates on a document with this payload. -/
def sampleCose (payload : Bytes) (entries : List (Value × Value)) : Cose where
  fromSlice bs := if bs = sampleDocument payload then .ok (sampleCoseSign1 payload) else .error ""
  fromReader bs := if bs = payload then .ok (.map entries) else .error ""
  tbsData cose _ := 0x84 :: sampleText "Signature1" ++ 0x44 :: cose.protectedBytes ++
    [0x40, 0x58, .ofNat payload.length] ++ cose.payload.getD []
  display _ := ""

theorem fromSlice_sample (payload : Bytes) (entries : List (Value × Value)) :
    (sampleCose payload entries).fromSlice (sampleDocument payload) =
      .ok (sampleCoseSign1 payload) := by
  simp [sampleCose]

theorem fromReader_sample (payload : Bytes) (entries : List (Value × Value)) :
    (sampleCose payload entries).fromReader payload = .ok (.map entries) := by
  simp [sampleCose]

theorem distinctKeys_sample (timestamp index : Integer) :
    DistinctKeys (sampleEntries timestamp index) := by
  constructor
  · simp [keys, sampleEntries, Value.asText]
  · intro pmap hmem
    simp only [sampleEntries, List.mem_cons, Prod.mk.injEq, Value.text.injEq, reduceCtorEq,
      Value.map.injEq, List.not_mem_nil, or_false, and_false, false_or, true_and] at hmem
    rw [hmem]
    exact List.nodup_singleton index

theorem binds_sample {timestamp index : Integer} {n : Int} {b : Bytes} :
    Binds (sampleEntries timestamp index) n b ↔ index.val = n ∧ b = [0xAA] := by
  simp [Binds, Measures, sampleEntries]

theorem stamps_sample {timestamp index : Integer} {t : Int} :
    Stamps (sampleEntries timestamp index) t ↔ timestamp.val = t := by
  simp [Stamps, sampleEntries]

theorem parsePayload_sample (timestamp index : Integer) :
    ∃ v, parsePayload (sampleEntries timestamp index) = .ok v ∧
      v.timestampMs = asI64 timestamp.val := by
  obtain ⟨v, hv⟩ : ∃ v, parsePayload (sampleEntries timestamp index) = .ok v := by
    refine (complete_iff (distinctKeys_sample _ _)).mp ⟨?_, ⟨"i", ?_⟩, ⟨"SHA384", ?_⟩, _,
      stamps_sample.mpr rfl⟩
    all_goals simp [sampleEntries, Value.asText]
  obtain ⟨i, hi, heq⟩ := (parsePayload_ok_of (distinctKeys_sample _ _) hv).1
  exact ⟨v, hv, by rw [← heq, stamps_sample.mp ⟨i, hi, rfl⟩]⟩

def honestEntries : List (Value × Value) :=
  sampleEntries (.ofInt64 1) (.ofInt64 0)

def honestPayload : Bytes := samplePayload [0x01] [0x00]

theorem parse_faithful_honest :
    Faithful honestEntries
      (parse (sampleCose honestPayload honestEntries) (sampleDocument honestPayload)) := by
  refine ((parse_faithful_iff _ _ _ _ _ (fromSlice_sample _ _) rfl (fromReader_sample _ _)
    (distinctKeys_sample _ _)).mpr ?_).1
  intro _
  constructor
  · intro n b h
    obtain ⟨rfl, _⟩ := binds_sample.mp h
    decide
  · intro t h
    obtain rfl := stamps_sample.mp h
    decide

/-- The index is `-2^64` and the timestamp `1 - 2^64`. -/
def foreignEntries : List (Value × Value) :=
  sampleEntries ⟨1 - 2 ^ 64, by decide, by decide⟩ ⟨-2 ^ 64, by decide, by decide⟩

def foreignPayload : Bytes :=
  samplePayload (0x3B :: List.replicate 7 0xFF ++ [0xFE]) (0x3B :: List.replicate 8 0xFF)

/-- The payload has no PCR0 and no timestamp of our age, but one of each is accepted. -/
theorem parse_faithful_foreign : DistinctKeys foreignEntries ∧
    (∃ v, parse (sampleCose foreignPayload foreignEntries) (sampleDocument foreignPayload) = .ok v ∧
      v.assertMeasurementMatches (hexEncode [0xAA]) = .ok () ∧ v.timestampMs = 1 ∧
      v.assertFresh 1 300 = .ok ()) ∧
    (∀ b, ¬ Binds foreignEntries 0 b) ∧ ¬ Stamps foreignEntries 1 ∧
    ¬ Faithful foreignEntries
      (parse (sampleCose foreignPayload foreignEntries) (sampleDocument foreignPayload)) := by
  have hparse := parse_eq_parsePayload (fromSlice_sample foreignPayload foreignEntries) rfl
    (fromReader_sample foreignPayload foreignEntries)
  have hstamps : ¬ Stamps foreignEntries 1 := by
    rw [foreignEntries, stamps_sample]
    decide
  have hbinds : ∀ b, ¬ Binds foreignEntries 0 b := by
    intro b h
    rw [foreignEntries, binds_sample] at h
    exact absurd h.1 (by decide)
  rw [hparse]
  obtain ⟨v, hv, hstamp⟩ : ∃ v, parsePayload foreignEntries = .ok v ∧ _ :=
    parsePayload_sample _ _
  have htime : v.timestampMs = 1 := by
    rw [hstamp]
    decide
  have hpcrs : v.pcrs[0]? = some (hexEncode [0xAA]) := by
    rw [(parsePayload_ok_of (distinctKeys_sample _ _) hv).2]
    simp [find, sampleEntries, insertPcrs, insertPcr, Value.asText, Value.asMap, Value.asInteger,
      Value.asBytes, asUsize]
  refine ⟨distinctKeys_sample _ _, ⟨v, hv, ?_, htime, ?_⟩, hbinds, hstamps, ?_⟩
  · exact assertMeasurementMatches_ok.mpr ⟨_, hpcrs, rfl⟩
  · rw [assertFresh_ok, htime]
    decide
  · intro hf
    exact hstamps (htime ▸ hf.timestamp v hv)

end Audit
end Pzdr
