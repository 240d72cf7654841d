import Pzdr.Canonical
import Pzdr.Hex
import Pzdr.Sha256

/-!
# Enclave.Policy

`services/pzdr-enclave/src/policy.rs`: the policy document, its hash, and its evaluation on the
bytes of a plaintext.

For each scanner there is one lemma that says which byte strings it finds: `contains_iff`,
`looksLikeSsn_iff` and `looksLikePan_of_run`.
-/

namespace Pzdr
namespace Enclave

structure Policy where
  policyId : String
  policyVersion : Nat
  default : String
  maxInputBytes : Nat
  denyMarkers : List String
  denyPatternsPii : List String
  allowedProcessors : List String

def Policy.defaultV1 : Policy where
  policyId := "pzdr-default"
  policyVersion := 1
  default := "deny"
  maxInputBytes := 100000
  denyMarkers := ["<RESTRICTED"]
  denyPatternsPii := ["\\b\\d\x7b3\x7d-\\d\x7b2\x7d-\\d\x7b4\x7d\\b", "\\b\\d\x7b16\x7d\\b"]
  allowedProcessors := ["gateway"]

def Policy.toJson (p : Policy) : Json :=
  object [
    ("policy_id", .str p.policyId),
    ("policy_version", .num p.policyVersion),
    ("default", .str p.default),
    ("max_input_bytes", .num p.maxInputBytes),
    ("deny_markers", .arr (p.denyMarkers.map .str)),
    ("deny_patterns_pii", .arr (p.denyPatternsPii.map .str)),
    ("allowed_processors", .arr (p.allowedProcessors.map .str))]

def Policy.policyHash (sha : Sha256) (p : Policy) : String :=
  hexEncode (sha.hash (canonicalJson p.toJson))

/-- `slice::windows` -/
def windows (n : Nat) : Bytes → List Bytes
  | [] => []
  | c :: b => if n ≤ (c :: b).length then (c :: b).take n :: windows n b else []

def contains (haystack needle : Bytes) : Bool :=
  if needle.isEmpty || haystack.length < needle.length then false
  else (windows needle.length haystack).any (fun w => w == needle)

def isAsciiDigit (c : UInt8) : Bool := 0x30 ≤ c && c ≤ 0x39

def ssnWindow : Bytes → Bool
  | [w0, w1, w2, w3, w4, w5, w6, w7, w8, w9, w10] =>
    isAsciiDigit w0 && isAsciiDigit w1 && isAsciiDigit w2 && w3 == 0x2D && isAsciiDigit w4 &&
      isAsciiDigit w5 && w6 == 0x2D && isAsciiDigit w7 && isAsciiDigit w8 && isAsciiDigit w9 &&
      isAsciiDigit w10
  | _ => false

/-- `ddd-dd-dddd` -/
def looksLikeSsn (b : Bytes) : Bool := (windows 11 b).any ssnWindow

/-- The scan of `looks_like_pan` with `run` digits just read. -/
def panLoop : Bytes → Nat → Bool
  | [], run => run == 16
  | c :: b, run =>
    if isAsciiDigit c then panLoop b (run + 1)
    else if run = 16 then true
    else panLoop b 0

/-- A run of exactly 16 digits. -/
def looksLikePan (b : Bytes) : Bool := panLoop b 0

def Policy.evaluate (p : Policy) (plaintext : Bytes) (processor : String) : Except String Unit :=
  if !(p.allowedProcessors.any (fun q => q == processor)) then .error "processor_not_allowed"
  else if plaintext.length > p.maxInputBytes then .error "input_too_large"
  else if p.denyMarkers.any (fun marker => contains plaintext (Utf8.encode marker.toList)) then
    .error "restricted_marker"
  else if looksLikeSsn plaintext || looksLikePan plaintext then .error "pii_detected"
  else .ok ()

theorem Policy.evaluate_ok {p : Policy} {plaintext : Bytes} {processor : String}
    (h : p.evaluate plaintext processor = .ok ()) :
    processor ∈ p.allowedProcessors ∧ plaintext.length ≤ p.maxInputBytes ∧
      (∀ marker ∈ p.denyMarkers, contains plaintext (Utf8.encode marker.toList) = false) ∧
      looksLikeSsn plaintext = false ∧ looksLikePan plaintext = false := by
  unfold evaluate at h
  split at h
  · cases h
  split at h
  · cases h
  split at h
  · cases h
  split at h
  · cases h
  · rename_i hproc hlen hmarker hpii
    simp only [Bool.not_eq_true', List.any_eq_false, beq_iff_eq, not_forall, not_not] at hproc
    obtain ⟨q, hq, rfl⟩ := hproc
    simp only [List.any_eq_true, not_exists, not_and, Bool.not_eq_true] at hmarker
    simp only [Bool.or_eq_true, not_or, Bool.not_eq_true] at hpii
    exact ⟨hq, by omega, hmarker, hpii.1, hpii.2⟩

theorem Policy.evaluate_reasons {p : Policy} {plaintext : Bytes} {processor reason : String}
    (h : p.evaluate plaintext processor = .error reason) :
    reason ∈ ["processor_not_allowed", "input_too_large", "restricted_marker", "pii_detected"] := by
  unfold evaluate at h
  split at h
  · cases h
    simp
  split at h
  · cases h
    simp
  split at h
  · cases h
    simp
  split at h
  · cases h
    simp
  · cases h

/-! ## What the scanners find -/

theorem mem_windows {n : Nat} (hn : 0 < n) {w b : Bytes} :
    w ∈ windows n b ↔ w.length = n ∧ w <:+: b := by
  induction b with
  | nil =>
    simp only [windows, List.not_mem_nil, List.infix_nil, false_iff]
    rintro ⟨hlen, rfl⟩
    simp at hlen
    omega
  | cons c b ih =>
    rw [windows]
    split
    · rename_i hle
      rw [List.mem_cons, ih, List.infix_cons_iff, and_or_left]
      have hfirst : w = (c :: b).take n ↔ w.length = n ∧ w <+: c :: b := by
        rw [List.prefix_iff_eq_take]
        constructor
        · intro h
          have hlen : w.length = n := by rw [h, List.length_take]; omega
          exact ⟨hlen, by rw [hlen]; exact h⟩
        · intro h
          rw [← h.1]
          exact h.2
      rw [hfirst]
    · rename_i hlt
      simp only [List.not_mem_nil, false_iff]
      rintro ⟨hlen, hinf⟩
      have := hinf.length_le
      omega

theorem contains_iff {haystack needle : Bytes} (hn : needle ≠ []) :
    contains haystack needle = true ↔ needle <:+: haystack := by
  have hpos := List.length_pos_iff.mpr hn
  rw [contains]
  split
  · rename_i h
    simp only [Bool.or_eq_true, List.isEmpty_iff, hn, false_or, decide_eq_true_eq] at h
    simp only [Bool.false_eq_true, false_iff]
    intro hinf
    have := hinf.length_le
    omega
  · simp only [List.any_eq_true, beq_iff_eq, exists_eq_right, mem_windows hpos, true_and]

theorem looksLikeSsn_iff {b : Bytes} :
    looksLikeSsn b = true ↔ ∃ w, ssnWindow w = true ∧ w <:+: b := by
  rw [looksLikeSsn, List.any_eq_true]
  constructor
  · rintro ⟨w, hw, hs⟩
    exact ⟨w, hs, ((mem_windows (by omega)).mp hw).2⟩
  · rintro ⟨w, hs, hinf⟩
    refine ⟨w, (mem_windows (by omega)).mpr ⟨?_, hinf⟩, hs⟩
    unfold ssnWindow at hs
    split at hs
    · rfl
    · cases hs

theorem panLoop_digits : ∀ (ds b : Bytes) (run : Nat), (∀ d ∈ ds, isAsciiDigit d = true) →
    panLoop (ds ++ b) run = panLoop b (run + ds.length) := by
  intro ds
  induction ds with
  | nil => intro b run _; rfl
  | cons d ds ih =>
    intro b run h
    rw [List.cons_append, panLoop, if_pos (h d (by simp)), ih b _ (fun x hx => h x (by simp [hx])),
      List.length_cons, show run + 1 + ds.length = run + (ds.length + 1) by omega]

/-- A byte that is no digit ends a run, whatever came before it. -/
theorem panLoop_restart {c : UInt8} (hc : isAsciiDigit c = false) {b : Bytes}
    (hb : panLoop b 0 = true) : ∀ (pre : Bytes) (run : Nat), panLoop (pre ++ c :: b) run = true := by
  intro pre
  induction pre with
  | nil =>
    intro run
    rw [List.nil_append, panLoop, if_neg (by simp [hc])]
    split
    · rfl
    · exact hb
  | cons d pre ih =>
    intro run
    rw [List.cons_append, panLoop]
    split
    · exact ih _
    · split
      · rfl
      · exact ih _

theorem looksLikePan_of_run {pre ds post : Bytes} (hds : ∀ d ∈ ds, isAsciiDigit d = true)
    (hlen : ds.length = 16) (hpre : ∀ c ∈ pre.getLast?, isAsciiDigit c = false)
    (hpost : ∀ c ∈ post.head?, isAsciiDigit c = false) :
    looksLikePan (pre ++ ds ++ post) = true := by
  have hrun : panLoop (ds ++ post) 0 = true := by
    rw [panLoop_digits ds post 0 hds, hlen]
    cases post with
    | nil => rfl
    | cons c post =>
      rw [panLoop, if_neg (by simp [hpost c rfl]), if_pos rfl]
  rw [looksLikePan, List.append_assoc]
  cases hlast : pre.getLast? with
  | none =>
    rw [List.getLast?_eq_none_iff] at hlast
    rw [hlast]
    exact hrun
  | some c =>
    obtain ⟨init, rfl⟩ := List.getLast?_eq_some_iff.mp hlast
    rw [List.append_assoc, List.singleton_append]
    exact panLoop_restart (hpre c hlast) hrun init 0

/-- A run of exactly 16 digits, and what stands around it. -/
structure PanRun (b pre ds post : Bytes) : Prop where
  split : b = pre ++ ds ++ post
  digits : ∀ d ∈ ds, isAsciiDigit d = true
  length : ds.length = 16
  before : ∀ c ∈ pre.getLast?, isAsciiDigit c = false
  after : ∀ c ∈ post.head?, isAsciiDigit c = false

theorem PanRun.cons {b pre ds post : Bytes} {c : UInt8} (h : PanRun b (pre ++ [c]) ds post)
    (d : UInt8) : PanRun (d :: b) ((d :: pre) ++ [c]) ds post := by
  refine ⟨by rw [h.split]; rfl, h.digits, h.length, ?_, h.after⟩
  have hbefore := h.before
  rw [List.getLast?_concat] at hbefore ⊢
  exact hbefore

/-- Where the scan stops: in the run it starts in, or in one after a byte that is no digit. -/
theorem panLoop_true : ∀ {b : Bytes} {run : Nat}, panLoop b run = true →
    (∃ ds post, b = ds ++ post ∧ (∀ d ∈ ds, isAsciiDigit d = true) ∧ run + ds.length = 16 ∧
      ∀ c ∈ post.head?, isAsciiDigit c = false) ∨
    ∃ pre c ds post, PanRun b (pre ++ [c]) ds post := by
  intro b
  induction b with
  | nil =>
    intro run h
    rw [panLoop, beq_iff_eq] at h
    exact .inl ⟨[], [], rfl, by simp, h, by simp⟩
  | cons c b ih =>
    intro run h
    rw [panLoop] at h
    split at h
    · rename_i hc
      rcases ih h with ⟨ds, post, rfl, hds, hlen, hpost⟩ | ⟨pre, c', ds, post, hrun⟩
      · exact .inl ⟨c :: ds, post, rfl, List.forall_mem_cons.mpr ⟨hc, hds⟩,
          by rw [List.length_cons]; omega, hpost⟩
      · exact .inr ⟨c :: pre, c', ds, post, hrun.cons c⟩
    · rename_i hc
      rw [Bool.not_eq_true] at hc
      split at h
      · rename_i hrun
        exact .inl ⟨[], c :: b, rfl, by simp, hrun, by simp [hc]⟩
      · rcases ih h with ⟨ds, post, rfl, hds, hlen, hpost⟩ | ⟨pre, c', ds, post, hrun⟩
        · exact .inr ⟨[], c, ds, post, rfl, hds, by omega, by simp [hc], hpost⟩
        · exact .inr ⟨c :: pre, c', ds, post, hrun.cons c⟩

theorem looksLikePan_iff {b : Bytes} :
    looksLikePan b = true ↔ ∃ pre ds post, PanRun b pre ds post := by
  constructor
  · intro h
    rcases panLoop_true h with ⟨ds, post, hb, hds, hlen, hpost⟩ | ⟨pre, c, ds, post, hrun⟩
    · exact ⟨[], ds, post, by rw [hb]; rfl, hds, by omega, by simp, hpost⟩
    · exact ⟨pre ++ [c], ds, post, hrun⟩
  · rintro ⟨pre, ds, post, hrun⟩
    rw [hrun.split]
    exact looksLikePan_of_run hrun.digits hrun.length hrun.before hrun.after

/-- `ddd-dd-dddd` somewhere in the text. -/
def HasSsn (b : Bytes) : Prop :=
  ∃ ds1 ds2 ds3, ds1.length = 3 ∧ ds2.length = 2 ∧ ds3.length = 4 ∧
    (∀ d ∈ ds1 ++ ds2 ++ ds3, isAsciiDigit d = true) ∧
    ds1 ++ 0x2D :: (ds2 ++ 0x2D :: ds3) <:+: b

theorem hasSsn_of_ssnWindow {w b : Bytes} (hw : ssnWindow w = true) (h : w <:+: b) : HasSsn b := by
  unfold ssnWindow at hw
  split at hw
  · rename_i w0 w1 w2 w3 w4 w5 w6 w7 w8 w9 w10
    simp only [Bool.and_eq_true, beq_iff_eq] at hw
    obtain ⟨⟨⟨⟨⟨⟨⟨⟨⟨⟨h0, h1⟩, h2⟩, rfl⟩, h4⟩, h5⟩, rfl⟩, h7⟩, h8⟩, h9⟩, h10⟩ := hw
    refine ⟨[w0, w1, w2], [w4, w5], [w7, w8, w9, w10], rfl, rfl, rfl, ?_, h⟩
    simp [h0, h1, h2, h4, h5, h7, h8, h9, h10]
  · cases hw

end Enclave
end Pzdr
