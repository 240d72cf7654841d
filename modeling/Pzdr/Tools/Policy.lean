import Pzdr.Canonical
import Pzdr.Hex
import Pzdr.Sha256

/-!
# Tools.Policy

`evaluate_policy` of `tools/pzdr_ledger.py` and the part of `re` and of `str` that its default
document uses. The Unicode tables behind `\d` and `\b` are a parameter: what they say of ASCII and
that a decimal digit is a word character is all that is known of them.
-/

namespace Pzdr
namespace Tools

/-- The character classes of `re` on `str`. -/
structure UnicodeTables where
  isDecimal : Char → Bool
  isWord : Char → Bool
  isDecimal_ascii : ∀ c : Char, c.toNat < 128 → isDecimal c = c.isDigit
  isWord_ascii : ∀ c : Char, c.toNat < 128 → isWord c = (c.isAlphanum || c == '_')
  isWord_of_isDecimal : ∀ c : Char, isDecimal c = true → isWord c = true

/-- The parts of the published patterns: `\b`, `\d{n}` and a character that stands for itself. -/
inductive Item where
  | boundary
  | digits (n : Nat)
  | lit (c : Char)
  deriving DecidableEq, Repr

abbrev Pattern := List Item

def Item.source : Item → List Char
  | .boundary => ['\\', 'b']
  | .digits n => ['\\', 'd', '\x7b'] ++ n.repr.toList ++ ['\x7d']
  | .lit c => [c]

/-- The text of the pattern in the policy document. -/
def Pattern.source (p : Pattern) : String := .ofList (p.flatMap Item.source)

def Item.width : Item → Nat
  | .boundary => 0
  | .digits n => n
  | .lit _ => 1

/-- The length of every match. -/
def Pattern.width (p : Pattern) : Nat := (p.map Item.width).sum

section Match

variable (t : UnicodeTables)

def isWordAt (c : Option Char) : Bool := c.any t.isWord

/-- A match of `n` decimal digits, continued by `next` after the last of them. -/
def matchDigits (next : Option Char → List Char → Bool) : Nat → Option Char → List Char → Bool
  | 0, prev, cs => next prev cs
  | _ + 1, _, [] => false
  | n + 1, _, c :: cs => t.isDecimal c && matchDigits next n (some c) cs

/-- A match at the front of the text, where `prev` is the character before it. -/
def matchAt : Pattern → Option Char → List Char → Bool
  | [], _, _ => true
  | .boundary :: p, prev, cs => (isWordAt t prev != isWordAt t cs.head?) && matchAt p prev cs
  | .digits n :: p, prev, cs => matchDigits t (matchAt p) n prev cs
  | .lit c :: p, _, d :: cs => c == d && matchAt p (some d) cs
  | .lit _ :: _, _, [] => false

def searchFrom (p : Pattern) : Option Char → List Char → Bool
  | prev, [] => matchAt t p prev []
  | prev, c :: cs => matchAt t p prev (c :: cs) || searchFrom p (some c) cs

/-- `re.search(pat, text)` as a condition. -/
def search (p : Pattern) (text : List Char) : Bool := searchFrom t p none text

/-- The pattern matches `found` between `before` and `after`. -/
def Matches (p : Pattern) (before found after : List Char) : Prop :=
  matchAt t p before.getLast? (found ++ after) = true ∧ found.length = p.width

instance (p : Pattern) (before found after : List Char) : Decidable (Matches t p before found after) :=
  inferInstanceAs (Decidable (_ ∧ _))

/-- A policy document; `none` is a missing key. -/
structure Policy where
  allowedProcessors : Option (List String)
  maxInputBytes : Option Nat
  denyMarkers : Option (List String)
  denyPatternsPii : Option (List Pattern)

def ssnPattern : Pattern :=
  [.boundary, .digits 3, .lit '-', .digits 2, .lit '-', .digits 4, .boundary]

def panPattern : Pattern := [.boundary, .digits 16, .boundary]

/-- `DEFAULT_POLICY` -/
def defaultPolicy : Policy where
  allowedProcessors := some ["gateway"]
  maxInputBytes := some 100000
  denyMarkers := some ["<RESTRICTED"]
  denyPatternsPii := some [ssnPattern, panPattern]

example : [ssnPattern.source, panPattern.source] =
    ["\\b\\d\x7b3\x7d-\\d\x7b2\x7d-\\d\x7b4\x7d\\b", "\\b\\d\x7b16\x7d\\b"] := by decide

/-- `DEFAULT_POLICY` as the document that is hashed. -/
def defaultPolicyDocument : Json := .obj [
  ("policy_id", .str "pzdr-default"),
  ("policy_version", .num 1),
  ("default", .str "deny"),
  ("max_input_bytes", .num 100000),
  ("deny_markers", .arr [.str "<RESTRICTED"]),
  ("deny_patterns_pii", .arr [.str ssnPattern.source, .str panPattern.source]),
  ("allowed_processors", .arr [.str "gateway"])]

/-- `marker in text` -/
def inText (marker text : List Char) : Bool := text.tails.any (fun rest => marker.isPrefixOf rest)

def evaluatePolicy (policy : Policy) (plaintext : Bytes) (processor : String) : Bool × String :=
  if !((policy.allowedProcessors.getD []).contains processor) then (false, "processor_not_allowed")
  else if plaintext.length > policy.maxInputBytes.getD (1 <<< 30) then (false, "input_too_large")
  else
    let text := Utf8.decodeIgnore plaintext
    if (policy.denyMarkers.getD []).any (fun marker => inText marker.toList text) then
      (false, "restricted_marker")
    else if (policy.denyPatternsPii.getD []).any (fun pat => search t pat text) then
      (false, "pii_detected")
    else (true, "allow")

/-! ## What the patterns find -/

theorem inText_iff {marker text : List Char} : inText marker text = true ↔ marker <:+: text := by
  simp only [inText, List.any_eq_true, List.mem_tails, List.isPrefixOf_iff_prefix,
    List.infix_iff_prefix_suffix, and_comm]

theorem getLast?_cons_or (c : Char) (cs : List Char) (prev : Option Char) :
    (c :: cs).getLast?.or prev = cs.getLast?.or (some c) := by
  rw [List.getLast?_cons]
  cases cs.getLast? <;> rfl

theorem searchFrom_some {p : Pattern} : ∀ {text : List Char} {prev : Option Char},
    searchFrom t p prev text = true →
    ∃ pre rest, text = pre ++ rest ∧ matchAt t p (pre.getLast?.or prev) rest = true := by
  intro text
  induction text with
  | nil =>
    intro prev h
    exact ⟨[], [], rfl, h⟩
  | cons c text ih =>
    intro prev h
    rw [searchFrom, Bool.or_eq_true] at h
    rcases h with h | h
    · exact ⟨[], c :: text, rfl, h⟩
    · obtain ⟨pre, rest, rfl, hm⟩ := ih h
      exact ⟨c :: pre, rest, rfl, by rw [getLast?_cons_or]; exact hm⟩

theorem search_some {p : Pattern} {text : List Char} (h : search t p text = true) :
    ∃ pre rest, text = pre ++ rest ∧ matchAt t p pre.getLast? rest = true := by
  obtain ⟨pre, rest, htext, hm⟩ := searchFrom_some t h
  rw [Option.or_none] at hm
  exact ⟨pre, rest, htext, hm⟩

theorem matchDigits_some {next : Option Char → List Char → Bool} :
    ∀ {n : Nat} {prev : Option Char} {cs : List Char}, matchDigits t next n prev cs = true →
    ∃ ds rest, cs = ds ++ rest ∧ ds.length = n ∧ (∀ d ∈ ds, t.isDecimal d = true) ∧
      next (ds.getLast?.or prev) rest = true := by
  intro n
  induction n with
  | zero =>
    intro prev cs h
    exact ⟨[], cs, rfl, rfl, by simp, h⟩
  | succ n ih =>
    intro prev cs h
    cases cs with
    | nil => cases h
    | cons c cs =>
      rw [matchDigits, Bool.and_eq_true] at h
      obtain ⟨ds, rest, rfl, hlen, hall, hnext⟩ := ih h.2
      refine ⟨c :: ds, rest, rfl, by rw [List.length_cons, hlen], ?_, ?_⟩
      · intro d hd
        rcases List.mem_cons.mp hd with rfl | hd
        · exact h.1
        · exact hall d hd
      · rw [getLast?_cons_or]
        exact hnext

theorem matchAt_lit {c : Char} {p : Pattern} {prev : Option Char} {cs : List Char}
    (h : matchAt t (.lit c :: p) prev cs = true) :
    ∃ rest, cs = c :: rest ∧ matchAt t p (some c) rest = true := by
  cases cs with
  | nil => cases h
  | cons d cs =>
    rw [matchAt, Bool.and_eq_true, beq_iff_eq] at h
    obtain ⟨rfl, h⟩ := h
    exact ⟨cs, rfl, h⟩

theorem matchAt_boundary {p : Pattern} {prev : Option Char} {cs : List Char}
    (h : matchAt t (.boundary :: p) prev cs = true) :
    isWordAt t prev ≠ isWordAt t cs.head? ∧ matchAt t p prev cs = true := by
  rw [matchAt, Bool.and_eq_true, bne_iff_ne] at h
  exact h

/-- A match of the first pattern has three, two and four digits with hyphens between them. -/
theorem matchAt_ssnPattern {prev : Option Char} {cs : List Char}
    (h : matchAt t ssnPattern prev cs = true) :
    ∃ ds1 ds2 ds3 post, cs = (ds1 ++ '-' :: (ds2 ++ '-' :: ds3)) ++ post ∧
      ds1.length = 3 ∧ ds2.length = 2 ∧ ds3.length = 4 ∧
      ∀ d ∈ ds1 ++ ds2 ++ ds3, t.isDecimal d = true := by
  obtain ⟨ds1, _, rfl, hlen1, hall1, hm⟩ := matchDigits_some t (matchAt_boundary t h).2
  obtain ⟨_, rfl, hm⟩ := matchAt_lit t hm
  obtain ⟨ds2, _, rfl, hlen2, hall2, hm⟩ := matchDigits_some t hm
  obtain ⟨_, rfl, hm⟩ := matchAt_lit t hm
  obtain ⟨ds3, post, rfl, hlen3, hall3, _⟩ := matchDigits_some t hm
  refine ⟨ds1, ds2, ds3, post, by simp, hlen1, hlen2, hlen3, ?_⟩
  intro d hd
  simp only [List.mem_append] at hd
  rcases hd with (hd | hd) | hd
  · exact hall1 d hd
  · exact hall2 d hd
  · exact hall3 d hd

theorem search_ssnPattern {text : List Char} (h : search t ssnPattern text = true) :
    ∃ pre ds1 ds2 ds3 post, text = pre ++ (ds1 ++ '-' :: (ds2 ++ '-' :: ds3)) ++ post ∧
      ds1.length = 3 ∧ ds2.length = 2 ∧ ds3.length = 4 ∧
      ∀ d ∈ ds1 ++ ds2 ++ ds3, t.isDecimal d = true := by
  obtain ⟨pre, rest, rfl, hm⟩ := search_some t h
  obtain ⟨ds1, ds2, ds3, post, rfl, hdigits⟩ := matchAt_ssnPattern t hm
  exact ⟨pre, ds1, ds2, ds3, post, (List.append_assoc _ _ _).symm, hdigits⟩

theorem searchFrom_of_matchAt {p : Pattern} {rest : List Char} : ∀ {pre : List Char}
    {prev : Option Char}, matchAt t p (pre.getLast?.or prev) rest = true →
    searchFrom t p prev (pre ++ rest) = true := by
  intro pre
  induction pre with
  | nil =>
    intro prev h
    cases rest with
    | nil => exact h
    | cons c rest =>
      rw [List.nil_append, searchFrom, Bool.or_eq_true]
      exact .inl h
  | cons c pre ih =>
    intro prev h
    rw [getLast?_cons_or] at h
    rw [List.cons_append, searchFrom, Bool.or_eq_true]
    exact .inr (ih h)

theorem search_of_matchAt {p : Pattern} {pre rest : List Char}
    (h : matchAt t p pre.getLast? rest = true) : search t p (pre ++ rest) = true :=
  searchFrom_of_matchAt t (by rw [Option.or_none]; exact h)

theorem matchDigits_of {next : Option Char → List Char → Bool} {ds rest : List Char} :
    ∀ {prev : Option Char}, (∀ d ∈ ds, t.isDecimal d = true) →
    next (ds.getLast?.or prev) rest = true →
    matchDigits t next ds.length prev (ds ++ rest) = true := by
  induction ds with
  | nil =>
    intro prev _ h
    exact h
  | cons d ds ih =>
    intro prev hall h
    rw [List.forall_mem_cons] at hall
    rw [getLast?_cons_or] at h
    rw [List.length_cons, List.cons_append, matchDigits, Bool.and_eq_true]
    exact ⟨hall.1, ih hall.2 h⟩

theorem isWordAt_eq_false {c : Option Char} (h : ∀ d ∈ c, t.isWord d = false) :
    isWordAt t c = false := by
  cases c with
  | none => rfl
  | some d => exact h d rfl

/-- Sixteen digits without a word character on either side are found. -/
theorem search_panPattern_of {pre ds post : List Char} (hlen : ds.length = 16)
    (hall : ∀ d ∈ ds, t.isDecimal d = true) (hpre : ∀ c ∈ pre.getLast?, t.isWord c = false)
    (hpost : ∀ c ∈ post.head?, t.isWord c = false) :
    search t panPattern (pre ++ (ds ++ post)) = true := by
  have hword : ∀ d ∈ ds, isWordAt t (some d) = true :=
    fun d hd => t.isWord_of_isDecimal d (hall d hd)
  have hne : ds ≠ [] := List.length_pos_iff.mp (by omega)
  have hhead : isWordAt t (ds ++ post).head? = true := by
    rw [List.head?_append_of_ne_nil _ hne, List.head?_eq_some_head hne]
    exact hword _ (List.head_mem hne)
  have hlast : isWordAt t (ds.getLast?.or pre.getLast?) = true := by
    rw [List.getLast?_eq_some_getLast hne, Option.some_or]
    exact hword _ (List.getLast_mem hne)
  refine search_of_matchAt t ?_
  rw [panPattern, matchAt, hhead, isWordAt_eq_false t hpre, matchAt, ← hlen]
  refine matchDigits_of t hall ?_
  rw [matchAt, hlast, isWordAt_eq_false t hpost]
  rfl

theorem isWordAt_false {c : Option Char} (h : isWordAt t c ≠ true) :
    ∀ d ∈ c, t.isWord d = false := by
  intro d hd
  cases hd
  simpa [isWordAt] using h

/-- A match of the second pattern has sixteen digits, and no word character on either side. -/
theorem matchAt_panPattern {prev : Option Char} {cs : List Char}
    (h : matchAt t panPattern prev cs = true) :
    ∃ ds post, cs = ds ++ post ∧ ds.length = 16 ∧ (∀ d ∈ ds, t.isDecimal d = true) ∧
      (∀ c ∈ prev, t.isWord c = false) ∧ ∀ c ∈ post.head?, t.isWord c = false := by
  obtain ⟨hfirst, hm⟩ := matchAt_boundary t h
  obtain ⟨ds, post, rfl, hlen, hall, hm⟩ := matchDigits_some t hm
  obtain ⟨hlast, _⟩ := matchAt_boundary t hm
  have hword : ∀ d ∈ ds, isWordAt t (some d) = true :=
    fun d hd => t.isWord_of_isDecimal d (hall d hd)
  cases ds with
  | nil => cases hlen
  | cons d ds =>
    refine ⟨d :: ds, post, rfl, hlen, hall, isWordAt_false t ?_, isWordAt_false t ?_⟩
    · rw [List.cons_append, List.head?_cons, hword d (by simp)] at hfirst
      exact hfirst
    · have hl : (d :: ds).getLast? = some ((d :: ds).getLast (by simp)) :=
        List.getLast?_eq_some_getLast (by simp)
      rw [hl, Option.some_or, hword _ (List.getLast_mem _)] at hlast
      exact hlast.symm

theorem search_panPattern {text : List Char} (h : search t panPattern text = true) :
    ∃ pre ds post, text = pre ++ ds ++ post ∧ ds.length = 16 ∧ (∀ d ∈ ds, t.isDecimal d = true) ∧
      (∀ c ∈ pre.getLast?, t.isWord c = false) ∧ ∀ c ∈ post.head?, t.isWord c = false := by
  obtain ⟨pre, rest, rfl, hm⟩ := search_some t h
  obtain ⟨ds, post, rfl, hrun⟩ := matchAt_panPattern t hm
  exact ⟨pre, ds, post, (List.append_assoc _ _ _).symm, hrun⟩

end Match

end Tools
end Pzdr
