import Pzdr.BigEndian
import Pzdr.Metering.Event

/-!
# Metering.Scope

What an idempotency key stands for. The parts of a scope are hashed with their lengths before them,
so the hashed bytes determine the parts (`flatMap_lengthPrefixed_inj`), and two events have the same
key exactly when they have the same scope (`idempotencyKey_eq_iff`).
-/

namespace Pzdr
namespace Metering

/-- A string takes at most `isize::MAX` bytes. -/
def Storable (part : String) : Prop := (Utf8.encode part.toList).length < 2 ^ 63

instance : DecidablePred Storable := fun _ => inferInstanceAs (Decidable (_ < _))

theorem beBytes_eq (n : Nat) : beBytes n = BigEndian.bytes 8 n := by
  simp [beBytes, BigEndian.bytes, Nat.shiftRight_eq_div_pow]

theorem lengthPrefixed_append_inj {part part' : String} {rest rest' : Bytes} (hp : Storable part)
    (hp' : Storable part')
    (h : lengthPrefixed part ++ rest = lengthPrefixed part' ++ rest') :
    part = part' ∧ rest = rest' := by
  unfold Storable at hp hp'
  simp only [lengthPrefixed, beBytes_eq, List.append_assoc] at h
  obtain ⟨hlen, h⟩ := List.append_inj h (by simp)
  have hlen := BigEndian.bytes_inj (by omega) (by omega) hlen
  obtain ⟨hpart, hrest⟩ := List.append_inj h hlen
  exact ⟨String.toList_inj.mp (Utf8.encode_injective hpart), hrest⟩

theorem lengthPrefixed_ne_nil (part : String) : lengthPrefixed part ≠ [] := by
  intro h
  cases h

theorem flatMap_lengthPrefixed_inj : ∀ {parts parts' : List String},
    (∀ part ∈ parts, Storable part) → (∀ part ∈ parts', Storable part) →
    parts.flatMap lengthPrefixed = parts'.flatMap lengthPrefixed → parts = parts' := by
  intro parts
  induction parts with
  | nil =>
    intro parts' _ _ h
    cases parts' with
    | nil => rfl
    | cons part' parts' =>
      exact absurd (List.append_eq_nil_iff.mp h.symm).1 (lengthPrefixed_ne_nil part')
  | cons part parts ih =>
    intro parts' hp hp' h
    cases parts' with
    | nil => exact absurd (List.append_eq_nil_iff.mp h).1 (lengthPrefixed_ne_nil part)
    | cons part' parts' =>
      rw [List.forall_mem_cons] at hp hp'
      rw [List.flatMap_cons, List.flatMap_cons] at h
      obtain ⟨hpart, hrest⟩ := lengthPrefixed_append_inj hp.1 hp'.1 h
      rw [hpart, ih hp.2 hp'.2 hrest]

/-- The bytes that are hashed for the key. -/
def MarketplaceUsageInput.scopeBytes (input : MarketplaceUsageInput) : Bytes :=
  input.billingScope.flatMap lengthPrefixed

theorem idempotencyKey_of_new {sha : Sha256} {input : MarketplaceUsageInput}
    {event : MarketplaceUsageEvent} (h : MarketplaceUsageEvent.new sha input = .ok event) :
    event.idempotencyKey = hexEncode (sha.hash input.scopeBytes) := by
  obtain ⟨rfl, hvalid⟩ := new_ok.mp h
  exact hvalid.key

/-- Hash, encoding and text are injective on the scopes of the two events. -/
theorem billingScope_eq_of_key {sha : Sha256} {input input' : MarketplaceUsageInput}
    (hsize : ∀ part ∈ input.billingScope ++ input'.billingScope, Storable part)
    (hc : sha.CollisionFreeOn [input.scopeBytes, input'.scopeBytes])
    (h : hexEncode (sha.hash input.scopeBytes) = hexEncode (sha.hash input'.scopeBytes)) :
    input.billingScope = input'.billingScope := by
  rw [List.forall_mem_append] at hsize
  have hbytes := hc _ (by simp) _ (by simp) (hexEncode_injective h)
  exact flatMap_lengthPrefixed_inj hsize.1 hsize.2 hbytes

theorem idempotencyKey_eq_iff (sha : Sha256) (input input' : MarketplaceUsageInput)
    (event event' : MarketplaceUsageEvent) (h : MarketplaceUsageEvent.new sha input = .ok event)
    (h' : MarketplaceUsageEvent.new sha input' = .ok event')
    (hsize : ∀ part ∈ input.billingScope ++ input'.billingScope, Storable part)
    (hc : sha.CollisionFreeOn [input.scopeBytes, input'.scopeBytes]) :
    event.idempotencyKey = event'.idempotencyKey ↔
      input.productCode = input'.productCode ∧
        input.customerAwsAccountId = input'.customerAwsAccountId ∧
        input.dimension = input'.dimension ∧ input.tenantId = input'.tenantId ∧
        input.requestId = input'.requestId ∧ input.proofId = input'.proofId ∧
        input.receiptRootHex = input'.receiptRootHex := by
  have hscope : event.idempotencyKey = event'.idempotencyKey ↔
      input.billingScope = input'.billingScope := by
    rw [idempotencyKey_of_new h, idempotencyKey_of_new h']
    constructor
    · exact billingScope_eq_of_key hsize hc
    · intro hscope
      rw [MarketplaceUsageInput.scopeBytes, hscope]
      rfl
  simp only [hscope, MarketplaceUsageInput.billingScope, List.cons.injEq, and_true]

/-- The same request for another product, with another quantity. -/
def otherProduct : MarketplaceUsageInput := { sampleInput "req-1" 2 with productCode := "prod-124" }

theorem idempotencyKey_products :
    ∃ event, MarketplaceUsageEvent.new .firstBytes otherProduct = .ok event ∧
      (sampleEvent "req-1" 1).idempotencyKey ≠ event.idempotencyKey := by
  obtain ⟨event, hevent⟩ : ∃ event, MarketplaceUsageEvent.new .firstBytes otherProduct = .ok event :=
    ⟨_, rfl⟩
  refine ⟨event, hevent, ?_⟩
  intro h
  have hscope := (idempotencyKey_eq_iff .firstBytes (sampleInput "req-1" 1) otherProduct
    (sampleEvent "req-1" 1) event rfl hevent (by decide +kernel)
    (by unfold Sha256.CollisionFreeOn; decide +kernel)).mp h
  exact absurd hscope.1 (by decide)

end Metering
end Pzdr
