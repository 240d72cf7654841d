import Pzdr.Except
import Pzdr.Hex
import Pzdr.Json.Print
import Pzdr.Sha256

/-!
# Metering.Event

`crates/marketplace-metering/src/lib.rs`: usage events, the constructor that validates them, and
the payload for `BatchMeterUsage`.

An event is `Valid` if the constructor could have made it (`exists_new_iff`); the payload is made
from any events (`batchMeterUsagePayload_ok`).
-/

namespace Pzdr
namespace Metering

inductive MeteringError where
  | missing (field : String)
  | invalidQuantity
  | tooManyRecords (n : Nat)
  | io (message : String)
  | json (message : String)
  deriving DecidableEq, Repr

structure MarketplaceUsageInput where
  productCode : String
  customerAwsAccountId : String
  dimension : String
  quantity : UInt32
  timestampUnixSeconds : Int64
  tenantId : String
  requestId : String
  proofId : String
  receiptRootHex : String
  deriving DecidableEq

/-- The fields of the input and the key. -/
structure MarketplaceUsageEvent extends MarketplaceUsageInput where
  idempotencyKey : String
  deriving DecidableEq

/-! ## The constructor -/

/-- `char::is_whitespace`: the Unicode property `White_Space`. -/
def isWhitespace (c : Char) : Bool :=
  (0x09 ≤ c.toNat && c.toNat ≤ 0x0D) || c.toNat == 0x20 || c.toNat == 0x85 || c.toNat == 0xA0 ||
    c.toNat == 0x1680 || (0x2000 ≤ c.toNat && c.toNat ≤ 0x200A) || c.toNat == 0x2028 ||
    c.toNat == 0x2029 || c.toNat == 0x202F || c.toNat == 0x205F || c.toNat == 0x3000

/-- `value.trim().is_empty()` -/
def isBlank (value : List Char) : Bool := value.all isWhitespace

def require (field value : String) : Except MeteringError Unit :=
  if isBlank value.toList then .error (.missing field) else .ok ()

/-- `(n as u64).to_be_bytes()` -/
def beBytes (n : Nat) : Bytes := [56, 48, 40, 32, 24, 16, 8, 0].map (fun k => UInt8.ofNat (n >>> k))

def lengthPrefixed (part : String) : Bytes :=
  beBytes (Utf8.encode part.toList).length ++ Utf8.encode part.toList

def stableIdempotencyKey (sha : Sha256) (parts : List String) : String :=
  hexEncode (sha.hash (parts.flatMap lengthPrefixed))

/-- The fields that the constructor requires; the key is made from them. -/
def MarketplaceUsageInput.billingScope (input : MarketplaceUsageInput) : List String :=
  [input.productCode, input.customerAwsAccountId, input.dimension, input.tenantId, input.requestId,
    input.proofId, input.receiptRootHex]

/-- `MarketplaceUsageEvent::new` -/
def MarketplaceUsageEvent.new (sha : Sha256) (input : MarketplaceUsageInput) :
    Except MeteringError MarketplaceUsageEvent := do
  require "product_code" input.productCode
  require "customer_aws_account_id" input.customerAwsAccountId
  require "dimension" input.dimension
  require "tenant_id" input.tenantId
  require "request_id" input.requestId
  require "proof_id" input.proofId
  require "receipt_root_hex" input.receiptRootHex
  (if input.quantity = 0 then .error .invalidQuantity else .ok ())
  return ⟨input, stableIdempotencyKey sha input.billingScope⟩

def inferenceDimension : String := "inference_request"

/-- `MarketplaceUsageEvent::inference` -/
def MarketplaceUsageEvent.inference (sha : Sha256) (productCode customerAwsAccountId tenantId
    requestId proofId receiptRootHex : String) (timestampUnixSeconds : Int64) :
    Except MeteringError MarketplaceUsageEvent :=
  new sha {
    productCode, customerAwsAccountId, dimension := inferenceDimension, quantity := 1,
    timestampUnixSeconds, tenantId, requestId, proofId, receiptRootHex }

/-- What the constructor enforces. -/
structure Valid (sha : Sha256) (event : MarketplaceUsageEvent) : Prop where
  required : ∀ part ∈ event.billingScope, isBlank part.toList = false
  quantity : 0 < event.quantity.toNat
  key : event.idempotencyKey = stableIdempotencyKey sha event.billingScope

theorem require_ok {field value : String} :
    require field value = .ok () ↔ isBlank value.toList = false := by
  unfold require
  cases isBlank value.toList <;> simp

theorem new_ok {sha : Sha256} {input : MarketplaceUsageInput} {event : MarketplaceUsageEvent} :
    MarketplaceUsageEvent.new sha input = .ok event ↔
      event.toMarketplaceUsageInput = input ∧ Valid sha event := by
  have hquantity : input.quantity ≠ 0 ↔ 0 < input.quantity.toNat := by
    rw [Nat.pos_iff_ne_zero, ne_eq, ne_eq, ← UInt32.toNat_inj, UInt32.toNat_zero]
  simp only [MarketplaceUsageEvent.new, Except.unit_bind_eq_ok, require_ok, Except.ite_error_eq_ok,
    hquantity, pure, Except.pure, Except.ok.injEq]
  constructor
  · rintro ⟨h1, h2, h3, h4, h5, h6, h7, hq, rfl⟩
    refine ⟨rfl, ?_, hq, rfl⟩
    simp [MarketplaceUsageInput.billingScope, h1, h2, h3, h4, h5, h6, h7]
  · rintro ⟨rfl, hrequired, hq, hkey⟩
    simp only [MarketplaceUsageInput.billingScope, List.forall_mem_cons] at hrequired
    obtain ⟨h1, h2, h3, h4, h5, h6, h7, _⟩ := hrequired
    refine ⟨h1, h2, h3, h4, h5, h6, h7, hq, ?_⟩
    rw [← hkey]

/-- The events that the constructor makes. -/
theorem exists_new_iff {sha : Sha256} {event : MarketplaceUsageEvent} :
    (∃ input, MarketplaceUsageEvent.new sha input = .ok event) ↔ Valid sha event := by
  simp only [new_ok]
  exact ⟨fun ⟨_, _, h⟩ => h, fun h => ⟨_, rfl, h⟩⟩

/-! ## The payload -/

structure UsageAllocationTag where
  key : String
  value : String
  deriving DecidableEq

structure UsageAllocation where
  allocatedUsageQuantity : UInt32
  tags : List UsageAllocationTag
  deriving DecidableEq

structure UsageRecord where
  customerAwsAccountId : String
  dimension : String
  quantity : UInt32
  timestamp : Int64
  usageAllocations : List UsageAllocation
  deriving DecidableEq

structure BatchMeterUsagePayload where
  productCode : String
  usageRecords : List UsageRecord
  deriving DecidableEq

def usageRecord (event : MarketplaceUsageEvent) : UsageRecord where
  customerAwsAccountId := event.customerAwsAccountId
  dimension := event.dimension
  quantity := event.quantity
  timestamp := event.timestampUnixSeconds
  usageAllocations := [{
    allocatedUsageQuantity := event.quantity
    tags := [⟨"tenant_id", event.tenantId⟩, ⟨"proof_id", event.proofId⟩,
      ⟨"receipt_root_hex", event.receiptRootHex⟩] }]

def batchMeterUsagePayload (productCode : String) (events : List MarketplaceUsageEvent) :
    Except MeteringError BatchMeterUsagePayload := do
  require "product_code" productCode
  (if events.length > 25 then .error (.tooManyRecords events.length) else .ok ())
  return ⟨productCode, events.map usageRecord⟩

theorem batchMeterUsagePayload_ok {productCode : String} {events : List MarketplaceUsageEvent}
    {payload : BatchMeterUsagePayload} : batchMeterUsagePayload productCode events = .ok payload ↔
      isBlank productCode.toList = false ∧ events.length ≤ 25 ∧
        payload = ⟨productCode, events.map usageRecord⟩ := by
  simp only [batchMeterUsagePayload, Except.unit_bind_eq_ok, require_ok, Except.ite_error_eq_ok,
    not_lt, pure, Except.pure, Except.ok.injEq]
  rw [eq_comm (a := payload)]

/-! ## The text of an event -/

/-- The object that the derived serializer writes. -/
def MarketplaceUsageEvent.toJson (event : MarketplaceUsageEvent) : Json := .obj [
  ("product_code", .str event.productCode),
  ("customer_aws_account_id", .str event.customerAwsAccountId),
  ("dimension", .str event.dimension),
  ("quantity", .num event.quantity.toNat),
  ("timestamp_unix_seconds", .num event.timestampUnixSeconds.toInt),
  ("tenant_id", .str event.tenantId),
  ("request_id", .str event.requestId),
  ("proof_id", .str event.proofId),
  ("receipt_root_hex", .str event.receiptRootHex),
  ("idempotency_key", .str event.idempotencyKey)]

theorem toJson_injective {event event' : MarketplaceUsageEvent}
    (h : event.toJson = event'.toJson) : event = event' := by
  obtain ⟨⟨a, b, c, d, e, f, g, i, j⟩, k⟩ := event
  obtain ⟨⟨a', b', c', d', e', f', g', i', j'⟩, k'⟩ := event'
  simp only [MarketplaceUsageEvent.toJson, Json.obj.injEq, List.cons.injEq, Prod.mk.injEq, true_and,
    Json.str.injEq, Json.num.injEq, Nat.cast_inj, UInt32.toNat_inj, Int64.toInt_inj, and_true] at h
  obtain ⟨rfl, rfl, rfl, rfl, rfl, rfl, rfl, rfl, rfl, rfl⟩ := h
  rfl

/-! ## An event to run the model on -/

def sampleInput (requestId : String) (quantity : UInt32) : MarketplaceUsageInput where
  productCode := "prod-123"
  customerAwsAccountId := "111122223333"
  dimension := inferenceDimension
  quantity := quantity
  timestampUnixSeconds := 1779984000
  tenantId := "tenant-a"
  requestId := requestId
  proofId := "proof-abc"
  receiptRootHex := "aa55"

def sampleEvent (requestId : String) (quantity : UInt32) : MarketplaceUsageEvent :=
  ⟨sampleInput requestId quantity,
    stableIdempotencyKey .firstBytes (sampleInput requestId quantity).billingScope⟩

end Metering
end Pzdr
