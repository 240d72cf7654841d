import Pzdr.Cbor
import Pzdr.Enclave.Boot
import Pzdr.Enclave.Machine

/-!
# Pzdr.Fleet

The enclaves of one image, wherever they run, and the attestation documents that exist. An enclave
comes up, serves its requests and asks the NSM device for documents (`publish_attestation`); other
images can ask for documents with whatever they want in them, but their PCR0 is another.

* `Sound`: every enclave has come up the way `EnclaveState::new` says and is in a state it can reach,
  and the documents that carry the image's PCR0 were asked for by one of them.
* `reachable_sound`: all runs keep it.
-/

namespace Pzdr

open Cbor
open Enclave (AttestationOut Booting Crates NsmResponse Platform State canonicalJson)

/-- What the NSM puts into a document. -/
structure Document where
  moduleId : String
  timestamp : Int64
  pcrs : List (Fin 32 × Bytes)
  distinct : (pcrs.map Prod.fst).Nodup
  certificate : Bytes
  cabundle : List Bytes
  publicKey : Option Bytes
  userData : Option Bytes
  nonce : Option Bytes

namespace Document

def ofBytes? : Option Bytes → Value
  | some bs => .bytes bs
  | none => .null

def pcrIndex (i : Fin 32) : Integer := ⟨i.val, by omega, by omega⟩

def pcrEntries (d : Document) : List (Value × Value) :=
  d.pcrs.map (fun e => (.integer (pcrIndex e.1), .bytes e.2))

/-- The register that the image is measured into. -/
def pcr0Index : Fin 32 := 0

/-- The payload, a map. -/
def entries (d : Document) : List (Value × Value) := [
  (.text "module_id", .text d.moduleId),
  (.text "digest", .text "SHA384"),
  (.text "timestamp", .integer (.ofInt64 d.timestamp)),
  (.text "pcrs", .map d.pcrEntries),
  (.text "certificate", .bytes d.certificate),
  (.text "cabundle", .array (d.cabundle.map .bytes)),
  (.text "public_key", ofBytes? d.publicKey),
  (.text "user_data", ofBytes? d.userData),
  (.text "nonce", ofBytes? d.nonce)]

/-- The arguments of the request that the document answers. -/
def request (d : Document) : Option Bytes × Option Bytes × Option Bytes :=
  (d.userData, d.nonce, d.publicKey)

end Document

/-- The request of `publish_attestation`. -/
def Enclave.Platform.attestationRequest (P : Platform) :
    Option Bytes × Option Bytes × Option Bytes :=
  (some (canonicalJson P.attestationBinding), none, some P.channelPk)

/-- An image: `expectedPcr0` is compiled in, `pcr0` is what the hardware measures. -/
structure Image where
  crates : Crates
  expectedPcr0 : String
  pcr0 : Bytes

structure Instance where
  platform : Platform
  state : State

structure Fleet where
  instances : List Instance
  issued : List Document

namespace Fleet

def empty : Fleet := ⟨[], []⟩

inductive Event where
  | boot (fd : Int) (answers : List NsmResponse)
  | enclave (i : Nat) (e : Enclave.Event)
  | attest (i : Nat) (d : Document)
  | foreign (d : Document)

end Fleet

namespace Image

variable (image : Image)

def step (f : Fleet) : Fleet.Event → Option Fleet
  | .boot fd answers =>
    match image.crates.new image.expectedPcr0 fd answers with
    | .ready platform => some { f with instances := f.instances ++ [⟨platform, .boot⟩] }
    | _ => none
  | .enclave i e => do
    let inst ← f.instances[i]?
    let state ← inst.platform.step inst.state e
    some { f with instances := f.instances.set i { inst with state := state } }
  | .attest i d => do
    let inst ← f.instances[i]?
    if d.request = inst.platform.attestationRequest ∧ (0, image.pcr0) ∈ d.pcrs then
      some { f with issued := f.issued ++ [d] }
    else none
  | .foreign d =>
    if (0, image.pcr0) ∈ d.pcrs then none else some { f with issued := f.issued ++ [d] }

/-- An enclave of this image, in a state it can reach. -/
def Hosts (inst : Instance) : Prop :=
  (∃ fd answers, image.crates.new image.expectedPcr0 fd answers = .ready inst.platform) ∧
    ∃ es, Run inst.platform.step State.boot es inst.state

/-- The invariant of the fleet. -/
structure Sound (f : Fleet) : Prop where
  hosted : ∀ inst ∈ f.instances, image.Hosts inst
  asked : ∀ d ∈ f.issued, (0, image.pcr0) ∈ d.pcrs →
    ∃ inst ∈ f.instances, d.request = inst.platform.attestationRequest

variable {image} {f f' : Fleet}

theorem Hosts.step {inst : Instance} {state : State} {e : Enclave.Event} (h : image.Hosts inst)
    (hstep : inst.platform.step inst.state e = some state) :
    image.Hosts { inst with state := state } := by
  obtain ⟨hnew, es, hrun⟩ := h
  exact ⟨hnew, es ++ [e], hrun.snoc hstep⟩

/-- An enclave keeps its keys. -/
theorem Sound.set (h : image.Sound f) {i : Nat} {inst inst' : Instance}
    (hi : f.instances[i]? = some inst) (hplatform : inst'.platform = inst.platform)
    (hhosts : image.Hosts inst') :
    image.Sound { f with instances := f.instances.set i inst' } := by
  constructor
  · intro other hother
    rcases List.mem_or_eq_of_mem_set hother with hother | rfl
    · exact h.hosted other hother
    · exact hhosts
  · intro d hd hpcr0
    obtain ⟨asker, hasker, hrequest⟩ := h.asked d hd hpcr0
    obtain ⟨j, hj, rfl⟩ := List.mem_iff_getElem.mp hasker
    by_cases hij : i = j
    · subst hij
      rw [List.getElem?_eq_getElem hj, Option.some.injEq] at hi
      exact ⟨inst', List.mem_set hj _, by rw [hplatform, ← hi, hrequest]⟩
    · refine ⟨_, ?_, hrequest⟩
      rw [← List.getElem_set_ne hij (a := inst') (by simpa using hj)]
      exact List.getElem_mem _

theorem Sound.step {e : Fleet.Event} (h : image.Sound f) (hstep : image.step f e = some f') :
    image.Sound f' := by
  cases e with
  | boot fd answers =>
    rw [Image.step] at hstep
    split at hstep
    · rename_i platform hnew
      cases hstep
      constructor
      · intro inst hinst
        rcases List.mem_append.mp hinst with hinst | hinst
        · exact h.hosted inst hinst
        · obtain rfl := List.mem_singleton.mp hinst
          exact ⟨⟨fd, answers, hnew⟩, [], .nil⟩
      · intro d hd hpcr0
        obtain ⟨inst, hinst, hrequest⟩ := h.asked d hd hpcr0
        exact ⟨inst, List.mem_append_left _ hinst, hrequest⟩
    · cases hstep
  | enclave i e =>
    obtain ⟨inst, hi, hstep⟩ := Option.bind_eq_some_iff.mp hstep
    obtain ⟨state, hstate, hstep⟩ := Option.bind_eq_some_iff.mp hstep
    cases hstep
    exact h.set hi rfl ((h.hosted inst (List.mem_of_getElem? hi)).step hstate)
  | attest i d =>
    obtain ⟨inst, hi, hstep⟩ := Option.bind_eq_some_iff.mp hstep
    split at hstep
    · rename_i hd
      cases hstep
      refine ⟨h.hosted, ?_⟩
      intro d' hd' hpcr0
      rcases List.mem_append.mp hd' with hd' | hd'
      · exact h.asked d' hd' hpcr0
      · obtain rfl := List.mem_singleton.mp hd'
        exact ⟨inst, List.mem_of_getElem? hi, hd.1⟩
    · cases hstep
  | foreign d =>
    rw [Image.step] at hstep
    split at hstep
    · cases hstep
    · rename_i hforeign
      cases hstep
      refine ⟨h.hosted, ?_⟩
      intro d' hd' hpcr0
      rcases List.mem_append.mp hd' with hd' | hd'
      · exact h.asked d' hd' hpcr0
      · obtain rfl := List.mem_singleton.mp hd'
        exact absurd hpcr0 hforeign

/-- What an enclave does on its own it can do in the fleet. -/
theorem enclave_run {i : Nat} {inst : Instance} (hi : f.instances[i]? = some inst)
    {es : List Enclave.Event} {state : State} (h : Run inst.platform.step inst.state es state) :
    Run image.step f (es.map (.enclave i))
      { f with instances := f.instances.set i { inst with state := state } } := by
  obtain ⟨hlt, rfl⟩ := List.getElem?_eq_some_iff.mp hi
  induction h with
  | nil =>
    show Run image.step f [] { f with instances := f.instances.set i f.instances[i] }
    rw [List.set_getElem_self]
    exact .nil
  | snoc _ hstep ih =>
    rw [List.map_append]
    refine ih.snoc ?_
    simp [Image.step, hlt, hstep]

theorem reachable_sound {es : List Fleet.Event} (hrun : Run image.step .empty es f) :
    image.Sound f := by
  refine hrun.invariant (I := image.Sound) ⟨?_, ?_⟩ ?_
  · intro inst hinst
    cases hinst
  · intro d hd
    cases hd
  · intro f e f' hstep h
    exact h.step hstep

end Image
end Pzdr
