import Pzdr.Enclave.Process

/-!
# Audit.Commitment

What a commitment binds. The hashed bytes are plaintext, salt and context, one after the other, and
nothing in them says where one ends and the next begins.

`commitment_binds_iff`: two requests with one commitment agree on all three parts exactly when their
plaintexts have one length and their salts do. `commitment_two_openings` is a commitment with two
openings.
-/

namespace Pzdr
namespace Audit

open Enclave
open Platform (commitmentInput)

variable {P : Platform}

theorem checkCommitment_ok {req : InferenceRequest} {plaintext salt : Bytes}
    (h : P.checkCommitment req plaintext = .ok salt) :
    hexEncode (P.sha.hash (commitmentInput plaintext salt req.commitmentContext)) =
      req.commitmentHex := by
  unfold Platform.checkCommitment at h
  split at h
  · cases h
  · split at h
    · cases h
    · rename_i heq
      cases h
      exact not_not.mp heq

theorem commitmentInput_inj {plaintext plaintext' salt salt' : Bytes} {context context' : String}
    (hplain : plaintext.length = plaintext'.length) (hsalt : salt.length = salt'.length)
    (h : commitmentInput plaintext salt context = commitmentInput plaintext' salt' context') :
    plaintext = plaintext' ∧ salt = salt' ∧ context = context' := by
  have hlen : (plaintext ++ salt).length = (plaintext' ++ salt').length := by
    rw [List.length_append, List.length_append, hplain, hsalt]
  obtain ⟨hpair, hcontext⟩ := List.append_inj h hlen
  obtain ⟨hp, hs⟩ := List.append_inj hpair hplain
  exact ⟨hp, hs, String.toList_inj.mp (Utf8.encode_injective hcontext)⟩

/-- The request body passes the commitment check with these three parts. -/
def Opens (P : Platform) (body : Bytes) (commitmentHex : String) (plaintext salt : Bytes)
    (context : String) : Prop :=
  ∃ req, P.parseRequest body = some req ∧ P.decrypt req = .ok plaintext ∧
    P.checkCommitment req plaintext = .ok salt ∧ req.commitmentHex = commitmentHex ∧
    req.commitmentContext = context

theorem commitment_binds_iff (P : Platform) {body body' : Bytes} {commitmentHex : String}
    {plaintext plaintext' salt salt' : Bytes} {context context' : String}
    (h : Opens P body commitmentHex plaintext salt context)
    (h' : Opens P body' commitmentHex plaintext' salt' context')
    (hsha : P.sha.CollisionFreeOn
      [commitmentInput plaintext salt context, commitmentInput plaintext' salt' context']) :
    (plaintext = plaintext' ∧ salt = salt' ∧ context = context') ↔
      plaintext.length = plaintext'.length ∧ salt.length = salt'.length := by
  constructor
  · rintro ⟨rfl, rfl, _⟩
    exact ⟨rfl, rfl⟩
  · rintro ⟨hplain, hsalt⟩
    obtain ⟨req, _, _, hcheck, rfl, rfl⟩ := h
    obtain ⟨req', _, _, hcheck', heq, rfl⟩ := h'
    have hhash := hexEncode_injective
      ((checkCommitment_ok hcheck).trans (heq.symm.trans (checkCommitment_ok hcheck').symm))
    have hinput := hsha _ (by simp) _ (by simp) hhash
    exact commitmentInput_inj hplain hsalt hinput

theorem sample_opens {requests : List InferenceRequest} {plaintext salt : Bytes}
    {context processor : String}
    (h : sampleRequest plaintext salt context processor ∈ requests) :
    Opens (samplePlatform requests) (toVec (sampleRequest plaintext salt context processor).toJson)
      (sampleRequest plaintext salt context processor).commitmentHex plaintext salt context :=
  ⟨_, sample_parseRequest h, sample_decrypt _ _ _ _ _, sample_checkCommitment _ _ _ _ _, rfl, rfl⟩

/-- Two bodies that differ in their processor only. -/
theorem commitment_binds_iff_processors :
    (([0x61] : Bytes) = [0x61] ∧ ([0x62] : Bytes) = [0x62] ∧ "default" = "default") ↔
      ([0x61] : Bytes).length = ([0x61] : Bytes).length ∧
        ([0x62] : Bytes).length = ([0x62] : Bytes).length :=
  commitment_binds_iff
    (samplePlatform [sampleRequest [0x61] [0x62] "default" "gateway",
      sampleRequest [0x61] [0x62] "default" "other"])
    (@sample_opens _ [0x61] [0x62] "default" "gateway" List.mem_cons_self)
    (@sample_opens _ [0x61] [0x62] "default" "other" (List.mem_cons_of_mem _ List.mem_cons_self))
    (by intro x hx y hy _; simp_all)

/-- The commitment to `ab`, `c` and no context also opens to `a`, `bc` and no context. -/
theorem commitment_two_openings :
    ∃ requests body body' commitmentHex,
      Opens (samplePlatform requests) body commitmentHex [0x61, 0x62] [0x63] "" ∧
      Opens (samplePlatform requests) body' commitmentHex [0x61] [0x62, 0x63] "" ∧
      (samplePlatform requests).sha.CollisionFreeOn
        [commitmentInput [0x61, 0x62] [0x63] "", commitmentInput [0x61] [0x62, 0x63] ""] :=
  ⟨[sampleRequest [0x61, 0x62] [0x63] "" "gateway", sampleRequest [0x61] [0x62, 0x63] "" "gateway"],
    _, _, _, @sample_opens _ [0x61, 0x62] [0x63] "" "gateway" List.mem_cons_self,
    @sample_opens _ [0x61] [0x62, 0x63] "" "gateway" (List.mem_cons_of_mem _ List.mem_cons_self),
    by intro x hx y hy _; simp_all [commitmentInput]⟩

end Audit
end Pzdr
