import Pzdr.Enclave.Attestation

/-!
# Enclave.Boot

How an enclave comes up: `random_bytes` of `EnclaveSelf` in `crates/nitro-attestation/src/lib.rs`, and
`EnclaveState::new` of `services/pzdr-enclave/src/main.rs`, which draws its two secret keys with it.

The NSM device stands as the list of what it answers, in turn.

* `randomBytes_ok`: the bytes are those of the device, and as many as were asked for.
* `new_ready`: an enclave that comes up has two keys of 32 bytes each.
-/

namespace Pzdr
namespace Enclave

/-- `Response` of the NSM driver. -/
inductive NsmResponse where
  | attestation (document : Bytes)
  | getRandom (random : Bytes)
  | error (code : String)
  | other

/-- The loop of `random_bytes`, which has `out` already. It waits while the device does not answer
(`none`); an error is the text of an `Nsm` error. -/
def randomBytes (n : Nat) (out : Bytes) (answers : List NsmResponse) :
    Option (Except String (Bytes × List NsmResponse)) :=
  if n ≤ out.length then some (.ok (out, answers))
  else
    match answers with
    | [] => none
    | .getRandom random :: answers => randomBytes n (out ++ random.take (n - out.length)) answers
    | .error e :: _ => some (.error e)
    | _ :: _ => some (.error "unexpected response")

/-- The crates that need no key, and those that take one: `publicKey` and `diffieHellman` are of
X25519, `verifyingKey` and `sign` of Ed25519. -/
structure Crates where
  sha : Sha256
  parseRequest : Bytes → Option InferenceRequest
  hkdf : Bytes → Bytes → Bytes → Nat → Option Bytes
  aeadOpen : Bytes → Bytes → Bytes → Bytes → Option Bytes
  base64 : Bytes → String
  publicKey : Bytes → Bytes
  diffieHellman : Bytes → Bytes → Bytes
  verifyingKey : Bytes → Bytes
  sign : Bytes → Bytes → Bytes

/-- The enclave with these secret keys. -/
def Crates.platform (crates : Crates) (expectedPcr0 : String) (channelSk proofSk : Bytes) :
    Platform where
  sha := crates.sha
  parseRequest := crates.parseRequest
  diffieHellman := crates.diffieHellman channelSk
  hkdf := crates.hkdf
  aeadOpen := crates.aeadOpen
  sign := crates.sign proofSk
  base64 := crates.base64
  expectedPcr0 := expectedPcr0
  channelPk := crates.publicKey channelSk
  proofPk := crates.verifyingKey proofSk

inductive Booting where
  | waiting
  | panicked
  | failed (message : String)
  | ready (platform : Platform)

/-- `EnclaveState::new`; `fd` is what `nsm_init` gives. -/
def Crates.new (crates : Crates) (expectedPcr0 : String) (fd : Int) (answers : List NsmResponse) :
    Booting :=
  if fd < 0 then .failed ("nsm_init failed: " ++ toString fd)
  else
    match randomBytes 32 [] answers with
    | none => .waiting
    | some (.error e) => .failed e
    | some (.ok (channelSeed, answers)) =>
    match randomBytes 32 [] answers with
    | none => .waiting
    | some (.error e) => .failed e
    | some (.ok (proofSeed, _)) =>
    -- `copy_from_slice` panics on a slice of another length
    if channelSeed.length ≠ 32 ∨ proofSeed.length ≠ 32 then .panicked
    else .ready (crates.platform expectedPcr0 channelSeed proofSeed)

/-! ## The random bytes -/

theorem randomBytes_ok {n : Nat} {out bs : Bytes} {answers rest : List NsmResponse}
    (hout : out.length ≤ n) (h : randomBytes n out answers = some (.ok (bs, rest))) :
    bs.length = n ∧ ∃ chunks : List Bytes, answers = chunks.map .getRandom ++ rest ∧
      bs = (out ++ chunks.flatten).take n := by
  induction answers generalizing out with
  | nil =>
    rw [randomBytes] at h
    split at h
    · rename_i hlen
      cases h
      refine ⟨by omega, [], rfl, ?_⟩
      simp [List.take_of_length_le hout]
    · cases h
  | cons answer answers ih =>
    unfold randomBytes at h
    split at h
    · cases h
      refine ⟨by omega, [], rfl, ?_⟩
      simp [List.take_of_length_le hout]
    · rename_i hlen
      cases answer with
      | getRandom random =>
        have hlen' : (out ++ random.take (n - out.length)).length ≤ n := by
          simp only [List.length_append, List.length_take]
          omega
        obtain ⟨hbs, chunks, rfl, rfl⟩ := ih hlen' h
        refine ⟨hbs, random :: chunks, rfl, ?_⟩
        -- what is cut off of a chunk is beyond the end
        rw [List.flatten_cons, List.append_assoc, List.take_append,
          @List.take_append _ out (random ++ chunks.flatten)]
        congr 1
        rcases Nat.le_total random.length (n - out.length) with hle | hle
        · rw [List.take_of_length_le hle]
        · rw [List.take_append_of_le_length (by simp [hle]), List.take_append_of_le_length hle,
            List.take_take, Nat.min_self]
      | _ => cases h

theorem length_randomBytes {n : Nat} {bs : Bytes} {answers rest : List NsmResponse}
    (h : randomBytes n [] answers = some (.ok (bs, rest))) : bs.length = n :=
  (randomBytes_ok (Nat.zero_le n) h).1

/-- The device's answers are enough once there are `n` bytes in them. -/
theorem randomBytes_enough {n : Nat} {out : Bytes} {chunks : List Bytes} {rest : List NsmResponse}
    (h : n ≤ out.length + chunks.flatten.length) :
    ∃ bs rest', randomBytes n out (chunks.map .getRandom ++ rest) = some (.ok (bs, rest')) := by
  induction chunks generalizing out with
  | nil =>
    refine ⟨out, rest, ?_⟩
    unfold randomBytes
    rw [if_pos (by simpa using h)]
    rfl
  | cons chunk chunks ih =>
    rw [List.flatten_cons, List.length_append] at h
    unfold randomBytes
    split
    · exact ⟨_, _, rfl⟩
    · apply ih
      rw [List.length_append, List.length_take]
      omega

/-! ## The keys -/

variable {crates : Crates} {expectedPcr0 : String} {fd : Int} {answers : List NsmResponse}

theorem new_ready {platform : Platform} (h : crates.new expectedPcr0 fd answers = .ready platform) :
    ∃ channelSeed proofSeed : Bytes, channelSeed.length = 32 ∧ proofSeed.length = 32 ∧
      platform = crates.platform expectedPcr0 channelSeed proofSeed := by
  unfold Crates.new at h
  repeat' split at h
  all_goals cases h
  rename_i hlen
  rw [not_or, not_not, not_not] at hlen
  exact ⟨_, _, hlen.1, hlen.2, rfl⟩

theorem new_ne_panicked : crates.new expectedPcr0 fd answers ≠ .panicked := by
  intro h
  unfold Crates.new at h
  repeat' split at h
  all_goals try cases h
  rename_i hchannel _ _ _ hproof hlen
  rw [length_randomBytes hchannel, length_randomBytes hproof] at hlen
  simp at hlen

end Enclave
end Pzdr
