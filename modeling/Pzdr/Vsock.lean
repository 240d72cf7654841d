import Pzdr.BigEndian
import Pzdr.Except
import Pzdr.Hash
import Pzdr.Json.Value

/-!
# Pzdr.Vsock

The wire between the parent and the enclave: the messages, and their frames `[ u32 length | JSON ]`.
Both programs have their own copies of `write_framed` and `read_framed`, which differ in the text of
one error.

The writer narrows the length to 32 bits and the reader alone has a limit. So a message is delivered
or refused exactly when its length is below 2^32 or is, modulo 2^32, beyond the limit
(`framing_iff`).
-/

namespace Pzdr

structure VsockEnvelope where
  method : String
  path : String
  headers : List (String × Json)
  bodyB64 : String

structure VsockResponse where
  status : UInt16
  headers : List (String × Json)
  bodyB64 : String

/-- What can be read from a connection: some bytes, and the error after the last of them. -/
structure Stream where
  bytes : Bytes
  ending : String

/-- `read_exact` -/
def readExact (n : Nat) (s : Stream) : Except String (Bytes × Stream) :=
  if n ≤ s.bytes.length then .ok (s.bytes.take n, { s with bytes := s.bytes.drop n })
  else .error s.ending

def maxFrame : Nat := 64 * 1024 * 1024

/-- `read_framed`, with the text of its own error. -/
def readFrame (tooLarge : Nat → String) (s : Stream) : Except String Bytes := do
  let (lenBuf, s) ← readExact 4 s
  let len := BigEndian.value lenBuf
  if len > maxFrame then throw (tooLarge len)
  else
    let (buf, _) ← readExact len s
    return buf

/-- The bytes that `write_framed` puts on the wire. -/
def writeFrame (bytes : Bytes) : Bytes := BigEndian.bytes 4 (bytes.length % 2 ^ 32) ++ bytes

namespace Enclave

def readFramed (s : Stream) : Except String Bytes := readFrame (fun _ => "frame too large") s

def writeFramed (bytes : Bytes) : Bytes := writeFrame bytes

end Enclave

namespace Proxy

def readFramed (s : Stream) : Except String Bytes :=
  readFrame (fun len => "vsock frame too large: " ++ toString len) s

def writeFramed (bytes : Bytes) : Bytes := writeFrame bytes

end Proxy

/-- A payload with its length before it, at the front of what can be read. -/
def Carries (s : Stream) (payload : Bytes) : Prop :=
  payload.length ≤ maxFrame ∧
    ∃ rest, s.bytes = BigEndian.bytes 4 payload.length ++ payload ++ rest

section Frames

variable {tooLarge : Nat → String} {s : Stream}

theorem readExact_ok {n : Nat} {bs : Bytes} {s' : Stream} : readExact n s = .ok (bs, s') ↔
    bs.length = n ∧ s.bytes = bs ++ s'.bytes ∧ s'.ending = s.ending := by
  rw [readExact]
  split
  · rename_i hn
    rw [Except.ok.injEq, Prod.mk.injEq]
    constructor
    · rintro ⟨rfl, rfl⟩
      exact ⟨by rw [List.length_take]; omega, (List.take_append_drop n s.bytes).symm, rfl⟩
    · rintro ⟨rfl, hbytes, hending⟩
      refine ⟨by rw [hbytes, List.take_left], ?_⟩
      cases s'
      simp only [hbytes, List.drop_left, ← hending]
  · rename_i hn
    constructor
    · intro h
      cases h
    · rintro ⟨rfl, hbytes, _⟩
      rw [hbytes, List.length_append] at hn
      omega

/-- The reader gives what follows the length, as many bytes as it says. -/
theorem readFrame_ok {payload : Bytes} :
    readFrame tooLarge s = .ok payload ↔ Carries s payload := by
  simp only [readFrame, Except.bind_eq_ok, Prod.exists, readExact_ok]
  constructor
  · rintro ⟨lenBuf, s1, ⟨hlen, hbytes, _⟩, h⟩
    split at h
    · cases h
    · rename_i hmax
      simp only [Except.bind_eq_ok, Prod.exists, readExact_ok] at h
      obtain ⟨buf, s2, ⟨hbuf, hrest, _⟩, h⟩ := h
      cases h
      refine ⟨by omega, s2.bytes, ?_⟩
      rw [hbuf, ← hlen, BigEndian.bytes_value, hbytes, hrest, List.append_assoc]
  · rintro ⟨hmax, rest, hbytes⟩
    have hvalue : BigEndian.value (BigEndian.bytes 4 payload.length) = payload.length := by
      rw [BigEndian.value_bytes, Nat.mod_eq_of_lt]
      unfold maxFrame at hmax
      omega
    refine ⟨BigEndian.bytes 4 payload.length, ⟨payload ++ rest, s.ending⟩,
      ⟨by simp, by rw [hbytes, List.append_assoc], rfl⟩, ?_⟩
    rw [hvalue, if_neg (by omega)]
    simp only [Except.bind_eq_ok, Prod.exists, readExact_ok]
    exact ⟨payload, ⟨rest, s.ending⟩, ⟨rfl, rfl, rfl⟩, rfl⟩

theorem readFrame_writeFrame (b : Bytes) (ending : String) :
    readFrame tooLarge ⟨writeFrame b, ending⟩ =
      if b.length % 2 ^ 32 > maxFrame then .error (tooLarge (b.length % 2 ^ 32))
      else .ok (b.take (b.length % 2 ^ 32)) := by
  have hvalue : BigEndian.value (BigEndian.bytes 4 (b.length % 2 ^ 32)) = b.length % 2 ^ 32 := by
    rw [BigEndian.value_bytes]
    omega
  have hle := Nat.mod_le b.length (2 ^ 32)
  have hheader : readExact 4 ⟨writeFrame b, ending⟩ =
      .ok (BigEndian.bytes 4 (b.length % 2 ^ 32), ⟨b, ending⟩) := by
    rw [readExact, if_pos (by simp [writeFrame])]
    simp [writeFrame]
  rw [readFrame, hheader]
  simp only [bind, Except.bind, hvalue]
  split
  · rfl
  · rw [readExact, if_pos hle]
    rfl

/-- What is read back is the message, or nothing. -/
def Delivers (read : Stream → Except String Bytes) (write : Bytes → Bytes) (b : Bytes)
    (ending : String) : Prop :=
  ∀ payload, read ⟨write b, ending⟩ = .ok payload → payload = b

theorem delivers_iff (b : Bytes) (ending : String) :
    Delivers (readFrame tooLarge) writeFrame b ending ↔
      b.length < 2 ^ 32 ∨ maxFrame < b.length % 2 ^ 32 := by
  rw [Delivers, readFrame_writeFrame]
  by_cases hmax : b.length % 2 ^ 32 > maxFrame
  · rw [if_pos hmax]
    constructor
    · intro _
      exact .inr hmax
    · intro _ payload h
      cases h
  · rw [if_neg hmax]
    constructor
    · intro h
      have hlen := congrArg List.length (h _ rfl)
      rw [List.length_take] at hlen
      omega
    · intro h payload hpayload
      cases hpayload
      have hlt : b.length < 2 ^ 32 := by omega
      rw [Nat.mod_eq_of_lt hlt, List.take_length]

end Frames

/-- Both directions. -/
theorem framing_iff (b : Bytes) (ending : String) :
    (Delivers Enclave.readFramed Proxy.writeFramed b ending ↔
      b.length < 2 ^ 32 ∨ maxFrame < b.length % 2 ^ 32) ∧
    (Delivers Proxy.readFramed Enclave.writeFramed b ending ↔
      b.length < 2 ^ 32 ∨ maxFrame < b.length % 2 ^ 32) :=
  ⟨delivers_iff b ending, delivers_iff b ending⟩

/-- A message of 2^32 bytes is read as the empty message. -/
theorem framing_wraps :
    Enclave.readFramed ⟨Proxy.writeFramed (List.replicate (2 ^ 32) 0), "early eof"⟩ = .ok [] ∧
      ¬ Delivers Enclave.readFramed Proxy.writeFramed (List.replicate (2 ^ 32) 0) "early eof" := by
  generalize hb : List.replicate (2 ^ 32) (0 : UInt8) = b
  have hlen : b.length = 2 ^ 32 := by rw [← hb, List.length_replicate]
  constructor
  · rw [Enclave.readFramed, Proxy.writeFramed, readFrame_writeFrame, hlen, Nat.mod_self,
      if_neg (Nat.not_lt_zero _), List.take_zero]
  · intro h
    rcases (delivers_iff b "early eof").mp h with h | h
    · omega
    · rw [hlen, Nat.mod_self] at h
      exact Nat.not_lt_zero _ h

end Pzdr
