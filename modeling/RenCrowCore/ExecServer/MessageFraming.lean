import RenCrowCore.ExecServer.OrderedCiphertext

/-!
# Message framing

`exec-server/src/noise_relay/message_framing.rs`: messages with a length prefix are carried by
records that do not share their boundaries.

* `frameMessage`, `MessageDecoder.push`: the two ends;
* `Incomplete`: what a decoder holds while the frames of some messages go through it;
* `push_frames`: records that continue the frames yield the messages in order and no error.
-/

namespace RenCrow.NoiseRelay

open List

/-- `LENGTH_PREFIX_BYTES`. -/
def lengthPrefixBytes : Nat := 4

/-- `MAX_NOISE_JSONRPC_MESSAGE_LEN`. -/
def maxNoiseJsonrpcMessageLen : Nat := 64 * 1024 * 1024

/-- `NOISE_RECORD_PLAINTEXT_LEN`. -/
def noiseRecordPlaintextLen : Nat := 60 * 1024

/-- `u32::to_be_bytes`. -/
def toBeBytes (value : Nat) : Bytes :=
  [UInt8.ofNat (value / 2 ^ 24), UInt8.ofNat (value / 2 ^ 16), UInt8.ofNat (value / 2 ^ 8),
    UInt8.ofNat value]

/-- `u32::from_be_bytes`. -/
def fromBeBytes (first second third fourth : UInt8) : Nat :=
  ((first.toNat * 256 + second.toNat) * 256 + third.toNat) * 256 + fourth.toNat

/-- The length that a message is sent after. -/
def messageLengthPrefix (messageLen : Nat) : Except ExecServerError Bytes :=
  if messageLen = 0 ∨ maxNoiseJsonrpcMessageLen < messageLen then
    .error (.protocol "Noise relay JSON-RPC message exceeds maximum length")
  else .ok (toBeBytes messageLen)

/-- A message after its length. -/
def frameMessage (message : Bytes) : Except ExecServerError Bytes := do
  let lengthPrefix ← messageLengthPrefix message.length
  return lengthPrefix ++ message

/-- Bytes of which no complete message has been seen yet. -/
structure MessageDecoder where
  buffered : Bytes
deriving DecidableEq, Repr

namespace MessageDecoder

/-- A decoder that has received nothing. -/
def empty : MessageDecoder := ⟨[]⟩

/-- The loop that takes complete messages off the front; each is at least five bytes. -/
def takeWithin : Nat → Bytes → List Bytes → Bytes × Except ExecServerError (List Bytes)
  | 0, buffered, messages => (buffered, .ok messages)
  | fuel + 1, buffered@(first :: second :: third :: fourth :: rest), messages =>
    let messageLen := fromBeBytes first second third fourth
    if messageLen = 0 ∨ maxNoiseJsonrpcMessageLen < messageLen then
      (buffered, .error (.protocol "Noise relay JSON-RPC message has invalid length"))
    else if buffered.length < lengthPrefixBytes + messageLen then (buffered, .ok messages)
    else takeWithin fuel (rest.drop messageLen) (messages ++ [rest.take messageLen])
  | _ + 1, buffered, messages => (buffered, .ok messages)

/-- One decrypted record is appended, and the messages complete with it are returned. -/
def push (decoder : MessageDecoder) (plaintextRecord : Bytes) :
    MessageDecoder × Except ExecServerError (List Bytes) :=
  if noiseRecordPlaintextLen < plaintextRecord.length then
    (decoder, .error (.protocol "Noise relay plaintext record exceeds maximum length"))
  else
    let buffered := decoder.buffered ++ plaintextRecord
    match takeWithin buffered.length buffered [] with
    | (buffered, .error error) => (⟨buffered⟩, .error error)
    | (buffered, .ok messages) =>
      if lengthPrefixBytes + maxNoiseJsonrpcMessageLen < buffered.length then
        (⟨buffered⟩,
          .error (.protocol "Noise relay JSON-RPC reassembly buffer exceeds maximum length"))
      else (⟨buffered⟩, .ok messages)

end MessageDecoder

/-! ## Frames -/

/-- A message that can be framed. -/
def Sendable (message : Bytes) : Prop :=
  0 < message.length ∧ message.length ≤ maxNoiseJsonrpcMessageLen

instance (message : Bytes) : Decidable (Sendable message) := inferInstanceAs (Decidable (_ ∧ _))

/-- The frame of a message. -/
def framed (message : Bytes) : Bytes := toBeBytes message.length ++ message

variable {message : Bytes} {messages : List Bytes}

theorem frameMessage_eq (h : Sendable message) : frameMessage message = .ok (framed message) := by
  obtain ⟨hpos, hle⟩ := h
  unfold frameMessage messageLengthPrefix
  rw [if_neg (by omega)]
  rfl

theorem length_framed (message : Bytes) : (framed message).length = message.length + 4 := by
  simp [framed, toBeBytes]

theorem fromBeBytes_toBeBytes {value : Nat} (h : value < 2 ^ 32) :
    fromBeBytes (UInt8.ofNat (value / 2 ^ 24)) (UInt8.ofNat (value / 2 ^ 16))
      (UInt8.ofNat (value / 2 ^ 8)) (UInt8.ofNat value) = value := by
  unfold fromBeBytes
  simp only [UInt8.toNat_ofNat']
  omega

/-- The frames of messages, one after the other. -/
def frames (messages : List Bytes) : Bytes := (messages.map framed).flatten

@[simp] theorem frames_cons (message : Bytes) (messages : List Bytes) :
    frames (message :: messages) = framed message ++ frames messages := rfl

theorem frames_append (first second : List Bytes) :
    frames (first ++ second) = frames first ++ frames second := by
  simp [frames]

namespace MessageDecoder

/-- The bytes left are the beginning of the frame of the next message. -/
def Incomplete (buffered : Bytes) (messages : List Bytes) : Prop :=
  buffered <+: frames messages ∧
    ∀ message ∈ messages.head?, buffered.length < message.length + lengthPrefixBytes

variable {fuel : Nat}

theorem takeWithin_framed {rest : Bytes} {done : List Bytes} (h : Sendable message) :
    takeWithin (fuel + 1) (framed message ++ rest) done =
      takeWithin fuel rest (done ++ [message]) := by
  obtain ⟨hpos, hle⟩ := h
  have hlen := @fromBeBytes_toBeBytes message.length
    (by unfold maxNoiseJsonrpcMessageLen at hle; omega)
  simp only [framed, toBeBytes, cons_append, nil_append]
  rw [takeWithin, hlen, if_neg (by omega), if_neg (by simp [lengthPrefixBytes]; omega)]
  simp

/-- An incomplete message stays in the buffer. -/
theorem takeWithin_incomplete {buffered more : Bytes} {done : List Bytes} (h : Sendable message)
    (hbegin : buffered <+: framed message ++ more)
    (hshort : buffered.length < message.length + lengthPrefixBytes) :
    takeWithin fuel buffered done = (buffered, .ok done) := by
  obtain ⟨hpos, hle⟩ := h
  cases fuel with
  | zero => rfl
  | succ fuel =>
    match buffered with
    | [] | [_] | [_, _] | [_, _, _] => rfl
    | first :: second :: third :: fourth :: rest =>
      have hlen := @fromBeBytes_toBeBytes message.length
        (by unfold maxNoiseJsonrpcMessageLen at hle; omega)
      simp only [framed, toBeBytes, cons_append, nil_append, cons_prefix_cons]
        at hbegin
      obtain ⟨rfl, rfl, rfl, rfl, -⟩ := hbegin
      rw [takeWithin, hlen, if_neg (by omega), if_pos (by omega)]

/-- **Taking messages** off a beginning of the frames yields those that are complete. -/
theorem takeWithin_frames {buffered : Bytes} {done : List Bytes}
    (hsendable : ∀ message ∈ messages, Sendable message) (hbegin : buffered <+: frames messages)
    (hfuel : buffered.length ≤ fuel) :
    ∃ count rest, takeWithin fuel buffered done = (rest, .ok (done ++ messages.take count)) ∧
      buffered = frames (messages.take count) ++ rest ∧ Incomplete rest (messages.drop count) := by
  induction messages generalizing buffered done fuel with
  | nil =>
    obtain rfl := prefix_nil.mp hbegin
    refine ⟨0, [], ?_, rfl, prefix_refl _, by simp⟩
    cases fuel <;> simp [takeWithin]
  | cons message messages ih =>
    obtain ⟨hmsg, hrest⟩ := forall_mem_cons.mp hsendable
    rcases Nat.lt_or_ge buffered.length (message.length + lengthPrefixBytes) with hshort | hlong
    · refine ⟨0, buffered, ?_, rfl, hbegin, by simpa using hshort⟩
      rw [takeWithin_incomplete hmsg hbegin hshort]
      simp
    · -- the whole frame is there
      obtain ⟨later, rfl⟩ := prefix_of_prefix_length_le (prefix_append _ _) hbegin
        (by rw [length_framed]; exact hlong)
      have hlater := (prefix_append_right_inj _).mp hbegin
      obtain ⟨fuel, rfl⟩ : ∃ less, fuel = less + 1 := Nat.exists_eq_add_one_of_ne_zero (by
          rw [length_append, length_framed] at hfuel
          omega)
      obtain ⟨count, rest, htake, hsplit, hinc⟩ :=
        @ih fuel later (done ++ [message]) hrest hlater (by
          rw [length_append, length_framed] at hfuel
          omega)
      refine ⟨count + 1, rest, ?_, ?_, hinc⟩
      · rw [takeWithin_framed hmsg, htake]
        simp
      · rw [take_succ_cons, frames_cons, append_assoc, ← hsplit]

theorem Incomplete.length_le {buffered : Bytes} (hsendable : ∀ message ∈ messages, Sendable message)
    (h : Incomplete buffered messages) :
    buffered.length ≤ lengthPrefixBytes + maxNoiseJsonrpcMessageLen := by
  obtain ⟨hbegin, hshort⟩ := h
  cases messages with
  | nil =>
    obtain rfl := prefix_nil.mp hbegin
    exact Nat.zero_le _
  | cons message messages =>
    have hless := hshort message rfl
    have hle := (hsendable message mem_cons_self).2
    omega

/-- **A record that continues the frames** is accepted, and yields the messages that are complete
with it. -/
theorem push_frames {decoder : MessageDecoder} {record : Bytes}
    (hsendable : ∀ message ∈ messages, Sendable message)
    (hbegin : decoder.buffered ++ record <+: frames messages)
    (hrec : record.length ≤ noiseRecordPlaintextLen) :
    ∃ count rest, decoder.push record = (⟨rest⟩, .ok (messages.take count)) ∧
      decoder.buffered ++ record = frames (messages.take count) ++ rest ∧
      Incomplete rest (messages.drop count) := by
  obtain ⟨count, rest, htake, hsplit, hinc⟩ :=
    @takeWithin_frames messages _ _ [] hsendable hbegin (Nat.le_refl _)
  have hle := hinc.length_le fun message hmsg =>
    hsendable message (mem_of_mem_drop hmsg)
  refine ⟨count, rest, ?_, hsplit, hinc⟩
  unfold push
  rw [if_neg (by omega)]
  dsimp only
  rw [htake]
  dsimp only
  rw [if_neg (by omega), nil_append]

end MessageDecoder

end RenCrow.NoiseRelay
