import RenCrowCore.ExecServer.MessageFraming
import RenCrowCore.Lib.Consumer

/-!
# The two ends of the Noise relay

Messages are framed, cut into records, encrypted and numbered at one end, and put back together
at the other (`exec-server/src/noise_relay/executor_stream.rs`, `harness.rs`).

* `Endpoint.send`: the records an endpoint sends for some messages;
* `Endpoint.receive`: what an endpoint makes of the data frames that the relay hands it;
* `send_eq`: both endpoints send the same frames.
-/

namespace RenCrow.NoiseRelay

open Consumer List

/-! ## The transport -/

/-- A record on its way: its number and ciphertext. -/
structure RelayData where
  seq : Nat
  payload : Bytes
deriving DecidableEq, Repr

/-- The cipher of one direction; its nonces count the records. -/
structure Cipher where
  sealRecord : Nat → Bytes → Bytes
  openRecord : Nat → Bytes → Except String Bytes

/-- The errors of a channel. -/
inductive NoiseChannelError where
  | invalidMessage (message : String)
  | transport (message : String)
deriving DecidableEq, Repr

/-- The text that an error is shown as. -/
def NoiseChannelError.text : NoiseChannelError → String
  | invalidMessage message => "invalid Noise channel message: " ++ message
  | transport message => "Noise channel transport failed: " ++ message

/-- `AesGcm::tag_len`. -/
def tagLen : Nat := 16

/-- `clatter::constants::MAX_MESSAGE_LEN`. -/
def maxMessageLen : Nat := 65535

/-- A Noise message has a limited length. -/
def ensureNoiseFrameLen (frameLen : Nat) (message : String) : Except NoiseChannelError Unit :=
  if maxMessageLen < frameLen then .error (.invalidMessage message) else .ok ()

namespace Cipher

/-- Seals a record. -/
def encrypt (cipher : Cipher) (nonce : Nat) (plaintext : Bytes) :
    Except NoiseChannelError Bytes := do
  ensureNoiseFrameLen (plaintext.length + tagLen) "transport plaintext is too large"
  return cipher.sealRecord nonce plaintext

/-- Opens a record. -/
def decrypt (cipher : Cipher) (nonce : Nat) (ciphertext : Bytes) : Except NoiseChannelError Bytes :=
  if ciphertext.length < tagLen then .error (.invalidMessage "transport ciphertext is too short")
  else do
    ensureNoiseFrameLen ciphertext.length "transport ciphertext is too large"
    (cipher.openRecord nonce ciphertext).mapError .transport

end Cipher

/-! ## Sending -/

/-- Why a message cannot be sent. -/
inductive SendError where
  | frame (error : ExecServerError)
  | sequence (error : ExecServerError)
  | encrypt (error : NoiseChannelError)
deriving DecidableEq, Repr

/-- What has been sent: the counters, and the frames. -/
structure Outbound where
  nextSeq : Nat
  nonce : Nat
  frames : List RelayData
deriving DecidableEq, Repr

/-- A channel that has sent nothing. -/
def Outbound.start : Outbound := ⟨0, 0, []⟩

/-- The next number, which is then taken. -/
def takeNextSequence (nextSeq : Nat) : Except ExecServerError (Nat × Nat) := do
  let next ← checkedSucc nextSeq
  return (nextSeq, next)

/-- One record is numbered, encrypted and sent. -/
def sendRecord (cipher : Cipher) (out : Outbound) (record : Bytes) : Outbound × Option SendError :=
  match takeNextSequence out.nextSeq with
  | .error error => (out, some (.sequence error))
  | .ok (seq, nextSeq) =>
    match cipher.encrypt out.nonce record with
    | .error error => ({ out with nextSeq }, some (.encrypt error))
    | .ok ciphertext =>
      ({ nextSeq, nonce := out.nonce + 1, frames := out.frames ++ [⟨seq, ciphertext⟩] }, none)

/-- The harness keeps the offset of a message that it has not sent completely. -/
def sendPendingWithin (cipher : Cipher) (framed : Bytes) :
    Nat → Nat → Outbound → Outbound × Option SendError
  | 0, _, out => (out, none)
  | fuel + 1, offset, out =>
    let nextOffset := min (offset + noiseRecordPlaintextLen) framed.length
    match sendRecord cipher out ((framed.drop offset).take (nextOffset - offset)) with
    | (next, some error) => (next, some error)
    | (next, none) =>
      if nextOffset = framed.length then (next, none)
      else sendPendingWithin cipher framed fuel nextOffset next

/-- The two ends of a relay. -/
inductive Endpoint where
  | executor
  | harness
deriving DecidableEq, Repr

/-- The other end. -/
def Endpoint.peer : Endpoint → Endpoint
  | executor => harness
  | harness => executor

/-- The executor's writer cuts a framed message into chunks, the harness goes on by offsets. -/
def Endpoint.sendMessage (endpoint : Endpoint) (cipher : Cipher) (out : Outbound)
    (message : Bytes) :
    Outbound × Option SendError :=
  match frameMessage message with
  | .error error => (out, some (.frame error))
  | .ok framed =>
    match endpoint with
    | executor => consume (sendRecord cipher) out (chunks noiseRecordPlaintextLen framed)
    | harness => sendPendingWithin cipher framed framed.length 0 out

/-- All messages, until one cannot be sent. -/
def Endpoint.send (endpoint : Endpoint) (cipher : Cipher) (messages : List Bytes) :
    Outbound × Option SendError :=
  consume (endpoint.sendMessage cipher) .start messages

/-! ## Receiving -/

/-- What has been received: the window, the nonce, the bytes of an incomplete message, and the
messages that were delivered. -/
structure Inbound (I : Type) where
  ciphertexts : OrderedCiphertextFrames
  nonce : Nat
  decoder : MessageDecoder
  delivered : List I
deriving DecidableEq, Repr

/-- A channel that has received nothing. -/
def Inbound.start {I : Type} : Inbound I := ⟨.empty, 0, .empty, []⟩

/-- What the consumer of an endpoint makes of messages: how one is decoded, and which of them its
queue has room for. -/
structure Handler (I : Type) where
  decode : Bytes → Except ExecServerError I
  accepts : Nat → Bool

variable {I : Type} (handler : Handler I)

/-- Hands a message to the handler, which may refuse it. -/
def deliver (refusal : ExecServerError) (inbound : Inbound I) (incoming : I) :
    Inbound I × Option ExecServerError :=
  if handler.accepts inbound.delivered.length then
    ({ inbound with delivered := inbound.delivered ++ [incoming] }, none)
  else (inbound, some refusal)

/-- The executor decodes the messages one after the other, between the deliveries. -/
def decodeAndDeliver (inbound : Inbound I) (message : Bytes) : Inbound I × Option ExecServerError :=
  match handler.decode message with
  | .error error => (inbound, some error)
  | .ok incoming =>
    deliver handler (.protocol "Noise virtual stream inbound queue is full or closed")
      inbound incoming

/-- The harness decodes all messages of a record before it delivers one. -/
def Endpoint.receiveMessages (endpoint : Endpoint) (inbound : Inbound I) (messages : List Bytes) :
    Inbound I × Option ExecServerError :=
  match endpoint with
  | executor => consume (decodeAndDeliver handler) inbound messages
  | harness =>
    match messages.mapM handler.decode with
    | .error error => (inbound, some error)
    | .ok incoming => consume (deliver handler .closed) inbound incoming

/-- Decodes the plaintext of one record. -/
def Endpoint.receiveRecord (endpoint : Endpoint) (inbound : Inbound I) (plaintext : Bytes) :
    Inbound I × Option ExecServerError :=
  match inbound.decoder.push plaintext with
  | (decoder, .error error) => ({ inbound with decoder }, some error)
  | (decoder, .ok messages) => endpoint.receiveMessages handler { inbound with decoder } messages

/-- Opens the next record. -/
def Endpoint.receiveCiphertext (endpoint : Endpoint) (cipher : Cipher) (inbound : Inbound I)
    (ciphertext : Bytes) : Inbound I × Option ExecServerError :=
  match cipher.decrypt inbound.nonce ciphertext with
  | .error error => (inbound, some (.protocol ("Noise relay decryption failed: " ++ error.text)))
  | .ok plaintext =>
    endpoint.receiveRecord handler { inbound with nonce := inbound.nonce + 1 } plaintext

/-- A record arrives: all records that are now in order are opened. -/
def Endpoint.receiveData (endpoint : Endpoint) (cipher : Cipher) (inbound : Inbound I)
    (data : RelayData) : Inbound I × Option ExecServerError :=
  match inbound.ciphertexts.push data.seq data.payload with
  | (ciphertexts, .error error) => ({ inbound with ciphertexts }, some error)
  | (ciphertexts, .ok ready) =>
    consume (endpoint.receiveCiphertext handler cipher) { inbound with ciphertexts } ready

/-- All data frames that arrive, until the stream fails. -/
def Endpoint.receive (endpoint : Endpoint) (cipher : Cipher) (arrivals : List RelayData) :
    Inbound I × Option ExecServerError :=
  consume (endpoint.receiveData handler cipher) .start arrivals

/-! ## What is sent -/

/-- The records of messages. -/
def recordsOf (messages : List Bytes) : List Bytes :=
  messages.flatMap fun message => chunks noiseRecordPlaintextLen (framed message)

theorem flatten_recordsOf (messages : List Bytes) :
    (recordsOf messages).flatten = frames messages := by
  induction messages with
  | nil => rfl
  | cons message messages ih =>
    rw [recordsOf, flatMap_cons, flatten_append, flatten_chunks _ (by decide), frames_cons]
    exact congrArg _ ih

variable {record : Bytes}

theorem length_le_of_mem_recordsOf {messages : List Bytes} (h : record ∈ recordsOf messages) :
    record.length ≤ noiseRecordPlaintextLen := by
  obtain ⟨message, -, hrec⟩ := mem_flatMap.mp h
  exact length_le_of_mem_chunks hrec

variable {cipher : Cipher} {out : Outbound} {messages : List Bytes}

/-- The offsets of the harness cut a message as the executor does. -/
theorem sendPendingWithin_eq {bytes : Bytes} {fuel offset : Nat} (hoff : offset < bytes.length) :
    sendPendingWithin cipher bytes fuel offset out =
      consume (sendRecord cipher) out
        (chunksWithin noiseRecordPlaintextLen fuel (bytes.drop offset)) := by
  induction fuel generalizing offset out with
  | zero => rfl
  | succ fuel ih =>
    have hne : bytes.drop offset ≠ [] := by
      rw [Ne, drop_eq_nil_iff]
      omega
    have htake : (bytes.drop offset).take
          (min (offset + noiseRecordPlaintextLen) bytes.length - offset) =
        (bytes.drop offset).take noiseRecordPlaintextLen := by
      rw [take_eq_take_iff, length_drop]
      omega
    rw [sendPendingWithin, chunksWithin, consume_cons, htake]
    · obtain ⟨next, _ | error⟩ :=
        sendRecord cipher out ((bytes.drop offset).take noiseRecordPlaintextLen)
      · dsimp only
        rw [drop_drop]
        split
        · rename_i hend
          have hnil : bytes.drop (offset + noiseRecordPlaintextLen) = [] :=
            drop_eq_nil_iff.mpr (by omega)
          rw [hnil]
          cases fuel <;> rfl
        · rename_i hmore
          have hmin : min (offset + noiseRecordPlaintextLen) bytes.length =
              offset + noiseRecordPlaintextLen := by omega
          rw [hmin, ih (by omega)]
      · rfl
    · exact hne

variable {endpoint : Endpoint}

theorem sendMessage_eq {message : Bytes} (h : Sendable message) :
    endpoint.sendMessage cipher out message =
      consume (sendRecord cipher) out (chunks noiseRecordPlaintextLen (framed message)) := by
  unfold Endpoint.sendMessage
  rw [frameMessage_eq h]
  cases endpoint with
  | executor => rfl
  | harness =>
    dsimp only
    rw [sendPendingWithin_eq (by rw [length_framed]; omega)]
    rfl

/-- **Both endpoints send the same frames**: the records of the messages, one after the other. -/
theorem send_eq (hsendable : ∀ message ∈ messages, Sendable message) :
    endpoint.send cipher messages = consume (sendRecord cipher) .start (recordsOf messages) := by
  have hsame : ∀ (out : Outbound), consume (endpoint.sendMessage cipher) out messages =
      consume (fun out message => consume (sendRecord cipher) out
        (chunks noiseRecordPlaintextLen (framed message))) out messages := by
    induction messages with
    | nil => exact fun _ => rfl
    | cons message messages ih =>
      intro out
      obtain ⟨hmsg, hrest⟩ := forall_mem_cons.mp hsendable
      rw [consume_cons, consume_cons, sendMessage_eq hmsg]
      obtain ⟨next, _ | error⟩ := consume (sendRecord cipher) out
        (chunks noiseRecordPlaintextLen (framed message))
      · exact ih hrest next
      · rfl
  rw [Endpoint.send, hsame, consume_flatMap]
  rfl

/-- The frames of the first records. -/
def sealed (cipher : Cipher) (records : List Bytes) : List RelayData :=
  records.mapIdx fun index record => ⟨index, cipher.sealRecord index record⟩

/-- The state of a sender after some records. -/
structure Sent (cipher : Cipher) (records : List Bytes) (out : Outbound) : Prop where
  nonce : out.nonce = records.length
  numbers : out.nonce < 2 ^ 32
  frames : out.frames = sealed cipher records

theorem sendRecord_sent {records : List Bytes} (hrec : record.length ≤ noiseRecordPlaintextLen)
    (h : Sent cipher records out ∧ out.nextSeq = out.nonce) :
    Leaves (sendRecord cipher out record)
      (fun next => Sent cipher (records ++ [record]) next ∧ next.nextSeq = next.nonce)
      (fun next => Sent cipher records next) := by
  obtain ⟨⟨hnonce, hnums, hframes⟩, hseq⟩ := h
  have hfits : ¬ maxMessageLen < record.length + tagLen := by
    unfold noiseRecordPlaintextLen at hrec
    unfold maxMessageLen tagLen
    omega
  unfold sendRecord takeNextSequence checkedSucc
  split
  · exact ⟨hnonce, hnums, hframes⟩
  · rename_i seq nextSeq htaken
    split at htaken
    · rename_i hlast
      cases htaken
      unfold Cipher.encrypt ensureNoiseFrameLen
      rw [if_neg hfits]
      refine ⟨⟨?_, ?_, ?_⟩, ?_⟩
      · simp [hnonce]
      · dsimp only
        omega
      · simp [hframes, sealed, mapIdx_append, hseq, hnonce]
      · dsimp only
        omega
    · cases htaken

/-- **What a sender has sent**: the frames of the first records, and of all of them if it did not
fail. -/
theorem send_sent (hsendable : ∀ message ∈ messages, Sendable message) :
    ∃ count, Sent cipher ((recordsOf messages).take count) (endpoint.send cipher messages).1 ∧
      ((endpoint.send cipher messages).2 = none →
        (recordsOf messages).take count = recordsOf messages) := by
  rw [send_eq hsendable]
  have hrun : Leaves (consume (sendRecord cipher) .start (recordsOf messages))
      (fun out => Sent cipher (recordsOf messages) out ∧ out.nextSeq = out.nonce)
      (fun out => ∃ count, Sent cipher ((recordsOf messages).take count) out) := by
    refine consume_keeps (fun done out => Sent cipher done out ∧ out.nextSeq = out.nonce)
      ⟨⟨rfl, by decide, rfl⟩, rfl⟩ ?_
    intro done record out hdone hsent
    have hrec := length_le_of_mem_recordsOf (hdone.subset (mem_append_right done mem_cons_self))
    refine (sendRecord_sent hrec hsent).mono (fun _ h => h) fun next h => ⟨done.length, ?_⟩
    have htake := prefix_iff_eq_take.mp ((prefix_append done [record]).trans hdone)
    rwa [← htake]
  rcases hout : consume (sendRecord cipher) .start (recordsOf messages) with ⟨out, _ | error⟩
  · rw [hout] at hrun
    exact ⟨(recordsOf messages).length, by rw [take_length]; exact hrun.1, fun _ => take_length⟩
  · rw [hout] at hrun
    obtain ⟨count, hcount⟩ := hrun
    exact ⟨count, hcount, fun h => by cases h⟩

end RenCrow.NoiseRelay
