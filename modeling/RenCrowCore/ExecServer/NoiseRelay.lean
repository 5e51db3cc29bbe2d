import Mathlib.Algebra.Order.BigOperators.Group.List
import Mathlib.Algebra.Order.Group.Nat
import Mathlib.Data.List.Infix
import RenCrowCore.ExecServer.NoiseRelayBasic
import RenCrowCore.Lib.Except

/-!
# Delivery over a hostile relay

The relay between two endpoints may drop, repeat, reorder, alter and invent data frames.  The
cipher opens the next record only.

* `Authentic`: the assumption about the cipher;
* `InSync`: a receiver that has taken some of the records has delivered the messages that are
  complete in them;
* `relay_delivers`: what is delivered is always a beginning of what was sent, and all of it if
  the frames arrive in the window;
* `relay_unsent_or_refused`: a frame with a number that was never sent makes the stream fail, and
  so does a message that is refused.
-/

namespace RenCrow.NoiseRelay

open Consumer Arrivals MessageDecoder OrderedCiphertextFrames Fallible List

/-- Decryption succeeds on the ciphertexts of the peer, each in its turn, and on nothing else. -/
structure Authentic (cipher : Cipher) (records : List Bytes) : Prop where
  opens : ∀ nonce record, records[nonce]? = some record →
    cipher.openRecord nonce (cipher.sealRecord nonce record) = .ok record
  only : ∀ nonce ciphertext plaintext, cipher.openRecord nonce ciphertext = .ok plaintext →
    ∃ record, records[nonce]? = some record ∧ ciphertext = cipher.sealRecord nonce record
  length : ∀ nonce record, (cipher.sealRecord nonce record).length = record.length + tagLen

variable {I : Type} {handler : Handler I} {cipher : Cipher} {endpoint : Endpoint}
  {messages records : List Bytes} {inbound : Inbound I} {count : Nat}

/-- The records that the peer has sealed, of messages that can be sent. -/
structure Sealed (cipher : Cipher) (messages records : List Bytes) : Prop where
  authentic : Authentic cipher records
  sendable : ∀ message ∈ messages, Sendable message
  stream : records.flatten <+: frames messages
  length : ∀ record ∈ records, record.length ≤ noiseRecordPlaintextLen

/-- The messages decode to these values. -/
abbrev Decoded (handler : Handler I) (messages : List Bytes) (values : List I) : Prop :=
  List.Forall₂ (fun message value => handler.decode message = .ok value) messages values

/-- What was delivered is a beginning of the messages. -/
def Delivered (handler : Handler I) (messages : List Bytes) (inbound : Inbound I) : Prop :=
  ∃ count, Decoded handler (messages.take count) inbound.delivered

/-- The handler decodes and accepts all messages. -/
def Welcome (handler : Handler I) (messages : List Bytes) : Prop :=
  (∀ number, handler.accepts number = true) ∧
    ∀ message ∈ messages, ∃ value, handler.decode message = .ok value

/-- A receiver that has taken the first records. -/
structure InSync (handler : Handler I) (messages records : List Bytes) (inbound : Inbound I)
    (count : Nat) : Prop where
  stream : (records.take inbound.nonce).flatten =
    frames (messages.take count) ++ inbound.decoder.buffered
  incomplete : Incomplete inbound.decoder.buffered (messages.drop count)
  delivered : Decoded handler (messages.take count) inbound.delivered

theorem InSync.start : InSync handler messages records .start 0 :=
  ⟨by simp [Inbound.start, frames, MessageDecoder.empty], ⟨ nil_prefix, by
    simp [Inbound.start, MessageDecoder.empty, lengthPrefixBytes]⟩, by simp [Inbound.start]⟩

/-! ## Messages of a record -/

theorem deliver_leaves {refusal : ExecServerError} {value : I} :
    Leaves (deliver handler refusal inbound value)
      (fun next => next = { inbound with delivered := inbound.delivered ++ [value] })
      (fun next => next = inbound ∧ handler.accepts inbound.delivered.length = false) := by
  unfold deliver
  split
  · rfl
  · rename_i hrefused
    exact ⟨rfl, by simpa using hrefused⟩

variable {number : Nat}

theorem not_welcome_of_refused (h : handler.accepts number = false) :
    ¬ Welcome handler messages := by
  intro hwelcome
  rw [hwelcome.1] at h
  cases h

theorem delivered_of_part {done part later : List Bytes} {values : List I}
    (hdone : Decoded handler done inbound.delivered) (hpart : part <+: later)
    (hvals : Decoded handler part values) :
    Delivered handler (done ++ later) { inbound with delivered := inbound.delivered ++
      values } := by
  refine ⟨done.length + part.length, ?_⟩
  rw [take_length_add_append, ← prefix_iff_eq_take.mp hpart]
  exact rel_append hdone hvals

/-- **Delivering messages** that follow those delivered before.  It fails only if the handler
refuses one of them. -/
theorem receiveMessages_leaves {done later : List Bytes}
    (hdone : Decoded handler done inbound.delivered) :
    Leaves (endpoint.receiveMessages handler inbound later)
      (fun next => ∃ values, Decoded handler later values ∧
        next = { inbound with delivered := inbound.delivered ++ values })
      (fun next => Delivered handler (done ++ later) next ∧ ¬ Welcome handler later ∧
        next.ciphertexts = inbound.ciphertexts) := by
  cases endpoint with
  | executor =>
    show Leaves (consume (decodeAndDeliver handler) inbound later) _ _
    refine consume_keeps (fun part state => ∃ values, Decoded handler part values ∧
      state = { inbound with delivered := inbound.delivered ++ values }) ?_ ?_
    · exact ⟨[], .nil, by simp⟩
    rintro part message _ hpart ⟨values, hvals, rfl⟩
    have hbefore := delivered_of_part hdone ((prefix_append part [message]).trans hpart) hvals
    have hmsg := hpart.subset (mem_append_right part mem_cons_self)
    unfold decodeAndDeliver
    cases hdecode : handler.decode message with
    | error error =>
      refine ⟨hbefore, fun hwelcome => ?_, rfl⟩
      obtain ⟨value, hvalue⟩ := hwelcome.2 message hmsg
      rw [hdecode] at hvalue
      cases hvalue
    | ok value =>
      refine deliver_leaves.mono ?_ ?_
      · rintro _ rfl
        exact ⟨values ++ [value], rel_append hvals (.cons hdecode .nil), by simp⟩
      · rintro _ ⟨rfl, hrefused⟩
        exact ⟨hbefore, not_welcome_of_refused hrefused, rfl⟩
  | harness =>
    unfold Endpoint.receiveMessages
    cases hdecode : later.mapM handler.decode with
    | error error =>
      refine ⟨?_, fun hwelcome => ?_, rfl⟩
      · simpa using delivered_of_part hdone ( nil_prefix (l := later)) .nil
      · obtain ⟨values, hvals⟩ := mapM_isOk hwelcome.2
        rw [hdecode] at hvals
        cases hvals
    | ok values =>
      have hvals : Decoded handler later values := mapM_eq_ok.mp hdecode
      refine (consume_keeps (fun part state =>
        state = { inbound with delivered := inbound.delivered ++ part }) (by simp) ?_).mono
          (fun _ h => ⟨values, hvals, h⟩) (fun _ h => h)
      rintro part value _ hpart rfl
      refine deliver_leaves.mono (fun _ h => by simp [h]) ?_
      rintro _ ⟨rfl, hrefused⟩
      refine ⟨?_, not_welcome_of_refused hrefused, rfl⟩
      -- the messages of the values that were delivered
      have hpart := prefix_iff_eq_take.mp ((prefix_append part [value]).trans hpart)
      rw [hpart]
      exact delivered_of_part hdone ( take_prefix part.length later)
        (forall₂_take part.length hvals)

/-! ## Records -/

theorem InSync.withCiphertexts (h : InSync handler messages records inbound count)
    (ciphertexts : OrderedCiphertextFrames) :
    InSync handler messages records { inbound with ciphertexts } count :=
  ⟨h.stream, h.incomplete, h.delivered⟩

section Synced

variable (hsealed : Sealed cipher messages records)
  (h : InSync handler messages records inbound count)
include hsealed h

/-- **A record in its turn** keeps the receiver in sync, unless the handler refuses a message. -/
theorem receiveRecord_leaves {record : Bytes} (hrec : records[inbound.nonce]? = some record) :
    Leaves (endpoint.receiveRecord handler { inbound with nonce := inbound.nonce + 1 } record)
      (fun next => (∃ count, InSync handler messages records next count) ∧
        next.nonce = inbound.nonce + 1 ∧ next.ciphertexts = inbound.ciphertexts)
      (fun next => Delivered handler messages next ∧ ¬ Welcome handler messages ∧
        next.ciphertexts = inbound.ciphertexts) := by
  obtain ⟨hsofar, hinc, hdelivered⟩ := h
  have hrest : ∀ message ∈ messages.drop count, Sendable message := fun message hmsg =>
    hsealed.sendable message (mem_of_mem_drop hmsg)
  have htaken : (records.take (inbound.nonce + 1)).flatten =
      frames (messages.take count) ++ (inbound.decoder.buffered ++ record) := by
    rw [take_add_one, hrec, flatten_append, hsofar, append_assoc]
    simp
  have hbegin : inbound.decoder.buffered ++ record <+: frames (messages.drop count) := by
    have hall := (List.IsPrefix.flatten ( take_prefix (inbound.nonce + 1) records)).trans
      hsealed.stream
    rw [htaken, ← take_append_drop count messages, frames_append, take_append_drop] at hall
    exact (prefix_append_right_inj _).mp hall
  obtain ⟨more, rest, hpush, hsplit, hafter⟩ := push_frames hrest hbegin
    (hsealed.length record (mem_of_getElem? hrec))
  unfold Endpoint.receiveRecord
  rw [hpush]
  have hnext := @receiveMessages_leaves I handler endpoint
    { inbound with nonce := inbound.nonce + 1, decoder := ⟨rest⟩ } (messages.take count)
    ((messages.drop count).take more) hdelivered
  refine hnext.mono ?_ ?_
  · rintro _ ⟨values, hvals, rfl⟩
    refine ⟨⟨count + more, ?_, ?_, ?_⟩, rfl, rfl⟩
    · dsimp only
      rw [htaken, hsplit, ← append_assoc, ← frames_append, take_add]
    · rw [← drop_drop]
      exact hafter
    · rw [take_add]
      exact rel_append hdelivered hvals
  · rintro next ⟨⟨taken, hvals⟩, hrefused, hciphertexts⟩
    refine ⟨?_, fun hwelcome => hrefused ⟨hwelcome.1, fun message hmsg =>
      hwelcome.2 message (mem_of_mem_drop (mem_of_mem_take hmsg))⟩, hciphertexts⟩
    rw [← take_add, take_take] at hvals
    exact ⟨_, hvals⟩

/-- **A ciphertext** that is opened is the next record of the peer. -/
theorem receiveCiphertext_leaves {ciphertext : Bytes} :
    Leaves (endpoint.receiveCiphertext handler cipher inbound ciphertext)
      (fun next => (∃ count, InSync handler messages records next count) ∧
        next.nonce = inbound.nonce + 1 ∧ next.ciphertexts = inbound.ciphertexts)
      (fun next => Delivered handler messages next ∧ next.ciphertexts = inbound.ciphertexts ∧
        (Welcome handler messages → ∀ record, records[inbound.nonce]? = some record →
            ciphertext ≠ cipher.sealRecord inbound.nonce record)) := by
  have hauth := hsealed.authentic
  unfold Endpoint.receiveCiphertext
  cases hdecrypt : cipher.decrypt inbound.nonce ciphertext with
  | error error =>
    refine ⟨⟨count, h.delivered⟩, rfl, ?_⟩
    rintro - record hrec rfl
    have hle := hsealed.length record (mem_of_getElem? hrec)
    unfold noiseRecordPlaintextLen at hle
    unfold Cipher.decrypt ensureNoiseFrameLen at hdecrypt
    rw [hauth.length, hauth.opens _ _ hrec, if_neg (by omega),
      if_neg (by unfold maxMessageLen tagLen; omega)] at hdecrypt
    cases hdecrypt
  | ok plaintext =>
    have hopen : cipher.openRecord inbound.nonce ciphertext = .ok plaintext := by
      unfold Cipher.decrypt at hdecrypt
      split at hdecrypt
      · cases hdecrypt
      · obtain ⟨-, -, hdecrypt⟩ := bind_eq_ok.mp hdecrypt
        exact mapError_eq_ok.mp hdecrypt
    obtain ⟨record, hrec, rfl⟩ := hauth.only _ _ _ hopen
    obtain rfl : plaintext = record := by
      rw [hauth.opens _ _ hrec] at hopen
      exact (Except.ok.inj hopen).symm
    refine (receiveRecord_leaves hsealed h hrec).mono (fun _ h => h) ?_
    rintro next ⟨hnext, hrefused, hciphertexts⟩
    exact ⟨hnext, hciphertexts, fun hwelcome => absurd hwelcome hrefused⟩

/-! ## Data frames -/

/-- **Any data frame** leaves a beginning of the messages delivered, and the window valid. -/
theorem receiveData_leaves {data : RelayData} (hvalid : inbound.ciphertexts.Valid) :
    Leaves (endpoint.receiveData handler cipher inbound data)
      (fun next => (∃ count, InSync handler messages records next count) ∧ next.ciphertexts.Valid)
      (fun next => Delivered handler messages next ∧ next.ciphertexts.Valid) := by
  have hpushed := @push_valid inbound.ciphertexts data.payload data.seq hvalid
  unfold Endpoint.receiveData
  rcases hpush : inbound.ciphertexts.push data.seq data.payload with ⟨ciphertexts, error | ready⟩
  · rw [hpush] at hpushed
    exact ⟨⟨count, h.delivered⟩, hpushed⟩
  · rw [hpush] at hpushed
    refine (consume_keeps (fun _ state => (∃ count, InSync handler messages records state count) ∧
      state.ciphertexts = ciphertexts) ?_ ?_).mono ?_ fun _ h => h
    · exact ⟨⟨count, h.withCiphertexts ciphertexts⟩, rfl⟩
    · rintro _ ciphertext state - ⟨⟨count, hsync⟩, rfl⟩
      refine (receiveCiphertext_leaves hsealed hsync).mono ?_ ?_
      · exact fun next hnext => ⟨hnext.1, hnext.2.2⟩
      · exact fun next hnext => ⟨hnext.1, hnext.2.1 ▸ hpushed⟩
    · exact fun next hnext => ⟨hnext.1, hnext.2 ▸ hpushed⟩

end Synced

/-- The arrivals by their numbers. -/
def entries (arrivals : List RelayData) : List (Nat × Bytes) :=
  arrivals.map fun data => (data.seq, data.payload)

/-- Every sent frame arrives unaltered as the first one with its number, and in the window. -/
structure Arrives (sent arrivals : List RelayData) : Prop where
  unaltered : ∀ frame ∈ sent, (entries arrivals).lookup frame.seq = some frame.payload
  inWindow : ∀ before data, before ++ [data] <+: arrivals →
    (entries before).lookup data.seq = none → ∀ next, IsExpected (entries before) next →
      data.seq ≤ next + maxReorderDistance ∧
        (next < data.seq → ((ahead (entries before) next).map fun entry => entry.2.length).sum +
          data.payload.length ≤ maxPendingBytes)

/-- No number arrives that was not sent. -/
def OnlySent (sent arrivals : List RelayData) : Prop :=
  ∀ data ∈ arrivals, ∃ frame ∈ sent, frame.seq = data.seq

variable {arrivals : List RelayData} {payload : Bytes}

theorem lookup_extended {before : List RelayData} (hbefore : before <+: arrivals)
    (h : (entries before).lookup number = some payload) :
    (entries arrivals).lookup number = some payload := by
  obtain ⟨later, rfl⟩ := hbefore
  rw [entries, map_append, lookup_append]
  exact Option.or_eq_some_iff.mpr (.inl h)

section Arriving

variable (harrives : Arrives (sealed cipher records) arrivals)
  (honly : OnlySent (sealed cipher records) arrivals)
include harrives honly

/-- The first arrivals are the frames that were sent. -/
theorem lookup_arrivals (h : (entries arrivals).lookup number = some payload) :
    ∃ record, records[number]? = some record ∧ payload = cipher.sealRecord number record := by
  have hmem : number ∈ (entries arrivals).map Prod.fst := by
    by_contra hmissing
    rw [lookup_eq_none_iff.mpr hmissing] at h
    cases h
  simp only [entries, map_map, mem_map] at hmem
  obtain ⟨data, hdata, rfl⟩ := hmem
  obtain ⟨frame, hframe, heq⟩ := honly data hdata
  have hfirst := harrives.unaltered frame hframe
  obtain ⟨index, hindex, rfl⟩ := mem_mapIdx.mp hframe
  obtain rfl : index = data.seq := heq
  exact ⟨records[data.seq], getElem?_eq_getElem hindex, Option.some.inj (h.symm.trans hfirst)⟩

/-- A receiver to which frames have arrived in time: it has opened every record that could be. -/
structure OnTime (handler : Handler I) (messages records : List Bytes) (done : List RelayData)
    (inbound : Inbound I) : Prop where
  represents : inbound.ciphertexts.Represents (entries done)
  expected : (entries done).lookup inbound.ciphertexts.nextSeq = none
  valid : inbound.ciphertexts.Valid
  nonce : inbound.nonce = inbound.ciphertexts.nextSeq
  inSync : ∃ count, InSync handler messages records inbound count

/-- **A frame in time** is taken without an error. -/
theorem receiveData_onTime {done : List RelayData} {data : RelayData}
    (hsealed : Sealed cipher messages records) (hnums : records.length < 2 ^ 32)
    (hwelcome : Welcome handler messages) (hdone : done ++ [data] <+: arrivals)
    (h : OnTime handler messages records done inbound) :
    Leaves (endpoint.receiveData handler cipher inbound data)
      (OnTime handler messages records (done ++ [data])) (fun _ => False) := by
  obtain ⟨hrepr, hexp, hvalid, hnonce, count, hsync⟩ := h
  have hents : entries (done ++ [data]) = entries done ++ [(data.seq, data.payload)] := by
    simp [entries]
  have hfirst : ∀ number payload, (entries (done ++ [data])).lookup number = some payload →
      ∃ record, records[number]? = some record ∧ payload = cipher.sealRecord number record :=
    fun number payload hlookup => lookup_arrivals harrives honly (lookup_extended hdone hlookup)
  have hwindow := fun hnone => harrives.inWindow done data hdone hnone inbound.ciphertexts.nextSeq
    ⟨hrepr.released, hexp⟩
  obtain ⟨ready, hok⟩ := push_ok hrepr hvalid hexp (fun number hsome => by
    rw [← hents] at hsome
    obtain ⟨payload, hpay⟩ := Option.isSome_iff_exists.mp hsome
    obtain ⟨record, hrec, -⟩ := hfirst number payload hpay
    obtain ⟨hlt, -⟩ := List.getElem?_eq_some_iff.mp hrec
    omega) hwindow
  have hpushed := @push_valid inbound.ciphertexts data.payload data.seq hvalid
  unfold Endpoint.receiveData
  rcases hpush : inbound.ciphertexts.push data.seq data.payload with ⟨ciphertexts, result⟩
  rw [hpush] at hok hpushed
  obtain rfl : result = .ok ready := hok
  obtain ⟨hafter, hmissing, hready, hnext⟩ := push_represents hrepr hexp hpush
  rw [← hents] at hafter hmissing hready
  refine (consume_keeps (fun part state => (∃ count, InSync handler messages records state count) ∧
    state.nonce = inbound.nonce + part.length ∧ state.ciphertexts = ciphertexts) ?_ ?_).mono ?_
      fun _ h => h
  · exact ⟨⟨count, hsync.withCiphertexts ciphertexts⟩, rfl, rfl⟩
  · rintro part ciphertext state hpart ⟨⟨count, hsync⟩, hctr, hsame⟩
    refine (receiveCiphertext_leaves hsealed hsync).mono ?_ ?_
    · rintro next ⟨hnextSync, hnextNonce, hnextSame⟩
      refine ⟨hnextSync, ?_, hnextSame.trans hsame⟩
      rw [hnextNonce, hctr, length_append]
      rfl
    · rintro next ⟨-, -, hnot⟩
      -- the ciphertext is the one with the number of the nonce
      have hindex : ready[part.length]? = some ciphertext := by
        obtain ⟨later, rfl⟩ := hpart
        simp
      obtain ⟨record, hrec, hseal⟩ := hfirst _ _ (hready part.length ciphertext hindex)
      rw [← hnonce, ← hctr] at hrec hseal
      exact hnot hwelcome record hrec hseal
  · rintro next ⟨hnextSync, hctr, rfl⟩
    exact ⟨hafter, hmissing, hpushed, by rw [hctr, hnonce, hnext], hnextSync⟩

omit harrives honly in
/-- A receiver that has opened all records has delivered all messages. -/
theorem delivered_all (hall : records.flatten = frames messages)
    (hnonce : inbound.nonce = records.length)
    (h : InSync handler messages records inbound count) :
    Decoded handler messages inbound.delivered := by
  have hstream := h.stream
  rw [hnonce, take_length, hall] at hstream
  conv at hstream => lhs; rw [← take_append_drop count messages, frames_append]
  have hrest := append_cancel_left hstream
  have hnil : messages.drop count = [] := by
    cases hdrop : messages.drop count with
    | nil => rfl
    | cons message later =>
      have hshort := h.incomplete.2 message (by rw [hdrop]; rfl)
      rw [hdrop, frames_cons] at hrest
      have hlen := congrArg List.length hrest
      rw [length_append, length_framed] at hlen
      unfold lengthPrefixBytes at hshort
      omega
  have htake : messages.take count = messages := take_of_length_le (drop_eq_nil_iff.mp hnil)
  exact htake ▸ h.delivered

/-- The number that is expected after all sent frames have arrived. -/
theorem OnTime.nonce_eq (h : OnTime handler messages records arrivals inbound) :
    inbound.nonce = records.length := by
  rw [h.nonce]
  refine Nat.le_antisymm ?_ ?_
  · by_contra hlt
    obtain ⟨payload, hpay⟩ := Option.isSome_iff_exists.mp
      (h.represents.released records.length (by omega))
    obtain ⟨record, hrec, -⟩ := lookup_arrivals harrives honly hpay
    simp at hrec
  · by_contra hlt
    have hindex : inbound.ciphertexts.nextSeq < records.length := by omega
    have hfirst := harrives.unaltered
      ⟨inbound.ciphertexts.nextSeq, cipher.sealRecord inbound.ciphertexts.nextSeq
        records[inbound.ciphertexts.nextSeq]⟩ (mem_mapIdx.mpr ⟨_, hindex, rfl⟩)
    rw [h.expected] at hfirst
    cases hfirst

end Arriving

/-- **Delivery.**  Whatever the relay does, what an endpoint delivers is a beginning of what its
peer sent, and the window holds what its counters say.  If the sent frames arrive unaltered and in
the window, no other numbers arrive, and the handler takes every message, then there is no error
and all messages are delivered. -/
theorem relay_delivers (sender : Endpoint) (cipher : Cipher) (handler : Handler I)
    (messages : List Bytes) (hsendable : ∀ message ∈ messages, Sendable message)
    (hauthentic : Authentic cipher
      ((recordsOf messages).take (sender.send cipher messages).1.nonce))
    (arrivals : List RelayData) :
    let sent := sender.send cipher messages
    let outcome := sender.peer.receive handler cipher arrivals
    (∃ count, (messages.take count).mapM handler.decode = .ok outcome.1.delivered) ∧
      outcome.1.ciphertexts.Valid ∧
      (sent.2 = none → Arrives sent.1.frames arrivals → OnlySent sent.1.frames arrivals →
        Welcome handler messages →
          outcome.2 = none ∧ messages.mapM handler.decode = .ok outcome.1.delivered) := by
  intro sent outcome
  obtain ⟨count, ⟨hnonce, hnumbers, hframes⟩, hall⟩ := @send_sent cipher messages sender hsendable
  have htake : (recordsOf messages).take (sender.send cipher messages).1.nonce =
      (recordsOf messages).take count := by
    rw [hnonce, length_take, take_eq_take_iff]
    omega
  rw [htake] at hauthentic
  have hsealed : Sealed cipher messages ((recordsOf messages).take count) := by
    refine ⟨hauthentic, hsendable, ?_, fun record hrecord =>
      length_le_of_mem_recordsOf (mem_of_mem_take hrecord)⟩
    rw [← flatten_recordsOf]
    exact List.IsPrefix.flatten ( take_prefix _ _)
  have hsafe : Leaves outcome
      (fun inbound =>
        (∃ count', InSync handler messages ((recordsOf messages).take count) inbound count')
        ∧ inbound.ciphertexts.Valid)
      (fun inbound => Delivered handler messages inbound ∧ inbound.ciphertexts.Valid) := by
    refine consume_keeps (fun _ => _) ?_ ?_
    · exact ⟨⟨0, .start⟩, empty_valid⟩
    rintro _ data inbound - ⟨⟨count', hsync⟩, hvalid⟩
    exact receiveData_leaves hsealed hsync hvalid
  obtain ⟨⟨taken, hdelivered⟩, hvalid⟩ := hsafe.either fun inbound h =>
    ⟨h.1.imp fun _ hsync => hsync.delivered, h.2⟩
  refine ⟨⟨taken, mapM_eq_ok.mpr hdelivered⟩, hvalid, ?_⟩
  intro hnone harrives honly hwelcome
  rw [hframes] at harrives honly
  have htime : Leaves outcome (OnTime handler messages ((recordsOf messages).take count) arrivals)
      (fun _ => False) := by
    refine consume_keeps _ ⟨empty_represents, rfl, empty_valid, rfl, 0, .start⟩ ?_
    intro done data inbound hdone h
    exact receiveData_onTime harrives honly hsealed (hnonce ▸ hnumbers) hwelcome hdone h
  have hok : outcome.2 = none := by
    rcases houtcome : outcome with ⟨inbound, _ | error⟩
    · rfl
    · rw [houtcome] at htime
      exact htime.elim
  have hlast := htime.of_success hok
  obtain ⟨count', hsync⟩ := hlast.inSync
  refine ⟨hok, mapM_eq_ok.mpr (delivered_all ?_ (hlast.nonce_eq harrives honly) hsync)⟩
  rw [hall hnone, flatten_recordsOf]

/-! ## A cipher that opens what was sealed -/

/-- The nonce is repeated behind the record. -/
def exactCipher (records : List Bytes) : Cipher where
  sealRecord nonce record := record ++ List.replicate tagLen (UInt8.ofNat nonce)
  openRecord nonce ciphertext :=
    match records[nonce]? with
    | none => .error "decryption failed"
    | some record =>
      if ciphertext = record ++ List.replicate tagLen (UInt8.ofNat nonce) then .ok record
      else .error "decryption failed"

theorem exactCipher_authentic (records : List Bytes) : Authentic (exactCipher records) records := by
  refine ⟨?_, ?_, ?_⟩
  · intro nonce record hrec
    simp [exactCipher, hrec]
  · intro nonce ciphertext plaintext hopen
    unfold exactCipher at hopen
    dsimp only at hopen
    split at hopen
    · cases hopen
    · rename_i record hrec
      split at hopen
      · rename_i heq
        exact ⟨record, hrec, heq⟩
      · cases hopen
  · intro nonce record
    simp [exactCipher]

/-- A handler that takes all bytes. -/
def forwardHandler : Handler Bytes := ⟨.ok, fun _ => true⟩

theorem forwardHandler_welcome (messages : List Bytes) : Welcome forwardHandler messages :=
  ⟨fun _ => rfl, fun message _ => ⟨message, rfl⟩⟩

/-- Two messages, each in a record of its own. -/
def twoMessages : List Bytes := [[7], [8, 9]]

/-- The cipher for their records. -/
def twoCipher : Cipher := exactCipher (recordsOf twoMessages)

/-- The frame of the first message. -/
def firstFrame : RelayData :=
  ⟨0, [0, 0, 0, 1, 7, 0, 0, 0, 0, 0, 0, 0, 0, 0, 0, 0, 0, 0, 0, 0, 0]⟩

/-- The frame of the second message. -/
def secondFrame : RelayData :=
  ⟨1, [0, 0, 0, 2, 8, 9, 1, 1, 1, 1, 1, 1, 1, 1, 1, 1, 1, 1, 1, 1, 1, 1]⟩

theorem send_twoMessages :
    Endpoint.harness.send twoCipher twoMessages = (⟨2, 2, [firstFrame, secondFrame]⟩, none) := by
  decide +kernel

/-- Few and short arrivals are in the window. -/
theorem Arrives.of_few {sent : List RelayData}
    (hfirst : ∀ frame ∈ sent, (entries arrivals).lookup frame.seq = some frame.payload)
    (hnumbers : ∀ data ∈ arrivals, data.seq ≤ maxReorderDistance)
    (hbytes : (arrivals.map fun data => data.payload.length).sum ≤ maxPendingBytes) :
    Arrives sent arrivals := by
  refine ⟨hfirst, fun before data hbefore _ next _ => ⟨?_, fun _ => ?_⟩⟩
  · have hnumber := hnumbers data (hbefore.subset (mem_append_right _ mem_cons_self))
    omega
  · have hahead : (ahead (entries before) next).Sublist (entries before) :=
      filter_sublist.trans (firsts_sublist _)
    have hwaiting := (hahead.map fun entry => entry.2.length).sum_le_sum fun _ _ => Nat.zero_le _
    have hmore := (hbefore.sublist.map fun data => data.payload.length).sum_le_sum
      fun _ _ => Nat.zero_le _
    have hlengths : (entries before).map (fun entry => entry.2.length) =
        before.map fun data => data.payload.length := by
      simp [entries]
    rw [hlengths] at hwaiting
    rw [map_append, sum_append, map_singleton, sum_singleton] at hmore
    omega

/-- The second frame comes before the first, and both come twice. -/
def shuffled : List RelayData := [secondFrame, firstFrame, secondFrame, firstFrame]

theorem relay_delivers_shuffled :
    (Endpoint.executor.receive forwardHandler twoCipher shuffled).2 = none ∧
      twoMessages.mapM forwardHandler.decode =
        .ok (Endpoint.executor.receive forwardHandler twoCipher shuffled).1.delivered := by
  refine (relay_delivers .harness twoCipher forwardHandler twoMessages (by decide) ?_
    shuffled).2.2 ?_ ?_ ?_ (forwardHandler_welcome twoMessages)
  · rw [send_twoMessages]
    exact exactCipher_authentic (recordsOf twoMessages)
  · rw [send_twoMessages]
  · rw [send_twoMessages]
    exact .of_few (by decide) (by decide) (by decide)
  · rw [send_twoMessages]
    unfold OnlySent
    decide

/-- A handler whose queue has room for one message. -/
def narrowHandler : Handler Bytes := ⟨.ok, fun number => decide (number < 1)⟩

/-- **Neither condition can be dropped.**  All sent frames arrive unaltered and in the window; a
further frame with the next number, which was never sent, makes the stream fail, and so does a
queue without room for the second message. -/
theorem relay_unsent_or_refused :
    Authentic twoCipher (recordsOf twoMessages) ∧
    Endpoint.harness.send twoCipher twoMessages = (⟨2, 2, [firstFrame, secondFrame]⟩, none) ∧
    (Arrives [firstFrame, secondFrame] [secondFrame, firstFrame, ⟨2, [0]⟩] ∧
      Welcome forwardHandler twoMessages ∧
      (Endpoint.executor.receive forwardHandler twoCipher
        [secondFrame, firstFrame, ⟨2, [0]⟩]).2 =
        some (.protocol ("Noise relay decryption failed: invalid Noise channel message: " ++
          "transport ciphertext is too short"))) ∧
    Arrives [firstFrame, secondFrame] shuffled ∧ OnlySent [firstFrame, secondFrame] shuffled ∧
      (Endpoint.executor.receive narrowHandler twoCipher shuffled).1.delivered = [[7]] ∧
      (Endpoint.executor.receive narrowHandler twoCipher shuffled).2 =
        some (.protocol "Noise virtual stream inbound queue is full or closed") := by
  refine ⟨exactCipher_authentic _, send_twoMessages,
    ⟨.of_few (by decide) (by decide) (by decide), forwardHandler_welcome _, by decide +kernel⟩,
    .of_few (by decide) (by decide) (by decide), ?_, by decide +kernel, by decide +kernel⟩
  unfold OnlySent
  decide

end RenCrow.NoiseRelay
