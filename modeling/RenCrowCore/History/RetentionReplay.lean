import Mathlib.Data.List.Infix
import RenCrowCore.History.RetentionOrder

/-!
# Replay and rollback of retained facts

A delivery is recorded again whenever its item is read again, and a rollback takes back
what was accepted from a boundary on, whatever the order of recording was.

* `replayedOnce_iff`: a retained delivery is recognised exactly when its message id is not
  longer than the limit of the stored one;
* `rollback_undoes_later`: a rollback leaves what recording only the facts before the
  boundary would have left.
-/

namespace RenCrow.Retained

open Newest Text RetainedContext List

/-! ## Deliveries that come again -/

/-- Whether `record_sender_user_messages` records the delivery: its result. -/
def RetainedContext.addsDelivery (context : RetainedContext) (metadata : InputMetadata) : Bool :=
  match metadata.senderUserMessages with
  | none => false
  | some messages => !context.senderDeliveries.any fun entry =>
      decide (entry.value.receiverMessageId = messages.receiverMessageId)

/-- A delivery that a context retains is not recorded again, neither directly nor when the
context is restored. -/
structure ReplayedOnce (context : RetainedContext) (metadata : InputMetadata)
    (messages : SenderUserMessages) : Prop where
  adds : context.addsDelivery metadata = false
  direct : (context.recordSenderUserMessages metadata).senderDeliveries = context.senderDeliveries
  restored : ∀ front back, (∃ entry ∈ (restore (some context) front).senderDeliveries,
      entry.value = messages.bound) →
    (restore (some context) (front ++ some metadata :: back)).senderDeliveries =
      (restore (some context) (front ++ back)).senderDeliveries

variable {context : RetainedContext} {metadata : InputMetadata} {messages : SenderUserMessages}

/-- A stored delivery is found under its message id when the id was not cut. -/
theorem any_of_bound (hshort : byteLen messages.receiverMessageId.toList ≤ 128)
    (hkept : ∃ entry ∈ context.senderDeliveries, entry.value = messages.bound) :
    (context.senderDeliveries.any fun entry =>
      decide (entry.value.receiverMessageId = messages.receiverMessageId)) = true := by
  obtain ⟨entry, hentry, hvalue⟩ := hkept
  refine any_eq_true.mpr ⟨entry, hentry, decide_eq_true ?_⟩
  rw [hvalue]
  exact truncateId_eq_self hshort

theorem foldl_restoreOrder_senderDeliveries (metadata : List InputMetadata)
    (context : RetainedContext) :
    (metadata.foldl restoreOrder context).senderDeliveries = context.senderDeliveries := by
  induction metadata generalizing context with
  | nil => rfl
  | cons entry metadata ih => rw [foldl_cons, ih, restoreOrder_senderDeliveries]

theorem restore_senderDeliveries (cp : Option RetainedContext) :
    ∃ base : RetainedContext, ∀ items, (restore cp items).senderDeliveries =
      ((items.filterMap fun metadata => metadata).foldl recordSenderUserMessages
        base).senderDeliveries := by
  let saved := cp.getD { userMessagesIncomplete := true }
  refine ⟨(saved.senderDeliveries.foldl restoreDelivery (saved.userMessages.foldl restoreMessage
    (saved.verifiedAnswers.foldl restoreAnswer { saved with
      verifiedAnswers := [], userMessages := [], senderDeliveries := [] }))).boundSenderDeliveries,
    fun items => ?_⟩
  exact foldl_restoreOrder_senderDeliveries _ _

variable (hmsgs : metadata.senderUserMessages = some messages)
include hmsgs

theorem recordSenderUserMessages_of_any (h : (context.senderDeliveries.any fun entry =>
      decide (entry.value.receiverMessageId = messages.receiverMessageId)) = true) :
    context.recordSenderUserMessages metadata = context := by
  simp only [recordSenderUserMessages, hmsgs, h, if_true]

variable (hnew : context.addsDelivery metadata = true)
include hnew

/-- Under a longer id, what was stored is not found. -/
theorem addsDelivery_again (hlong : 128 < byteLen messages.receiverMessageId.toList) :
    (context.recordSenderUserMessages metadata).addsDelivery metadata = true := by
  simp only [addsDelivery, hmsgs, Bool.not_eq_true', any_eq_false, decide_eq_true_eq] at hnew ⊢
  intro entry hentry
  have hany : (context.senderDeliveries.any fun entry =>
      decide (entry.value.receiverMessageId = messages.receiverMessageId)) = false := by
    simpa using hnew
  simp only [recordSenderUserMessages, hmsgs, hany] at hentry
  rcases mem_append.mp (boundFamily_subset _ hentry) with hold | hlast
  · exact hnew entry hold
  · obtain rfl := mem_singleton.mp hlast
    intro heq
    have hle := byteLen_truncateId_le 128 messages.receiverMessageId
    rw [show truncateId 128 messages.receiverMessageId = messages.receiverMessageId from heq] at hle
    omega

/-- **A retained delivery is replayed at most once** exactly when its message id is at most
128 bytes long: the id is cut when it is stored, and compared uncut. -/
theorem replayedOnce_iff
    (hkept : ∃ entry ∈ (context.recordSenderUserMessages metadata).senderDeliveries,
      entry.value = messages.bound) :
    ReplayedOnce (context.recordSenderUserMessages metadata) metadata messages ↔
      byteLen messages.receiverMessageId.toList ≤ 128 := by
  constructor
  · intro h
    by_contra hlong
    have hadds := h.adds
    rw [addsDelivery_again hmsgs hnew (not_le.mp hlong)] at hadds
    cases hadds
  · intro hshort
    have hany := any_of_bound hshort hkept
    refine ⟨by simp only [addsDelivery, hmsgs, hany, Bool.not_true], ?_, ?_⟩
    · rw [recordSenderUserMessages_of_any hmsgs hany]
    · intro front back hfront
      obtain ⟨base, hbase⟩ := restore_senderDeliveries
        (some (context.recordSenderUserMessages metadata))
      rw [hbase] at hfront
      have hsame := recordSenderUserMessages_of_any hmsgs (any_of_bound hshort hfront)
      simp only [hbase, filterMap_append, foldl_append, filterMap_cons, foldl_cons, hsame]

omit hmsgs hnew

/-- A delivery whose message id has a given number of characters, of four bytes each. -/
def sampleDelivery (length : Nat) : InputMetadata where
  senderUserMessages := some ⟨"turn", String.ofList (List.replicate length '🦀'), "Please go on."⟩

theorem replayedOnce_iff_sample :
    ReplayedOnce (({} : RetainedContext).recordSenderUserMessages (sampleDelivery 1))
      (sampleDelivery 1) ⟨"turn", String.ofList (List.replicate 1 '🦀'), "Please go on."⟩ :=
  (replayedOnce_iff rfl (by decide) (by decide +kernel)).mpr (by decide)

/-- The delivery of a message with a long id is recorded again while it is retained. -/
theorem long_delivery_recorded_again :
    let once := ({} : RetainedContext).recordSenderUserMessages (sampleDelivery 33)
    once.senderDeliveries.length = 1 ∧ once.addsDelivery (sampleDelivery 33) = true ∧
      (once.recordSenderUserMessages (sampleDelivery 33)).senderDeliveries.length = 2 := by
  decide +kernel

/-! ## Rolling back -/

/-- A fact with its explicit acceptance order. -/
inductive Fact where
  | userMessage (message : RetainedUserMessage) (order : U64)
  | verifiedAnswer (answer : VerifiedAnswer) (order : U64)
  | senderMessages (messages : SenderUserMessages) (order : U64)
deriving DecidableEq, Repr

namespace Fact

/-- The order of a fact. -/
def order : Fact → U64
  | .userMessage _ order | .verifiedAnswer _ order | .senderMessages _ order => order

/-- The call that records it. -/
def operation : Fact → Operation
  | .userMessage message order => .recordUserMessage message (.localInput (some order))
  | .verifiedAnswer answer order => .record (.verifiedAnswer answer (some order))
  | .senderMessages messages order =>
    .recordSenderUserMessages { senderUserMessages := some messages, userInputOrder := some order }

/-- What is stored of a message. -/
def messageEntry : Fact → Option (Ordered RetainedUserMessage)
  | .userMessage message order => some ⟨false, order, message.bound⟩
  | _ => none

/-- What is stored of an answer. -/
def answerEntry : Fact → Option (Ordered VerifiedAnswer)
  | .verifiedAnswer answer order => some ⟨false, order, answer.bound⟩
  | _ => none

/-- What is stored of a delivery. -/
def deliveryEntry : Fact → Option (Ordered SenderUserMessages)
  | .senderMessages messages order => some ⟨false, order, messages.bound⟩
  | _ => none

end Fact

/-- Facts are recorded one after the other. -/
def recordFacts (start : RetainedContext) (facts : List Fact) : RetainedContext :=
  (facts.map Fact.operation).foldl apply start

/-- A family of the context, and which facts it takes in. -/
structure FactFamily (T : Type) where
  entries : RetainedContext → List (Ordered T)
  /-- What is stored of a fact of the family. -/
  entryOf : Fact → Option (Ordered T)
  /-- The fact has the identity of an entry. -/
  meets : Fact → Ordered T → Bool
  /-- An entry that the fact meets is left as it is. -/
  keeps : Fact → Ordered T → Bool

/-- Messages are known by their id, once they are bounded. -/
def messageFamily : FactFamily RetainedUserMessage where
  entries := userMessages
  entryOf := Fact.messageEntry
  meets
    | .userMessage message _ => sameMessage message.bound
    | _ => fun _ => false
  keeps
    | .userMessage message _ => fun held => decide (held.value = message.bound) && !held.inherited
    | _ => fun _ => false

/-- Answers are known by their turn and their call, once they are bounded. -/
def answerFamily : FactFamily VerifiedAnswer where
  entries := verifiedAnswers
  entryOf := Fact.answerEntry
  meets
    | .verifiedAnswer answer _ => sameAnswer answer.bound
    | _ => fun _ => false
  keeps
    | .verifiedAnswer answer _ => fun held => decide (held.value = answer.bound)
    | _ => fun _ => false

/-- Deliveries are known by the id of their message, which is cut only when it is stored. -/
def deliveryFamily : FactFamily SenderUserMessages where
  entries := senderDeliveries
  entryOf := Fact.deliveryEntry
  meets
    | .senderMessages messages _ => fun held =>
      decide (held.value.receiverMessageId = messages.receiverMessageId)
    | _ => fun _ => false
  keeps _ _ := true

section Family

variable {T : Type}

/-- A fact comes into a family that has no limits. -/
def FactFamily.join (family : FactFamily T) (held : List (Ordered T)) (fact : Fact) :
    List (Ordered T) :=
  match family.entryOf fact with
  | none => held
  | some entry =>
    Newest.join Ordered.key (fun _ => family.meets fact) (fun _ => family.keeps fact) held entry

/-- What a family without limits holds after some facts. -/
def FactFamily.joinAll (family : FactFamily T) (start : RetainedContext) (facts : List Fact) :
    List (Ordered T) :=
  facts.foldl family.join (family.entries start)

variable [Record T]

/-- The facts from `b` on can be taken back.  Recording drops nothing: without limits the
family would still be within them at each point.  And no fact from `b` on shares an identity
with a fact before `b`, nor replaces an entry of the start. -/
structure FactFamily.Undoable (family : FactFamily T) (start : RetainedContext)
    (facts : List Fact) (b : U64) : Prop where
  sorted : (family.entries start).Pairwise fun first second => first.key ≤ second.key
  below : ∀ held ∈ family.entries start, held.key < .localOrder b
  within : ∀ recorded ∈ facts.inits, fits (family.joinAll start recorded) = true
  start : ∀ late ∈ facts, b ≤ late.order → ∀ held ∈ family.entries start,
    family.meets late held = true → family.keeps late held = true
  apart : ∀ early ∈ facts, early.order < b → ∀ late ∈ facts, b ≤ late.order →
    (∀ entry ∈ family.entryOf early, family.meets late entry = false) ∧
      ∀ entry ∈ family.entryOf late, family.meets early entry = false

/-- How a context takes facts into a family. -/
structure FactFamily.Takes (family : FactFamily T) : Prop where
  skip : ∀ context fact, family.entryOf fact = none →
    family.entries (context.apply fact.operation) = family.entries context
  accept : ∀ context fact entry, family.entryOf fact = some entry →
    family.entries (context.apply fact.operation) = Newest.accept Ordered.key fits
      (fun _ => family.meets fact) (fun _ => family.keeps fact) (family.entries context) entry
  key : ∀ fact entry, family.entryOf fact = some entry → entry.key = .localOrder fact.order

end Family

theorem recordUserMessage_frame (context : RetainedContext) (message : RetainedUserMessage)
    (order : Option U64) :
    (context.recordUserMessage message (.localInput order)).verifiedAnswers =
        context.verifiedAnswers ∧
      (context.recordUserMessage message (.localInput order)).senderDeliveries =
        context.senderDeliveries := by
  simp only [recordUserMessage]
  split
  · exact ⟨rfl, rfl⟩
  · split <;> exact ⟨rfl, rfl⟩

theorem record_frame (context : RetainedContext) (event : RetainedContextEvent) :
    (context.record event).userMessages = context.userMessages ∧
      (context.record event).senderDeliveries = context.senderDeliveries := by
  simp only [record]
  split
  · exact ⟨rfl, rfl⟩
  · split <;> exact ⟨rfl, rfl⟩

theorem recordUserMessage_accept (context : RetainedContext) (message : RetainedUserMessage)
    (order : U64) :
    (context.recordUserMessage message (.localInput (some order))).userMessages =
      Newest.accept Ordered.key fits (fun _ => messageFamily.meets (.userMessage message order))
        (fun _ => messageFamily.keeps (.userMessage message order)) context.userMessages
        ⟨false, order, message.bound⟩ := by
  have hmeets : messageFamily.meets (.userMessage message order) =
      sameSource ⟨false, order, message.bound⟩ := by
    funext held
    simp only [messageFamily, sameSource]
  have hkeeps : messageFamily.keeps (.userMessage message order) =
      unchangedEntry ⟨false, order, message.bound⟩ := by
    funext held
    simp [unchangedEntry, messageFamily]
  have haccept := recordUserMessage_userMessages context ⟨message, order⟩
  simp only [Accepted.entry] at haccept
  rw [hmeets, hkeeps, haccept]
  generalize message.bound = bounded
  rfl

theorem takes_messages : messageFamily.Takes where
  skip context fact h := by
    cases fact with
    | userMessage message order => exact absurd h (Option.some_ne_none _)
    | verifiedAnswer answer order =>
      exact (record_frame context (.verifiedAnswer answer (some order))).1
    | senderMessages messages order => exact (context.recordSenderUserMessages_frame _).2
  accept context fact entry h := by
    cases fact with
    | userMessage message order =>
      obtain rfl : ⟨false, order, message.bound⟩ = entry := Option.some.inj h
      exact recordUserMessage_accept context message order
    | verifiedAnswer | senderMessages => exact absurd h.symm (Option.some_ne_none _)
  key fact entry h := by
    cases fact with
    | userMessage message order =>
      obtain rfl : ⟨false, order, message.bound⟩ = entry := Option.some.inj h
      rfl
    | verifiedAnswer | senderMessages => exact absurd h.symm (Option.some_ne_none _)

theorem record_accept (context : RetainedContext) (answer : VerifiedAnswer)
    (order : U64) :
    (context.record (.verifiedAnswer answer (some order))).verifiedAnswers =
      Newest.accept Ordered.key fits (fun _ => answerFamily.meets (.verifiedAnswer answer order))
        (fun _ => answerFamily.keeps (.verifiedAnswer answer order)) context.verifiedAnswers
        ⟨false, order, answer.bound⟩ := by
  have hmeets : answerFamily.meets (.verifiedAnswer answer order) = sameAnswer answer.bound := by
    simp only [answerFamily]
  have hkeeps : answerFamily.keeps (.verifiedAnswer answer order) =
      fun held => decide (held.value = answer.bound) := by
    simp only [answerFamily]
  rw [hmeets, hkeeps, record, Newest.accept]
  generalize answer.bound = bounded
  cases context.verifiedAnswers.findIdx? (sameAnswer bounded) with
  | none => rfl
  | some index =>
    dsimp only
    rw [apply_ite RetainedContext.verifiedAnswers]
    rfl

theorem takes_answers : answerFamily.Takes where
  skip context fact h := by
    cases fact with
    | userMessage message order => exact (recordUserMessage_frame context message (some order)).1
    | verifiedAnswer => exact absurd h (Option.some_ne_none _)
    | senderMessages messages order => exact (context.recordSenderUserMessages_frame _).1
  accept context fact entry h := by
    cases fact with
    | verifiedAnswer answer order =>
      obtain rfl : ⟨false, order, answer.bound⟩ = entry := Option.some.inj h
      exact record_accept context answer order
    | userMessage | senderMessages => exact absurd h.symm (Option.some_ne_none _)
  key fact entry h := by
    cases fact with
    | verifiedAnswer answer order =>
      obtain rfl : ⟨false, order, answer.bound⟩ = entry := Option.some.inj h
      rfl
    | userMessage | senderMessages => exact absurd h.symm (Option.some_ne_none _)

theorem recordSenderUserMessages_accept (context : RetainedContext)
    (messages : SenderUserMessages) (order : U64) :
    (context.recordSenderUserMessages
        { senderUserMessages := some messages, userInputOrder := some order }).senderDeliveries =
      Newest.accept Ordered.key fits
        (fun _ => deliveryFamily.meets (.senderMessages messages order))
        (fun _ => deliveryFamily.keeps (.senderMessages messages order)) context.senderDeliveries
        ⟨false, order, messages.bound⟩ := by
  simp only [deliveryFamily, Newest.accept, recordSenderUserMessages]
  cases hfound : context.senderDeliveries.findIdx? fun held =>
      decide (held.value.receiverMessageId = messages.receiverMessageId) with
  | none =>
    have hnone : (context.senderDeliveries.any fun held =>
        decide (held.value.receiverMessageId = messages.receiverMessageId)) = false := by
      rw [any_eq_false]
      intro held hheld
      rw [findIdx?_eq_none_iff.mp hfound held hheld]
      decide
    rw [hnone]
    rfl
  | some index =>
    obtain ⟨hindex, hmatch, -⟩ := findIdx?_eq_some_iff_getElem.mp hfound
    have hany : (context.senderDeliveries.any fun held =>
        decide (held.value.receiverMessageId = messages.receiverMessageId)) = true :=
      any_eq_true.mpr ⟨_, getElem_mem hindex, hmatch⟩
    simp only [hany, getElem?_eq_getElem hindex, Option.any_some, if_true]

theorem takes_deliveries : deliveryFamily.Takes where
  skip context fact h := by
    cases fact with
    | userMessage message order => exact (recordUserMessage_frame context message (some order)).2
    | verifiedAnswer answer order =>
      exact (record_frame context (.verifiedAnswer answer (some order))).2
    | senderMessages => exact absurd h (Option.some_ne_none _)
  accept context fact entry h := by
    cases fact with
    | senderMessages messages order =>
      obtain rfl : ⟨false, order, messages.bound⟩ = entry := Option.some.inj h
      exact recordSenderUserMessages_accept context messages order
    | userMessage | verifiedAnswer => exact absurd h.symm (Option.some_ne_none _)
  key fact entry h := by
    cases fact with
    | senderMessages messages order =>
      obtain rfl : ⟨false, order, messages.bound⟩ = entry := Option.some.inj h
      rfl
    | userMessage | verifiedAnswer => exact absurd h.symm (Option.some_ne_none _)

section Run

variable {T : Type} [Record T] {family : FactFamily T} {start : RetainedContext}
  {facts : List Fact} {b : U64}

omit [Record T] in
theorem FactFamily.joinAll_concat (family : FactFamily T) (start : RetainedContext)
    (facts : List Fact) (fact : Fact) :
    family.joinAll start (facts ++ [fact]) = family.join (family.joinAll start facts) fact := by
  rw [joinAll, foldl_append]
  rfl

theorem recordFacts_concat (start : RetainedContext) (facts : List Fact) (fact : Fact) :
    recordFacts start (facts ++ [fact]) = (recordFacts start facts).apply fact.operation := by
  simp [recordFacts]

/-- A fact that fits is taken in as if there were no limits. -/
theorem FactFamily.Takes.apply (h : family.Takes) {context : RetainedContext} {fact : Fact}
    (hfits : fits (family.join (family.entries context) fact) = true) :
    family.entries (context.apply fact.operation) =
      family.join (family.entries context) fact := by
  unfold FactFamily.join at hfits ⊢
  cases hentry : family.entryOf fact with
  | none => exact h.skip context fact hentry
  | some entry =>
    rw [hentry] at hfits
    exact (h.accept context fact entry hentry).trans (accept_eq_join hfits)

/-- Where the entries of a family come from. -/
structure FactFamily.From (family : FactFamily T) (start : RetainedContext) (facts : List Fact)
    (held : List (Ordered T)) : Prop where
  sorted : held.Pairwise fun first second => first.key ≤ second.key
  origin : ∀ entry ∈ held, entry ∈ family.entries start ∨
    ∃ fact ∈ facts, family.entryOf fact = some entry

omit [Record T] in
theorem FactFamily.From.join {held : List (Ordered T)} (h : family.From start facts held)
    (fact : Fact) : family.From start (facts ++ [fact]) (family.join held fact) := by
  have horigin : ∀ entry ∈ held, entry ∈ family.entries start ∨
      ∃ other ∈ facts ++ [fact], family.entryOf other = some entry := by
    intro entry hentry
    refine (h.origin entry hentry).imp_right ?_
    rintro ⟨other, hother, heq⟩
    exact ⟨other, mem_append_left _ hother, heq⟩
  unfold FactFamily.join
  cases hentry : family.entryOf fact with
  | none => exact ⟨h.sorted, horigin⟩
  | some stored =>
    refine ⟨pairwise_join h.sorted, fun entry hin => ?_⟩
    rcases mem_cons.mp (accept_subset _ _ hin) with rfl | hin
    · exact .inr ⟨fact, mem_append_right _ mem_cons_self, hentry⟩
    · exact horigin entry hin

omit [Record T] in
theorem FactFamily.from_joinAll
    (hsorted : (family.entries start).Pairwise fun first second => first.key ≤ second.key)
    (facts : List Fact) : family.From start facts (family.joinAll start facts) := by
  induction facts using List.reverseRecOn with
  | nil => exact ⟨hsorted, fun entry hentry => .inl hentry⟩
  | append_singleton facts fact ih =>
    rw [joinAll_concat]
    exact ih.join fact

theorem FactFamily.Takes.key_lt_iff (htakes : family.Takes) {fact : Fact} {entry : Ordered T}
    (h : family.entryOf fact = some entry) : entry.key < .localOrder b ↔ fact.order < b := by
  rw [htakes.key fact entry h]
  exact Nat.add_lt_add_iff_left

variable (htakes : family.Takes)
include htakes

/-- What is before the boundary takes part in a fact before it, and no other. -/
theorem FactFamily.Undoable.before_join {recorded : List Fact} {fact : Fact}
    (h : family.Undoable start facts b) (hrecorded : recorded ++ [fact] ⊆ facts) :
    before (.localOrder b) (family.join (family.joinAll start recorded) fact) =
      if fact.order < b then
        family.join (before (.localOrder b) (family.joinAll start recorded)) fact
      else before (.localOrder b) (family.joinAll start recorded) := by
  have hfact : fact ∈ facts := hrecorded (mem_append_right _ mem_cons_self)
  have hfrom := FactFamily.from_joinAll h.sorted recorded
  generalize family.joinAll start recorded = held at hfrom ⊢
  unfold FactFamily.join
  cases hentry : family.entryOf fact with
  | none => simp
  | some entry =>
    have hkey := htakes.key_lt_iff (b := b) hentry
    dsimp only
    split
    · rename_i hearly
      refine filter_join (decide_eq_true (hkey.mpr hearly)) fun other hother hlate => ?_
      -- an entry from the boundary on is a later fact's
      rcases hfrom.origin other hother with hstart | ⟨late, hlatefact, heq⟩
      · exact absurd (h.below other hstart) (of_decide_eq_false hlate)
      · have hlater : b ≤ late.order := by
          rw [← not_lt, ← htakes.key_lt_iff heq]
          exact of_decide_eq_false hlate
        exact (h.apart fact hfact hearly late (hrecorded (mem_append_left _ hlatefact))
          hlater).2 other heq
    · rename_i hlate
      refine filter_join_of_not (decide_eq_false (hkey.not.mpr hlate)) hfrom.sorted
        fun other hother hbefore hmeets => ?_
      rcases hfrom.origin other hother with hstart | ⟨early, hearlyfact, heq⟩
      · exact h.start fact hfact (not_lt.mp hlate) other hstart hmeets
      · have hearlier := (htakes.key_lt_iff heq).mp (of_decide_eq_true hbefore)
        rw [(h.apart early (hrecorded (mem_append_left _ hearlyfact)) hearlier fact hfact
          (not_lt.mp hlate)).1 other heq] at hmeets
        cases hmeets

/-- **A run and the run of its earlier facts**: the second holds what the first holds before
the boundary. -/
theorem FactFamily.Undoable.run (h : family.Undoable start facts b) {recorded : List Fact}
    ( hprefix : recorded <+: facts) :
    family.entries (recordFacts start recorded) = family.joinAll start recorded ∧
      family.entries (recordFacts start (recorded.filter fun fact => decide (fact.order < b))) =
        before (.localOrder b) (family.joinAll start recorded) := by
  induction recorded using List.reverseRecOn with
  | nil => exact ⟨rfl,
      (filter_eq_self.mpr fun held hheld => decide_eq_true (h.below held hheld)).symm⟩
  | append_singleton recorded fact ih =>
    obtain ⟨hfull, hpart⟩ := ih ((prefix_append _ _).trans hprefix)
    have hfits := h.within _ ((List.mem_inits _ _).mpr hprefix)
    have hbefore := h.before_join htakes hprefix.subset
    rw [joinAll_concat] at hfits ⊢
    refine ⟨?_, ?_⟩
    · rw [recordFacts_concat, ← hfull]
      rw [← hfull] at hfits
      exact htakes.apply hfits
    · rw [hbefore, filter_append]
      split
      · rename_i hearly
        rw [if_pos hearly] at hbefore
        have hone : [fact].filter (fun fact => decide (fact.order < b)) = [fact] := by simp [hearly]
        rw [hone, recordFacts_concat, ← hpart]
        rw [← hpart] at hbefore
        refine htakes.apply ?_
        rw [← hbefore]
        exact fits_mono filter_sublist hfits
      · rename_i hlate
        have hnone : [fact].filter (fun fact => decide (fact.order < b)) = [] := by simp [hlate]
        rw [hnone, append_nil, hpart]

theorem FactFamily.Undoable.rollback (h : family.Undoable start facts b) :
    before (.localOrder b) (family.entries (recordFacts start facts)) =
      family.entries (recordFacts start (facts.filter fun fact => decide (fact.order < b))) := by
  obtain ⟨hfull, hpart⟩ := h.run htakes (prefix_refl facts)
  rw [hfull, hpart]

end Run

/-- **A rollback undoes exactly the later facts**, whatever the order in which they were
recorded: the families are those that the facts before the boundary would have left alone. -/
theorem rollback_undoes_later {start : RetainedContext} {facts : List Fact} {b : U64}
    (turnIds : List String) (firstRemoved : Option String)
    (hmessages : messageFamily.Undoable start facts b)
    (hanswers : answerFamily.Undoable start facts b)
    (hdeliveries : deliveryFamily.Undoable start facts b) :
    let rolled := (recordFacts start facts).rollback turnIds firstRemoved (.localInput (some b))
    let kept := recordFacts start (facts.filter fun fact => decide (fact.order < b))
    rolled.userMessages = kept.userMessages ∧ rolled.verifiedAnswers = kept.verifiedAnswers ∧
      rolled.senderDeliveries = kept.senderDeliveries :=
  ⟨hmessages.rollback takes_messages, hanswers.rollback takes_answers,
    hdeliveries.rollback takes_deliveries⟩

/-- A message and a delivery that were accepted before the others. -/
def sampleStart : RetainedContext where
  userMessages := [⟨false, 1, ⟨"t", some "m", "a", true⟩⟩]
  senderDeliveries := [⟨false, 2, ⟨"t", "d", "b"⟩⟩]
  nextOrder := 3

/-- Facts that are recorded in another order than they were accepted in. -/
def sampleFacts : List Fact :=
  [.verifiedAnswer ⟨"t", "late", []⟩ 7, .userMessage ⟨"t", some "m", "c", true⟩ 3,
    .senderMessages ⟨"t", "e", "d"⟩ 6, .verifiedAnswer ⟨"t", "early", []⟩ 4]

theorem rollback_undoes_later_sample :
    let rolled := (recordFacts sampleStart sampleFacts).rollback [] none (.localInput (some 5))
    let kept := recordFacts sampleStart (sampleFacts.filter fun fact => decide (fact.order < 5))
    rolled.userMessages = kept.userMessages ∧ rolled.verifiedAnswers = kept.verifiedAnswers ∧
      rolled.senderDeliveries = kept.senderDeliveries := by
  refine rollback_undoes_later [] none ⟨?_, ?_, ?_, ?_, ?_⟩ ⟨?_, ?_, ?_, ?_, ?_⟩
    ⟨?_, ?_, ?_, ?_, ?_⟩ <;> decide +kernel

/-- Two deliveries whose message ids differ only beyond what is stored of them. -/
def sampleDeliveries : List Fact :=
  [.senderMessages ⟨"turn", String.ofList (List.replicate 33 '🦀'), "Go on."⟩ 5,
    .senderMessages ⟨"turn", String.ofList (List.replicate 32 '🦀'), "Wait."⟩ 3]

/-- The later of two such deliveries keeps the earlier one from being recorded. -/
theorem rollback_loses_earlier :
    fits (sampleDeliveries.filterMap Fact.deliveryEntry) = true ∧
      ((recordFacts {} sampleDeliveries).rollback [] none (.localInput (some 4))).senderDeliveries =
        [] ∧
      (recordFacts {} (sampleDeliveries.filter fun fact =>
        decide (fact.order < 4))).senderDeliveries ≠
        [] := by
  decide +kernel

end RenCrow.Retained
