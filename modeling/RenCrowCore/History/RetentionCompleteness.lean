import RenCrowCore.History.RetentionOrder

/-!
# Completeness of the retained messages

`userMessagesComplete` tells a reviewer that no instruction of the user is missing.

* `remaining`: the messages that should still be there, followed through a run next to the
  context itself;
* `Faithful`: each of them has its entry, whose text is omitted only if the entry says so;
* `complete_run`: when the context claims to be complete, every message that should be there
  is there with its text.
-/

namespace RenCrow.Retained

open Newest List

namespace RetainedContext

/-! ## The messages that remain -/

/-- The order under which a recorded message is held: a message that the family holds
unchanged keeps its order. -/
def heldOrder (context : RetainedContext) (message : RetainedUserMessage) (order : Option U64) :
    U64 :=
  match context.userMessages.find? (sameMessage message.bound) with
  | some entry =>
    if entry.value = message.bound ∧ entry.inherited = false then entry.order
    else order.getD context.nextOrder
  | none => order.getD context.nextOrder

/-- A rollback to an inherited instruction that finds no boundary takes every local message
away; it marks the family only for a message id or a turn that a message has. -/
def dropsUnmarked (context : RetainedContext) (turnIds : List String)
    (firstRemovedMessageId : Option String) (source : RetainedInputSource) : Bool :=
  decide (source = .inherited) && firstRemovedMessageId.isNone && !context.hasMessageOf turnIds

/-- The messages that remain after an operation: a recorded message takes the place of the
one with its id, and a rollback removes what is not before its boundary.  What a rollback
takes away without a boundary and without a mark does not remain either. -/
def remaining (context : RetainedContext) (expected : List Accepted) : Operation → List Accepted
  | .recordUserMessage message source =>
    (expected.filter fun accepted =>
      decide (accepted.message.messageId ≠ message.messageId)) ++
      [⟨message, context.heldOrder message source.acceptanceOrder⟩]
  | .rollback turnIds firstRemovedMessageId source =>
    match context.boundary firstRemovedMessageId source with
    | some boundary => expected.filter fun accepted =>
      decide (RetainedContextOrder.localOrder accepted.order < boundary)
    | none => if context.dropsUnmarked turnIds firstRemovedMessageId source then [] else expected
  | _ => expected

/-- The id of a message is there and is short. -/
def ShortId (message : RetainedUserMessage) : Prop :=
  ∃ id, message.messageId = some id ∧ Text.byteLen id.toList ≤ 1024

/-- Local messages with short ids are recorded, and the context is restored from itself. -/
def Allowed (context : RetainedContext) : Operation → Prop
  | .recordUserMessage message source => source ≠ .inherited ∧ ShortId message
  | .restore checkpoint _ => checkpoint = some context
  | _ => True

/-- A context that operations reach, with the messages that remain. -/
inductive Reaches : RetainedContext → List Accepted → Prop where
  | start : Reaches {} []
  | step {context : RetainedContext} {expected : List Accepted} (operation : Operation)
      (h : Reaches context expected) (hallowed : Allowed context operation) :
      Reaches (context.apply operation) (remaining context expected operation)

/-! ## The invariant -/

/-- The entry of a message; its text is omitted only when it says so. -/
structure Represents (entry : Ordered RetainedUserMessage) (accepted : Accepted) : Prop where
  ownInput : entry.inherited = false
  order : entry.order = accepted.order
  messageId : entry.value.messageId = accepted.message.messageId
  value : entry.value = accepted.message ∨ entry.value.complete = false

variable {message : RetainedUserMessage}

theorem represents_mk {bounded : RetainedUserMessage} {order : U64}
    (hid : bounded.messageId = message.messageId)
    (hvalue : bounded = message ∨ bounded.complete = false) :
    Represents ⟨false, order, bounded⟩ ⟨message, order⟩ := ⟨rfl, rfl, hid, hvalue⟩

/-- Unless records are missing, every message that remains has its entry. -/
structure Faithful (context : RetainedContext) (expected : List Accepted) : Prop where
  wellFormed : WellFormed context
  shortId : ∀ accepted ∈ expected, ShortId accepted.message
  entries : context.userMessagesIncomplete = false →
    ∀ accepted ∈ expected, ∃ entry ∈ context.userMessages, Represents entry accepted

variable {context : RetainedContext} {expected : List Accepted}

theorem messageId_bound_of_shortId (h : ShortId message) :
    message.bound.messageId = message.messageId := by
  obtain ⟨id, hid, hshort⟩ := h
  refine messageId_bound fun other hother => ?_
  rw [hid] at hother
  rwa [← Option.some.inj hother]

/-- Bounding either keeps a message or marks it. -/
theorem bound_eq_or_incomplete (message : RetainedUserMessage) :
    message.bound = message ∨ message.bound.complete = false := by
  unfold RetainedUserMessage.bound
  split
  · exact .inl rfl
  · exact .inr rfl

/-- Bounding the family keeps all entries or marks the family. -/
theorem mem_boundUserMessages (h : context.boundUserMessages.userMessagesIncomplete = false) :
    context.userMessagesIncomplete = false ∧
      ∀ entry, entry ∈ context.boundUserMessages.userMessages ↔ entry ∈ context.userMessages := by
  simp only [boundUserMessages, boundFamily, Bool.or_eq_false_iff, Bool.not_eq_false'] at h ⊢
  refine ⟨h.1, fun entry => ?_⟩
  rw [newest_eq_self h.2, mem_sortByKey]

/-! ## Recording -/

theorem pushUserMessage_local (context : RetainedContext) (message : RetainedUserMessage)
    (order : Option U64) :
    ∃ joined : RetainedContext, joined.userMessages = context.userMessages ++
        [⟨false, order.getD context.nextOrder, message⟩] ∧
      joined.userMessagesIncomplete = context.userMessagesIncomplete ∧
      context.pushUserMessage message (.localInput order) = joined.boundUserMessages :=
  ⟨{ (context.recordOrder order).2 with
      userMessages := context.userMessages ++ [⟨false, order.getD context.nextOrder, message⟩] },
    rfl, rfl, rfl⟩

/-- **What recording can do.** The family holds the message unchanged, or the message joins
what is left of the family, which is then bounded. -/
theorem recordUserMessage_cases (context : RetainedContext) (message : RetainedUserMessage)
    (order : Option U64) :
    (∃ entry ∈ context.userMessages, entry.value = message.bound ∧ entry.inherited = false ∧
        context.heldOrder message order = entry.order ∧
        (context.recordUserMessage message (.localInput order)).userMessages =
          context.userMessages ∧
        (context.recordUserMessage message (.localInput order)).userMessagesIncomplete =
          context.userMessagesIncomplete) ∨
      ∃ (joined : RetainedContext) (kept : List (Ordered RetainedUserMessage)),
        (∀ held ∈ context.userMessages, held ∉ kept →
          held.value.messageId = message.bound.messageId) ∧
        joined.userMessages = kept ++ [⟨false, context.heldOrder message order, message.bound⟩] ∧
        joined.userMessagesIncomplete = context.userMessagesIncomplete ∧
        context.recordUserMessage message (.localInput order) = joined.boundUserMessages := by
  simp only [recordUserMessage, heldOrder]
  generalize message.bound = message
  cases h : context.userMessages.findIdx? (sameMessage message) with
  | none =>
    have hfind : context.userMessages.find? (sameMessage message) = none :=
      find?_eq_none.mpr fun entry hentry => by
        simp [findIdx?_eq_none_iff.mp h entry hentry]
    rw [hfind]
    obtain ⟨joined, hmsgs, hflag, heq⟩ := pushUserMessage_local
      { context with verifiedAnswersIncomplete := context.verifiedAnswersIncomplete || false }
      message order
    exact .inr ⟨joined, context.userMessages, fun held hheld hnot => absurd hheld hnot,
      hmsgs, hflag, heq⟩
  | some index =>
    obtain ⟨hindex, hsame, hfirst⟩ := findIdx?_eq_some_iff_getElem.mp h
    have hfind : context.userMessages.find? (sameMessage message) =
        some context.userMessages[index] :=
      find?_eq_some_iff_getElem.mpr ⟨hsame, index, hindex, rfl, fun j hj => by
        simpa using hfirst j hj⟩
    have hid : context.userMessages[index].value.messageId = message.messageId := by
      simp only [sameMessage, Bool.and_eq_true, decide_eq_true_eq] at hsame
      exact hsame.2
    rw [hfind]
    have hlocal : decide (RetainedInputSource.localInput order = .inherited) = false := rfl
    simp only [getElem?_eq_getElem hindex, Option.any_some, hlocal, Bool.and_eq_true,
      decide_eq_true_eq]
    by_cases hheld : context.userMessages[index].value = message ∧
        context.userMessages[index].inherited = false
    · rw [if_pos hheld, if_pos hheld]
      exact .inl ⟨_, getElem_mem hindex, hheld.1, hheld.2, rfl, rfl, rfl⟩
    · rw [if_neg hheld, if_neg hheld]
      obtain ⟨joined, hmsgs, hflag, heq⟩ := pushUserMessage_local { context with
          verifiedAnswersIncomplete := context.verifiedAnswersIncomplete || false
          userMessages := context.userMessages.eraseIdx index } message order
      refine .inr ⟨joined, context.userMessages.eraseIdx index, ?_, hmsgs, hflag, heq⟩
      intro held hmem hnot
      rw [Newest.eq_of_not_mem_eraseIdx hindex hmem hnot]
      exact hid

theorem Faithful.recordUserMessage (h : Faithful context expected) (hshort : ShortId message)
    (order : Option U64) :
    Faithful (context.recordUserMessage message (.localInput order))
      (remaining context expected (.recordUserMessage message (.localInput order))) := by
  have hid := messageId_bound_of_shortId hshort
  refine ⟨h.wellFormed.recordUserMessage message _, fun acc hacc => ?_,
    fun hcomplete acc hacc => ?_⟩
  · rcases mem_append.mp hacc with hacc | hacc
    · exact h.shortId acc (mem_filter.mp hacc).1
    · rw [mem_singleton.mp hacc]
      exact hshort
  rcases recordUserMessage_cases context message order with
    ⟨held, hheld, hvalue, hlocal, horder, hmsgs, hflag⟩ |
      ⟨joined, kept, hgone, hmsgs, hflag, heq⟩
  · rw [hmsgs]
    rw [hflag] at hcomplete
    rcases mem_append.mp hacc with hacc | hacc
    · exact h.entries hcomplete acc (mem_filter.mp hacc).1
    · rw [mem_singleton.mp hacc]
      exact ⟨held, hheld, hlocal, horder.symm, hvalue ▸ hid,
        hvalue ▸ bound_eq_or_incomplete message⟩
  · rw [heq] at hcomplete ⊢
    obtain ⟨hcomplete, hmem⟩ := mem_boundUserMessages hcomplete
    rw [hflag] at hcomplete
    rcases mem_append.mp hacc with hacc | hacc
    · obtain ⟨hacc, hne⟩ := mem_filter.mp hacc
      obtain ⟨entry, hentry, hrepr⟩ := h.entries hcomplete acc hacc
      refine ⟨entry, (hmem entry).mpr ?_, hrepr⟩
      rw [hmsgs]
      refine mem_append_left _ ?_
      -- only an entry with the id of the new message can have left the family
      by_contra hnot
      have hsame := hgone entry hentry hnot
      rw [hrepr.messageId, hid] at hsame
      exact of_decide_eq_true hne hsame
    · rw [mem_singleton.mp hacc]
      refine ⟨_, (hmem _).mpr ?_, represents_mk hid (bound_eq_or_incomplete message)⟩
      rw [hmsgs]
      exact mem_append_right _ mem_cons_self

/-! ## Recovering -/

/-- A recovered excerpt stays marked as one. -/
theorem Represents.recoverExcerpt {entry : Ordered RetainedUserMessage} {accepted : Accepted}
    (h : Represents entry accepted) (hshort : ShortId accepted.message)
    (excerpt : Nat → String → Option String) (index : Nat) :
    Represents (recoverExcerpt excerpt index entry) accepted := by
  unfold RetainedContext.recoverExcerpt
  split
  · next homitted =>
      split
      · next text _ =>
          have hid : ({ entry.value with text } : RetainedUserMessage).bound.messageId =
              accepted.message.messageId := by
            rw [messageId_bound_of_shortId]
            · exact h.messageId
            · obtain ⟨id, hid, hlen⟩ := hshort
              exact ⟨id, h.messageId.trans hid, hlen⟩
          have hinc : ({ entry.value with text } : RetainedUserMessage).bound.complete = false := by
            unfold RetainedUserMessage.bound
            split
            · exact homitted.2
            · rfl
          exact ⟨h.ownInput, h.order, hid, .inr hinc⟩
      · exact h
  · exact h

theorem Faithful.recoverUserMessageExcerpts (h : Faithful context expected)
    (excerpt : Nat → String → Option String) :
    Faithful (context.recoverUserMessageExcerpts excerpt) expected := by
  refine ⟨h.wellFormed.recoverUserMessageExcerpts excerpt, h.shortId, fun hcomplete acc hacc => ?_⟩
  obtain ⟨hcomplete, hmem⟩ := mem_boundUserMessages hcomplete
  obtain ⟨entry, hentry, hrepr⟩ := h.entries hcomplete acc hacc
  obtain ⟨index, hindex, rfl⟩ := getElem_of_mem hentry
  refine ⟨_, (hmem _).mpr (mem_mapIdx.mpr ⟨index, hindex, rfl⟩), ?_⟩
  exact hrepr.recoverExcerpt (h.shortId acc hacc) excerpt index

/-! ## Rolling back -/

theorem Faithful.rollback (h : Faithful context expected) (turnIds : List String)
    (firstRemoved : Option String) (source : RetainedInputSource) :
    Faithful (context.rollback turnIds firstRemoved source)
      (remaining context expected (.rollback turnIds firstRemoved source)) := by
  have hwf := h.wellFormed.rollback turnIds firstRemoved source
  simp only [RetainedContext.rollback, remaining] at hwf ⊢
  cases hbnd : context.boundary firstRemoved source with
  | some boundary =>
    simp only [hbnd] at hwf ⊢
    refine ⟨hwf, fun acc hacc => h.shortId acc (mem_filter.mp hacc).1, fun hcomplete acc hacc => ?_⟩
    obtain ⟨hacc, hbefore⟩ := mem_filter.mp hacc
    obtain ⟨entry, hentry, hrepr⟩ := h.entries hcomplete acc hacc
    have hkey : entry.key = .localOrder acc.order := by
      rw [Ordered.key, hrepr.ownInput, hrepr.order]
      rfl
    exact ⟨entry, mem_filter.mpr ⟨hentry, hkey ▸ hbefore⟩, hrepr⟩
  | none =>
    simp only [hbnd] at hwf ⊢
    split
    · exact ⟨hwf, by simp, by simp⟩
    · rename_i hdrops
      refine ⟨hwf, h.shortId, fun hcomplete acc hacc => ?_⟩
      -- the family was not marked, so no id was given and no message is of the removed turns
      simp only [Bool.or_eq_false_iff] at hcomplete
      obtain ⟨hcomplete, hid, hturns⟩ := hcomplete
      have hsrc : source ≠ .inherited := by
        intro hsrc
        rw [Option.isSome_eq_false_iff] at hid
        exact hdrops (by simp [dropsUnmarked, hsrc, hid, hturns])
      obtain ⟨entry, hentry, hrepr⟩ := h.entries hcomplete acc hacc
      refine ⟨entry, mem_filter.mpr ⟨hentry, ?_⟩, hrepr⟩
      rw [hasMessageOf, any_eq_false] at hturns
      rw [decide_eq_true hsrc, Bool.true_or, Bool.true_and,
        Bool.eq_false_iff.mpr (hturns entry hentry), Bool.not_false]

/-! ## Operations on the other families -/

/-- The messages and their mark are as before. -/
structure SameMessages (before after : RetainedContext) : Prop where
  messages : after.userMessages = before.userMessages
  incomplete : after.userMessagesIncomplete = before.userMessagesIncomplete

theorem SameMessages.trans {first second third : RetainedContext}
    (h : SameMessages first second) (h' : SameMessages second third) : SameMessages first third :=
  ⟨h'.messages.trans h.messages, h'.incomplete.trans h.incomplete⟩

theorem SameMessages.foldl {α : Type} {step : RetainedContext → α → RetainedContext}
    (hstep : ∀ context item, SameMessages context (step context item)) (items : List α)
    (context : RetainedContext) : SameMessages context (items.foldl step context) := by
  induction items generalizing context with
  | nil => exact ⟨rfl, rfl⟩
  | cons item items ih => exact (hstep context item).trans (ih _)

theorem Faithful.of_sameMessages {after : RetainedContext} (h : Faithful context expected)
    (hsame : SameMessages context after) (hwf : WellFormed after) : Faithful after expected :=
  ⟨hwf, h.shortId, fun hcomplete => by
    rw [hsame.messages]
    exact h.entries (hsame.incomplete ▸ hcomplete)⟩

theorem sameMessages_recordSenderUserMessages (context : RetainedContext)
    (metadata : InputMetadata) :
    SameMessages context (context.recordSenderUserMessages metadata) := by
  unfold recordSenderUserMessages
  split
  · exact ⟨rfl, rfl⟩
  · split <;> exact ⟨rfl, rfl⟩

theorem sameMessages_record (context : RetainedContext) (event : RetainedContextEvent) :
    SameMessages context (context.record event) := by
  simp only [record]
  split
  · exact ⟨rfl, rfl⟩
  · split <;> exact ⟨rfl, rfl⟩

theorem sameMessages_restoreOrder (context : RetainedContext) (metadata : InputMetadata) :
    SameMessages context (context.restoreOrder metadata) := by
  unfold restoreOrder
  split <;> exact ⟨rfl, rfl⟩

/-! ## Restoring -/

/-- Bounded messages are read back as they are. -/
theorem foldl_restoreMessage {msgs : List (Ordered RetainedUserMessage)}
    (h : ∀ entry ∈ msgs, recordLen entry.value ≤ maxRecordBytes) (context : RetainedContext) :
    (msgs.foldl restoreMessage context).userMessages = context.userMessages ++ msgs ∧
      (msgs.foldl restoreMessage context).userMessagesIncomplete =
        context.userMessagesIncomplete := by
  induction msgs generalizing context with
  | nil => exact ⟨(append_nil _).symm, rfl⟩
  | cons entry msgs ih =>
    have hentry : { entry with value := entry.value.bound } = entry := by
      rw [RetainedUserMessage.bound, if_pos (h entry mem_cons_self)]
    have hstep : (context.restoreMessage entry).userMessages = context.userMessages ++ [entry] ∧
        (context.restoreMessage entry).userMessagesIncomplete = context.userMessagesIncomplete := by
      simp only [restoreMessage, hentry]
      split <;> exact ⟨rfl, rfl⟩
    obtain ⟨hmsgs, hflag⟩ := ih (fun other hother => h other (mem_cons_of_mem _ hother))
      (context.restoreMessage entry)
    rw [foldl_cons, hmsgs, hflag, hstep.1, hstep.2, append_assoc, singleton_append]
    exact ⟨rfl, rfl⟩

/-- A family within its limits is not changed by bounding it. -/
theorem sameMessages_boundUserMessages (h : Bounded context.userMessages) :
    SameMessages context context.boundUserMessages := by
  have hsort : sortByKey Ordered.key context.userMessages = context.userMessages :=
    sortByKey_eq_self h.sorted
  constructor
  · simp only [boundUserMessages, boundFamily, hsort, newest_eq_self h.fits_eq_true]
  · simp only [boundUserMessages, boundFamily, hsort, h.fits_eq_true, Bool.not_true, Bool.or_false]

/-- **A context restored from itself** has its messages and their mark. -/
theorem sameMessages_restore (h : WellFormed context)
    (survivingItems : List (Option InputMetadata)) :
    SameMessages context (restore (some context) survivingItems) := by
  simp only [restore, Option.getD_some]
  generalize survivingItems.filterMap (fun metadata => metadata) = metadata
  have hanswers := SameMessages.foldl
    (fun context entry => (⟨rfl, rfl⟩ : SameMessages context (context.restoreAnswer entry)))
    context.verifiedAnswers
    { context with verifiedAnswers := [], userMessages := [], senderDeliveries := [] }
  generalize context.verifiedAnswers.foldl restoreAnswer _ = answered at hanswers ⊢
  obtain ⟨hmsgs, hflag⟩ :=
    foldl_restoreMessage (fun entry hentry => (h.messages entry hentry).1) answered
  have hrest : SameMessages context (context.userMessages.foldl restoreMessage answered) :=
    ⟨by rw [hmsgs, hanswers.messages, nil_append], by rw [hflag, hanswers.incomplete]⟩
  generalize context.userMessages.foldl restoreMessage answered = restored at hrest ⊢
  have hdelivered := hrest.trans (SameMessages.foldl
    (fun context entry => (⟨rfl, rfl⟩ : SameMessages context (context.restoreDelivery entry)))
    context.senderDeliveries restored)
  have hbounded : SameMessages context
      (context.senderDeliveries.foldl restoreDelivery restored).boundSenderDeliveries :=
    hdelivered.trans ⟨rfl, rfl⟩
  have hrecorded := hbounded.trans
    (SameMessages.foldl sameMessages_recordSenderUserMessages metadata _)
  have hord := hrecorded.trans (SameMessages.foldl sameMessages_restoreOrder metadata _)
  generalize metadata.foldl restoreOrder _ = ordered at hord ⊢
  have hanswered : SameMessages context ordered.boundVerifiedAnswers := hord.trans ⟨rfl, rfl⟩
  refine hanswered.trans (sameMessages_boundUserMessages ?_)
  rw [hanswered.messages]
  exact h.bounded_messages

/-- **A checkpoint keeps the messages** of every context that operations reach. -/
theorem restore_run (operations : List Operation) (survivingItems : List (Option InputMetadata)) :
    let context := operations.foldl RetainedContext.apply {}
    SameMessages context (restore (some context) survivingItems) :=
  sameMessages_restore (wellFormed_foldl_apply operations) survivingItems

/-! ## Every run -/

theorem Faithful.apply (h : Faithful context expected) {operation : Operation}
    (hallowed : Allowed context operation) :
    Faithful (context.apply operation) (remaining context expected operation) := by
  have hwf := h.wellFormed.apply operation
  cases operation with
  | recordUserMessage message source =>
    obtain ⟨hsrc, hshort⟩ := hallowed
    cases source with
    | inherited => exact absurd rfl hsrc
    | localInput order => exact h.recordUserMessage hshort order
  | record event => exact h.of_sameMessages (sameMessages_record context event) hwf
  | recordSenderUserMessages metadata =>
    exact h.of_sameMessages (sameMessages_recordSenderUserMessages context metadata) hwf
  | reserveOrder | retainAnswers keep => exact h.of_sameMessages ⟨rfl, rfl⟩ hwf
  | recoverUserMessageExcerpts excerptForId => exact h.recoverUserMessageExcerpts excerptForId
  | rollback turnIds firstRemoved source =>
    exact h.rollback turnIds firstRemoved source
  | restore checkpoint survivingItems =>
    subst hallowed
    exact h.of_sameMessages (sameMessages_restore h.wellFormed survivingItems) hwf

theorem Reaches.faithful (h : Reaches context expected) : Faithful context expected := by
  induction h with
  | start => exact ⟨wellFormed_default, by simp, by simp⟩
  | step _ _ hallowed ih => exact ih.apply hallowed

/-- **Completeness is never claimed too much.** When a context that operations reach claims
that its messages are complete, every message that was recorded, was not replaced and was
not removed by a rollback, at a boundary or without a mark, is there as it was recorded. -/
theorem complete_run (h : Reaches context expected)
    (hcomplete : context.userMessagesComplete = true) :
    ∀ accepted ∈ expected, ∃ entry ∈ context.userMessages, entry.value = accepted.message := by
  intro accepted hacc
  simp only [userMessagesComplete, Bool.and_eq_true, Bool.not_eq_true', all_eq_true]
    at hcomplete
  obtain ⟨entry, hentry, hrepr⟩ := h.faithful.entries hcomplete.1 accepted hacc
  refine ⟨entry, hentry, hrepr.value.resolve_right ?_⟩
  rw [hcomplete.2 entry hentry]
  decide

/-- A message is recorded and the context restored from itself. -/
def resumed : RetainedContext :=
  let recorded := RetainedContext.apply {} (.recordUserMessage lastMessage (.localInput none))
  recorded.apply (.restore (some recorded) [])

set_option maxRecDepth 4000 in
theorem complete_run_resumed :
    Reaches resumed [⟨lastMessage, 0⟩] ∧ resumed.userMessagesComplete = true ∧
      ∃ entry ∈ resumed.userMessages, entry.value = lastMessage := by
  have hrecorded : Reaches _ [⟨lastMessage, 0⟩] :=
    .step (.recordUserMessage lastMessage (.localInput none)) .start
      ⟨by decide, "message", rfl, by decide⟩
  have hresumed : Reaches resumed [⟨lastMessage, 0⟩] := .step (.restore _ []) hrecorded rfl
  have hcomplete : resumed.userMessagesComplete = true := by decide
  exact ⟨hresumed, hcomplete, complete_run hresumed hcomplete ⟨lastMessage, 0⟩ mem_cons_self⟩

set_option maxRecDepth 4000 in
/-- **A rollback to an inherited instruction** has no boundary, removes the local messages
and does not mark the family. -/
theorem complete_after_inherited_rollback :
    let recorded := RetainedContext.apply {} (.recordUserMessage lastMessage (.localInput none))
    let rolled := recorded.apply (.rollback [] none .inherited)
    recorded.boundary none .inherited = none ∧ rolled.userMessages = [] ∧
      rolled.userMessagesComplete = true := by
  decide

end RetainedContext

end RenCrow.Retained
