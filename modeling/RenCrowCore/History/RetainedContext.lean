import RenCrowCore.History.RetainedContextBasic

/-!
# Retained context: its invariant

What holds of the retained context in every state that its operations can reach, from
whatever checkpoint it was restored.

* `recordLen_message_bound`, `recordLen_answer_bound`: a bounded record is within the
  limit, whatever escapes its ids need;
* `RetainedContext.WellFormed`: the families are sorted and within their limits, and the
  counter is past every local order, unless it is saturated;
* `RetainedContext.wellFormed_run`: every run of operations keeps it so.
-/

namespace RenCrow.Retained

open Serde Newest Text List Json

/-! ## The size of records -/

theorem byteLen_truncateId_le (limit : Nat) (id : String) :
    byteLen (truncateId limit id).toList ≤ limit := by
  unfold truncateId
  rw [String.toList_ofList]
  cases h : splitBytes id.toList (boundaryBefore id.toList limit) with
  | none => exact Nat.zero_le _
  | some parts =>
    obtain ⟨-, hlen⟩ := splitBytes_eq_some_iff.mp h
    rw [Option.map_some, Option.getD_some, hlen]
    exact boundaryBefore_le _ _

/-- An id within the limit is not cut. -/
theorem truncateId_eq_self {limit : Nat} {id : String}
    (h : byteLen id.toList ≤ limit) : truncateId limit id = id := by
  have hend : splitBytes id.toList (byteLen id.toList) = some (id.toList, []) :=
    splitBytes_eq_some_iff.mpr ⟨by simp, rfl⟩
  have hfloor : boundaryBefore id.toList limit = byteLen id.toList := by
    refine le_antisymm ?_ (le_boundaryBefore (by rw [isBoundary, hend]; rfl) h)
    obtain ⟨before, after, htext, hlen⟩ :=
      isBoundary_iff.mp (isBoundary_boundaryBefore id.toList limit)
    rw [← hlen, htext, byteLen_append]
    exact Nat.le_add_right _ _
  rw [truncateId, hfloor, hend, Option.map_some, Option.getD_some, String.ofList_toList]

theorem byteLen_renderString_truncateId_le (id : String) :
    byteLen (renderString (truncateId 1024 id)) ≤ 6146 := by
  have hbytes := byteLen_truncateId_le 1024 id
  have hstring := byteLen_renderString_le (truncateId 1024 id)
  omega

/-- **A bounded message is within the limit.** -/
theorem recordLen_message_bound (message : RetainedUserMessage) :
    recordLen message.bound ≤ maxRecordBytes := by
  unfold RetainedUserMessage.bound
  split
  · assumption
  · have hturn := byteLen_renderString_truncateId_le message.turnId
    have hid : byteLen (render (ofOption string
        (message.messageId.map (truncateId 1024)))) ≤ 6146 := by
      cases message.messageId with
      | none => decide
      | some id => exact byteLen_renderString_truncateId_le id
    simp only [recordLen, Record.fields, serializedLen, render, renderFields,
      byteLen_cons, byteLen_append, maxRecordBytes, cons_append]
    generalize byteLen (renderString (truncateId 1024 message.turnId)) = turn at hturn ⊢
    simp [renderString, renderChar, Char.utf8Size]
    omega

/-- A message is found under its id after it was bounded, if the id is short. -/
theorem messageId_bound {message : RetainedUserMessage}
    (h : ∀ id ∈ message.messageId, byteLen id.toList ≤ 1024) :
    message.bound.messageId = message.messageId := by
  unfold RetainedUserMessage.bound
  split
  · rfl
  · cases hid : message.messageId with
    | none => rfl
    | some id =>
      rw [Option.map_some, truncateId_eq_self (h id hid)]

/-- **A bounded answer is within the limit.** -/
theorem recordLen_answer_bound (answer : VerifiedAnswer) :
    recordLen answer.bound ≤ maxRecordBytes := by
  unfold VerifiedAnswer.bound
  split
  · assumption
  · have hturn := byteLen_renderString_truncateId_le answer.turnId
    have hcall := byteLen_renderString_truncateId_le answer.callId
    simp only [recordLen, Record.fields, serializedLen, render, renderFields,
      byteLen_cons, byteLen_append, maxRecordBytes, cons_append]
    generalize byteLen (renderString (truncateId 1024 answer.turnId)) = turn at hturn ⊢
    generalize byteLen (renderString (truncateId 1024 answer.callId)) = call at hcall ⊢
    simp [renderString, renderChar, renderItems, Char.utf8Size]
    omega

/-! ## Families -/

variable {T : Type} {items part : List (Ordered T)}

section Family

variable [Record T]

/-- A family is in order and within its limits. -/
structure Bounded (items : List (Ordered T)) : Prop where
  sorted : items.Pairwise fun a b => a.key ≤ b.key
  length_le : items.length ≤ maxFamilyRecords
  bytes_le : (Json.array (items.map Ordered.encode)).serializedLen ≤ maxFamilyBytes

theorem fits_iff : fits items = true ↔ items.length ≤ maxFamilyRecords ∧
    (array (items.map Ordered.encode)).serializedLen ≤ maxFamilyBytes := by
  simp [fits]

theorem fits_nil : fits ([] : List (Ordered T)) = true := by
  rw [fits_iff, map_nil]
  exact ⟨Nat.zero_le _, by decide⟩

/-- Fewer records fit where more do. -/
theorem fits_mono (hpart : part.Sublist items) (h : fits items = true) : fits part = true := by
  obtain ⟨hlen, hbytes⟩ := fits_iff.mp h
  exact fits_iff.mpr ⟨hpart.length_le.trans hlen,
    (serializedLen_array_le_of_sublist (hpart.map _)).trans hbytes⟩

theorem Bounded.fits_eq_true (h : Bounded items) : fits items = true :=
  fits_iff.mpr ⟨h.length_le, h.bytes_le⟩

theorem Bounded.of_sublist (h : Bounded items) (hpart : part.Sublist items) : Bounded part := by
  obtain ⟨hlen, hbytes⟩ := fits_iff.mp (fits_mono hpart h.fits_eq_true)
  exact ⟨h.sorted.sublist hpart, hlen, hbytes⟩

theorem bounded_boundFamily (items : List (Ordered T)) : Bounded (boundFamily items).1 := by
  obtain ⟨hlen, hbytes⟩ := fits_iff.mp (fits_newest fits_nil (sortByKey Ordered.key items))
  exact ⟨(pairwise_sortByKey items).sublist (newest_sublist _ _), hlen, hbytes⟩

theorem boundFamily_subset (items : List (Ordered T)) : (boundFamily items).1 ⊆ items :=
  fun _ h => mem_sortByKey.mp ((newest_sublist _ _).subset h)

end Family

/-! ## Entries -/

theorem lt_u64Succ (n : U64) : n = u64Max ∨ n < u64Succ n := by
  unfold u64Succ
  split
  · exact .inr (Fin.lt_def.mpr (Nat.lt_succ_self _))
  · exact .inl (Fin.ext (by simp only [u64Max]; omega))

theorem le_u64Max (n : U64) : n ≤ u64Max := Fin.le_def.mpr (by simp only [u64Max]; omega)

section Entries

variable {admissible : T → Prop} {next later order : U64}

/-- The counter is past an order, unless it is saturated. -/
def Past (next order : U64) : Prop := next = u64Max ∨ order < next

theorem Past.mono (h : Past next order) (hle : next ≤ later) : Past later order := by
  rcases h with rfl | h
  · exact .inl (le_antisymm (le_u64Max later) hle)
  · exact .inr (lt_of_lt_of_le h hle)

theorem past_max_u64Succ (next order : U64) : Past (max next (u64Succ order)) order := by
  rcases lt_u64Succ order with rfl | h
  · exact .inl (le_antisymm (le_u64Max _) (le_max_of_le_right (by decide)))
  · exact .inr (lt_of_lt_of_le h (le_max_right _ _))

/-- The records of a family are admissible, and the counter is past the local orders. -/
def Admitted (admissible : T → Prop) (next : U64) (items : List (Ordered T)) : Prop :=
  ∀ entry ∈ items, admissible entry.value ∧ (entry.inherited = false → Past next entry.order)

theorem Admitted.of_subset (h : Admitted admissible next items) (hpart : part ⊆ items) :
    Admitted admissible next part :=
  fun entry hentry => h entry (hpart hentry)

theorem Admitted.mono (h : Admitted admissible next items) (hle : next ≤ later) :
    Admitted admissible later items :=
  fun entry hentry => ⟨(h entry hentry).1, fun hlocal => ((h entry hentry).2 hlocal).mono hle⟩

theorem Admitted.push {inherited : Bool} {value : T} (h : Admitted admissible next items)
    (hvalue : admissible value) (hpast : inherited = false → Past next order) :
    Admitted admissible next (items ++ [⟨inherited, order, value⟩]) := by
  intro entry hentry
  rcases mem_append.mp hentry with hentry | hentry
  · exact h entry hentry
  · rw [mem_singleton.mp hentry]
    exact ⟨hvalue, hpast⟩

end Entries

/-! ## The invariant -/

namespace RetainedContext

variable {context : RetainedContext}

/-- The records are bounded, and the counter is past every local order. -/
structure Sound (context : RetainedContext) : Prop where
  answers : Admitted (recordLen · ≤ maxRecordBytes) context.nextOrder context.verifiedAnswers
  messages : Admitted (recordLen · ≤ maxRecordBytes) context.nextOrder context.userMessages
  deliveries : Admitted (fun _ => True) context.nextOrder context.senderDeliveries

/-- The representation invariant: sound records in bounded families. -/
structure WellFormed (context : RetainedContext) : Prop extends Sound context where
  bounded_answers : Bounded context.verifiedAnswers
  bounded_messages : Bounded context.userMessages
  bounded_deliveries : Bounded context.senderDeliveries

theorem le_advance (context : RetainedContext) (order : U64) :
    context.nextOrder ≤ (context.advance order).nextOrder := le_max_left _ _

theorem past_advance (context : RetainedContext) (order : U64) :
    Past (context.advance order).nextOrder order := past_max_u64Succ _ _

theorem Sound.advance (h : Sound context) (order : U64) : Sound (context.advance order) :=
  ⟨h.answers.mono (context.le_advance order), h.messages.mono (context.le_advance order),
    h.deliveries.mono (context.le_advance order)⟩

/-- Without records there is nothing to hold. -/
theorem sound_of_empty (hanswers : context.verifiedAnswers = [])
    (hmsgs : context.userMessages = []) (hdels : context.senderDeliveries = []) : Sound context :=
  ⟨by simp [Admitted, hanswers], by simp [Admitted, hmsgs], by simp [Admitted, hdels]⟩

theorem wellFormed_default : WellFormed {} :=
  ⟨sound_of_empty rfl rfl rfl, (bounded_boundFamily []).of_sublist (nil_sublist _),
    (bounded_boundFamily []).of_sublist (nil_sublist _),
    (bounded_boundFamily []).of_sublist (nil_sublist _)⟩

variable (h : WellFormed context)

include h in
/-- Fewer records, under the same counter. -/
theorem WellFormed.of_sublist {smaller : RetainedContext}
    (hnext : smaller.nextOrder = context.nextOrder)
    (hanswers : smaller.verifiedAnswers.Sublist context.verifiedAnswers)
    (hmsgs : smaller.userMessages.Sublist context.userMessages)
    (hdels : smaller.senderDeliveries.Sublist context.senderDeliveries) : WellFormed smaller where
  answers := hnext ▸ h.answers.of_subset hanswers.subset
  messages := hnext ▸ h.messages.of_subset hmsgs.subset
  deliveries := hnext ▸ h.deliveries.of_subset hdels.subset
  bounded_answers := h.bounded_answers.of_sublist hanswers
  bounded_messages := h.bounded_messages.of_sublist hmsgs
  bounded_deliveries := h.bounded_deliveries.of_sublist hdels

/-! ## Bounding a family -/

theorem Sound.boundVerifiedAnswers (h : Sound context) : Sound context.boundVerifiedAnswers :=
  ⟨h.answers.of_subset (boundFamily_subset _), h.messages, h.deliveries⟩

theorem Sound.boundUserMessages (h : Sound context) : Sound context.boundUserMessages :=
  ⟨h.answers, h.messages.of_subset (boundFamily_subset _), h.deliveries⟩

theorem Sound.boundSenderDeliveries (h : Sound context) : Sound context.boundSenderDeliveries :=
  ⟨h.answers, h.messages, h.deliveries.of_subset (boundFamily_subset _)⟩

/-! ## One operation -/

include h in
theorem WellFormed.reserveOrder : WellFormed context.reserveOrder.2 := by
  have hle : context.nextOrder ≤ context.reserveOrder.2.nextOrder := by
    rcases lt_u64Succ context.nextOrder with heq | hlt
    · simp only [RetainedContext.reserveOrder, heq]
      decide
    · exact hlt.le
  exact ⟨⟨h.answers.mono hle, h.messages.mono hle, h.deliveries.mono hle⟩, h.bounded_answers,
    h.bounded_messages, h.bounded_deliveries⟩

theorem Sound.recordSenderUserMessages (h : Sound context) (metadata : InputMetadata) :
    Sound (context.recordSenderUserMessages metadata) := by
  unfold RetainedContext.recordSenderUserMessages
  split
  · exact h
  · split
    · exact h
    · have hadvanced := h.advance (metadata.userInputOrder.getD context.nextOrder)
      exact Sound.boundSenderDeliveries ⟨hadvanced.answers, hadvanced.messages,
        hadvanced.deliveries.push trivial fun _ => context.past_advance _⟩

theorem bounded_recordSenderUserMessages (h : Bounded context.senderDeliveries)
    (metadata : InputMetadata) :
    Bounded (context.recordSenderUserMessages metadata).senderDeliveries := by
  unfold recordSenderUserMessages
  split
  · exact h
  · split
    · exact h
    · exact bounded_boundFamily _

/-- The delivery leaves the other families alone. -/
theorem recordSenderUserMessages_frame (context : RetainedContext) (metadata : InputMetadata) :
    (context.recordSenderUserMessages metadata).verifiedAnswers = context.verifiedAnswers ∧
      (context.recordSenderUserMessages metadata).userMessages = context.userMessages := by
  unfold recordSenderUserMessages
  split
  · exact ⟨rfl, rfl⟩
  · split <;> exact ⟨rfl, rfl⟩

include h in
theorem WellFormed.recordSenderUserMessages (metadata : InputMetadata) :
    WellFormed (context.recordSenderUserMessages metadata) := by
  obtain ⟨hanswers, hmsgs⟩ := context.recordSenderUserMessages_frame metadata
  exact ⟨h.toSound.recordSenderUserMessages metadata, hanswers ▸ h.bounded_answers,
    hmsgs ▸ h.bounded_messages, bounded_recordSenderUserMessages h.bounded_deliveries metadata⟩

include h in
theorem WellFormed.pushUserMessage {message : RetainedUserMessage}
    (hmsg : recordLen message ≤ maxRecordBytes) (source : RetainedInputSource) :
    WellFormed (context.pushUserMessage message source) := by
  cases source with
  | inherited =>
    exact ⟨Sound.boundUserMessages ⟨h.answers, h.messages.push hmsg (by simp), h.deliveries⟩,
      h.bounded_answers, bounded_boundFamily _, h.bounded_deliveries⟩
  | localInput order =>
    have hadvanced := h.toSound.advance (order.getD context.nextOrder)
    exact ⟨Sound.boundUserMessages ⟨hadvanced.answers,
        hadvanced.messages.push hmsg fun _ => context.past_advance _, hadvanced.deliveries⟩,
      h.bounded_answers, bounded_boundFamily _, h.bounded_deliveries⟩

include h in
theorem WellFormed.recordUserMessage (message : RetainedUserMessage)
    (source : RetainedInputSource) : WellFormed (context.recordUserMessage message source) := by
  have hbound := recordLen_message_bound message
  simp only [RetainedContext.recordUserMessage]
  split
  · refine WellFormed.pushUserMessage ?_ hbound source
    exact h.of_sublist rfl (.refl _) (.refl _) (.refl _)
  · split
    · exact h.of_sublist rfl (.refl _) (.refl _) (.refl _)
    · refine WellFormed.pushUserMessage ?_ hbound source
      exact h.of_sublist rfl (.refl _) (eraseIdx_sublist _ _) (.refl _)

theorem recoverExcerpt_admitted {excerpt : Nat → String → Option String} {index : Nat}
    {entry : Ordered RetainedUserMessage} (h : recordLen entry.value ≤ maxRecordBytes) :
    recordLen (recoverExcerpt excerpt index entry).value ≤ maxRecordBytes ∧
      (recoverExcerpt excerpt index entry).inherited = entry.inherited ∧
      (recoverExcerpt excerpt index entry).order = entry.order := by
  unfold recoverExcerpt
  split
  · split
    · refine ⟨?_, rfl, rfl⟩
      dsimp only
      exact recordLen_message_bound _
    · exact ⟨h, rfl, rfl⟩
  · exact ⟨h, rfl, rfl⟩

include h in
theorem WellFormed.recoverUserMessageExcerpts (excerpt : Nat → String → Option String) :
    WellFormed (context.recoverUserMessageExcerpts excerpt) := by
  have hmsgs : Admitted (recordLen · ≤ maxRecordBytes) context.nextOrder
      (context.userMessages.mapIdx (recoverExcerpt excerpt)) := by
    intro entry hentry
    obtain ⟨index, hindex, rfl⟩ := mem_mapIdx.mp hentry
    obtain ⟨hlen, hpast⟩ := h.messages _ (getElem_mem hindex)
    obtain ⟨hlen', hinh, horder⟩ := recoverExcerpt_admitted hlen
    exact ⟨hlen', fun hlocal => horder ▸ hpast (hinh ▸ hlocal)⟩
  exact ⟨Sound.boundUserMessages ⟨h.answers, hmsgs, h.deliveries⟩, h.bounded_answers,
    bounded_boundFamily _, h.bounded_deliveries⟩

include h in
theorem WellFormed.pushVerifiedAnswer {answer : VerifiedAnswer}
    (hanswer : recordLen answer ≤ maxRecordBytes) (acceptanceOrder : Option U64) :
    WellFormed (context.pushVerifiedAnswer answer acceptanceOrder) := by
  have hadvanced := h.toSound.advance (acceptanceOrder.getD context.nextOrder)
  exact ⟨Sound.boundVerifiedAnswers
      ⟨hadvanced.answers.push hanswer fun _ => context.past_advance _, hadvanced.messages,
        hadvanced.deliveries⟩, bounded_boundFamily _, h.bounded_messages, h.bounded_deliveries⟩

include h in
theorem WellFormed.record (event : RetainedContextEvent) : WellFormed (context.record event) := by
  obtain ⟨answer, acceptanceOrder⟩ := event
  have hbound := recordLen_answer_bound answer
  simp only [RetainedContext.record]
  split
  · exact h.pushVerifiedAnswer hbound acceptanceOrder
  · split
    · exact h
    · refine WellFormed.pushVerifiedAnswer ?_ hbound acceptanceOrder
      exact h.of_sublist rfl (eraseIdx_sublist _ _) (.refl _) (.refl _)

include h in
theorem WellFormed.retainAnswers (keep : Nat → VerifiedAnswer → Bool) :
    WellFormed (context.retainAnswers keep) := by
  have hkept : (context.retainAnswers keep).verifiedAnswers.Sublist context.verifiedAnswers := by
    have hfilt := (filter_sublist (p := fun entry : Ordered VerifiedAnswer × Nat =>
      keep entry.2 entry.1.value) (l := context.verifiedAnswers.zipIdx)).map Prod.fst
    rwa [zipIdx_map_fst] at hfilt
  exact h.of_sublist rfl hkept (.refl _) (.refl _)

include h in
theorem WellFormed.rollback (turnIds : List String)
    (firstRemoved : Option String) (source : RetainedInputSource) :
    WellFormed (context.rollback turnIds firstRemoved source) := by
  unfold RetainedContext.rollback
  split <;>
    exact h.of_sublist rfl filter_sublist filter_sublist filter_sublist

/-! ## Restoring -/

theorem Sound.restoreAnswer (h : Sound context) (entry : Ordered VerifiedAnswer) :
    Sound (context.restoreAnswer entry) := by
  have hadvanced := h.advance entry.order
  exact ⟨hadvanced.answers.push (recordLen_answer_bound _) fun _ => context.past_advance _,
    hadvanced.messages, hadvanced.deliveries⟩

theorem Sound.restoreMessage (h : Sound context) (entry : Ordered RetainedUserMessage) :
    Sound (context.restoreMessage entry) := by
  simp only [RetainedContext.restoreMessage]
  split
  · next hinh =>
      exact ⟨h.answers, h.messages.push (recordLen_message_bound _) (by simp [hinh]), h.deliveries⟩
  · have hadvanced := h.advance entry.order
    exact ⟨hadvanced.answers,
      hadvanced.messages.push (recordLen_message_bound _) fun _ => context.past_advance _,
      hadvanced.deliveries⟩

theorem Sound.restoreDelivery (h : Sound context) (entry : Ordered SenderUserMessages) :
    Sound (context.restoreDelivery entry) := by
  have hadvanced := h.advance entry.order
  exact ⟨hadvanced.answers, hadvanced.messages,
    hadvanced.deliveries.push trivial fun _ => context.past_advance _⟩

theorem Sound.restoreOrder (h : Sound context) (metadata : InputMetadata) :
    Sound (context.restoreOrder metadata) := by
  unfold RetainedContext.restoreOrder
  split
  · exact h.advance _
  · exact h

theorem restoreOrder_senderDeliveries (context : RetainedContext) (metadata : InputMetadata) :
    (context.restoreOrder metadata).senderDeliveries = context.senderDeliveries := by
  unfold restoreOrder
  split <;> rfl

/-- **Whatever the checkpoint is, what is restored from it is well formed.** -/
theorem wellFormed_restore (checkpoint : Option RetainedContext)
    (survivingItems : List (Option InputMetadata)) :
    WellFormed (restore checkpoint survivingItems) := by
  simp only [restore]
  generalize checkpoint.getD { userMessagesIncomplete := true } = saved
  generalize survivingItems.filterMap (fun metadata => metadata) = metadata
  have hempty : Sound { saved with
      verifiedAnswers := [], userMessages := [], senderDeliveries := [] } :=
    sound_of_empty rfl rfl rfl
  have hanswers := List.foldlRecOn saved.verifiedAnswers restoreAnswer hempty
    fun _ h entry _ => h.restoreAnswer entry
  have hmsgs := List.foldlRecOn saved.userMessages restoreMessage hanswers
    fun _ h entry _ => h.restoreMessage entry
  have hdels := List.foldlRecOn saved.senderDeliveries restoreDelivery hmsgs
    fun _ h entry _ => h.restoreDelivery entry
  -- the deliveries stay bounded from here on; the other families are bounded at the end
  have hrecorded := List.foldlRecOn
    (motive := fun context => Sound context ∧ Bounded context.senderDeliveries)
    metadata recordSenderUserMessages
    ⟨hdels.boundSenderDeliveries, bounded_boundFamily _⟩ fun _ h entry _ =>
      ⟨h.1.recordSenderUserMessages entry, bounded_recordSenderUserMessages h.2 entry⟩
  have hord := List.foldlRecOn
    (motive := fun context => Sound context ∧ Bounded context.senderDeliveries)
    metadata restoreOrder hrecorded fun context h entry _ =>
      ⟨h.1.restoreOrder entry, context.restoreOrder_senderDeliveries entry ▸ h.2⟩
  exact ⟨hord.1.boundVerifiedAnswers.boundUserMessages, bounded_boundFamily _,
    bounded_boundFamily _, hord.2⟩

/-! ## Every run -/

include h in
theorem WellFormed.apply (operation : Operation) : WellFormed (context.apply operation) := by
  cases operation with
  | recordUserMessage message source => exact h.recordUserMessage message source
  | record event => exact h.record event
  | recordSenderUserMessages metadata => exact h.recordSenderUserMessages metadata
  | reserveOrder => exact h.reserveOrder
  | recoverUserMessageExcerpts excerptForId => exact h.recoverUserMessageExcerpts excerptForId
  | retainAnswers keep => exact h.retainAnswers keep
  | rollback turnIds firstRemoved source =>
    exact h.rollback turnIds firstRemoved source
  | restore checkpoint survivingItems => exact wellFormed_restore checkpoint survivingItems

theorem wellFormed_foldl_apply (ops : List Operation) : WellFormed (ops.foldl apply {}) :=
  List.foldlRecOn ops apply wellFormed_default fun _ h op _ => h.apply op

/-- The orders of the owning thread that a family holds. -/
def localOrders {T : Type} (items : List (Ordered T)) : List U64 :=
  (items.filter fun entry => !entry.inherited).map Ordered.order

/-- The orders of the owning thread that are in use. -/
def usedOrders (context : RetainedContext) : List U64 :=
  localOrders context.verifiedAnswers ++ localOrders context.userMessages ++
    localOrders context.senderDeliveries

theorem past_of_mem_localOrders {T : Type} {admissible : T → Prop} {next order : U64}
    {items : List (Ordered T)} (h : Admitted admissible next items)
    (horder : order ∈ localOrders items) : Past next order := by
  simp only [localOrders, mem_map, mem_filter, Bool.not_eq_true'] at horder
  obtain ⟨entry, ⟨hentry, hlocal⟩, rfl⟩ := horder
  exact (h entry hentry).2 hlocal

theorem Sound.past_of_mem_usedOrders (h : Sound context) {order : U64}
    (horder : order ∈ context.usedOrders) : Past context.nextOrder order := by
  simp only [usedOrders, mem_append] at horder
  rcases horder with (horder | horder) | horder
  · exact past_of_mem_localOrders h.answers horder
  · exact past_of_mem_localOrders h.messages horder
  · exact past_of_mem_localOrders h.deliveries horder

/-- **The representation invariant.** In every state that operations reach, the families
are in order and within their limits, the records are bounded and the counter is past
every local order, unless it is saturated; until then `reserveOrder` returns an order that
is not in use. -/
theorem wellFormed_run (operations : List Operation) :
    let context := operations.foldl RetainedContext.apply {}
    WellFormed context ∧
      (context.nextOrder ≠ u64Max → context.reserveOrder.1 ∉ context.usedOrders) := by
  intro context
  have h : WellFormed context := wellFormed_foldl_apply operations
  refine ⟨h, fun hnext hused => ?_⟩
  rcases h.past_of_mem_usedOrders hused with hmax | hlt
  · exact hnext hmax
  · exact absurd hlt (lt_irrefl _)

/-- A message accepted with the last order. -/
def lastMessage : RetainedUserMessage := ⟨"turn", some "message", "Keep this.", true⟩

set_option maxRecDepth 4000 in
/-- **The saturated counter hands out an order in use.** -/
theorem reserveOrder_in_use :
    let context := RetainedContext.apply {}
      (.recordUserMessage lastMessage (.localInput (some u64Max)))
    context.nextOrder = u64Max ∧ context.reserveOrder.1 ∈ context.usedOrders := by
  decide

end RetainedContext

end RenCrow.Retained
