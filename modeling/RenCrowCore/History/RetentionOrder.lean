import RenCrowCore.History.RetainedContext
import RenCrowCore.Lib.Acceptance

/-!
# Retention and the order of recording

Messages can be recorded in another order than they were accepted in.  What the family
keeps in the end should depend on the messages alone: the newest by acceptance order, up to
the limits.

* `recordUserMessage_userMessages`: recording a message is one acceptance by the family;
* `recordAll_newest_iff`: every order of recording keeps the newest messages exactly when
  these are not disputed and no other message fits beside them;
* `recordAll_order_matters`: a small old message that is recorded late outlives larger
  messages that were accepted after it.
-/

namespace RenCrow.Retained

open Serde Newest Text Ordered RetainedContext List Json

/-! ## Recording as acceptance -/

/-- Two entries hold messages with one id. -/
def sameSource (entry held : Ordered RetainedUserMessage) : Bool :=
  RetainedContext.sameMessage entry.value held

/-- An entry brings nothing new. -/
def unchangedEntry (entry held : Ordered RetainedUserMessage) : Bool :=
  decide (held.value = entry.value) && decide (held.inherited = entry.inherited)

theorem sources_messages : Sources sameSource unchangedEntry where
  symm a b := by
    unfold sameSource sameMessage
    by_cases h : a.value.messageId = b.value.messageId
    · rw [h]
    · rw [decide_eq_false (Ne.symm h), decide_eq_false h, Bool.and_false, Bool.and_false]
  refl a := by simp [unchangedEntry]
  unchanged_symm a b := by simp [unchangedEntry, eq_comm]

theorem limit_fits : Limit (fits (T := RetainedUserMessage)) := ⟨fits_nil, fits_mono⟩

/-- The order adds little to a record. -/
theorem serializedLen_encode_le (entry : Ordered RetainedUserMessage) :
    entry.encode.serializedLen ≤ recordLen entry.value + 200 := by
  have horder := serializedLen_ofNat_le entry.order.val
  have hord := byteLen_renderFields_cons_le "order" (.ofNat entry.order.val)
    (Record.fields entry.value)
  have hflagged := byteLen_renderFields_cons_le "inherited" (.bool true)
    (("order", .ofNat entry.order.val) :: Record.fields entry.value)
  have hkey : byteLen (renderString "order") = 7 := by decide
  have hflag : byteLen (renderString "inherited") = 11 := by decide
  have htrue : serializedLen (.bool true) = 4 := by decide
  unfold encode recordLen
  rw [serializedLen_object, serializedLen_object]
  split
  · rw [singleton_append]
    omega
  · rw [nil_append]
    omega

/-- A bounded message fits alone. -/
theorem fits_singleton {entry : Ordered RetainedUserMessage}
    (h : recordLen entry.value ≤ maxRecordBytes) : fits [entry] = true := by
  have henc := serializedLen_encode_le entry
  refine fits_iff.mpr ⟨Nat.le_of_ble_eq_true rfl, ?_⟩
  rw [map_singleton, serializedLen_array_singleton]
  simp only [maxRecordBytes, maxFamilyBytes] at h ⊢
  omega

/-- A message with its acceptance order. -/
structure Accepted where
  message : RetainedUserMessage
  order : U64
deriving DecidableEq, Repr

/-- The entry that is made of it. -/
def Accepted.entry (accepted : Accepted) : Ordered RetainedUserMessage :=
  ⟨false, accepted.order, accepted.message.bound⟩

open Accepted

theorem Accepted.entry_value (acc : Accepted) : acc.entry.value = acc.message.bound := by
  simp only [entry]

/-- **Recording a message is one acceptance.** -/
theorem recordUserMessage_userMessages (ctx : RetainedContext) (acc : Accepted) :
    (ctx.recordUserMessage acc.message (.localInput (some acc.order))).userMessages =
      accept key fits sameSource unchangedEntry ctx.userMessages acc.entry := by
  simp only [recordUserMessage]
  generalize hbound : acc.message.bound = message
  have hentry : acc.entry = ⟨false, acc.order, message⟩ := by
    rw [entry, hbound]
  have hsame : sameSource ⟨false, acc.order, message⟩ = sameMessage message := rfl
  rw [hentry, accept, hsame]
  cases ctx.userMessages.findIdx? (sameMessage message) with
  | none => rfl
  | some index =>
    dsimp only
    rw [apply_ite userMessages]
    rfl

/-- Messages are recorded one after the other, from nothing. -/
def recordAll (arrivals : List Accepted) : RetainedContext :=
  arrivals.foldl (fun context accepted =>
    context.recordUserMessage accepted.message (.localInput (some accepted.order))) {}

/-- The newest messages by acceptance order, up to the limits. -/
def newestMessages (messages : List Accepted) : List (Ordered RetainedUserMessage) :=
  newestOf Ordered.key fits (messages.map Accepted.entry)

theorem recordAll_userMessages (arrivals : List Accepted) : (recordAll arrivals).userMessages =
    acceptAll key fits sameSource unchangedEntry (arrivals.map entry) := by
  induction arrivals using List.reverseRecOn with
  | nil => rfl
  | append_singleton arrivals acc ih =>
    rw [map_append, map_singleton, acceptAll_append_singleton, ← ih,
      ← recordUserMessage_userMessages, recordAll, foldl_append]
    rfl

variable {messages : List Accepted}

theorem keys_nodup_of_orders (h : (messages.map Accepted.order).Nodup) :
    ((messages.map entry).map key).Nodup := by
  rw [map_map]
  have hkey : key ∘ entry = RetainedContextOrder.localOrder ∘ Accepted.order := rfl
  rw [hkey, ← map_map]
  exact h.map fun _ _ heq => RetainedContextOrder.localOrder.inj heq

/-- Messages with short ids of their own are not taken for each other. -/
theorem pairwise_fresh (hids : (messages.map fun acc => acc.message.messageId).Nodup)
    (hshort : ∀ acc ∈ messages, ∀ id ∈ acc.message.messageId, byteLen id.toList ≤ 1024) :
    (messages.map entry).Pairwise fun a b => sameSource b a = false := by
  rw [pairwise_map]
  refine (pairwise_map.mp hids).imp_of_mem fun ha hb hne => ?_
  rw [sameSource, sameMessage, entry_value, entry_value,
    messageId_bound (hshort _ ha), messageId_bound (hshort _ hb), decide_eq_false hne,
    Bool.and_false]

/-! ## Every order of recording -/

/-- **Every order of recording keeps the newest messages** exactly when no other message has
the id of one of them and no other message fits beside them. -/
theorem recordAll_newest_iff (messages : List Accepted)
    (horders : (messages.map Accepted.order).Nodup) :
    (∀ arrivals : List Accepted, arrivals.Perm messages →
      (recordAll arrivals).userMessages = newestMessages messages) ↔
      Stable Ordered.key fits sameSource (messages.map Accepted.entry) := by
  have hsingle : ∀ entry ∈ messages.map Accepted.entry, fits [entry] = true := by
    intro entry hentry
    obtain ⟨accepted, -, rfl⟩ := mem_map.mp hentry
    refine fits_singleton ?_
    rw [accepted.entry_value]
    exact recordLen_message_bound accepted.message
  rw [← acceptAll_eq_newest_iff limit_fits sources_messages (keys_nodup_of_orders horders) hsingle]
  constructor
  · intro hall entries hperm
    -- an order of the entries is one of the messages
    have hcomp : Relation.Comp (· = List.map Accepted.entry ·) List.Perm entries messages := by
      rw [eq_map_comp_perm]
      exact hperm
    obtain ⟨arrivals, rfl, harrivals⟩ := hcomp
    rw [← recordAll_userMessages]
    exact hall arrivals harrivals
  · intro hall arrivals hperm
    rw [recordAll_userMessages]
    exact hall _ (hperm.map _)

theorem recordAll_newest_iff_pair :
    let messages : List Accepted := [⟨⟨"turn", some "a", "Keep this.", true⟩, 7⟩,
      ⟨⟨"turn", some "b", "And this.", true⟩, 3⟩]
    (messages.map Accepted.order).Nodup ∧
      ((∀ arrivals : List Accepted, arrivals.Perm messages →
        (recordAll arrivals).userMessages = newestMessages messages) ↔
        Stable Ordered.key fits sameSource (messages.map Accepted.entry)) :=
  ⟨by decide, recordAll_newest_iff _ (by decide)⟩

/-! ## Large messages -/

/-- A message of a given length. -/
def page (id : String) (length : Nat) : RetainedUserMessage :=
  ⟨"turn", some id, String.ofList (List.replicate length 'a'), true⟩

theorem byteLen_page (length : Nat) :
    byteLen (renderString (String.ofList (List.replicate length 'a'))) = length + 2 := by
  have hbody : byteLen ((List.replicate length 'a').flatMap renderChar) = length := by
    induction length with
    | zero => rfl
    | succ length ih =>
      have ha : byteLen (renderChar 'a') = 1 := by decide
      rw [replicate_succ, flatMap_cons, byteLen_append, ih, ha, Nat.add_comm]
  have hquote : '"'.utf8Size = 1 := by decide
  simp only [renderString, String.toList_ofList, cons_append, byteLen_cons,
    byteLen_append, byteLen_nil, hbody, hquote]
  omega

theorem recordLen_page {id : String} (hid : byteLen (renderString id) = 3)
    (length : Nat) : recordLen (page id length) = length + 61 := by
  simp only [recordLen, Record.fields, page, serializedLen, render, renderFields,
    ofOption, byteLen_cons, byteLen_append, cons_append]
  rw [hid, byteLen_page]
  simp [renderString, renderChar, Char.utf8Size]
  omega

/-- An accepted page. -/
def Accepted.page (id : String) (order : U64) (length : Nat) : Accepted :=
  ⟨Retained.page id length, order⟩

/-- A page is recorded as it is, and its order takes one digit. -/
theorem serializedLen_page {id : String} (hid : byteLen (renderString id) = 3) {order : U64}
    (horder : serializedLen (.ofNat order.val) = 1) {length : Nat} (hlen : length ≤ 14000) :
    (Accepted.page id order length).entry.encode.serializedLen = length + 71 := by
  have hrec := recordLen_page hid length
  have hbound : (Accepted.page id order length).entry = ⟨false, order, page id length⟩ := by
    rw [Accepted.entry, Accepted.page, RetainedUserMessage.bound, if_pos]
    rw [hrec, maxRecordBytes]
    omega
  have hkey : byteLen (renderString "order") = 7 := by decide
  have hcolon : ':'.utf8Size = 1 := by decide
  have hcomma : ','.utf8Size = 1 := by decide
  rw [recordLen, serializedLen_object] at hrec
  rw [serializedLen] at horder
  rw [hbound, encode, serializedLen_object]
  simp only [Record.fields, Bool.false_eq_true, if_false, nil_append, renderFields,
    byteLen_append, byteLen_cons] at hrec ⊢
  omega

/-- A short message. -/
def note : Accepted := .page "n" 0 1

/-- A long message after it. -/
def oldPage : Accepted := .page "o" 1 14000

/-- Three long messages that were accepted later. -/
def firstPages : List Accepted := [.page "a" 2 14000, .page "b" 3 14000, .page "c" 4 14000]

/-- One more, which displaces the old page. -/
def lastPage : Accepted := .page "d" 5 14000

/-- The newest pages, as they are kept. -/
def keptPages : List (Ordered RetainedUserMessage) :=
  (firstPages ++ [lastPage]).map Accepted.entry

/-- The sizes of the pages decide which of them fit together. -/
theorem fits_pages :
    fits ((note :: oldPage :: firstPages).map entry) = true ∧
      fits (note.entry :: keptPages) = true ∧ fits (oldPage.entry :: keptPages) = false := by
  simp (disch := decide) only [Bool.eq_false_iff, ne_eq, fits_iff, keptPages, firstPages, note,
    oldPage, lastPage, map_cons, map_nil, cons_append, nil_append,
    serializedLen_array_cons_cons, serializedLen_array_singleton, serializedLen_page]
  decide

/-- The messages in the order of acceptance. -/
def promptPages : List Accepted := note :: oldPage :: firstPages ++ [lastPage]

/-- The same with the note recorded last. -/
def latePages : List Accepted := oldPage :: firstPages ++ [lastPage] ++ [note]

theorem fresh_promptPages : (promptPages.map entry).Pairwise fun a b => sameSource b a = false :=
  pairwise_fresh (by decide) (by decide)

/-- The last page displaces the old page, and the note before it. -/
theorem recordAll_promptPages : (recordAll promptPages).userMessages = keptPages := by
  obtain ⟨hprompt, hnote, hold⟩ := fits_pages
  have hsplit : promptPages.map entry =
      (note :: oldPage :: firstPages).map entry ++ [lastPage.entry] := rfl
  have hfresh := fresh_promptPages
  rw [hsplit] at hfresh
  obtain ⟨hinit, -, hlast⟩ := pairwise_append.mp hfresh
  have hboth : fits (note.entry :: oldPage.entry :: keptPages) = false :=
    Bool.eq_false_iff.mpr fun h => by
      rw [fits_mono (sublist_cons_self _ _) h] at hold
      cases hold
  have hsort : newestOf key fits ((note :: oldPage :: firstPages).map entry ++
      [lastPage.entry]) = newest fits (note.entry :: oldPage.entry :: keptPages) := by
    rw [newestOf, sortByKey_eq_self (by decide)]
    rfl
  rw [recordAll_userMessages, hsplit, acceptAll_append_singleton,
    acceptAll_eq_self limit_fits (by decide) hinit hprompt,
    accept_fresh fun held hheld => hlast held hheld _ mem_cons_self, hsort,
    newest_cons_of_not hboth, newest_cons_of_not hold,
    newest_eq_self (fits_mono (sublist_cons_self _ _) hnote)]

/-- The note comes when the old page is gone, and fits beside the newer pages. -/
theorem recordAll_latePages : (recordAll latePages).userMessages ≠ keptPages := by
  have hkeys : ((promptPages.map entry).map key).Nodup := keys_nodup_of_orders (by decide)
  have hperm : ((oldPage :: firstPages ++ [lastPage]).map entry ++ [note.entry]).Perm
      (promptPages.map entry) := perm_append_singleton _ _
  have hnodup := nodup_append.mp (hperm.nodup_iff.mpr hkeys.of_map)
  have hnot : note.entry ∉ (oldPage :: firstPages ++ [lastPage]).map entry := fun hmem =>
    hnodup.2.2 _ hmem _ mem_cons_self rfl
  have hfresh := (pairwise_cons.mp fresh_promptPages).1
  have hsub := List.Subset.trans (subset_append_left _ _) hperm.subset
  rw [recordAll_userMessages, latePages, map_append, map_singleton, acceptAll_append_singleton]
  refine accept_ne_of_fits hkeys limit_fits hperm.subset hnot
    (family_acceptAll limit_fits hkeys hnodup.1 hsub) (fun held hheld hsame => ?_)
    sources_messages (fun hmem => hnot (mem_cons_of_mem _ hmem)) fits_pages.2.1
  rw [hfresh held (mem_cons_of_mem _ hheld)] at hsame
  cases hsame

/-- **The order of recording matters.** The same complete messages leave different families. -/
theorem recordAll_order_matters :
    latePages.Perm promptPages ∧
      (∀ accepted ∈ promptPages, accepted.message.complete = true) ∧
      (promptPages.map fun accepted => accepted.message.messageId).Nodup ∧
      (promptPages.map Accepted.order).Nodup ∧
      (recordAll latePages).userMessages ≠ (recordAll promptPages).userMessages := by
  refine ⟨perm_append_singleton _ _, by decide, by decide, by decide, ?_⟩
  rw [recordAll_promptPages]
  exact recordAll_latePages

end RenCrow.Retained
