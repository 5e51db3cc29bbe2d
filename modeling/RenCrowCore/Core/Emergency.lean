import Mathlib.Data.List.Induction
import RenCrowCore.Core.EmergencyBasic

/-!
# The builder and the validator of Emergency agree

The validator does not know where the builder put the initial context.  It tries
every position, and the host's slot is computed from what is left.

* `insertionIndex_eq_lastSlot`: before a summary, the host's slot is the place of
  the last agent message or real user message, or the end;
* `removeInitialContext_eq_ok_iff`: so the search finds the body the context was
  put into, and no other, whatever copies of the context the body holds;
* `verifyMarkerOutput_eq_ok_iff`: a marker is accepted exactly when it is the one
  the builder makes;
* `build_validate_agree`: the validator accepts what the builder makes, and only
  that, up to the final summary.
-/

namespace RenCrow

open Fallible Splice List

/-! ## The host's slot -/

/-- An item before which the host puts the initial context: a message of another
agent, or a user message that is not a summary. -/
def isContextBoundary (envelope : ResponseItemEnvelope) : Bool :=
  isAgentTurn envelope.item || (isUserMessage envelope.item && !isProvenanceSummary envelope)

theorem not_isAgentTurn_of_isUserMessage {item : ResponseItem} (h : isUserMessage item = true) :
    isAgentTurn item = false := by
  cases item with
  | message => rfl
  | _ => cases h

/-- Once a summary was seen, only a boundary matters. -/
theorem hostScan_of_summary (entries : List (ResponseItemEnvelope × Nat)) (n : Nat)
    (lastCompaction : Option Nat) :
    hostScan entries (some n) lastCompaction =
      some (((entries.find? fun entry => isContextBoundary entry.1).map Prod.snd).getD n) := by
  induction entries generalizing lastCompaction with
  | nil => rfl
  | cons entry rest ih =>
    obtain ⟨envelope, index⟩ := entry
    cases hagent : isAgentTurn envelope.item with
    | true => simp [hostScan, isContextBoundary, hagent]
    | false =>
      cases huser : isUserMessage envelope.item with
      | true =>
        cases hsum : isProvenanceSummary envelope <;>
          simp [hostScan, isContextBoundary, hagent, huser, hsum, ih]
      | false =>
        cases hcomp : isCompactionItem envelope.item <;>
          simp [hostScan, isContextBoundary, hagent, huser, hcomp, ih]

theorem find_zipIdx_reverse {α : Type} (p : α → Bool) (items : List α) (n : Nat) :
    ((items.zipIdx.reverse.find? fun entry => p entry.1).map Prod.snd).getD n =
      if items.any p then lastSlot p items else n := by
  induction items using List.reverseRecOn with
  | nil => rfl
  | append_singleton items a ih =>
    rw [zipIdx_append, reverse_append]
    simp only [zipIdx_cons, zipIdx_nil, reverse_cons, reverse_nil,
      nil_append, singleton_append, find?_cons, Nat.zero_add, any_append,
      any_cons, any_nil, Bool.or_false, lastSlot_concat]
    cases ha : p a with
    | true => simp
    | false =>
      rw [ih]
      cases hitems : items.any p <;> simp

variable {summary : ResponseItemEnvelope}

/-- **The host's slot** before a summary is the place of the last boundary, or the end. -/
theorem insertionIndex_eq_lastSlot (body : List ResponseItemEnvelope)
    (hsum : isUserSummary summary = true) :
    insertionIndex body summary = lastSlot isContextBoundary body := by
  rw [isUserSummary, Bool.and_eq_true] at hsum
  obtain ⟨huser, hprov⟩ := hsum
  have hagent := not_isAgentTurn_of_isUserMessage huser
  have hindex : hostInsertionIndex (body ++ [summary]) =
      some (lastSlot isContextBoundary body) := by
    rw [hostInsertionIndex, zipIdx_append, reverse_append]
    simp only [zipIdx_cons, zipIdx_nil, reverse_cons, reverse_nil,
      nil_append, singleton_append, Nat.zero_add]
    rw [hostScan]
    simp only [hagent, huser, hprov, Bool.false_eq_true, if_false, if_true, Option.none_or]
    rw [hostScan_of_summary, find_zipIdx_reverse]
    by_cases hbody : body.any isContextBoundary = true
    · rw [if_pos hbody]
    · rw [if_neg hbody, lastSlot_of_none _ (Bool.not_eq_true _ ▸ hbody)]
  rw [insertionIndex, hindex, Option.getD_some]
  exact Nat.min_eq_left (lastSlot_le _ body)

/-! ## Taking the initial context out -/

variable {body items initialContext : List ResponseItemEnvelope} {starts : List Nat}

theorem searchInitialContext_eq_ok
    (h : searchInitialContext items initialContext summary starts = .ok body) :
    ∃ start ∈ starts, (items.drop start).take initialContext.length = initialContext ∧
      insertionIndex body summary = start ∧
      body = items.take start ++ items.drop (start + initialContext.length) := by
  induction starts with
  | nil => cases h
  | cons start rest ih =>
    simp only [searchInitialContext] at h
    split at h
    · rename_i hfound
      cases h
      exact ⟨start, mem_cons_self, hfound.1, hfound.2, rfl⟩
    · obtain ⟨other, hmem, hother⟩ := ih h
      exact ⟨other, mem_cons_of_mem _ hmem, hother⟩

theorem searchInitialContext_isOk {start : Nat}
    (hmem : start ∈ starts)
    (hblock : (items.drop start).take initialContext.length = initialContext)
    (hslot : insertionIndex (items.take start ++ items.drop (start + initialContext.length))
      summary = start) :
    ∃ body, searchInitialContext items initialContext summary starts = .ok body := by
  induction starts with
  | nil => cases hmem
  | cons first rest ih =>
    simp only [searchInitialContext]
    split
    · exact ⟨_, rfl⟩
    · rename_i hfirst
      rcases mem_cons.mp hmem with rfl | hmem
      · exact absurd ⟨hblock, hslot⟩ hfirst
      · exact ih hmem

/-- **The search** finds the body that the context was put into, and no other. -/
theorem removeInitialContext_eq_ok_iff (hsum : isUserSummary summary = true) :
    removeInitialContext items initialContext summary = .ok body ↔
      items = insertAt (insertionIndex body summary) initialContext body := by
  have hslot := fun list => insertionIndex_eq_lastSlot list hsum
  by_cases hempty : initialContext = []
  · subst hempty
    simp [removeInitialContext]
  · have hnot : initialContext.isEmpty = false := by simpa using hempty
    have hfound : ∀ {found : List ResponseItemEnvelope},
        searchInitialContext items initialContext summary
          (List.range (items.length - initialContext.length + 1)) = .ok found →
        initialContext.length ≤ items.length →
        items = insertAt (insertionIndex found summary) initialContext found := by
      intro found hsearch hlen
      obtain ⟨start, hmem, hblock, hindex, rfl⟩ := searchInitialContext_eq_ok hsearch
      rw [mem_range] at hmem
      rw [hindex, insertAt_of_block hblock (by omega)]
    constructor
    · intro h
      rw [removeInitialContext, hnot] at h
      simp only [Bool.false_eq_true, if_false] at h
      split at h
      · cases h
      · rename_i hlen
        exact hfound h (not_lt.mp hlen)
    · intro h
      have hle : insertionIndex body summary ≤ body.length := Nat.min_le_right _ _
      have hlen : items.length = initialContext.length + body.length := by
        rw [h, length_insertAt]
      have hbody := remove_insertAt hle initialContext
      rw [← h] at hbody
      have hblock := block_insertAt hle initialContext
      rw [← h] at hblock
      have hmem : insertionIndex body summary ∈
          List.range (items.length - initialContext.length + 1) := mem_range.mpr (by omega)
      obtain ⟨found, hsearch⟩ := searchInitialContext_isOk hmem hblock (by rw [hbody])
      have hsame : found = body := by
        apply insertAt_lastSlot_injective isContextBoundary initialContext
        have heq := (hfound hsearch (by omega)).symm.trans h
        rw [hslot found, hslot body] at heq
        exact heq
      rw [removeInitialContext, hnot]
      simp only [Bool.false_eq_true, if_false]
      rw [if_neg (by omega), hsearch, hsame]

/-! ## Markers -/

variable {original : ResponseItemEnvelope} {projection : ObservationProjection}

theorem markerOutput_eq_ok_iff {marker : ResponseItemEnvelope} :
    markerOutput original projection = .ok marker ↔
      ∃ metadata, withTextBody (observationMarkerBody projection) original.item = some marker.item ∧
        observationMarkerMetadata (sourceOutputMetadata original) projection.coverage =
          .ok metadata ∧ marker.metadata = some metadata := by
  simp only [markerOutput, bind_eq_ok, elim_eq_ok]
  constructor
  · rintro ⟨item, hitem, metadata, hmeta, ⟨⟩⟩
    exact ⟨metadata, hitem, hmeta, rfl⟩
  · rintro ⟨metadata, hitem, hmeta, hmark⟩
    refine ⟨marker.item, hitem, metadata, hmeta, ?_⟩
    rw [← hmark]
    rfl

/-- An output with a text body is the original with another body. -/
theorem withTextBody_eq_some_iff {original actual : ResponseItem} {text : String} :
    withTextBody text original = some actual ↔
      outputTextContent actual = some text ∧ restoreBody actual original = some original := by
  constructor
  · intro h
    unfold withTextBody at h
    split at h
    · cases h
      exact ⟨rfl, rfl⟩
    · cases h
      exact ⟨rfl, rfl⟩
    · cases h
  · rintro ⟨htext, hrestore⟩
    unfold restoreBody at hrestore
    split at hrestore
    · rename_i output _ _ _ _ _ originalOutput _
      simp only [Option.some.injEq, ResponseItem.functionCallOutput.injEq] at hrestore
      obtain ⟨rfl, rfl, rfl, rfl, hout, rfl⟩ := hrestore
      obtain ⟨body | items, success⟩ := output
      · cases htext
        rw [← hout]
        rfl
      · cases htext
    · rename_i output _ _ _ _ originalOutput _
      simp only [Option.some.injEq, ResponseItem.customToolCallOutput.injEq] at hrestore
      obtain ⟨rfl, rfl, rfl, hout, rfl⟩ := hrestore
      obtain ⟨body | items, success⟩ := output
      · cases htext
        rw [← hout]
        rfl
      · cases htext
    · cases hrestore

/-- **A marker is accepted** exactly when its projection is valid and it is the
marker that the builder makes. -/
theorem verifyMarkerOutput_eq_ok_iff {actual : ResponseItemEnvelope} :
    verifyMarkerOutput original actual projection = .ok () ↔
      projection.validate = .ok () ∧ markerOutput original projection = .ok actual := by
  simp only [verifyMarkerOutput, bind_eq_ok, ensure_eq_ok, elim_eq_ok, decide_eq_true_eq,
    markerOutput_eq_ok_iff, withTextBody_eq_some_iff]
  constructor
  · rintro ⟨body, hbody, ⟨⟩, hverify, restored, hrest, rfl⟩
    obtain ⟨hvalid, rfl, metadata, hmeta, hact⟩ := verifyObservationMarker_eq_ok_iff.mp hverify
    exact ⟨hvalid, metadata, ⟨hbody, hrest⟩, hmeta, hact⟩
  · rintro ⟨hvalid, metadata, ⟨hbody, hrest⟩, hmeta, hact⟩
    have hverify := verifyObservationMarker_eq_ok_iff.mpr ⟨hvalid, rfl, metadata, hmeta, hact⟩
    exact ⟨_, hbody, (), hverify, _, hrest, rfl⟩

/-! ## Slots -/

/-- What the builder makes of a list of slots. -/
def buildSlots (slots : List (Slot × ResponseItemEnvelope)) :
    Except String (List ResponseItemEnvelope) := do
  let items ← slots.mapM fun entry => buildSlot entry.2 entry.1
  return items.filterMap fun item => item

/-- The projections that the slots show are valid. -/
def MarkersValid (slots : List (Slot × ResponseItemEnvelope)) : Prop :=
  ∀ entry ∈ slots, ∀ projection, entry.1 = .marker projection → projection.validate = .ok ()

variable {slots : List (Slot × ResponseItemEnvelope)} {slot : Slot}

theorem buildSlots_cons_eq_ok : buildSlots ((slot, original) :: slots) = .ok body ↔
      ∃ item rest, buildSlot original slot = .ok item ∧ buildSlots slots = .ok rest ∧
        body = item.toList ++ rest := by
  constructor
  · intro h
    obtain ⟨items, hitems, h⟩ := bind_eq_ok.mp h
    cases h
    cases mapM_eq_ok.mp hitems with
    | @cons _ item _ items hitem hrest =>
      refine ⟨item, _, hitem, bind_eq_ok.mpr ⟨items, mapM_eq_ok.mpr hrest, rfl⟩, ?_⟩
      cases item <;> rfl
  · rintro ⟨item, rest, hitem, hrest, rfl⟩
    obtain ⟨items, hitems, h⟩ := bind_eq_ok.mp hrest
    cases h
    refine bind_eq_ok.mpr ⟨item :: items, mapM_eq_ok.mpr (.cons hitem (mapM_eq_ok.mp hitems)), ?_⟩
    cases item <;> rfl

theorem markersValid_cons : MarkersValid ((slot, original) :: slots) ↔
      (∀ projection, slot = .marker projection → projection.validate = .ok ()) ∧
        MarkersValid slots :=
  forall_mem_cons

/-- The check of an item that has to be the expected one. -/
theorem ensure_same_eq_ok {actual expected : ResponseItemEnvelope} {error : String}
    {rest : Except String Unit} :
    (ensure (decide (actual = expected)) error >>= fun _ => rest) = .ok () ↔
      actual = expected ∧ rest = .ok () := by
  rw [ensure_bind_eq_ok, decide_eq_true_iff]

/-- One slot takes from the body what the builder puts at its position. -/
theorem validateSlots_cons_eq_ok : validateSlots ((slot, original) :: slots) body = .ok () ↔
      ∃ item rest, (∀ projection, slot = .marker projection → projection.validate = .ok ()) ∧
        buildSlot original slot = .ok item ∧ body = item.toList ++ rest ∧
        validateSlots slots rest = .ok () := by
  cases slot with
  | dropped =>
    simp [validateSlots, buildSlot]
  | original | retained expected =>
    cases body with
    | nil => simp [validateSlots, buildSlot]
    | cons actual body => simp [validateSlots, buildSlot, ensure_same_eq_ok]
  | marker projection =>
    have hbuild : ∀ item, buildSlot original (.marker projection) = .ok item ↔
        ∃ marker, markerOutput original projection = .ok marker ∧ item = some marker := by
      intro item
      simp only [buildSlot]
      cases markerOutput original projection <;> simp [eq_comm]
    cases body with
    | nil => simp [validateSlots, hbuild]
    | cons actual body =>
      rw [validateSlots, bind_eq_ok]
      constructor
      · rintro ⟨⟨⟩, hverify, hrest⟩
        obtain ⟨hvalid, hmark⟩ := verifyMarkerOutput_eq_ok_iff.mp hverify
        refine ⟨some actual, body, ?_, (hbuild _).mpr ⟨actual, hmark, rfl⟩, rfl, hrest⟩
        rintro _ ⟨rfl⟩
        exact hvalid
      · rintro ⟨item, rest, hvalid, hitem, hbody, hrest⟩
        obtain ⟨marker, hmark, rfl⟩ := (hbuild item).mp hitem
        cases hbody
        exact ⟨(), verifyMarkerOutput_eq_ok_iff.mpr ⟨hvalid projection rfl, hmark⟩, hrest⟩

/-- **The slots**: a body passes exactly when it is the one that the builder makes
and the projections of its markers are valid. -/
theorem validateSlots_eq_ok_iff :
    validateSlots slots body = .ok () ↔ MarkersValid slots ∧ buildSlots slots = .ok body := by
  induction slots generalizing body with
  | nil =>
    have hbuild : buildSlots [] = .ok [] := rfl
    have hvalid : MarkersValid [] := fun entry hentry => absurd hentry not_mem_nil
    rw [hbuild]
    cases body with
    | nil => exact ⟨fun _ => ⟨hvalid, rfl⟩, fun _ => rfl⟩
    | cons actual body => simp [validateSlots]
  | cons entry slots ih =>
    rw [validateSlots_cons_eq_ok, markersValid_cons, buildSlots_cons_eq_ok]
    constructor
    · rintro ⟨item, rest, hvalid, hitem, hbody, hrest⟩
      obtain ⟨hvalids, hbuilds⟩ := ih.mp hrest
      exact ⟨⟨hvalid, hvalids⟩, item, rest, hitem, hbuilds, hbody⟩
    · rintro ⟨⟨hvalid, hvalids⟩, item, rest, hitem, hbuilds, hbody⟩
      exact ⟨item, rest, hvalid, hitem, hbody, ih.mpr ⟨hvalids, hbuilds⟩⟩

/-! ## The plan -/

namespace EmergencyPlan

/-- The projections that the plan shows as markers are valid. -/
def MarkersValid (plan : EmergencyPlan) : Prop :=
  ∀ slots, plan.slots = .ok slots → RenCrow.MarkersValid (slots.zip plan.originals)

theorem isUserSummary_summaryItem (plan : EmergencyPlan) :
    isUserSummary plan.summaryItem = true := rfl

variable {plan : EmergencyPlan}

theorem body_eq_ok_iff : plan.body = .ok body ↔
      ∃ slots, plan.slots = .ok slots ∧ buildSlots (slots.zip plan.originals) = .ok body :=
  bind_eq_ok

theorem build_eq_ok_iff :
    plan.build initialContext = .ok items ↔ ∃ body, plan.body = .ok body ∧ items =
        insertAt (insertionIndex body plan.summaryItem) initialContext body ++
          [plan.summaryItem] := by
  constructor
  · intro h
    obtain ⟨body, hbody, h⟩ := bind_eq_ok.mp h
    exact ⟨body, hbody, (Except.ok.inj h).symm⟩
  · rintro ⟨body, hbody, rfl⟩
    exact bind_eq_ok.mpr ⟨body, hbody, rfl⟩

/-- **The validator** accepts a candidate with a final summary of the planned text
when taking the context out leaves the body that the builder makes. -/
theorem validate_concat_eq_ok_iff : plan.validate initialContext (items ++ [summary]) = .ok () ↔
      isTextMessage plan.summaryText summary.item = true ∧ plan.MarkersValid ∧
        ∃ body, removeInitialContext items initialContext summary = .ok body ∧
          plan.body = .ok body := by
  rw [validate, getLast?_concat, dropLast_concat]
  rw [ensure_bind_eq_ok]
  refine and_congr_right fun _ => ?_
  simp only [bind_eq_ok, validateSlots_eq_ok_iff, body_eq_ok_iff]
  constructor
  · rintro ⟨body, hrem, slots, hslots, hvalid, hbuild⟩
    refine ⟨?_, body, hrem, slots, hslots, hbuild⟩
    intro slots' hslots'
    obtain rfl : slots = slots' := Except.ok.inj (hslots.symm.trans hslots')
    exact hvalid
  · rintro ⟨hvalid, body, hrem, slots, hslots, hbuild⟩
    exact ⟨body, hrem, slots, hslots, hvalid slots hslots, hbuild⟩

/-- Two typed summaries leave the host the same slot. -/
theorem insertionIndex_congr {summary' : ResponseItemEnvelope} (h : isUserSummary summary = true)
    (h' : isUserSummary summary' = true) (body : List ResponseItemEnvelope) :
    insertionIndex body summary = insertionIndex body summary' := by
  rw [insertionIndex_eq_lastSlot body h, insertionIndex_eq_lastSlot body h']

theorem validate_of_build (h : plan.build initialContext = .ok items) :
    plan.validate initialContext items = .ok () ↔ plan.MarkersValid := by
  obtain ⟨body, hbody, rfl⟩ := build_eq_ok_iff.mp h
  rw [validate_concat_eq_ok_iff]
  constructor
  · exact fun h => h.2.1
  · intro hvalid
    refine ⟨by simp [summaryItem, fragmentItem, isTextMessage], hvalid, body, ?_, hbody⟩
    exact (removeInitialContext_eq_ok_iff plan.isUserSummary_summaryItem).mpr rfl

/-- **Agreement of builder and validator.**  What the builder makes is accepted
exactly when the projections of its markers are valid.  A candidate that is
accepted has before its last item what the builder makes, if that item is a typed
summary or there is no context to place; copies of the context in the body do not
matter. -/
theorem build_validate_agree (plan : EmergencyPlan) (initialContext : List ResponseItemEnvelope) :
    (∀ items, plan.build initialContext = .ok items →
      (plan.validate initialContext items = .ok () ↔ plan.MarkersValid)) ∧
    ∀ candidate summary, candidate.getLast? = some summary →
      isUserSummary summary = true ∨ initialContext = [] →
      plan.validate initialContext candidate = .ok () →
      ∃ items, plan.build initialContext = .ok items ∧ candidate.dropLast = items.dropLast := by
  constructor
  · exact fun items hbuild => validate_of_build hbuild
  · intro candidate summary hlast htyped hval
    obtain ⟨items, rfl⟩ := getLast?_eq_some_iff.mp hlast
    obtain ⟨-, -, body, hrem, hbody⟩ := validate_concat_eq_ok_iff.mp hval
    refine ⟨_, build_eq_ok_iff.mpr ⟨body, hbody, rfl⟩, ?_⟩
    rw [dropLast_concat, dropLast_concat]
    rcases htyped with htyped | rfl
    · rw [insertionIndex_congr plan.isUserSummary_summaryItem htyped body]
      exact (removeInitialContext_eq_ok_iff htyped).mp hrem
    · rw [insertAt_nil]
      exact Except.ok.inj hrem

/-- A plan that keeps one message of the user. -/
def keepsOneMessage : EmergencyPlan where
  originals := [⟨.message none "user" [.inputText "hi"] none none, none⟩]
  input := { (default : CandidateInput) with records := [default] }
  native := ⟨[⟨0, ⟨.message none "user" [.inputText "hi"] none none, none⟩⟩], [], none⟩
  unhandledPairs := []
  markers := []
  workBoundary := none
  summaryText := "done"

/-- A message of the host, put into the history as initial context. -/
def hostContext : ResponseItemEnvelope :=
  ⟨.message none "developer" [.inputText "rules"] none none, none⟩

theorem build_validate_agree_keepsOneMessage :
    keepsOneMessage.build [hostContext] =
      .ok ([hostContext] ++ keepsOneMessage.originals ++ [keepsOneMessage.summaryItem]) ∧
    ∃ items, keepsOneMessage.build [hostContext] = .ok items ∧
      ([hostContext] ++ keepsOneMessage.originals ++ [keepsOneMessage.summaryItem]).dropLast =
        items.dropLast := by
  have hbuild : keepsOneMessage.build [hostContext] =
      .ok ([hostContext] ++ keepsOneMessage.originals ++ [keepsOneMessage.summaryItem]) := by
    decide
  have hagree := build_validate_agree keepsOneMessage [hostContext]
  refine ⟨hbuild, hagree.2 _ keepsOneMessage.summaryItem rfl (.inl rfl) ?_⟩
  apply (hagree.1 _ hbuild).mpr
  intro slots hslots entry hentry projection hproj
  cases hslots
  rw [mem_singleton.mp hentry] at hproj
  cases hproj

/-- A plan that shows an output as a marker of a projection without identity. -/
def unverifiedMarker : EmergencyPlan where
  originals := [⟨.functionCallOutput none (some "c") none none ⟨.text "out", none⟩ none, none⟩]
  input := { (default : CandidateInput) with records := [default] }
  native := ⟨[], [], none⟩
  unhandledPairs := [(0, 0)]
  markers := [(0, default)]
  workBoundary := none
  summaryText := "done"

/-- The agreement fails outside these conditions: the builder takes a projection
that the validator refuses, and the validator takes a last message that is not a
typed summary and then expects the context at the end. -/
theorem build_validate_disagree :
    (∃ items, unverifiedMarker.build [] = .ok items ∧
      unverifiedMarker.validate [] items ≠ .ok ()) ∧
    ∃ candidate items, keepsOneMessage.validate [hostContext] candidate = .ok () ∧
      keepsOneMessage.build [hostContext] = .ok items ∧
      candidate.dropLast ≠ items.dropLast := by
  constructor
  · refine ⟨_, rfl, ?_⟩
    intro hval
    have hmarks := (validate_concat_eq_ok_iff.mp hval).2.1
    have hvalid := hmarks _ rfl _ mem_cons_self default rfl
    revert hvalid
    decide
  · refine ⟨keepsOneMessage.originals ++ [hostContext] ++
      [⟨.message none "user" [.inputText "done"] none none, none⟩], _, ?_,
      (show keepsOneMessage.build [hostContext] = .ok ([hostContext] ++
        keepsOneMessage.originals ++ [keepsOneMessage.summaryItem]) by decide), ?_⟩
    · decide
    · decide

end EmergencyPlan

end RenCrow
