import RenCrowCore.History.RolloutPayload
import RenCrowCore.Lib.Scan
import RenCrowCore.Lib.Sha256

/-!
# Compaction transactions: definitions

`history/src/compaction_transaction.rs`.  A compaction appends a *prepared*
checkpoint, the rows that go with it (its companions) and a commit marker that
carries the hash of the rows before it.  Replay keeps a prepared checkpoint only
when its marker follows and the hash agrees.

`replayCommittedItems` is the index-jumping loop of the source.  The index is
represented by the suffix it points to, and a jump by the number of rows still
to be skipped, so that the recursion is structural; `replayLoop_eq_drop` turns a
jump back into a suffix.
-/

namespace RenCrow

open Serde

/-! ## Hashes -/

/-- `digest`: the SHA-256 of the compact JSON text, in hexadecimal. -/
def digest (value : Json) : String := Sha256.sha256Hex (Text.utf8Bytes value.render)

/-- The rows of a transaction as one JSON array, and its digest.  The fields of an object are in
the order of their keys, as `serde_json` keeps them unless it is built with `preserve_order`. -/
def transactionHash [PayloadCodec] (items : List RolloutItem) : String :=
  digest (.array (items.map encodeRollout))

/-- The hash a commit marker carries. -/
def commitHash : RolloutItem → Option String
  | .renCrowCompactionCommit checkpointHash => some checkpointHash
  | _ => none

/-- Sixty-four hexadecimal digits.  A text of ASCII digits has as many bytes as
characters, so the length check of the source is one on characters here. -/
def isCommitHash (hash : String) : Bool :=
  decide (hash.toList.length = 64) && hash.toList.all Sha256.isHexDigit

/-- The hash of a commit has its form. -/
def validateCommitHash (hash : String) : Except String Unit :=
  if isCommitHash hash then .ok () else .error "invalid RenCrow compaction commit hash"

/-- `str::eq_ignore_ascii_case`. -/
def eqIgnoreAsciiCase (a b : String) : Bool :=
  decide (a.toList.map Char.toLower = b.toList.map Char.toLower)

/-! ## Prepared checkpoints -/

/-- The key of the rows that are still to follow. -/
def transactionFollowingItemsKey : String := "transaction_following_items"

/-- `MAX_FOLLOWING_ITEMS`. -/
def maxFollowingItems : Nat := 3

/-- The provenance object of a checkpoint: the compaction metadata of the last
envelope of its replacement history. -/
def compactionMetadata (item : CompactedItem) : Option Json := do
  let envelope ← (← item.replacementHistory).getLast?
  (← envelope.metadata).rencrowCompaction

/-- How many rows a prepared checkpoint declares to follow it; `none` for a row
that is not prepared. -/
def transactionFollowingItems : RolloutItem → Except String (Option Nat)
  | .compacted item =>
    match compactionMetadata item with
    | none => .ok none
    | some metadata =>
      match metadata.asObject with
      | none => .error "malformed RenCrow compaction metadata"
      | some fields =>
        match SortedMap.get transactionFollowingItemsKey fields with
        | none => .ok none
        | some value =>
          match value.asU64 with
          | none =>
            .error "transaction_following_items must be an integer from 0 through 3"
          | some count =>
            if count > maxFollowingItems then
              .error "transaction_following_items must be an integer from 0 through 3"
            else .ok (some count)
  | _ => .ok none

/-- Whether a row carries a transaction boundary; malformed metadata counts as one. -/
def isPreparedCheckpoint (item : RolloutItem) : Bool :=
  match transactionFollowingItems item with
  | .ok none => false
  | _ => true

/-- The provenance of a committed checkpoint: the boundary is removed and the
hash of the transaction recorded. -/
def commitFields (hash : String) (fields : Json.Fields) : Json.Fields :=
  SortedMap.insert "committed_transaction_hash" (.string hash)
    (SortedMap.remove transactionFollowingItemsKey fields)

/-- The checkpoint replay keeps for a committed transaction. -/
def committedCheckpoint (item : RolloutItem) (hash : String) : Except String RolloutItem :=
  match item with
  | .compacted compacted =>
    match compacted.replacementHistory with
    | none => .error "prepared RenCrow checkpoint has no replacement history"
    | some history =>
      match history.getLast? with
      | none => .error "prepared RenCrow checkpoint has empty replacement history"
      | some envelope =>
        match envelope.metadata with
        | none => .error "prepared RenCrow checkpoint has no metadata"
        | some metadata =>
          match metadata.rencrowCompaction with
          | none => .error "prepared RenCrow checkpoint has no compaction metadata"
          | some (.object fields) =>
            let metadata' := { metadata with
              rencrowCompaction := some (.object (commitFields hash fields)) }
            let envelope' := { envelope with metadata := some metadata' }
            .ok (.compacted { compacted with
              replacementHistory := some (history.dropLast ++ [envelope']) })
          | some _ => .error "malformed RenCrow compaction metadata"
  | _ => .error "prepared RenCrow checkpoint is not compacted"

/-! ## Companions -/

/-- Which companions the reader has met so far. -/
structure CompanionFlags where
  worldState : Bool := false
  turnContext : Bool := false
  settings : Bool := false
deriving DecidableEq, Repr

/-- The number of companions met. -/
def CompanionFlags.count (flags : CompanionFlags) : Nat :=
  flags.worldState.toNat + flags.turnContext.toNat + flags.settings.toNat

/-- The next companion, if the row is one and none of its kind or of a later kind
came before it. -/
def acceptCompanion (flags : CompanionFlags) : RolloutItem → Option CompanionFlags
  | .worldState _ =>
    if !flags.worldState && !flags.turnContext && !flags.settings then
      some { flags with worldState := true }
    else none
  | .turnContext _ =>
    if !flags.turnContext && !flags.settings then some { flags with turnContext := true }
    else none
  | .eventMsg (.threadSettingsApplied _) =>
    if !flags.settings then some { flags with settings := true } else none
  | _ => none

/-- The reader's loop over the rows after a checkpoint. -/
def companionLoop : CompanionFlags → List RolloutItem → CompanionFlags
  | flags, [] => flags
  | flags, item :: rest =>
    match acceptCompanion flags item with
    | some flags' => companionLoop flags' rest
    | none => flags

/-- How many rows belong to the checkpoint before them. -/
def companionPrefixLen (items : List RolloutItem) : Nat := (companionLoop {} items).count

/-! ## Replay -/

/-- The replay loop, with the number of rows the index has still to jump over. -/
def replayLoop [PayloadCodec] : List RolloutItem → Nat → Except String (List RolloutItem)
  | [], _ => .ok []
  | _ :: rest, skip + 1 => replayLoop rest skip
  | .renCrowCompactionCommit checkpointHash :: rest, 0 => do
    validateCommitHash checkpointHash
    replayLoop rest 0
  | item :: rest, 0 => do
    match ← transactionFollowingItems item with
    | none => return item :: (← replayLoop rest 0)
    | some followingItems =>
      let companionCount := companionPrefixLen (rest.take followingItems)
      let markerHash := (rest[followingItems]?).bind commitHash
      match (if companionCount = followingItems then markerHash else none) with
      | some markerHash => do
        validateCommitHash markerHash
        let expectedHash := transactionHash (item :: rest.take followingItems)
        if eqIgnoreAsciiCase markerHash expectedHash then do
          let checkpoint ← committedCheckpoint item expectedHash
          let committed ← replayLoop rest (followingItems + 1)
          return checkpoint :: (rest.take followingItems ++ committed)
        else
          -- the marker is consumed on the next iteration
          replayLoop rest followingItems
      | none =>
        -- only this prepared prefix is dropped
        replayLoop rest companionCount

/-- `replay_committed_items`. -/
def replayCommittedItems [PayloadCodec] (items : List RolloutItem) :
    Except String (List RolloutItem) :=
  replayLoop items 0

/-- The diagnostic for a conflict that a restart cannot repair. -/
def integrityBlockedMessage (reason : String) : String :=
  "RenCrow detected a deterministic integrity conflict in stored compaction data. " ++
    "The current state was not replaced, and restarting cannot repair it. (" ++ reason ++ ")"

/-- **The replay input of a rollout**: committed checkpoints and ordinary rows. -/
def committedItems [PayloadCodec] (items : List RolloutItem) : Except String (List RolloutItem) :=
  (replayCommittedItems items).mapError integrityBlockedMessage

end RenCrow
