import RenCrowCore.Lib.Except
import RenCrowCore.Lib.Sha256
import RenCrowCore.History.Rollout

/-!
# References to archived tool output

`history/src/archive_reference.rs`.  The output of a finished command may be
replaced in the history by a marker, a JSON text that says where the original is;
the reference itself travels in the host metadata of the item.
-/

namespace RenCrow

open Serde Fallible

/-! ## Digests and references -/

/-- The SHA-256 of a text, in hexadecimal. -/
def contentSha256 (content : String) : String := Sha256.sha256Hex (Text.utf8Bytes content.toList)

/-- The version of a reference. -/
def archiveReferenceVersion : Nat := 1

/-- A status as JSON. -/
def encodeArchiveTerminalStatus : ArchiveTerminalStatus → Json
  | .completed => .string "completed"
  | .failed => .string "failed"

/-- The serialized form; an absent process id is skipped. -/
def encodeArchiveReference (reference : ArchiveReference) : Json :=
  .object ([("version", .ofNat reference.version), ("thread_id", .string reference.threadId),
    ("call_id", .string reference.callId),
    ("original_content_sha256", .string reference.originalContentSha256),
    ("status", encodeArchiveTerminalStatus reference.status),
    ("exit_code", .ofInt reference.exitCode)] ++
    reference.processId.toList.map fun processId => ("process_id", .string processId))

/-- The status agrees with the exit code. -/
def ArchiveReference.validatesTerminal (reference : ArchiveReference) : Bool :=
  match reference.status with
  | .completed => decide (reference.exitCode = 0)
  | .failed => decide (reference.exitCode ≠ 0)

end RenCrow
