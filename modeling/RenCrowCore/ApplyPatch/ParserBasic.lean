import RenCrowCore.Lib.Except
import RenCrowCore.Lib.Lines

/-!
# The patch parser

The parser of the `apply_patch` format: a state machine that is fed one line at a time
(`apply-patch/src/streaming_parser.rs`), and the function that checks the boundaries of a
patch and feeds it (`apply-patch/src/parser.rs`).

* `processLine`: one line;
* `pushDelta`, `finish`: the characters of a patch, and its end;
* `parsePatch`: a whole patch, perhaps in a heredoc.
-/

namespace RenCrow.ApplyPatch

open Text

/-! ## Hunks -/

/-- A part of an update: the lines it looks for and those it puts in their place. -/
structure UpdateFileChunk where
  changeContext : Option (List Char) := none
  oldLines : List (List Char) := []
  newLines : List (List Char) := []
  /-- The lines that were parsed as context, by their indices on both sides. -/
  contextLineIndices : List (Nat × Nat) := []
  isEndOfFile : Bool := false
deriving DecidableEq, Repr

namespace UpdateFileChunk

/-- A line that stands on both sides. -/
def pushContextLine (chunk : UpdateFileChunk) (line : List Char) : UpdateFileChunk :=
  { chunk with
    contextLineIndices := chunk.contextLineIndices ++
      [(chunk.oldLines.length, chunk.newLines.length)]
    oldLines := chunk.oldLines ++ [line]
    newLines := chunk.newLines ++ [line] }

/-- A line that is added. -/
def pushNewLine (chunk : UpdateFileChunk) (line : List Char) : UpdateFileChunk :=
  { chunk with newLines := chunk.newLines ++ [line] }

/-- A line that is removed. -/
def pushOldLine (chunk : UpdateFileChunk) (line : List Char) : UpdateFileChunk :=
  { chunk with oldLines := chunk.oldLines ++ [line] }

/-- The chunk has no lines yet. -/
def isEmpty (chunk : UpdateFileChunk) : Bool := chunk.oldLines.isEmpty && chunk.newLines.isEmpty

end UpdateFileChunk

/-- What a patch does to one file. -/
inductive Hunk where
  | addFile (path contents : List Char)
  | deleteFile (path : List Char)
  | updateFile (path : List Char) (movePath : Option (List Char)) (chunks : List UpdateFileChunk)
deriving DecidableEq, Repr

/-- The errors of the parser, with the line of a hunk. -/
inductive ParseError where
  | invalidPatch (message : String)
  | invalidHunk (message : String) (lineNumber : Nat)
deriving DecidableEq, Repr

/-- A parsed patch. -/
structure ApplyPatchArgs where
  patch : List Char
  hunks : List Hunk
  workdir : Option (List Char)
  environmentId : Option (List Char)
deriving DecidableEq, Repr

/-! ## Markers -/

/-- `BEGIN_PATCH_MARKER`. -/
def beginPatchMarker : List Char := "*** Begin Patch".toList

/-- `END_PATCH_MARKER`. -/
def endPatchMarker : List Char := "*** End Patch".toList

/-- `ADD_FILE_MARKER`. -/
def addFileMarker : List Char := "*** Add File: ".toList

/-- `DELETE_FILE_MARKER`. -/
def deleteFileMarker : List Char := "*** Delete File: ".toList

/-- `UPDATE_FILE_MARKER`. -/
def updateFileMarker : List Char := "*** Update File: ".toList

/-- `MOVE_TO_MARKER`. -/
def moveToMarker : List Char := "*** Move to: ".toList

/-- `EOF_MARKER`. -/
def eofMarker : List Char := "*** End of File".toList

/-- `CHANGE_CONTEXT_MARKER`. -/
def changeContextMarker : List Char := "@@ ".toList

/-- `EMPTY_CHANGE_CONTEXT_MARKER`. -/
def emptyChangeContextMarker : List Char := "@@".toList

/-- `ENVIRONMENT_ID_MARKER`. -/
def environmentIdMarker : List Char := "*** Environment ID:".toList

/-! ## Errors -/

/-- The patch does not begin with its marker. -/
def firstLineError : ParseError :=
  .invalidPatch "The first line of the patch must be '*** Begin Patch'"

/-- The patch does not end with its marker. -/
def lastLineError : ParseError :=
  .invalidPatch "The last line of the patch must be '*** End Patch'"

/-- A line between hunks that starts none. -/
def invalidHeaderError (trimmed : List Char) (lineNumber : Nat) : ParseError :=
  .invalidHunk ("'" ++ String.ofList trimmed ++ "' is not a valid hunk header. Valid hunk " ++
    "headers: '*** Add File: \x7bpath\x7d', '*** Delete File: \x7bpath\x7d', " ++
    "'*** Update File: \x7bpath\x7d'") lineNumber

/-- A line of an update that is neither context nor a change. -/
def unexpectedLineError (line : List Char) (lineNumber : Nat) : ParseError :=
  .invalidHunk ("Unexpected line found in update hunk: '" ++ String.ofList line ++
    "'. Every line should start with ' ' (context line), '+' (added line), or '-' (removed line)")
    lineNumber

/-- An update whose next chunk has no context marker. -/
def expectedContextError (line : List Char) (lineNumber : Nat) : ParseError :=
  .invalidHunk ("Expected update hunk to start with a @@ context marker, got: '" ++
    String.ofList line ++ "'") lineNumber

/-- A chunk without lines. -/
def noLinesError (lineNumber : Nat) : ParseError :=
  .invalidHunk "Update hunk does not contain any lines" lineNumber

/-- An update without chunks. -/
def emptyHunkError (path : List Char) (hunkLineNumber : Nat) : ParseError :=
  .invalidHunk ("Update file hunk for path '" ++ String.ofList path ++ "' is empty") hunkLineNumber

/-! ## The state machine -/

/-- What the parser is inside of. -/
inductive StreamingParserMode where
  | notStarted
  | startedPatch
  | addFile
  | deleteFile
  | updateFile (hunkLineNumber : Nat)
  | endedPatch
deriving DecidableEq, Repr

/-- The state of the parser: the line begun, and the hunks so far. -/
structure StreamingPatchParser where
  lineBuffer : List Char := []
  mode : StreamingParserMode := .notStarted
  hunks : List Hunk := []
  environmentId : Option (List Char) := none
  lineNumber : Nat := 0
deriving DecidableEq, Repr

namespace StreamingPatchParser

/-- A hunk that follows must not leave an update hunk without lines behind it. -/
def ensureUpdateHunkIsNotEmpty (parser : StreamingPatchParser) (line : List Char) :
    Except ParseError Unit :=
  match parser.hunks.getLast? with
  | some (.updateFile path _ chunks) =>
    match chunks.getLast?, parser.mode with
    | none, .updateFile hunkLineNumber => .error (emptyHunkError path hunkLineNumber)
    | none, _ => .ok ()
    | some chunk, _ =>
      if chunk.isEmpty then
        if line = endPatchMarker then .error (noLinesError parser.lineNumber)
        else .error (unexpectedLineError line parser.lineNumber)
      else .ok ()
  | _ => .ok ()

/-- A new hunk begins. -/
def startHunk (parser : StreamingPatchParser) (trimmed : List Char) (hunk : Hunk)
    (mode : StreamingParserMode) : Except ParseError (Option StreamingPatchParser) := do
  parser.ensureUpdateHunkIsNotEmpty trimmed
  .ok (some { parser with hunks := parser.hunks ++ [hunk], mode })

/-- The environment id of a patch is given once and is not blank. -/
def setEnvironmentId (parser : StreamingPatchParser) (environmentId : List Char) :
    Except ParseError (Option StreamingPatchParser) :=
  if parser.environmentId.isSome then
    .error (.invalidPatch "apply_patch environment_id cannot be specified more than once")
  else if (trim environmentId).isEmpty then
    .error (.invalidPatch "apply_patch environment_id cannot be empty")
  else .ok (some { parser with environmentId := some (trim environmentId) })

/-- The headers of hunks and the end of the patch; `none` if the line is neither. -/
def handleHunkHeadersAndEndPatch (parser : StreamingPatchParser) (trimmed : List Char) :
    Except ParseError (Option StreamingPatchParser) :=
  match (if parser.mode = .startedPatch then stripPrefix environmentIdMarker trimmed
    else none) with
  | some environmentId => parser.setEnvironmentId environmentId
  | none =>
    if trimmed = endPatchMarker then do
      parser.ensureUpdateHunkIsNotEmpty trimmed
      .ok (some { parser with mode := .endedPatch })
    else
      match stripPrefix addFileMarker trimmed with
      | some path => parser.startHunk trimmed (.addFile path []) .addFile
      | none =>
        match stripPrefix deleteFileMarker trimmed with
        | some path => parser.startHunk trimmed (.deleteFile path) .deleteFile
        | none =>
          match stripPrefix updateFileMarker trimmed with
          | some path =>
            parser.startHunk trimmed (.updateFile path none [])
              (.updateFile parser.lineNumber)
          | none => .ok none

/-- The last hunk is replaced. -/
def setLastHunk (parser : StreamingPatchParser) (hunk : Hunk) : StreamingPatchParser :=
  { parser with hunks := parser.hunks.dropLast ++ [hunk] }

/-- The last chunk gets a line; the first line of a hunk opens its first chunk. -/
def pushLine (chunks : List UpdateFileChunk) (push : UpdateFileChunk → UpdateFileChunk) :
    List UpdateFileChunk :=
  match chunks.getLast? with
  | none => [push {}]
  | some chunk => chunks.dropLast ++ [push chunk]

/-- The line is a context marker, with or without a context. -/
def isContextMarker (updateLine : List Char) : Bool :=
  decide (updateLine = emptyChangeContextMarker) || changeContextMarker.isPrefixOf updateLine

/-- A line of an update hunk that is no header: the move path and the chunks after it. -/
def processUpdateLine (lineNumber : Nat) (movePath : Option (List Char))
    (chunks : List UpdateFileChunk) (line : List Char) :
    Except ParseError (Option (List Char) × List UpdateFileChunk) :=
  let updateLine := trimEnd line
  let lastIsEmpty := chunks.getLast?.any UpdateFileChunk.isEmpty
  let lastIsEndOfFile := chunks.getLast?.any UpdateFileChunk.isEndOfFile
  if lastIsEndOfFile && updateLine.isEmpty then .ok (movePath, chunks)
  else if lastIsEndOfFile && !isContextMarker updateLine then
    .error (expectedContextError line lineNumber)
  else
    match (if chunks.isEmpty && movePath.isNone then stripPrefix moveToMarker updateLine
      else none) with
    | some moveToPath => .ok (some moveToPath, chunks)
    | none =>
      if isContextMarker updateLine && lastIsEmpty then
        .error (unexpectedLineError line lineNumber)
      else if updateLine = emptyChangeContextMarker then .ok (movePath, chunks ++ [{}])
      else
        match stripPrefix changeContextMarker updateLine with
        | some changeContext =>
          .ok (movePath, chunks ++ [{ changeContext := some changeContext }])
        | none =>
          if updateLine = eofMarker then
            if lastIsEmpty then .error (noLinesError lineNumber)
            else
              match chunks.getLast? with
              | some chunk =>
                .ok (movePath, chunks.dropLast ++ [{ chunk with isEndOfFile := true }])
              | none => .ok (movePath, chunks)
          else
            match line with
            | [] => .ok (movePath, pushLine chunks (·.pushContextLine []))
            | ' ' :: text => .ok (movePath, pushLine chunks (·.pushContextLine text))
            | '+' :: text => .ok (movePath, pushLine chunks (·.pushNewLine text))
            | '-' :: text => .ok (movePath, pushLine chunks (·.pushOldLine text))
            | _ =>
              if chunks.getLast?.any fun chunk => !chunk.isEmpty then
                .error (expectedContextError line lineNumber)
              else .error (unexpectedLineError line lineNumber)

/-- A line of an add hunk that is no header. -/
def processAddedLine (parser : StreamingPatchParser) (line : List Char) :
    Except ParseError StreamingPatchParser :=
  match stripPrefix ['+'] line, parser.hunks.getLast? with
  | some lineToAdd, some (.addFile path contents) =>
    .ok (parser.setLastHunk (.addFile path (contents ++ lineToAdd ++ ['\n'])))
  | _, _ => .error (invalidHeaderError (trim line) parser.lineNumber)

/-- A line of the last hunk, which is an update hunk. -/
def processChunkLine (parser : StreamingPatchParser) (line : List Char) :
    Except ParseError StreamingPatchParser :=
  match parser.hunks.getLast? with
  | some (.updateFile path movePath chunks) => do
    let updated ← processUpdateLine parser.lineNumber movePath chunks line
    .ok (parser.setLastHunk (.updateFile path updated.1 updated.2))
  | _ => .error (unexpectedLineError line parser.lineNumber)

/-- `process_line`. -/
def processLine (parser : StreamingPatchParser) (line : List Char) :
    Except ParseError StreamingPatchParser :=
  let trimmed := trim line
  match parser.mode with
  | .notStarted =>
    if trimmed = beginPatchMarker then .ok { parser with mode := .startedPatch }
    else .error firstLineError
  | .startedPatch => do
    match ← parser.handleHunkHeadersAndEndPatch trimmed with
    | some parser => .ok parser
    | none => .error (invalidHeaderError trimmed parser.lineNumber)
  | .addFile => do
    match ← parser.handleHunkHeadersAndEndPatch trimmed with
    | some parser => .ok parser
    | none => parser.processAddedLine line
  | .deleteFile => do
    match ← parser.handleHunkHeadersAndEndPatch trimmed with
    | some parser => .ok parser
    | none => .error (invalidHeaderError trimmed parser.lineNumber)
  | .updateFile _ => do
    match ← parser.handleHunkHeadersAndEndPatch (trimEnd line) with
    | some parser => .ok parser
    | none => parser.processChunkLine line
  | .endedPatch => if trimmed.isEmpty then .ok parser else .error lastLineError

/-- One character; the end of a line processes it without its carriage return. -/
def pushChar (parser : StreamingPatchParser) (ch : Char) :
    Except ParseError StreamingPatchParser :=
  if ch = '\n' then
    processLine { parser with lineBuffer := [], lineNumber := parser.lineNumber + 1 }
      (stripCr parser.lineBuffer)
  else .ok { parser with lineBuffer := parser.lineBuffer ++ [ch] }

/-- `push_delta`; the hunks so far are those of the parser. -/
def pushDelta (parser : StreamingPatchParser) (delta : List Char) :
    Except ParseError StreamingPatchParser :=
  delta.foldlM pushChar parser

/-- The last line, which need not be terminated. -/
def flush (parser : StreamingPatchParser) : Except ParseError StreamingPatchParser :=
  if parser.lineBuffer.isEmpty then .ok parser
  else
    let line := parser.lineBuffer
    let parser := { parser with lineBuffer := [], lineNumber := parser.lineNumber + 1 }
    if trim line = endPatchMarker then do
      parser.ensureUpdateHunkIsNotEmpty (trim line)
      .ok { parser with mode := .endedPatch }
    else parser.processLine line

/-- `finish`. -/
def finish (parser : StreamingPatchParser) : Except ParseError StreamingPatchParser := do
  let parser ← parser.flush
  if parser.mode = .endedPatch then .ok parser else .error lastLineError

end StreamingPatchParser

/-! ## A whole patch -/

/-- The first and the last line are the markers of a patch. -/
def checkStartAndEndLinesStrict (firstLine lastLine : Option (List Char)) :
    Except ParseError Unit :=
  match firstLine.map trim, lastLine.map trim with
  | some first, some last =>
    if first = beginPatchMarker ∧ last = endPatchMarker then .ok ()
    else if first ≠ beginPatchMarker then .error firstLineError
    else .error lastLineError
  | some first, none => if first ≠ beginPatchMarker then .error firstLineError
      else .error lastLineError
  | none, _ => .error lastLineError

/-- The lines of a patch that has its markers. -/
def checkPatchBoundariesStrict (lines : List (List Char)) :
    Except ParseError (List (List Char)) := do
  checkStartAndEndLinesStrict lines.head? lines.getLast?
  .ok lines

/-- The markers that open a heredoc. -/
def heredocMarkers : List (List Char) := ["<<EOF".toList, "<<'EOF'".toList, "<<\"EOF\"".toList]

/-- The lines of a patch that may stand inside a heredoc. -/
def checkPatchBoundariesLenient (originalLines : List (List Char)) :
    Except ParseError (List (List Char)) :=
  match checkPatchBoundariesStrict originalLines with
  | .ok lines => .ok lines
  | .error originalParseError =>
    match originalLines.head?, originalLines.getLast? with
    | some first, some last =>
      if first ∈ heredocMarkers ∧ "EOF".toList.isSuffixOf last = true ∧
          4 ≤ originalLines.length then
        checkPatchBoundariesStrict originalLines.tail.dropLast
      else .error originalParseError
    | _, _ => .error originalParseError

/-- `parse_patch`, which parses in the lenient mode. -/
def parsePatch (patch : List Char) : Except ParseError ApplyPatchArgs := do
  let patchLines ← checkPatchBoundariesLenient (lines (trim patch))
  let patch := joinLines patchLines
  let parser ← StreamingPatchParser.pushDelta {} patch
  let parser ← parser.finish
  .ok { patch, hunks := parser.hunks, workdir := none, environmentId := parser.environmentId }

end RenCrow.ApplyPatch
