import RenCrowCore.ApplyPatch.ParserBasic
import RenCrowCore.Lib.Newest

/-!
# Updating the text of a file

What the chunks of an update hunk make of the contents of a file
(`apply-patch/src/file_update.rs`, `seek_sequence.rs`, `text_file.rs`).

* `seekSequence`: where a list of lines is found, exactly or with less and less care;
* `computeReplacements`: the replacements of all chunks, in the order of the file;
* `SourceFile`: a text with the ending of each line;
* `newContents`: the updated text.
-/

namespace RenCrow.ApplyPatch

open Text

/-- What becomes of the line endings of a file. -/
inductive ApplyPatchFileUpdateMode where
  | normalizeToLf
  | preserveLineEndings
deriving DecidableEq, Repr

/-! ## Searching -/

/-- Typographic characters are searched for as their plain forms. -/
def normaliseChar (c : Char) : Char :=
  if c ∈ ['\u2010', '\u2011', '\u2012', '\u2013', '\u2014', '\u2015', '\u2212'] then '-'
  else if c ∈ ['\u2018', '\u2019', '\u201a', '\u201b'] then '\x27'
  else if c ∈ ['\u201c', '\u201d', '\u201e', '\u201f'] then '\x22'
  else if c ∈ ['\u00a0', '\u2002', '\u2003', '\u2004', '\u2005', '\u2006', '\u2007', '\u2008',
      '\u2009', '\u200a', '\u202f', '\u205f', '\u3000'] then ' '
  else c

/-- A line without its outer blanks, in plain ASCII punctuation. -/
def normalise (text : List Char) : List Char := (trim text).map normaliseChar

/-- One pass over the lines: the first place where they agree with the pattern once both
are brought into the given form. -/
def seekPass (form : List Char → List Char) (lines pattern : List (List Char)) (searchStart : Nat) :
    Option Nat :=
  (List.range' searchStart (lines.length - pattern.length + 1 - searchStart)).find? fun i =>
    ((lines.drop i).take pattern.length).map form = pattern.map form

/-- `seek_sequence`: exactly, then without trailing blanks, then without blanks on both
sides, then with plain punctuation. -/
def seekSequence (lines pattern : List (List Char)) (start : Nat) (eof : Bool)
    (mode : ApplyPatchFileUpdateMode) : Option Nat :=
  if pattern.isEmpty then some start
  else if lines.length < pattern.length then none
  else
    let eofStart := lines.length - pattern.length
    let searchStart := if eof then
        match mode with
        | .normalizeToLf => eofStart
        | .preserveLineEndings => max eofStart start
      else start
    [id, trimEnd, trim, normalise].findSome? fun form =>
      seekPass form lines pattern searchStart

/-! ## Replacements -/

/-- Lines that are replaced: the first of them, how many, and by what. -/
structure Replacement where
  startIdx : Nat
  oldLen : Nat
  newSegment : List (List Char)
deriving DecidableEq, Repr

/-- `lines` without a last one that is empty. -/
def dropLastEmpty (lines : List (List Char)) : List (List Char) :=
  if lines.getLast? = some [] then lines.dropLast else lines

/-- The part of a chunk after its last context line. -/
def lastReplacement (startIdx : Nat) (pattern newSlice : List (List Char))
    (oldStart newStart : Nat) :
    List Replacement :=
  if oldStart ≠ pattern.length ∨ newStart ≠ newSlice.length then
    [⟨startIdx + oldStart, pattern.length - oldStart, newSlice.drop newStart⟩]
  else []

/-- The parts of a chunk between its context lines, which stay as they are. -/
def contextReplacements (startIdx : Nat) (pattern newSlice : List (List Char)) :
    Nat → Nat → List (Nat × Nat) → List Replacement
  | oldStart, newStart, [] => lastReplacement startIdx pattern newSlice oldStart newStart
  | oldStart, newStart, (oldContext, newContext) :: rest =>
    -- an empty line at the end of the file may have been given up
    if pattern.length ≤ oldContext ∨ newSlice.length ≤ newContext then
      lastReplacement startIdx pattern newSlice oldStart newStart
    else
      (if oldStart ≠ oldContext ∨ newStart ≠ newContext then
        [⟨startIdx + oldStart, oldContext - oldStart,
          (newSlice.drop newStart).take (newContext - newStart)⟩]
      else []) ++
        contextReplacements startIdx pattern newSlice (oldContext + 1) (newContext + 1) rest

/-- A chunk whose context is not in the file. -/
def contextNotFound (context : List Char) (path : String) : String :=
  "Failed to find context '" ++ String.ofList context ++ "' in " ++ path

/-- A chunk whose lines are not in the file. -/
def linesNotFound (oldLines : List (List Char)) (path : String) : String :=
  "Failed to find expected lines in " ++ path ++ ":\n" ++ String.ofList (joinLines oldLines)

/-- Where a chunk with only new lines puts them. -/
def insertionIdx (originalLines : List (List Char)) : ApplyPatchFileUpdateMode → Nat
  | .normalizeToLf =>
    if originalLines.getLast? = some [] then originalLines.length - 1 else originalLines.length
  | .preserveLineEndings => originalLines.length

/-- The lines of a chunk are looked for, and once more without an empty line at the end:
the place, the lines found there and the lines that replace them. -/
def findLines (originalLines : List (List Char)) (chunk : UpdateFileChunk) (lineIndex : Nat)
    (mode : ApplyPatchFileUpdateMode) : Option (Nat × List (List Char) × List (List Char)) :=
  match seekSequence originalLines chunk.oldLines lineIndex chunk.isEndOfFile mode with
  | some startIdx => some (startIdx, chunk.oldLines, chunk.newLines)
  | none =>
    if chunk.oldLines.getLast? = some [] then
      (seekSequence originalLines chunk.oldLines.dropLast lineIndex chunk.isEndOfFile mode).map
        fun startIdx => (startIdx, chunk.oldLines.dropLast, dropLastEmpty chunk.newLines)
    else none

/-- One chunk: its replacements, and where the next chunk is looked for. -/
def chunkReplacements (originalLines : List (List Char)) (path : String)
    (mode : ApplyPatchFileUpdateMode) (lineIndex : Nat) (chunk : UpdateFileChunk) :
    Except String (List Replacement × Nat) := do
  let lineIndex ← match chunk.changeContext with
    | none => .ok lineIndex
    | some context =>
      match seekSequence originalLines [context] lineIndex false mode with
      | some idx => .ok (idx + 1)
      | none => .error (contextNotFound context path)
  if chunk.oldLines.isEmpty then
    .ok ([⟨insertionIdx originalLines mode, 0, chunk.newLines⟩], lineIndex)
  else
    match findLines originalLines chunk lineIndex mode with
    | some (startIdx, pattern, newSlice) =>
      .ok (match mode with
        | .normalizeToLf => [⟨startIdx, pattern.length, newSlice⟩]
        | .preserveLineEndings =>
          contextReplacements startIdx pattern newSlice 0 0 chunk.contextLineIndices,
        startIdx + pattern.length)
    | none => .error (linesNotFound chunk.oldLines path)

/-- The replacements of all chunks, each looked for after the one before, sorted by their start. -/
def computeReplacements (originalLines : List (List Char)) (path : String)
    (chunks : List UpdateFileChunk) (mode : ApplyPatchFileUpdateMode) :
    Except String (List Replacement) := do
  let found ← chunks.foldlM (fun (found, lineIndex) chunk => do
    let (replacements, next) ← chunkReplacements originalLines path mode lineIndex chunk
    .ok (found ++ replacements, next)) (([] : List Replacement), 0)
  .ok (Newest.sortByKey Replacement.startIdx found.1)

/-- From the last replacement to the first, so that none moves another. -/
def applyReplacements (lines : List (List Char)) (replacements : List Replacement) :
    List (List Char) :=
  replacements.foldr (fun replacement lines =>
    lines.take replacement.startIdx ++ replacement.newSegment ++
      lines.drop (replacement.startIdx + replacement.oldLen)) lines

/-! ## Texts with their line endings -/

/-- The line endings. -/
inductive LineEnding where
  | lf
  | crLf
  | cr
deriving DecidableEq, Repr

/-- The text of a line ending. -/
def LineEnding.asStr : LineEnding → List Char
  | lf => ['\n']
  | crLf => ['\r', '\n']
  | cr => ['\r']

/-- A line with its ending; the last one may have none. -/
structure SourceLine where
  text : List Char
  ending : Option LineEnding
deriving DecidableEq, Repr

/-- The lines of a file, and the ending that new ones are given. -/
structure SourceFile where
  lines : List SourceLine
  preferredEnding : LineEnding
deriving DecidableEq, Repr

namespace SourceFile

/-- The lines of a text, after what has been read of the current one. -/
def parseLines (text : List Char) : List Char → List SourceLine
  | [] => if text.isEmpty then [] else [⟨text, none⟩]
  | '\r' :: '\n' :: rest => ⟨text, some .crLf⟩ :: parseLines [] rest
  | '\r' :: rest => ⟨text, some .cr⟩ :: parseLines [] rest
  | '\n' :: rest => ⟨text, some .lf⟩ :: parseLines [] rest
  | c :: rest => parseLines (text ++ [c]) rest

/-- The first ending is the one that new lines get. -/
def parse (contents : List Char) : SourceFile :=
  let lines := parseLines [] contents
  { lines, preferredEnding := (lines.findSome? SourceLine.ending).getD .lf }

/-- The lines without their endings. -/
def lineTexts (file : SourceFile) : List (List Char) := file.lines.map SourceLine.text

/-- The lines up to the next replacement are kept, those it replaces are skipped. -/
def replaceLines (preferredEnding : LineEnding) :
    Nat → List SourceLine → List Replacement → List SourceLine
  | _, sourceLines, [] => sourceLines
  | sourceIndex, sourceLines, replacement :: rest =>
    sourceLines.take (replacement.startIdx - sourceIndex) ++
      replacement.newSegment.map (fun text => ⟨text, some preferredEnding⟩) ++
      replaceLines preferredEnding (replacement.startIdx + replacement.oldLen)
        (sourceLines.drop (replacement.startIdx - sourceIndex + replacement.oldLen)) rest

/-- Replaces lines, and gives every line an ending. -/
def applyReplacements (file : SourceFile) (replacements : List Replacement) : SourceFile :=
  { file with
    lines := (replaceLines file.preferredEnding 0 file.lines replacements).map fun line =>
      { line with ending := some (line.ending.getD file.preferredEnding) } }

/-- The text of a file. -/
def intoContents (file : SourceFile) : List Char :=
  file.lines.flatMap fun line => line.text ++ (line.ending.elim [] LineEnding.asStr)

end SourceFile

/-! ## The new contents -/

/-- The contents of a file after the chunks of a hunk, from its contents before. -/
def newContents (originalContents : List Char) (path : String) (chunks : List UpdateFileChunk) :
    ApplyPatchFileUpdateMode → Except String (List Char)
  | .normalizeToLf => do
    let originalLines := dropLastEmpty (originalContents.splitOn '\n')
    let replacements ← computeReplacements originalLines path chunks .normalizeToLf
    let newLines := applyReplacements originalLines replacements
    .ok (joinLines (if newLines.getLast? = some [] then newLines else newLines ++ [[]]))
  | .preserveLineEndings => do
    let sourceFile := SourceFile.parse originalContents
    let replacements ← computeReplacements sourceFile.lineTexts path chunks .preserveLineEndings
    .ok (sourceFile.applyReplacements replacements).intoContents

end RenCrow.ApplyPatch
