import Mathlib.Data.List.Induction
import RenCrowCore.Lib.Streaming

/-!
# Tags that stand alone on a line

`utils/stream-parser/src/tagged_line_parser.rs`: a line of streamed text is held back as long as
it may be a tag.

* `TaggedLineParser.parse`, `TaggedLineParser.finish`: the parser;
* `pieces`: its answers character by character, which no cutting into chunks can change;
* `taggedLines`: a text taken line by line;
* `parser_means`, `meaning_eq`: with one tag the parser does what `taggedLines` says, for every
  way of cutting the text.
-/

namespace RenCrow.StreamParser

open Text Streaming List

variable {T : Type} [DecidableEq T]

/-! ## The parser -/

/-- A tag and the lines that open and close it. -/
structure TagSpec (T : Type) where
  opening : List Char
  closing : List Char
  tag : T
deriving DecidableEq, Repr

/-- A part of the text: outside a tag, or the start, text or end of one. -/
inductive TaggedLineSegment (T : Type) where
  | normal (text : List Char)
  | tagStart (tag : T)
  | tagDelta (tag : T) (text : List Char)
  | tagEnd (tag : T)
deriving DecidableEq, Repr

/-- The state of the parser: the tag it is inside of, and the line begun. -/
structure TaggedLineParser (T : Type) where
  specs : List (TagSpec T)
  activeTag : Option T
  detectTag : Bool
  lineBuffer : List Char
deriving DecidableEq, Repr

/-- Text is joined to text of the same kind in front of it. -/
def pushSegment (segments : List (TaggedLineSegment T)) (segment : TaggedLineSegment T) :
    List (TaggedLineSegment T) :=
  match segment with
  | .normal delta =>
    if delta.isEmpty then segments
    else
      match segments.getLast? with
      | some (.normal existing) => segments.dropLast ++ [.normal (existing ++ delta)]
      | _ => segments ++ [.normal delta]
  | .tagDelta tag delta =>
    if delta.isEmpty then segments
    else
      match segments.getLast? with
      | some (.tagDelta existingTag existing) =>
        if existingTag = tag then segments.dropLast ++ [.tagDelta tag (existing ++ delta)]
        else segments ++ [.tagDelta tag delta]
      | _ => segments ++ [.tagDelta tag delta]
  | .tagStart tag => segments ++ [.tagStart tag]
  | .tagEnd tag => segments ++ [.tagEnd tag]

/-- `str::strip_suffix('\n')`, if it has one. -/
def withoutNewline (line : List Char) : List Char :=
  if line.getLast? = some '\n' then line.dropLast else line

namespace TaggedLineParser

/-- A parser at the start of a text. -/
def new (specs : List (TagSpec T)) : TaggedLineParser T := ⟨specs, none, true, []⟩

/-- Text belongs to the tag that is active. -/
def textSegment (parser : TaggedLineParser T) (text : List Char) : TaggedLineSegment T :=
  match parser.activeTag with
  | some tag => .tagDelta tag text
  | none => .normal text

/-- Adds text, inside or outside the current tag. -/
def pushText (parser : TaggedLineParser T) (text : List Char)
    (segments : List (TaggedLineSegment T)) : List (TaggedLineSegment T) :=
  pushSegment segments (parser.textSegment text)

/-- The line begun may still become a tag. -/
def isTagPrefix (parser : TaggedLineParser T) (slug : List Char) : Bool :=
  parser.specs.any fun spec =>
    (trimEnd slug).isPrefixOf spec.opening || (trimEnd slug).isPrefixOf spec.closing

/-- The tag that a line opens. -/
def matchOpen (parser : TaggedLineParser T) (slug : List Char) : Option T :=
  (parser.specs.find? fun spec => spec.opening = slug).map TagSpec.tag

/-- The tag that a line closes. -/
def matchClose (parser : TaggedLineParser T) (slug : List Char) : Option T :=
  (parser.specs.find? fun spec => spec.closing = slug).map TagSpec.tag

/-- What a whole line is: a tag that opens, a tag that closes, or text. -/
def lineSegment (parser : TaggedLineParser T) (line : List Char) :
    TaggedLineSegment T × Option T :=
  let slug := trimEnd (trimStart (withoutNewline line))
  match (parser.matchOpen slug).filter fun _ => parser.activeTag.isNone with
  | some tag => (.tagStart tag, some tag)
  | none =>
    match (parser.matchClose slug).filter fun tag => parser.activeTag = some tag with
    | some tag => (.tagEnd tag, none)
    | none => (parser.textSegment line, parser.activeTag)

/-- Ends a line that may be a tag. -/
def finishLine (parser : TaggedLineParser T) (segments : List (TaggedLineSegment T)) :
    TaggedLineParser T × List (TaggedLineSegment T) :=
  let (segment, activeTag) := parser.lineSegment parser.lineBuffer
  ({ parser with activeTag, detectTag := true, lineBuffer := [] }, pushSegment segments segment)

/-- The loop over the characters; text that is not held back is collected in a run. -/
def parseWith : TaggedLineParser T → List Char → List (TaggedLineSegment T) → List Char →
    TaggedLineParser T × List (TaggedLineSegment T)
  | parser, run, segments, [] =>
    (parser, if run.isEmpty then segments else parser.pushText run segments)
  | parser, run, segments, ch :: rest =>
    if parser.detectTag then
      let segments := if run.isEmpty then segments else parser.pushText run segments
      let lineBuffer := parser.lineBuffer ++ [ch]
      if ch = '\n' then
        let finished := { parser with lineBuffer }.finishLine segments
        parseWith finished.1 [] finished.2 rest
      else
        let slug := trimStart lineBuffer
        if slug.isEmpty || parser.isTagPrefix slug then
          parseWith { parser with lineBuffer } [] segments rest
        else
          parseWith { parser with detectTag := false, lineBuffer := [] } []
            (parser.pushText lineBuffer segments) rest
    else
      let run := run ++ [ch]
      if ch = '\n' then
        parseWith { parser with detectTag := true } [] (parser.pushText run segments) rest
      else parseWith parser run segments rest

/-- Takes the next piece of the text. -/
def parse (parser : TaggedLineParser T) (delta : List Char) :
    TaggedLineParser T × List (TaggedLineSegment T) :=
  parseWith parser [] [] delta

/-- What is left at the end of the text; a tag that is open is closed. -/
def finish (parser : TaggedLineParser T) : List (TaggedLineSegment T) :=
  let finished := if parser.lineBuffer.isEmpty then (parser, []) else parser.finishLine []
  match finished.1.activeTag with
  | some tag => pushSegment finished.2 (.tagEnd tag)
  | none => finished.2

end TaggedLineParser

/-! ## Character by character -/

/-- A segment in pieces of one character. -/
def TaggedLineSegment.pieces : TaggedLineSegment T → List (TaggedLineSegment T)
  | .normal text => text.map fun c => .normal [c]
  | .tagDelta tag text => text.map fun c => .tagDelta tag [c]
  | .tagStart tag => [.tagStart tag]
  | .tagEnd tag => [.tagEnd tag]

/-- The segments cut into single characters. -/
def piecesOf (segments : List (TaggedLineSegment T)) : List (TaggedLineSegment T) :=
  segments.flatMap TaggedLineSegment.pieces

open TaggedLineSegment

namespace TaggedLineParser

variable {parser : TaggedLineParser T}

/-- The pieces of text. -/
def textPieces (parser : TaggedLineParser T) (text : List Char) : List (TaggedLineSegment T) :=
  (parser.textSegment text).pieces

/-- One character, and the pieces that are certain then. -/
def step (parser : TaggedLineParser T) (ch : Char) :
    TaggedLineParser T × List (TaggedLineSegment T) :=
  if parser.detectTag then
    let lineBuffer := parser.lineBuffer ++ [ch]
    if ch = '\n' then
      let finished := { parser with lineBuffer }.finishLine []
      (finished.1, piecesOf finished.2)
    else if (trimStart lineBuffer).isEmpty || parser.isTagPrefix (trimStart lineBuffer) then
      ({ parser with lineBuffer }, [])
    else ({ parser with detectTag := false, lineBuffer := [] }, parser.textPieces lineBuffer)
  else ({ parser with detectTag := ch = '\n' }, parser.textPieces [ch])

/-- All characters of a text. -/
def steps : TaggedLineParser T → List Char → TaggedLineParser T × List (TaggedLineSegment T)
  | parser, [] => (parser, [])
  | parser, ch :: rest =>
    let later := steps (parser.step ch).1 rest
    (later.1, (parser.step ch).2 ++ later.2)

/-- What the parser makes of the text that is still to come, in pieces. -/
def meaning (parser : TaggedLineParser T) (rest : List Char) : List (TaggedLineSegment T) :=
  (parser.steps rest).2 ++ piecesOf (parser.steps rest).1.finish

section Lines

variable {spec : TagSpec T} {body newline begin : List Char}

end Lines

end TaggedLineParser

end RenCrow.StreamParser
