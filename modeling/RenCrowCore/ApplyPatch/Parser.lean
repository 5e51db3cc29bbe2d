import RenCrowCore.ApplyPatch.ParserBasic

/-!
# The patch parser, line by line

What feeding a patch to the parser does to it, in terms of the patch's lines.

* `nextLine`: one line is processed;
* `pushDelta_joinLines`: feeding the text of lines processes all but the last of them;
* `parsePatch_of_lines`: parsing a text whose lines are those of a patch.
-/

namespace RenCrow.ApplyPatch

open Fallible Text List

namespace StreamingPatchParser

variable {parser after : StreamingPatchParser} {line trimmed last : List Char}

/-- One line is processed. -/
def nextLine (parser : StreamingPatchParser) (line : List Char) :
    Except ParseError StreamingPatchParser :=
  processLine { parser with lineBuffer := [], lineNumber := parser.lineNumber + 1 } line

/-! ## The buffer -/

theorem startHunk_lineBuffer {hunk : Hunk} {mode : StreamingParserMode}
    (h : parser.startHunk trimmed hunk mode = .ok (some after)) :
    after.lineBuffer = parser.lineBuffer := by
  obtain ⟨-, -, h⟩ := bind_eq_ok.mp h
  cases h
  rfl

theorem handleHunkHeadersAndEndPatch_lineBuffer
    (h : parser.handleHunkHeadersAndEndPatch trimmed = .ok (some after)) :
    after.lineBuffer = parser.lineBuffer := by
  unfold handleHunkHeadersAndEndPatch at h
  split at h
  · unfold setEnvironmentId at h
    split at h
    · cases h
    · split at h
      · cases h
      · cases h
        rfl
  · split at h
    · obtain ⟨-, -, h⟩ := bind_eq_ok.mp h
      cases h
      rfl
    · split at h
      · exact startHunk_lineBuffer h
      · split at h
        · exact startHunk_lineBuffer h
        · split at h
          · exact startHunk_lineBuffer h
          · cases h

/-- Processing a line leaves the buffer alone. -/
theorem processLine_lineBuffer (h : parser.processLine line = .ok after) :
    after.lineBuffer = parser.lineBuffer := by
  -- in the modes that look for a header first, a header was found or the last hunk changed
  have hhead : ∀ {trimmed : List Char} {next : Option _ → Except ParseError StreamingPatchParser},
      (∀ parser, next (some parser) = .ok parser) →
      (∀ after, next none = .ok after → after.lineBuffer = parser.lineBuffer) →
      parser.handleHunkHeadersAndEndPatch trimmed >>= next = .ok after →
      after.lineBuffer = parser.lineBuffer := by
    intro trimmed next hnext hotherwise h
    obtain ⟨handled, hhandled, h⟩ := bind_eq_ok.mp h
    cases handled with
    | some handled =>
      cases (hnext handled).symm.trans h
      exact handleHunkHeadersAndEndPatch_lineBuffer hhandled
    | none => exact hotherwise after h
  unfold processLine at h
  dsimp only at h
  split at h
  · split at h
    · cases h
      rfl
    · cases h
  · exact hhead (fun _ => rfl) (by simp) h
  · refine hhead (fun _ => rfl) (fun after h => ?_) h
    dsimp only [processAddedLine] at h
    split at h
    · cases h
      rfl
    · cases h
  · exact hhead (fun _ => rfl) (by simp) h
  · refine hhead (fun _ => rfl) (fun after h => ?_) h
    dsimp only [processChunkLine] at h
    split at h
    · obtain ⟨updated, -, h⟩ := bind_eq_ok.mp h
      cases h
      rfl
    · cases h
  · split at h
    · cases h
      rfl
    · cases h

/-! ## Feeding lines -/

theorem pushDelta_append (parser : StreamingPatchParser) (first second : List Char) :
    parser.pushDelta (first ++ second) = parser.pushDelta first >>= (·.pushDelta second) :=
  foldlM_append

/-- Within a line the characters are kept. -/
theorem pushDelta_of_no_newline (h : '\n' ∉ line) (parser : StreamingPatchParser) :
    parser.pushDelta line = .ok { parser with lineBuffer := parser.lineBuffer ++ line } := by
  induction line generalizing parser with
  | nil =>
    rw [append_nil]
    rfl
  | cons c line ih =>
    obtain ⟨hc, hline⟩ := not_or.mp (mem_cons.not.mp h)
    have hchar : parser.pushChar c =
        .ok { parser with lineBuffer := parser.lineBuffer ++ [c] } := if_neg (Ne.symm hc)
    rw [pushDelta, foldlM_cons, hchar]
    exact (ih hline _).trans (by simp)

theorem pushDelta_newline (hbuf : parser.lineBuffer = []) (h : '\n' ∉ line)
    (rest : List Char) : parser.pushDelta (line ++ '\n' :: rest) =
      parser.nextLine (stripCr line) >>= (·.pushDelta rest) := by
  rw [pushDelta_append, pushDelta_of_no_newline h, hbuf]
  rfl

/-- **Feeding the text of lines** processes all but the last one, which stays in the
buffer. -/
theorem pushDelta_joinLines {init : List (List Char)} (hbuf : parser.lineBuffer = [])
    (hinit : ∀ line ∈ init, '\n' ∉ line) (hlast : '\n' ∉ last) :
    parser.pushDelta (joinLines (init ++ [last])) = (init.map stripCr).foldlM nextLine parser >>=
        fun parser => .ok { parser with lineBuffer := last } := by
  induction init generalizing parser with
  | nil =>
    rw [nil_append, joinLines_singleton, pushDelta_of_no_newline hlast, hbuf]
    rfl
  | cons line init ih =>
    have hline := hinit line mem_cons_self
    have hjoin : joinLines (line :: init ++ [last]) =
        line ++ '\n' :: joinLines (init ++ [last]) := by
      cases init <;> exact joinLines_cons_cons _ _ _
    rw [hjoin, pushDelta_newline hbuf hline, map_cons, foldlM_cons]
    cases h : parser.nextLine (stripCr line) with
    | error e => rfl
    | ok next =>
      exact ih (processLine_lineBuffer h) fun other hother =>
        hinit other (mem_cons_of_mem _ hother)

/-! ## The end of a patch -/

/-- The last hunk is complete: an update hunk has a chunk, and its last chunk has lines. -/
def Complete (parser : StreamingPatchParser) : Prop :=
  match parser.hunks.getLast? with
  | some (.updateFile _ _ chunks) =>
    match chunks.getLast? with
    | some chunk => chunk.isEmpty = false
    | none => ∀ hunkLineNumber, parser.mode ≠ .updateFile hunkLineNumber
  | _ => True

theorem ensureUpdateHunkIsNotEmpty_eq_ok {parser : StreamingPatchParser} {line : List Char} :
    parser.ensureUpdateHunkIsNotEmpty line = .ok () ↔ parser.Complete := by
  unfold ensureUpdateHunkIsNotEmpty Complete
  cases parser.hunks.getLast? with
  | none => simp
  | some hunk =>
    cases hunk with
    | addFile path contents => simp
    | deleteFile path => simp
    | updateFile path movePath chunks =>
      dsimp only
      cases chunks.getLast? with
      | none => cases parser.mode <;> simp
      | some chunk =>
        cases hempty : chunk.isEmpty with
        | false => simp [hempty]
        | true => by_cases hline : line = endPatchMarker <;> simp [hempty, hline]

/-- The last line ends the patch. -/
theorem finish_endPatch (hlast : trim last = endPatchMarker) (h : parser.Complete) :
    finish { parser with lineBuffer := last } = .ok { parser with
      lineBuffer := [], lineNumber := parser.lineNumber + 1, mode := .endedPatch } := by
  have hne : last.isEmpty = false := by
    cases last with
    | nil => exact absurd hlast (by decide)
    | cons c last => rfl
  have hensure : ensureUpdateHunkIsNotEmpty
      { parser with lineBuffer := [], lineNumber := parser.lineNumber + 1 } endPatchMarker =
        .ok () := ensureUpdateHunkIsNotEmpty_eq_ok.mpr h
  simp only [finish, flush, hne, hlast, if_true, hensure]
  rfl

end StreamingPatchParser

/-! ## Parsing -/

/-- **Parsing a text** feeds its lines to the parser, once their boundaries are checked. -/
theorem parsePatch_of_lines {patch last : List Char} {init : List (List Char)}
    (hlines : checkPatchBoundariesLenient (lines (trim patch)) = .ok (init ++ [last]))
    (hinit : ∀ line ∈ init, '\n' ∉ line) (hlast : '\n' ∉ last) :
    parsePatch patch = (do
      let parser ← (init.map stripCr).foldlM StreamingPatchParser.nextLine {}
      let parser ← StreamingPatchParser.finish { parser with lineBuffer := last }
      .ok { patch := joinLines (init ++ [last]), hunks := parser.hunks, workdir := none,
            environmentId := parser.environmentId }) := by
  rw [parsePatch, hlines]
  dsimp only [bind, Except.bind]
  rw [StreamingPatchParser.pushDelta_joinLines rfl hinit hlast]
  cases (init.map stripCr).foldlM StreamingPatchParser.nextLine {} <;> rfl

end RenCrow.ApplyPatch
