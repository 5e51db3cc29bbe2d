import RenCrowCore.ApplyPatch.Parser

/-!
# Parsing a patch again

A verified patch is kept as the text of its lines and parsed once more when it is applied.
Every line loses a carriage return on the way, so the second parse can see other lines.

* `Reparsed`: the same hunk with the carriage returns gone;
* `parsePatch_patch`: the second parse succeeds, with the same paths and the same kinds of
  hunks.
-/

namespace RenCrow.ApplyPatch

open Fallible Text StreamingPatchParser List

/-- A chunk whose lines have no carriage return at their end. -/
def UpdateFileChunk.stripCr (chunk : UpdateFileChunk) : UpdateFileChunk :=
  { chunk with
    oldLines := chunk.oldLines.map Text.stripCr
    newLines := chunk.newLines.map Text.stripCr }

/-- The text of lines that are all terminated. -/
def terminated (lines : List (List Char)) : List Char := lines.flatMap (· ++ ['\n'])

/-- A hunk, and the hunk with the same lines without a carriage return at their ends. -/
inductive Reparsed : Hunk → Hunk → Prop where
  | addFile {path : List Char} (lines : List (List Char)) :
      Reparsed (.addFile path (terminated lines))
        (.addFile path (terminated (lines.map Text.stripCr)))
  | deleteFile {path : List Char} : Reparsed (.deleteFile path) (.deleteFile path)
  | updateFile {path : List Char} {movePath : Option (List Char)} {chunks : List UpdateFileChunk} :
      Reparsed (.updateFile path movePath chunks)
        (.updateFile path movePath (chunks.map UpdateFileChunk.stripCr))

/-! ## Lines without their carriage return -/

theorem stripCr_cons {c : Char} (hc : c ≠ '\r') (text : List Char) :
    Text.stripCr (c :: text) = c :: Text.stripCr text := by
  cases text with
  | nil => exact Text.stripCr_eq_self (by simpa using hc)
  | cons d text =>
    have hlast : (c :: d :: text).getLast? = (d :: text).getLast? := getLast?_cons_cons
    unfold Text.stripCr
    rw [hlast]
    split
    · rfl
    · rfl

open UpdateFileChunk

@[simp] theorem UpdateFileChunk.isEmpty_stripCr (chunk : UpdateFileChunk) :
    chunk.stripCr.isEmpty = chunk.isEmpty := by
  simp [isEmpty, stripCr]

theorem any_getLast?_map_stripCr (chunks : List UpdateFileChunk) (p : UpdateFileChunk → Bool)
    (hp : ∀ chunk, p chunk.stripCr = p chunk) :
    (chunks.map UpdateFileChunk.stripCr).getLast?.any p = chunks.getLast?.any p := by
  rw [getLast?_map, Option.any_map]
  exact congrArg (fun p => chunks.getLast?.any p) (funext hp)

namespace StreamingPatchParser

theorem pushLine_map_stripCr (chunks : List UpdateFileChunk)
    {push again : UpdateFileChunk → UpdateFileChunk}
    (h : ∀ chunk, again chunk.stripCr = (push chunk).stripCr) :
    pushLine (chunks.map stripCr) again = (pushLine chunks push).map UpdateFileChunk.stripCr := by
  unfold pushLine
  rw [getLast?_map]
  cases chunks.getLast? with
  | none => exact congrArg (fun chunk => [chunk]) (h {})
  | some chunk =>
    rw [Option.map_some]
    simp only [map_append, map_dropLast, map_cons, map_nil, h]

/-- A line of an update hunk, read again. -/
theorem processUpdateLine_stripCr (lineNumber : Nat) (movePath : Option (List Char))
    (chunks : List UpdateFileChunk) (line : List Char) :
    Repeats (fun updated again => again = (updated.1, updated.2.map stripCr))
      (processUpdateLine lineNumber movePath chunks line)
      (processUpdateLine lineNumber movePath (chunks.map stripCr) (Text.stripCr line)) := by
  have hempty := any_getLast?_map_stripCr chunks isEmpty fun chunk =>
    chunk.isEmpty_stripCr
  have heof := any_getLast?_map_stripCr chunks isEndOfFile fun _ => rfl
  have hpush : ∀ {push again : UpdateFileChunk → UpdateFileChunk},
      (∀ chunk, again chunk.stripCr = (push chunk).stripCr) →
        Repeats (fun updated again => again = (updated.1, updated.2.map UpdateFileChunk.stripCr))
          (.ok (movePath, pushLine chunks push) : Except ParseError _)
          (.ok (movePath, pushLine (chunks.map UpdateFileChunk.stripCr) again)) :=
    fun h => .ok (congrArg (Prod.mk movePath) (pushLine_map_stripCr chunks h))
  unfold processUpdateLine
  simp only [(trim_stripCr line).2, hempty, heof, isEmpty_map]
  generalize trimEnd line = updateLine
  refine .ite (fun _ => .ok rfl) fun _ => .ite (fun _ => .failed) fun _ => ?_
  generalize (if chunks.isEmpty && movePath.isNone then stripPrefix moveToMarker updateLine
    else none) = moved
  cases moved with
  | some dest => exact .ok rfl
  | none =>
    refine .ite (fun _ => .failed) fun _ => .ite
      (fun _ => .ok (by simp [UpdateFileChunk.stripCr])) fun _ => ?_
    generalize stripPrefix changeContextMarker updateLine = context
    cases context with
    | some changeContext => exact .ok (by simp [UpdateFileChunk.stripCr])
    | none =>
      refine .ite (fun _ => .ite (fun _ => .failed) fun _ => ?_) fun _ => ?_
      · rw [getLast?_map]
        cases chunks.getLast? with
        | none => exact .ok rfl
        | some chunk => exact .ok (by simp [UpdateFileChunk.stripCr])
      · split
        · exact hpush fun chunk => by simp [pushContextLine, UpdateFileChunk.stripCr, Text.stripCr]
        · rw [stripCr_cons (by decide)]
          exact hpush fun chunk => by simp [pushContextLine, UpdateFileChunk.stripCr]
        · rw [stripCr_cons (by decide)]
          exact hpush fun chunk => by simp [pushNewLine, UpdateFileChunk.stripCr]
        · rw [stripCr_cons (by decide)]
          exact hpush fun chunk => by simp [pushOldLine, UpdateFileChunk.stripCr]
        · split <;> exact .failed

/-! ## The parser, line by line -/

variable {parser after : StreamingPatchParser} {again : List Hunk} {trimmed : List Char}

/-- The last hunks of both parses belong together. -/
theorem forall₂_concat {init : List Hunk} {hunk : Hunk}
    (h : List.Forall₂ Reparsed (init ++ [hunk]) again) :
    ∃ initAgain hunkAgain, again = initAgain ++ [hunkAgain] ∧
      List.Forall₂ Reparsed init initAgain ∧ Reparsed hunk hunkAgain := by
  induction init generalizing again with
  | nil =>
    cases h with
    | cons hhunk hnil =>
      cases hnil
      exact ⟨[], _, rfl, .nil, hhunk⟩
  | cons first init ih =>
    cases h with
    | cons hfirst hrest =>
      obtain ⟨initAgain, hunkAgain, rfl, hinit, hhunk⟩ := ih hrest
      exact ⟨_, hunkAgain, rfl, .cons hfirst hinit, hhunk⟩

/-- The two parsers stand at the same place, with hunks that belong together. -/
structure Again (parser again : StreamingPatchParser) : Prop where
  eq : again = { parser with hunks := again.hunks }
  hunks : List.Forall₂ Reparsed parser.hunks again.hunks

section Again

variable {parser again : StreamingPatchParser} {trimmed : List Char} (h : Again parser again)
include h

theorem Again.complete (hcomplete : parser.Complete) : again.Complete := by
  obtain ⟨heq, hhunks⟩ := h
  rw [heq]
  generalize again.hunks = hunks at hhunks
  unfold Complete at hcomplete ⊢
  rcases eq_nil_or_concat' parser.hunks with hnil | ⟨init, hunk, hconc⟩
  · rw [hnil] at hhunks
    cases hhunks
    trivial
  · rw [hconc] at hhunks hcomplete
    obtain ⟨initAgain, hunkAgain, rfl, -, hhunk⟩ := forall₂_concat hhunks
    rw [getLast?_concat] at hcomplete ⊢
    cases hhunk with
    | addFile lines => trivial
    | deleteFile => trivial
    | updateFile =>
      dsimp only at hcomplete ⊢
      rw [getLast?_map]
      cases hlast : List.getLast? _ with
      | none =>
        rw [hlast] at hcomplete
        exact hcomplete
      | some chunk =>
        rw [hlast] at hcomplete
        exact (isEmpty_stripCr chunk).trans hcomplete

theorem ensure_again : Repeats (fun _ _ => True) (parser.ensureUpdateHunkIsNotEmpty trimmed)
    (again.ensureUpdateHunkIsNotEmpty trimmed) := fun _ hensure =>
  ⟨(), ensureUpdateHunkIsNotEmpty_eq_ok.mpr
    (h.complete (ensureUpdateHunkIsNotEmpty_eq_ok.mp hensure)), trivial⟩

theorem startHunk_again {hunk : Hunk} {mode : StreamingParserMode} (hhunk : Reparsed hunk hunk) :
    Repeats (Option.Rel Again) (parser.startHunk trimmed hunk mode)
      (again.startHunk trimmed hunk mode) := by
  refine (ensure_again h).bind fun _ _ _ => .ok (.some ⟨?_, ?_⟩)
  · rw [h.eq]
  · exact rel_append h.hunks (.cons hhunk .nil)

/-- A line that may be a header, read again. -/
theorem handle_again : Repeats (Option.Rel Again) (parser.handleHunkHeadersAndEndPatch trimmed)
    (again.handleHunkHeadersAndEndPatch trimmed) := by
  obtain ⟨hunks, rfl⟩ : ∃ hunks, again = { parser with hunks } := ⟨_, h.eq⟩
  unfold handleHunkHeadersAndEndPatch
  dsimp only
  generalize (if parser.mode = .startedPatch then stripPrefix environmentIdMarker trimmed
    else none) = env
  cases env with
  | some envId =>
    exact .ite (fun _ => .failed) fun _ => .ite (fun _ => .failed) fun _ =>
      .ok (.some ⟨rfl, h.hunks⟩)
  | none =>
    refine .ite (fun _ => (ensure_again h).bind fun _ _ _ => .ok (.some ⟨rfl, h.hunks⟩)) fun _ => ?_
    generalize stripPrefix addFileMarker trimmed = added
    cases added with
    | some path => exact startHunk_again h (.addFile [])
    | none =>
      generalize stripPrefix deleteFileMarker trimmed = deleted
      cases deleted with
      | some path => exact startHunk_again h .deleteFile
      | none =>
        generalize stripPrefix updateFileMarker trimmed = updated
        cases updated with
        | some path => exact startHunk_again h .updateFile
        | none => exact .ok .none

/-- In the modes that look for a header first: it is found again, or the rest is done again. -/
theorem header_again {otherwise otherwiseAgain : Except ParseError StreamingPatchParser}
    (hotherwise : Repeats Again otherwise otherwiseAgain) :
    Repeats Again (parser.handleHunkHeadersAndEndPatch trimmed >>= fun handled => match handled with
        | some parser => .ok parser
        | none => otherwise)
      (again.handleHunkHeadersAndEndPatch trimmed >>= fun handled => match handled with
        | some parser => .ok parser
        | none => otherwiseAgain) := by
  refine (handle_again h).bind fun handled handledAgain hrel => ?_
  cases hrel with
  | some hafter => exact .ok hafter
  | none => exact hotherwise

variable (line : List Char)

theorem processAddedLine_again :
    Repeats Again (parser.processAddedLine line) (again.processAddedLine (Text.stripCr line)) := by
  obtain ⟨hunks, rfl⟩ : ∃ hunks, again = { parser with hunks } := ⟨_, h.eq⟩
  unfold processAddedLine
  split
  · rename_i lineToAdd path contents hplus hlast
    obtain rfl : line = '+' :: lineToAdd := eq_append_of_stripPrefix hplus
    obtain ⟨init, hconc⟩ := getLast?_eq_some_iff.mp hlast
    have hhunks := h.hunks
    rw [hconc] at hhunks
    obtain ⟨initAgain, hunkAgain, rfl, hinit, hhunk⟩ := forall₂_concat hhunks
    have hplusAgain : stripPrefix ['+'] (Text.stripCr ('+' :: lineToAdd)) =
        some (Text.stripCr lineToAdd) := by
      rw [stripCr_cons (by decide)]
      exact stripPrefix_append ['+'] _
    rw [hplusAgain, getLast?_concat]
    cases hhunk with
    | addFile lines =>
      refine .ok ⟨rfl, ?_⟩
      simp only [setLastHunk, hconc, dropLast_concat]
      refine rel_append hinit (.cons ?_ .nil)
      have hgrown := @Reparsed.addFile path (lines ++ [lineToAdd])
      simpa [terminated] using hgrown
  · exact .failed

theorem processChunkLine_again :
    Repeats Again (parser.processChunkLine line) (again.processChunkLine (Text.stripCr line)) := by
  obtain ⟨hunks, rfl⟩ : ∃ hunks, again = { parser with hunks } := ⟨_, h.eq⟩
  unfold processChunkLine
  split
  · rename_i path movePath chunks hlast
    obtain ⟨init, hconc⟩ := getLast?_eq_some_iff.mp hlast
    have hhunks := h.hunks
    rw [hconc] at hhunks
    obtain ⟨initAgain, hunkAgain, rfl, hinit, hhunk⟩ := forall₂_concat hhunks
    rw [getLast?_concat]
    cases hhunk with
    | updateFile =>
      refine Repeats.bind (processUpdateLine_stripCr _ _ _ _) ?_
      rintro updated _ rfl
      refine .ok ⟨rfl, ?_⟩
      simp only [setLastHunk, hconc, dropLast_concat]
      exact rel_append hinit (.cons .updateFile .nil)
  · exact .failed

/-- **A line, read again** without its carriage return. -/
theorem processLine_again :
    Repeats Again (parser.processLine line) (again.processLine (Text.stripCr line)) := by
  have hmode : again.mode = parser.mode := by rw [h.eq]
  unfold processLine
  dsimp only
  rw [(trim_stripCr line).1, (trim_stripCr line).2, hmode]
  split
  · exact .ite (fun _ => .ok ⟨by rw [h.eq], h.hunks⟩) fun _ => .failed
  · exact header_again h .failed
  · exact header_again h (processAddedLine_again h line)
  · exact header_again h .failed
  · exact header_again h (processChunkLine_again h line)
  · exact .ite (fun _ => .ok h) fun _ => .failed

omit h in
/-- **Lines, read again.** -/
theorem foldlM_again {lines : List (List Char)} (h : Again parser again) :
    Repeats Again (lines.foldlM nextLine parser)
      ((lines.map Text.stripCr).foldlM nextLine again) := by
  induction lines generalizing parser again with
  | nil => exact .ok h
  | cons line lines ih =>
    have hstart : Again { parser with lineBuffer := [], lineNumber := parser.lineNumber + 1 }
        { again with lineBuffer := [], lineNumber := again.lineNumber + 1 } :=
      ⟨by rw [h.eq], h.hunks⟩
    rw [map_cons, foldlM_cons, foldlM_cons]
    exact Repeats.bind (processLine_again hstart line) fun _ _ hnext => ih hnext

end Again

/-- The last line ends a patch that is complete. -/
theorem complete_of_finish {last : List Char} (hlast : trim last = endPatchMarker)
    (h : finish { parser with lineBuffer := last } = .ok after) : parser.Complete := by
  have hne : last.isEmpty = false := by
    cases last with
    | nil => exact absurd hlast (by decide)
    | cons c last => rfl
  obtain ⟨flushed, hflush, -⟩ := bind_eq_ok.mp h
  unfold flush at hflush
  simp only [hne, hlast, Bool.false_eq_true, if_false, if_true] at hflush
  obtain ⟨⟨⟩, hensure, -⟩ := bind_eq_ok.mp hflush
  have hcomplete := ensureUpdateHunkIsNotEmpty_eq_ok.mp hensure
  exact hcomplete

end StreamingPatchParser

/-! ## Boundaries -/

theorem checkStartAndEndLinesStrict_eq_ok {first last : Option (List Char)}
    (h : checkStartAndEndLinesStrict first last = .ok ()) :
    ∃ firstLine lastLine, first = some firstLine ∧ last = some lastLine ∧
      trim firstLine = beginPatchMarker ∧ trim lastLine = endPatchMarker := by
  unfold checkStartAndEndLinesStrict at h
  cases first with
  | none => cases h
  | some firstLine =>
    cases last with
    | none =>
      dsimp only [Option.map] at h
      split at h <;> cases h
    | some lastLine =>
      dsimp only [Option.map] at h
      split at h
      · rename_i hmarks
        exact ⟨firstLine, lastLine, rfl, rfl, hmarks⟩
      · split at h <;> cases h

/-- The lines between the boundaries of a patch. -/
structure Bounded (lines : List (List Char)) (first last : List Char) (middle : List (List Char)) :
    Prop where
  eq : lines = first :: middle ++ [last]
  first : trim first = beginPatchMarker
  last : trim last = endPatchMarker

theorem checkPatchBoundariesStrict_eq_ok {lines checked : List (List Char)}
    (h : checkPatchBoundariesStrict lines = .ok checked) :
    checked = lines ∧ ∃ first last middle, Bounded lines first last middle := by
  obtain ⟨⟨⟩, hcheck, heq⟩ := bind_eq_ok.mp h
  cases heq
  obtain ⟨first, last, hhead, hgetLast, hfirst, hlast⟩ := checkStartAndEndLinesStrict_eq_ok hcheck
  refine ⟨rfl, first, last, ?_⟩
  obtain ⟨init, rfl⟩ := getLast?_eq_some_iff.mp hgetLast
  cases init with
  | nil =>
    cases hhead
    exact absurd (hfirst.symm.trans hlast) (by decide)
  | cons line middle =>
    cases hhead
    exact ⟨middle, rfl, hfirst, hlast⟩

theorem checkPatchBoundariesLenient_eq_ok {lines checked : List (List Char)}
    (h : checkPatchBoundariesLenient lines = .ok checked) :
    checked ⊆ lines ∧ ∃ first last middle, Bounded checked first last middle := by
  unfold checkPatchBoundariesLenient at h
  split at h
  · rename_i hstrict
    cases h
    obtain ⟨rfl, hbounded⟩ := checkPatchBoundariesStrict_eq_ok hstrict
    exact ⟨List.Subset.refl _, hbounded⟩
  · split at h
    · split at h
      · obtain ⟨rfl, hbounded⟩ := checkPatchBoundariesStrict_eq_ok h
        exact ⟨List.Subset.trans (dropLast_subset _) (tail_sublist _).subset, hbounded⟩
      · cases h
    · cases h

/-! ## The whole patch -/

/-- A text between the boundaries of a patch, given line by line. -/
theorem parsePatch_of_bounded {text first last : List Char} {lines middle : List (List Char)}
    (hcheck : checkPatchBoundariesLenient (Text.lines (trim text)) = .ok lines)
    (hbounded : Bounded lines first last middle) (hfeed : ∀ line ∈ lines, '\n' ∉ line) :
    parsePatch text = (do
      let parser ← (middle.map Text.stripCr).foldlM nextLine
        { mode := .startedPatch, lineNumber := 1 }
      let parser ← finish { parser with lineBuffer := last }
      .ok { patch := Text.joinLines lines, hunks := parser.hunks, workdir := none,
            environmentId := parser.environmentId }) := by
  obtain ⟨rfl, hfirst, -⟩ := hbounded
  have hinit : ∀ line ∈ first :: middle, '\n' ∉ line := fun line hline =>
    hfeed line (mem_append_left _ hline)
  have hbegin : nextLine {} (Text.stripCr first) = .ok { mode := .startedPatch, lineNumber := 1 } :=
    if_pos ((trim_stripCr first).1.trans hfirst)
  rw [parsePatch_of_lines hcheck hinit (hfeed last (by simp)), map_cons, foldlM_cons, hbegin]
  rfl

theorem checkPatchBoundariesLenient_of_bounded {first last : List Char}
    {lines middle : List (List Char)} (h : Bounded lines first last middle) :
    checkPatchBoundariesLenient lines = .ok lines := by
  have hstrict : checkPatchBoundariesStrict lines = .ok lines := by
    rw [checkPatchBoundariesStrict, h.eq, getLast?_concat, cons_append, head?_cons,
      checkStartAndEndLinesStrict]
    simp only [Option.map_some, h.first, h.last, and_self, if_true]
    rfl
  rw [checkPatchBoundariesLenient, hstrict]

/-- The kept text has the same boundaries. -/
theorem Bounded.again {first last : List Char} {lines middle : List (List Char)}
    (h : Bounded lines first last middle) (hfeed : ∀ line ∈ lines, '\n' ∉ line) :
    let linesAgain := (trimStart first :: middle).map Text.stripCr ++ [trimEnd last]
    checkPatchBoundariesLenient (Text.lines (trim (Text.joinLines lines))) = .ok linesAgain ∧
      Bounded linesAgain (Text.stripCr (trimStart first)) (trimEnd last)
        (middle.map Text.stripCr) ∧ ∀ line ∈ linesAgain, '\n' ∉ line := by
  intro linesAgain
  have hstart : trimStart first ≠ [] := trimStart_ne_nil (by rw [h.first]; decide)
  have hend : trimEnd last ≠ [] := trimEnd_ne_nil (by rw [h.last]; decide)
  have hfirst : '\n' ∉ trimStart first := fun hmem =>
    hfeed first (by simp [h.eq]) ((dropWhile_suffix _).subset hmem)
  have hlast : '\n' ∉ trimEnd last := fun hmem =>
    hfeed last (by simp [h.eq]) (mem_reverse.mp ((dropWhile_suffix _).subset (mem_reverse.mp hmem)))
  have hinit : ∀ line ∈ trimStart first :: middle, '\n' ∉ line := by
    refine forall_mem_cons.mpr ⟨hfirst, fun line hline => hfeed line ?_⟩
    rw [h.eq]
    exact mem_append_left _ (mem_cons_of_mem _ hline)
  have hlines : Text.lines (trim (Text.joinLines lines)) = linesAgain := by
    rw [h.eq, trim_joinLines hstart hend, Text.lines_joinLines hinit hlast hend]
  have hbounded : Bounded linesAgain (Text.stripCr (trimStart first)) (trimEnd last)
      (middle.map Text.stripCr) := by
    refine ⟨rfl, ?_, (trim_trimEnd last).trans h.last⟩
    rw [(trim_stripCr _).1, trim_trimStart, h.first]
  refine ⟨by rw [hlines, checkPatchBoundariesLenient_of_bounded hbounded], hbounded, ?_⟩
  refine forall_mem_append.mpr ⟨fun line hline hmem => ?_, by simpa using hlast⟩
  obtain ⟨orig, horig, rfl⟩ := mem_map.mp hline
  exact hinit orig horig (Text.stripCr_subset orig hmem)

/-- **Parsing again** what a parsed patch is kept as succeeds, with the same hunks but for
carriage returns at the ends of lines. -/
theorem parsePatch_patch {text : List Char} {args : ApplyPatchArgs}
    (h : parsePatch text = .ok args) :
    ∃ again, parsePatch args.patch = .ok again ∧ List.Forall₂ Reparsed args.hunks again.hunks := by
  obtain ⟨lines, hcheck, -⟩ := bind_eq_ok.mp h
  obtain ⟨hsub, first, last, middle, hbounded⟩ := checkPatchBoundariesLenient_eq_ok hcheck
  have hfeed : ∀ line ∈ lines, '\n' ∉ line := fun line hline =>
    newline_notMem_of_mem_lines (hsub hline)
  rw [parsePatch_of_bounded hcheck hbounded hfeed] at h
  obtain ⟨parser, hparser, h⟩ := bind_eq_ok.mp h
  obtain ⟨final, hfinal, h⟩ := bind_eq_ok.mp h
  cases h
  have hcomplete := complete_of_finish hbounded.last hfinal
  rw [finish_endPatch hbounded.last hcomplete] at hfinal
  cases hfinal
  obtain ⟨hcheckAgain, hboundedAgain, hfeedAgain⟩ := hbounded.again hfeed
  have hstart : Again { mode := .startedPatch, lineNumber := 1 }
      { mode := .startedPatch, lineNumber := 1 } := ⟨rfl, .nil⟩
  obtain ⟨parserAgain, hparserAgain, hagain⟩ := foldlM_again hstart parser hparser
  rw [parsePatch_of_bounded hcheckAgain hboundedAgain hfeedAgain]
  refine ⟨_, bind_eq_ok.mpr ⟨parserAgain, hparserAgain, bind_eq_ok.mpr ⟨_,
    finish_endPatch hboundedAgain.last (hagain.complete hcomplete), rfl⟩⟩, hagain.hunks⟩

end RenCrow.ApplyPatch
