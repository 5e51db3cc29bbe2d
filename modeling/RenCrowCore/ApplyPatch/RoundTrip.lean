import RenCrowCore.ApplyPatch.Grammar

/-!
# Round trip of patches

Parsing a text that the grammar gives to a list of hunks gives the hunks back, whatever the
lines of the files look like.

* `InHunk.readChunk`, `Ready.readHunk`: the parser over the lines of a chunk and of a hunk;
* `parsePatch_patchText`: the whole text.
-/

namespace RenCrow.ApplyPatch

open Fallible Text UpdateFileChunk ChangeLine StreamingPatchParser List

/-! ## Headers -/

/-- A marker and what follows it are not trimmed. -/
theorem trim_marker (marker text : List Char)
    (hmark : ∀ c ∈ (marker ++ text).head?, isWhitespace c = false) (hne : text ≠ [])
    (hlast : ∀ c ∈ text.getLast?, isWhitespace c = false) :
    trim (marker ++ text) = marker ++ text ∧ trimEnd (marker ++ text) = marker ++ text := by
  have hend : ∀ c ∈ (marker ++ text).getLast?, isWhitespace c = false := by
    rwa [getLast?_append_of_ne_nil _ hne]
  exact ⟨trim_eq_self hmark hend, trimEnd_eq_self hend⟩

namespace StreamingPatchParser

variable {parser after : StreamingPatchParser} {line trimmed path marker contents : List Char}
    {hunkLineNumber : Nat}
  {chunk : UpdateFileChunk} {mode : StreamingParserMode} {lines : List (List Char)} {hunk : Hunk}
  {first : Bool}

theorem startHunk_of_complete (h : parser.Complete) (trimmed : List Char) (hunk : Hunk)
    (mode : StreamingParserMode) : parser.startHunk trimmed hunk mode =
      .ok (some { parser with hunks := parser.hunks ++ [hunk], mode }) := by
  rw [startHunk, ensureUpdateHunkIsNotEmpty_eq_ok.mpr h]
  rfl

/-- The markers of hunks, with what each of them starts. -/
inductive HeaderMarker (parser : StreamingPatchParser) (path : List Char) :
    List Char → Hunk → StreamingParserMode → Prop where
  | addFile : HeaderMarker parser path addFileMarker (.addFile path []) .addFile
  | deleteFile : HeaderMarker parser path deleteFileMarker (.deleteFile path) .deleteFile
  | updateFile : HeaderMarker parser path updateFileMarker (.updateFile path none [])
      (.updateFile parser.lineNumber)

/-- A header starts its hunk. -/
theorem handle_header (hmark : HeaderMarker parser path marker hunk mode) (h : parser.Complete) :
    parser.handleHunkHeadersAndEndPatch (marker ++ path) =
      .ok (some { parser with hunks := parser.hunks ++ [hunk], mode }) := by
  have henv : stripPrefix environmentIdMarker (marker ++ path) = none := by
    cases hmark <;> rfl
  rw [handleHunkHeadersAndEndPatch, henv, ite_self]
  -- that no other marker starts the line is computed
  cases hmark <;> exact startHunk_of_complete h _ _ _

/-- A line with none of the markers is no header. -/
theorem handle_of_no_marker (henv : stripPrefix environmentIdMarker trimmed = none)
    (hend : trimmed ≠ endPatchMarker) (hadd : stripPrefix addFileMarker trimmed = none)
    (hdel : stripPrefix deleteFileMarker trimmed = none)
    (hupd : stripPrefix updateFileMarker trimmed = none) :
    parser.handleHunkHeadersAndEndPatch trimmed = .ok none := by
  rw [handleHunkHeadersAndEndPatch, henv, ite_self, if_neg hend, hadd, hdel, hupd]

/-- A line that does not start like a marker is no header. -/
theorem handle_eq_none (h : trimmed.head? ≠ some '*') :
    parser.handleHunkHeadersAndEndPatch trimmed = .ok none :=
  handle_of_no_marker (stripPrefix_eq_none h) (fun heq => h (congrArg List.head? heq))
    (stripPrefix_eq_none h) (stripPrefix_eq_none h) (stripPrefix_eq_none h)

/-- The modes in which a hunk can start. -/
def InPatch (parser : StreamingPatchParser) : Prop :=
  parser.mode ≠ .notStarted ∧ parser.mode ≠ .endedPatch

theorem processLine_of_handled (hmode : parser.InPatch) (htrim : trim line = line)
    (htrimEnd : trimEnd line = line)
    (h : parser.handleHunkHeadersAndEndPatch line = .ok (some after)) :
    parser.processLine line = .ok after := by
  obtain ⟨hstarted, hended⟩ := hmode
  unfold processLine
  dsimp only
  rw [htrim, htrimEnd, h]
  cases hmode : parser.mode with
  | notStarted => exact absurd hmode hstarted
  | endedPatch => exact absurd hmode hended
  | _ => rfl

theorem foldlM_nextLine_singleton (parser : StreamingPatchParser) (line : List Char) :
    [line].foldlM nextLine parser = parser.nextLine line := by
  rw [foldlM_cons]
  cases parser.nextLine line <;> rfl

/-- The parser before a hunk. -/
structure Ready (environmentId : Option (List Char)) (hunks : List Hunk)
    (parser : StreamingPatchParser) : Prop where
  inPatch : parser.InPatch
  hunks_eq : parser.hunks = hunks
  environment_eq : parser.environmentId = environmentId
  complete : parser.Complete

/-- The parser in a hunk that is not finished. -/
structure InHunk (environmentId : Option (List Char)) (hunks : List Hunk) (hunk : Hunk)
    (mode : StreamingParserMode) (parser : StreamingPatchParser) : Prop where
  mode_eq : parser.mode = mode
  hunks_eq : parser.hunks = hunks ++ [hunk]
  environment_eq : parser.environmentId = environmentId

variable {environmentId : Option (List Char)} {hunks : List Hunk}

theorem Ready.header (h : Ready environmentId hunks parser) (hpath : PathText path)
    (hmark : HeaderMarker { parser with lineBuffer := [], lineNumber := parser.lineNumber + 1 }
      path marker hunk mode) :
    ∃ next, parser.nextLine (marker ++ path) = .ok next ∧
      InHunk environmentId hunks hunk mode next := by
  have hhead : (marker ++ path).head? = some '*' := by cases hmark <;> rfl
  obtain ⟨htrim, htrimEnd⟩ := trim_marker marker path (fun c hc => by
    rw [hhead] at hc
    cases hc
    decide) hpath.ne_nil (getLast?_of_trimEnd_eq hpath.trimmed)
  refine ⟨_, processLine_of_handled h.inPatch htrim htrimEnd (handle_header hmark h.complete),
    rfl, ?_, h.environment_eq⟩
  exact congrArg (· ++ [hunk]) h.hunks_eq

/-! ## Added files -/

/-- A line with its sign is no header, in any mode. -/
theorem handle_change {c : Char} (hc : c ≠ '*') (text : List Char) :
    parser.handleHunkHeadersAndEndPatch (trimEnd (c :: text)) = .ok none :=
  handle_eq_none (head?_trimEnd_ne fun heq => hc (Option.some.inj heq))

theorem InHunk.addLine (h : InHunk environmentId hunks (.addFile path contents) .addFile parser)
    (text : List Char) :
    ∃ next, parser.nextLine ('+' :: text) = .ok next ∧
      InHunk environmentId hunks (.addFile path (contents ++ (text ++ ['\n']))) .addFile next := by
  have htrim : trim ('+' :: text) = trimEnd ('+' :: text) := by
    rw [trim, trimStart_eq_self fun c hc => by
      cases hc
      decide]
  have hlast : parser.hunks.getLast? = some (.addFile path contents) := by
    rw [h.hunks_eq, getLast?_concat]
  have hplus : stripPrefix ['+'] ('+' :: text) = some text := stripPrefix_append ['+'] text
  refine ⟨setLastHunk { parser with lineBuffer := [], lineNumber := parser.lineNumber + 1 }
    (.addFile path (contents ++ text ++ ['\n'])), ?_, h.mode_eq, ?_, h.environment_eq⟩
  · rw [nextLine, processLine]
    simp only [h.mode_eq, htrim, handle_change (show '+' ≠ '*' by decide), processAddedLine, hplus,
      hlast]
    rfl
  · simp only [setLastHunk, h.hunks_eq, dropLast_concat, append_assoc]

theorem InHunk.addLines (lines : List (List Char))
    (h : InHunk environmentId hunks (.addFile path contents) .addFile parser) :
    ∃ next, (lines.map ('+' :: ·)).foldlM nextLine parser = .ok next ∧
      InHunk environmentId hunks
        (.addFile path (contents ++ lines.flatMap (· ++ ['\n']))) .addFile next := by
  induction lines generalizing parser contents with
  | nil => exact ⟨parser, rfl, by simpa using h⟩
  | cons line lines ih =>
    obtain ⟨next, hnext, hline⟩ := h.addLine line
    obtain ⟨last, hlast, hlines⟩ := ih hline
    refine ⟨last, ?_, ?_⟩
    · rw [map_cons, foldlM_cons, hnext]
      exact hlast
    · rwa [flatMap_cons, ← append_assoc]

/-! ## Lines of chunks -/

variable {lineNumber : Nat} {movePath : Option (List Char)} {chunks done : List UpdateFileChunk}

/-- A line that starts otherwise is no context marker. -/
theorem isContextMarker_eq_false (h : line.head? ≠ some '@') : isContextMarker line = false := by
  cases line with
  | nil => rfl
  | cons c line =>
    have hc : '@' ≠ c := fun heq => h (congrArg some heq.symm)
    have hbare : c :: line ≠ emptyChangeContextMarker := fun heq => h (congrArg List.head? heq)
    have hlead : changeContextMarker.isPrefixOf (c :: line) = false := by
      rw [changeContextMarker, show "@@ ".toList = ['@', '@', ' '] from rfl,
        isPrefixOf_cons_cons, beq_false_of_ne hc, Bool.false_and]
    rw [isContextMarker, decide_eq_false hbare, hlead, Bool.or_false]

/-- A changed line joins the last chunk, whatever its text looks like. -/
theorem processUpdateLine_change (heof : chunks.getLast?.any isEndOfFile = false)
    (change : ChangeLine) : processUpdateLine lineNumber movePath chunks change.render =
      .ok (movePath, pushLine chunks change.push) := by
  obtain ⟨c, text, hrend, hstar, hat⟩ := head_render change
  have hhead : ∀ d, d ≠ c → (trimEnd change.render).head? ≠ some d := fun d hd =>
    head?_trimEnd_ne (by
      rw [hrend]
      exact fun heq => hd (Option.some.inj heq).symm)
  have hmove : (if chunks.isEmpty && movePath.isNone then
      stripPrefix moveToMarker (trimEnd change.render) else none) = none := by
    split
    · exact stripPrefix_eq_none (hhead '*' hstar.symm)
    · rfl
  have hmark := isContextMarker_eq_false (hhead '@' hat.symm)
  have hctx : stripPrefix changeContextMarker (trimEnd change.render) = none :=
    stripPrefix_eq_none (hhead '@' hat.symm)
  have hbare : trimEnd change.render ≠ emptyChangeContextMarker := fun heq =>
    hhead '@' hat.symm (congrArg List.head? heq)
  have hend : trimEnd change.render ≠ eofMarker := fun heq =>
    hhead '*' hstar.symm (congrArg List.head? heq)
  simp only [processUpdateLine, heof, hmove, hmark, hctx, hbare, hend, Bool.false_and,
    Bool.false_eq_true, if_false]
  cases change <;> rfl

theorem processUpdateLine_bare (hempty : chunks.getLast?.any UpdateFileChunk.isEmpty = false) :
    processUpdateLine lineNumber movePath chunks emptyChangeContextMarker =
      .ok (movePath, chunks ++ [{ changeContext := none }]) := by
  have htrim : trimEnd emptyChangeContextMarker = emptyChangeContextMarker := by decide
  have hmark : isContextMarker emptyChangeContextMarker = true := by decide
  have hnonempty : emptyChangeContextMarker.isEmpty = false := by decide
  have hmove : (if chunks.isEmpty && movePath.isNone then
      stripPrefix moveToMarker emptyChangeContextMarker else none) = none := by
    split <;> rfl
  simp only [processUpdateLine, htrim, hmark, hnonempty, hmove, hempty, Bool.and_false,
    Bool.not_true, Bool.false_eq_true, if_false, if_true]

theorem processUpdateLine_context {context : List Char} (hctx : ContextText context)
    (hempty : chunks.getLast?.any UpdateFileChunk.isEmpty = false) :
    processUpdateLine lineNumber movePath chunks (changeContextMarker ++ context) =
      .ok (movePath, chunks ++ [{ changeContext := some context }]) := by
  have hlast := getLast?_of_trimEnd_eq hctx.trimmed
  have htrim : trimEnd (changeContextMarker ++ context) = changeContextMarker ++ context :=
    (trim_marker changeContextMarker context (fun c hc => by
      cases hc
      decide) hctx.ne_nil hlast).2
  have hmark : isContextMarker (changeContextMarker ++ context) = true := by
    rw [isContextMarker, isPrefixOf_iff_prefix.mpr (prefix_append _ _), Bool.or_true]
  have hnonempty : (changeContextMarker ++ context).isEmpty = false := rfl
  have hmove : (if chunks.isEmpty && movePath.isNone then
      stripPrefix moveToMarker (changeContextMarker ++ context) else none) = none := by
    split <;> rfl
  have hbare : changeContextMarker ++ context ≠ emptyChangeContextMarker :=
    append_ne_of_stripPrefix (by decide) context
  simp only [processUpdateLine, htrim, hmark, hnonempty, hmove, hempty, hbare,
    stripPrefix_append, Bool.and_false, Bool.not_true, Bool.false_eq_true, if_false]

theorem processUpdateLine_eof (hempty : chunk.isEmpty = false) (heof : chunk.isEndOfFile = false) :
    processUpdateLine lineNumber movePath (done ++ [chunk]) eofMarker =
      .ok (movePath, done ++ [{ chunk with isEndOfFile := true }]) := by
  have htrim : trimEnd eofMarker = eofMarker := by decide
  have hmark : isContextMarker eofMarker = false := by decide
  have hctx : stripPrefix changeContextMarker eofMarker = none := by decide
  have hbare : eofMarker ≠ emptyChangeContextMarker := by decide
  have hmove : (if (done ++ [chunk]).isEmpty && movePath.isNone then
      stripPrefix moveToMarker eofMarker else none) = none := by
    split <;> rfl
  simp only [processUpdateLine, htrim, hmark, hmove, hctx, hbare, getLast?_concat,
    Option.any_some, hempty, heof, dropLast_concat, Bool.false_and, Bool.false_eq_true,
    if_false, if_true]

theorem trimEnd_move {dest : List Char} (hdest : PathText dest) :
    trimEnd (moveToMarker ++ dest) = moveToMarker ++ dest :=
  (trim_marker moveToMarker dest (fun c hc => by
    cases hc
    decide) hdest.ne_nil (getLast?_of_trimEnd_eq hdest.trimmed)).2

theorem processUpdateLine_move {dest : List Char} (hdest : PathText dest) :
    processUpdateLine lineNumber none [] (moveToMarker ++ dest) = .ok (some dest, []) := by
  simp only [processUpdateLine, trimEnd_move hdest, getLast?_nil, Option.any_none, Bool.false_and,
    Bool.false_eq_true, if_false, isEmpty_nil, Option.isNone_none, Bool.and_self, if_true,
    stripPrefix_append]

/-! ## Chunks -/

/-- A line of an update hunk that is no header. -/
theorem InHunk.updateLine {newMovePath : Option (List Char)} {newChunks : List UpdateFileChunk}
    (h : InHunk environmentId hunks (.updateFile path movePath chunks)
      (.updateFile hunkLineNumber) parser) (hhandle : ∀ parser : StreamingPatchParser,
      parser.handleHunkHeadersAndEndPatch (trimEnd line) = .ok none)
    (hline : ∀ lineNumber, processUpdateLine lineNumber movePath chunks line =
      .ok (newMovePath, newChunks)) :
    ∃ next, parser.nextLine line = .ok next ∧
      InHunk environmentId hunks (.updateFile path newMovePath newChunks)
        (.updateFile hunkLineNumber) next := by
  have hlast : parser.hunks.getLast? = some (.updateFile path movePath chunks) := by
    rw [h.hunks_eq, getLast?_concat]
  refine ⟨setLastHunk { parser with lineBuffer := [], lineNumber := parser.lineNumber + 1 }
    (.updateFile path newMovePath newChunks), ?_, h.mode_eq, ?_, h.environment_eq⟩
  · rw [nextLine, processLine]
    simp only [h.mode_eq, hhandle, processChunkLine, hlast, hline]
    rfl
  · simp only [setLastHunk, h.hunks_eq, dropLast_concat]

/-- The chunk that takes the next line: the last one, or the first one of the hunk, which is
not there yet. -/
def Pending (chunks done : List UpdateFileChunk) (chunk : UpdateFileChunk) : Prop :=
  chunks = done ++ [chunk] ∨ chunks = [] ∧ done = [] ∧ chunk = {}

theorem Pending.pushLine (h : Pending chunks done chunk)
    (push : UpdateFileChunk → UpdateFileChunk) :
    pushLine chunks push = done ++ [push chunk] := by
  rcases h with rfl | ⟨rfl, rfl, rfl⟩
  · simp [pushLine]
  · rfl

theorem Pending.isEndOfFile (h : Pending chunks done chunk) (heof : chunk.isEndOfFile = false) :
    chunks.getLast?.any isEndOfFile = false := by
  rcases h with rfl | ⟨rfl, rfl, rfl⟩
  · simpa using heof
  · rfl

theorem InHunk.changes (changes : List ChangeLine) (hne : changes ≠ [])
    (h : InHunk environmentId hunks (.updateFile path movePath chunks)
      (.updateFile hunkLineNumber) parser) (hpend : Pending chunks done chunk)
    (heof : chunk.isEndOfFile = false) :
    ∃ next, (changes.map render).foldlM nextLine parser = .ok next ∧
      InHunk environmentId hunks (.updateFile path movePath (done ++ [changes.foldl push chunk]))
        (.updateFile hunkLineNumber) next := by
  induction changes generalizing parser chunks chunk with
  | nil => exact absurd rfl hne
  | cons change changes ih =>
    obtain ⟨c, text, hrend, hstar, -⟩ := head_render change
    obtain ⟨next, hnext, hchg⟩ := h.updateLine
      (fun parser => hrend ▸ handle_change hstar text) fun lineNumber =>
        processUpdateLine_change (hpend.isEndOfFile heof) change
    rw [hpend.pushLine] at hchg
    rw [map_cons, foldlM_cons, hnext]
    cases changes with
    | nil => exact ⟨next, rfl, hchg⟩
    | cons second rest =>
      exact ih (by simp) hchg (.inl rfl) (by rwa [isEndOfFile_push])

theorem handle_eof : parser.handleHunkHeadersAndEndPatch (trimEnd eofMarker) = .ok none :=
  handle_of_no_marker (by decide) (by decide) (by decide) (by decide) (by decide)

section

variable (h : InHunk environmentId hunks (.updateFile path movePath done)
    (.updateFile hunkLineNumber) parser) (hdone : done.getLast?.any UpdateFileChunk.isEmpty = false)
  (hfirst : first = true → done = [])
include h hdone hfirst

/-- The header of a chunk opens it, or leaves it to the first line. -/
theorem InHunk.chunkHeader {context : Option (List Char)} {header : List (List Char)}
    (hhead : HeaderText first context header) :
    ∃ next chunks, header.foldlM nextLine parser = .ok next ∧
      InHunk environmentId hunks (.updateFile path movePath chunks)
        (.updateFile hunkLineNumber) next ∧
      Pending chunks done { changeContext := context } := by
  cases hhead with
  | omitted htrue =>
    have hnil := hfirst htrue
    exact ⟨parser, done, rfl, h, .inr ⟨hnil, hnil, rfl⟩⟩
  | bare =>
    obtain ⟨next, hnext, hopened⟩ := h.updateLine
      (fun parser => handle_change (show '@' ≠ '*' by decide) ['@'])
      fun lineNumber => processUpdateLine_bare hdone
    exact ⟨next, _, (foldlM_nextLine_singleton _ _).trans hnext, hopened, .inl rfl⟩
  | @context context hctx =>
    obtain ⟨next, hnext, hopened⟩ := h.updateLine
      (fun parser => handle_change (show '@' ≠ '*' by decide) ('@' :: ' ' :: context))
      fun lineNumber => processUpdateLine_context hctx hdone
    exact ⟨next, _, (foldlM_nextLine_singleton _ _).trans hnext, hopened, .inl rfl⟩

/-- **A chunk is read from its lines.** -/
theorem InHunk.readChunk (hchunk : ChunkText first chunk lines) :
    chunk.isEmpty = false ∧ ∃ next, lines.foldlM nextLine parser = .ok next ∧
      InHunk environmentId hunks (.updateFile path movePath (done ++ [chunk]))
        (.updateFile hunkLineNumber) next := by
  obtain @⟨ctx, header, changes, isEndOfFile, hhead, hne, -⟩ := hchunk
  have hempty := isEmpty_foldl_push { changeContext := ctx } hne
  have heof := isEndOfFile_foldl_push { changeContext := ctx } changes
  obtain ⟨opened, chunks, hopen, hopened, hpend⟩ := h.chunkHeader hdone hfirst hhead
  obtain ⟨changed, hchg, hchanged⟩ := hopened.changes changes hne hpend rfl
  refine ⟨hempty, ?_⟩
  rw [append_assoc, foldlM_append, hopen]
  cases isEndOfFile with
  | false =>
    refine ⟨changed, ?_, ?_⟩
    · rw [if_neg (by decide), append_nil]
      exact hchg
    · rwa [ofLines_false]
  | true =>
    obtain ⟨ended, hend, hended⟩ := hchanged.updateLine (fun parser => handle_eof)
      fun lineNumber => processUpdateLine_eof hempty heof
    refine ⟨ended, ?_, hended⟩
    refine bind_eq_ok.mpr ⟨opened, rfl, ?_⟩
    rw [foldlM_append, hchg]
    exact bind_eq_ok.mpr ⟨changed, rfl, (foldlM_nextLine_singleton _ _).trans hend⟩

/-- **The chunks of a hunk are read from their lines**, after those that are there. -/
theorem InHunk.readChunks (hchunks : ChunksText first chunks lines) :
    (done ++ chunks).getLast?.any UpdateFileChunk.isEmpty = false ∧
      ∃ next, lines.foldlM nextLine parser = .ok next ∧
        InHunk environmentId hunks (.updateFile path movePath (done ++ chunks))
          (.updateFile hunkLineNumber) next := by
  induction hchunks generalizing parser done with
  | nil =>
    rw [append_nil]
    exact ⟨hdone, parser, rfl, h⟩
  | @cons _ chunk chunks lines rest hchunk _ ih =>
    obtain ⟨hempty, next, hnext, hread⟩ := h.readChunk hdone hfirst hchunk
    obtain ⟨hlast, last, hrest, hall⟩ := ih hread (by simpa using hempty) (by simp)
    rw [append_assoc, singleton_append] at hlast hall
    refine ⟨hlast, last, ?_, hall⟩
    rw [foldlM_append, hnext]
    exact hrest

end

/-! ## Hunks -/

theorem handle_move (dest : List Char) :
    parser.handleHunkHeadersAndEndPatch (moveToMarker ++ dest) = .ok none :=
  handle_of_no_marker rfl (append_ne_of_stripPrefix (by decide) dest) rfl rfl rfl

theorem InHunk.move
    (h : InHunk environmentId hunks (.updateFile path none []) (.updateFile hunkLineNumber) parser)
    (hmove : ∀ dest ∈ movePath, PathText dest) :
    ∃ next, (movePath.map (moveToMarker ++ ·)).toList.foldlM nextLine parser = .ok next ∧
      InHunk environmentId hunks (.updateFile path movePath []) (.updateFile hunkLineNumber)
        next := by
  cases movePath with
  | none => exact ⟨parser, rfl, h⟩
  | some dest =>
    have hdest := hmove dest rfl
    obtain ⟨next, hnext, hmoved⟩ := h.updateLine
      (fun parser => (trimEnd_move hdest).symm ▸ handle_move dest) fun lineNumber =>
        processUpdateLine_move hdest
    exact ⟨next, (foldlM_nextLine_singleton _ _).trans hnext, hmoved⟩

theorem InHunk.ready (h : InHunk environmentId hunks hunk mode parser)
    (hstarted : mode ≠ .notStarted)
    (hended : mode ≠ .endedPatch)
    (hcomplete : ∀ path movePath chunks, hunk = .updateFile path movePath chunks →
      ∃ chunk, chunks.getLast? = some chunk ∧ chunk.isEmpty = false) :
    Ready environmentId (hunks ++ [hunk]) parser := by
  refine ⟨⟨h.mode_eq ▸ hstarted, h.mode_eq ▸ hended⟩, h.hunks_eq, h.environment_eq, ?_⟩
  rw [Complete, h.hunks_eq, getLast?_concat]
  cases hunk with
  | addFile path contents => trivial
  | deleteFile path => trivial
  | updateFile path movePath chunks =>
    obtain ⟨chunk, hlast, hempty⟩ := hcomplete path movePath chunks rfl
    dsimp only
    rwa [hlast]

/-- **A hunk is read from its lines.** -/
theorem Ready.readHunk (hhunk : HunkText hunk lines) (h : Ready environmentId hunks parser) :
    ∃ next, lines.foldlM nextLine parser = .ok next ∧
      Ready environmentId (hunks ++ [hunk]) next := by
  cases hhunk with
  | addFile hpath hlines =>
    obtain ⟨next, hnext, hopened⟩ := h.header hpath .addFile
    obtain ⟨last, hlast, hadded⟩ := hopened.addLines _
    refine ⟨last, ?_, hadded.ready (by simp) (by simp) (by simp)⟩
    rw [foldlM_cons, hnext]
    exact hlast
  | deleteFile hpath =>
    obtain ⟨next, hnext, hopened⟩ := h.header hpath .deleteFile
    exact ⟨next, (foldlM_nextLine_singleton _ _).trans hnext,
      hopened.ready (by simp) (by simp) (by simp)⟩
  | @updateFile path movePath chunks lines hpath hmove hne hchunks =>
    obtain ⟨next, hnext, hopened⟩ := h.header hpath .updateFile
    obtain ⟨moved, hmoved, hinMoved⟩ := hopened.move hmove
    obtain ⟨hempty, last, hlast, hread⟩ := hinMoved.readChunks rfl (fun _ => rfl) hchunks
    refine ⟨last, ?_, hread.ready (by simp) (by simp) ?_⟩
    · rw [cons_append, foldlM_cons, hnext]
      refine bind_eq_ok.mpr ⟨next, rfl, ?_⟩
      rw [foldlM_append, hmoved]
      exact hlast
    · rintro _ _ _ ⟨⟩
      refine ⟨chunks.getLast hne, getLast?_eq_getLast_of_ne_nil hne, ?_⟩
      simpa [getLast?_eq_getLast_of_ne_nil hne] using hempty

theorem Ready.readHunks {rest : List Hunk} (hrest : HunksText rest lines)
    (h : Ready environmentId hunks parser) :
    ∃ next, lines.foldlM nextLine parser = .ok next ∧
      Ready environmentId (hunks ++ rest) next := by
  induction hrest generalizing parser hunks with
  | nil => exact ⟨parser, rfl, by rwa [append_nil]⟩
  | @cons hunk rest lines others hhunk _ ih =>
    obtain ⟨next, hnext, hread⟩ := h.readHunk hhunk
    obtain ⟨last, hlast, hall⟩ := ih hread
    refine ⟨last, ?_, by simpa using hall⟩
    rw [foldlM_append, hnext]
    exact hlast

/-! ## The whole patch -/

/-- The parser after the first line. -/
def started (environmentId : Option (List Char)) (lineNumber : Nat) : StreamingPatchParser :=
  { mode := .startedPatch, environmentId, lineNumber }

theorem ready_started (environmentId : Option (List Char)) (lineNumber : Nat) :
    Ready environmentId [] (started environmentId lineNumber) :=
  ⟨⟨by simp [started], by simp [started]⟩, rfl, rfl, trivial⟩

theorem nextLine_environment {id : List Char} (hid : PathText id) :
    (started none 1).nextLine (environmentLine id) = .ok (started (some id) 2) := by
  have htrim : trim (environmentLine id) = environmentLine id := by
    rw [environmentLine, append_cons]
    exact (trim_marker _ id (fun c hc => by
      cases hc
      decide) hid.ne_nil (getLast?_of_trimEnd_eq hid.trimmed)).1
  have hvalue : trim (' ' :: id) = id := by
    exact hid.trimmed
  have hnonempty : id.isEmpty = false := isEmpty_eq_false_iff.mpr hid.ne_nil
  have hmark : stripPrefix environmentIdMarker (environmentLine id) = some (' ' :: id) :=
    stripPrefix_append _ _
  simp only [nextLine, processLine, started, htrim, handleHunkHeadersAndEndPatch, hmark, if_true,
    setEnvironmentId, hnonempty, hvalue]
  rfl

/-- The lines before the first hunk. -/
theorem foldlM_preamble (henv : ∀ id ∈ environmentId, PathText id) :
    ∃ next, (beginPatchMarker :: (environmentId.map environmentLine).toList).foldlM nextLine {} =
      .ok next ∧ Ready environmentId [] next := by
  have hbegin : nextLine {} beginPatchMarker = .ok (started none 1) := by decide
  cases environmentId with
  | none => exact ⟨_, (foldlM_nextLine_singleton _ _).trans hbegin, ready_started none 1⟩
  | some id =>
    refine ⟨started (some id) 2, ?_, ready_started (some id) 2⟩
    exact (foldlM_nextLine_singleton _ _).trans (nextLine_environment (henv id rfl))

end StreamingPatchParser

/-- The text between the first and the last line of a patch, with or without a line feed
after it. -/
def framed (lines : List (List Char)) (terminated : Bool) : List Char :=
  Text.joinLines (beginPatchMarker :: lines ++ [endPatchMarker]) ++
    if terminated then ['\n'] else []

theorem trim_framed (lines : List (List Char)) (terminated : Bool) :
    trim (framed lines terminated) =
      Text.joinLines (beginPatchMarker :: lines ++ [endPatchMarker]) := by
  have hlast : ∀ c ∈ (Text.joinLines (beginPatchMarker :: lines ++ [endPatchMarker])).getLast?,
      isWhitespace c = false := fun c hc => by
    have hc : some 'h' = some c := by rwa [getLast?_joinLines (by decide)] at hc
    cases hc
    decide
  have hhead : ∀ c ∈ (framed lines terminated).head?, isWhitespace c = false := fun c hc => by
    have hc : some '*' = some c := by
      rwa [framed, head?_append, cons_append, head?_joinLines (by decide)] at hc
    cases hc
    decide
  rw [trim, trimStart_eq_self hhead, framed]
  cases terminated with
  | false => rw [if_neg (by decide), append_nil, trimEnd_eq_self hlast]
  | true => rw [if_pos rfl, trimEnd_concat (by decide), trimEnd_eq_self hlast]

variable {lines : List (List Char)}

theorem LineText.map_stripCr (h : ∀ line ∈ lines, LineText line) : lines.map Text.stripCr = lines :=
  (map_congr_left fun line hline => Text.stripCr_eq_self (h line hline).no_cr).trans (map_id lines)

/-- A text whose lines lead the parser to the end of a hunk is a patch with its hunks. -/
theorem parsePatch_framed {last : StreamingPatchParser} (hlines : ∀ line ∈ lines, LineText line)
    (hread : (beginPatchMarker :: lines).foldlM nextLine {} = .ok last)
    (hcomplete : last.Complete) (terminated : Bool) :
    parsePatch (framed lines terminated) =
      .ok { patch := trim (framed lines terminated), hunks := last.hunks, workdir := none,
            environmentId := last.environmentId } := by
  have hinit : ∀ line ∈ beginPatchMarker :: lines, LineText line :=
    forall_mem_cons.mpr ⟨⟨by decide, by decide⟩, hlines⟩
  have hfeed : ∀ line ∈ beginPatchMarker :: lines, '\n' ∉ line := fun line hline =>
    (hinit line hline).one_line
  have hsplit : Text.lines (trim (framed lines terminated)) =
      beginPatchMarker :: lines ++ [endPatchMarker] := by
    rw [trim_framed, Text.lines_joinLines hfeed (by decide) (by decide), LineText.map_stripCr hinit]
  have hcheck : checkPatchBoundariesLenient (Text.lines (trim (framed lines terminated))) =
      .ok (beginPatchMarker :: lines ++ [endPatchMarker]) := by
    rw [hsplit]
    simp only [checkPatchBoundariesLenient, checkPatchBoundariesStrict, getLast?_concat]
    rfl
  rw [parsePatch_of_lines hcheck hfeed (by decide), LineText.map_stripCr hinit, hread, trim_framed]
  refine bind_eq_ok.mpr ⟨last, rfl, bind_eq_ok.mpr ⟨_, finish_endPatch (by decide) hcomplete, rfl⟩⟩

/-- **Every text of a patch is parsed to its hunks.** -/
theorem parsePatch_patchText {environmentId : Option (List Char)} {hunks : List Hunk}
    {text : List Char} (h : PatchText environmentId hunks text) :
    parsePatch text = .ok { patch := trim text, hunks, workdir := none, environmentId } := by
  obtain @⟨lines, henv, hhunks, terminated⟩ := h
  have hlines : ∀ line ∈ (environmentId.map environmentLine).toList ++ lines, LineText line := by
    refine forall_mem_append.mpr ⟨fun line hline => ?_, hhunks.lineText⟩
    obtain ⟨id, hid, rfl⟩ := Option.map_eq_some_iff.mp (Option.mem_toList.mp hline)
    rw [environmentLine, append_cons]
    exact (henv id hid).lineText (by decide)
  obtain ⟨first, hfirst, hready⟩ := foldlM_preamble henv
  obtain ⟨last, hlast, hread⟩ := hready.readHunks hhunks
  have hall : (beginPatchMarker :: ((environmentId.map environmentLine).toList ++ lines)).foldlM
      nextLine {} = .ok last := by
    rw [← cons_append, foldlM_append, hfirst]
    exact hlast
  have hparse := parsePatch_framed hlines hall hread.complete terminated
  rw [hread.hunks_eq, hread.environment_eq] at hparse
  exact hparse

/-- **Patches round-trip.** Well-formed hunks, with or without an environment id, can be
written, and every text that the grammar gives them is parsed to exactly these hunks. The
lines of the files are arbitrary: a sign before each of them keeps them apart from the
markers. -/
theorem parsePatch_roundTrip (environmentId : Option (List Char)) (hunks : List Hunk)
    (henvironment : ∀ id ∈ environmentId, PathText id) (h : ∀ hunk ∈ hunks, hunk.WellFormed) :
    (∃ text, PatchText environmentId hunks text) ∧
      ∀ text, PatchText environmentId hunks text →
        parsePatch text =
          .ok { patch := trim text, hunks, workdir := none, environmentId } :=
  ⟨exists_patchText henvironment h, fun _ => parsePatch_patchText⟩

/-- A patch with lines that look like markers. -/
def markerLines : List Hunk :=
  [.addFile ['a'] "*** End Patch\n".toList,
    .updateFile ['b'] (some ['c'])
      [{ changeContext := some ['f'], oldLines := [['@', '@'], ['x']], newLines := [['@', '@'], []],
         contextLineIndices := [(0, 0)], isEndOfFile := true }]]

set_option maxRecDepth 4000 in
theorem parsePatch_roundTrip_markerLines :
    parsePatch ("*** Begin Patch\n*** Add File: a\n+*** End Patch\n*** Update File: b\n" ++
      "*** Move to: c\n@@ f\n @@\n-x\n+\n*** End of File\n*** End Patch").toList =
      .ok { patch := ("*** Begin Patch\n*** Add File: a\n+*** End Patch\n*** Update File: b\n" ++
              "*** Move to: c\n@@ f\n @@\n-x\n+\n*** End of File\n*** End Patch").toList
            hunks := markerLines, workdir := none, environmentId := none } := by
  have hwf : ∀ hunk ∈ markerLines, hunk.WellFormed := by
    refine forall_mem_cons.mpr ⟨⟨by decide, ["*** End Patch".toList], rfl, by decide⟩,
      forall_mem_singleton.mpr ⟨by decide, by decide, by decide, forall_mem_singleton.mpr ?_⟩⟩
    exact ⟨by decide, by decide, by decide, by simp, by simp⟩
  have hadd : HunkText (.addFile ['a'] "*** End Patch\n".toList)
      ["*** Add File: a".toList, "+*** End Patch".toList] :=
    @HunkText.addFile ['a'] ["*** End Patch".toList] (by decide) (by decide)
  have hchunk := @ChunkText.mk true _ _ [.context ['@', '@'], .remove ['x'], .add []] true
    (@HeaderText.context true ['f'] (by decide)) (by decide) (by decide)
  have hupd := @HunkText.updateFile ['b'] (some ['c']) _ _ (by decide) (by decide) (by decide)
    (.cons hchunk .nil)
  exact (parsePatch_roundTrip none markerLines (by simp) hwf).2 _
    (.mk (by simp) (.cons hadd (.cons hupd .nil)) false)

end RenCrow.ApplyPatch
