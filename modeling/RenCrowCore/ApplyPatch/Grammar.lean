import Mathlib.Data.List.Induction
import RenCrowCore.ApplyPatch.Parser

/-!
# The grammar of patches

The texts that the grammar at the top of `apply-patch/src/parser.rs` gives to a list of hunks.

* `ChangeLine`, `UpdateFileChunk.ofLines`: a chunk and the lines it is written with;
* `HunkText`, `PatchText`: the lines of a hunk and the texts of a patch;
* `Hunk.WellFormed`, `exists_patchText`: the hunks that can be written.
-/

namespace RenCrow.ApplyPatch

open Text UpdateFileChunk List

/-! ## The grammar -/

/-- A path: not empty, on one line, without blanks around it. -/
structure PathText (path : List Char) : Prop where
  ne_nil : path ≠ []
  one_line : '\n' ∉ path
  trimmed : trim path = path

/-- A line of a file. -/
structure LineText (line : List Char) : Prop where
  one_line : '\n' ∉ line
  no_cr : line.getLast? ≠ some '\r'

/-- The context that a chunk is to be found after. -/
structure ContextText (context : List Char) : Prop where
  ne_nil : context ≠ []
  one_line : '\n' ∉ context
  trimmed : trimEnd context = context

instance (path : List Char) : Decidable (PathText path) :=
  decidable_of_iff (path ≠ [] ∧ '\n' ∉ path ∧ trim path = path)
    ⟨fun ⟨hne, hline, htrim⟩ => ⟨hne, hline, htrim⟩, fun h => ⟨h.ne_nil, h.one_line, h.trimmed⟩⟩

instance (line : List Char) : Decidable (LineText line) :=
  decidable_of_iff ('\n' ∉ line ∧ line.getLast? ≠ some '\r')
    ⟨fun ⟨hline, hreturn⟩ => ⟨hline, hreturn⟩, fun h => ⟨h.one_line, h.no_cr⟩⟩

instance (context : List Char) : Decidable (ContextText context) :=
  decidable_of_iff (context ≠ [] ∧ '\n' ∉ context ∧ trimEnd context = context)
    ⟨fun ⟨hne, hline, htrim⟩ => ⟨hne, hline, htrim⟩, fun h => ⟨h.ne_nil, h.one_line, h.trimmed⟩⟩

/-- A line of a chunk. -/
inductive ChangeLine where
  | context (text : List Char)
  | add (text : List Char)
  | remove (text : List Char)
deriving DecidableEq, Repr

namespace ChangeLine

/-- The line without its sign. -/
def text : ChangeLine → List Char
  | context text | add text | remove text => text

/-- The line as it stands in a patch. -/
def render : ChangeLine → List Char
  | context text => ' ' :: text
  | add text => '+' :: text
  | remove text => '-' :: text

/-- The line joins a chunk. -/
def push (chunk : UpdateFileChunk) : ChangeLine → UpdateFileChunk
  | context text => chunk.pushContextLine text
  | add text => chunk.pushNewLine text
  | remove text => chunk.pushOldLine text

end ChangeLine

/-- The chunk with the given lines, in their order. -/
def UpdateFileChunk.ofLines (changeContext : Option (List Char)) (changes : List ChangeLine)
    (isEndOfFile : Bool) : UpdateFileChunk :=
  { changes.foldl ChangeLine.push { changeContext } with isEndOfFile }

/-- The header of a chunk; the first chunk of a hunk can do without one. -/
inductive HeaderText (first : Bool) : Option (List Char) → List (List Char) → Prop where
  | omitted (h : first = true) : HeaderText first none []
  | bare : HeaderText first none [emptyChangeContextMarker]
  | context {context : List Char} (h : ContextText context) :
      HeaderText first (some context) [changeContextMarker ++ context]

/-- The lines of a chunk: its header, at least one line, and perhaps the end of the file. -/
inductive ChunkText (first : Bool) : UpdateFileChunk → List (List Char) → Prop where
  | mk {context : Option (List Char)} {header : List (List Char)} {changes : List ChangeLine}
      (isEndOfFile : Bool) (hheader : HeaderText first context header) (hne : changes ≠ [])
      (hlines : ∀ change ∈ changes, LineText change.text) :
      ChunkText first (.ofLines context changes isEndOfFile)
        (header ++ changes.map ChangeLine.render ++ if isEndOfFile then [eofMarker] else [])

/-- The lines of the chunks of a hunk. -/
inductive ChunksText : Bool → List UpdateFileChunk → List (List Char) → Prop where
  | nil {first : Bool} : ChunksText first [] []
  | cons {first : Bool} {chunk : UpdateFileChunk} {chunks : List UpdateFileChunk}
      {lines rest : List (List Char)} (hchunk : ChunkText first chunk lines)
      (hchunks : ChunksText false chunks rest) : ChunksText first (chunk :: chunks) (lines ++ rest)

/-- The lines of a hunk. -/
inductive HunkText : Hunk → List (List Char) → Prop where
  | addFile {path : List Char} {lines : List (List Char)} (hpath : PathText path)
      (hlines : ∀ line ∈ lines, LineText line) :
      HunkText (.addFile path (lines.flatMap (· ++ ['\n'])))
        ((addFileMarker ++ path) :: lines.map ('+' :: ·))
  | deleteFile {path : List Char} (hpath : PathText path) :
      HunkText (.deleteFile path) [deleteFileMarker ++ path]
  | updateFile {path : List Char} {movePath : Option (List Char)} {chunks : List UpdateFileChunk}
      {lines : List (List Char)} (hpath : PathText path) (hmove : ∀ dest ∈ movePath, PathText dest)
      (hne : chunks ≠ []) (hchunks : ChunksText true chunks lines) :
      HunkText (.updateFile path movePath chunks)
        ((updateFileMarker ++ path) :: (movePath.map (moveToMarker ++ ·)).toList ++ lines)

/-- The lines of all hunks. -/
inductive HunksText : List Hunk → List (List Char) → Prop where
  | nil : HunksText [] []
  | cons {hunk : Hunk} {hunks : List Hunk} {lines rest : List (List Char)}
      (hhunk : HunkText hunk lines) (hhunks : HunksText hunks rest) :
      HunksText (hunk :: hunks) (lines ++ rest)

/-- The line of an environment id. -/
def environmentLine (environmentId : List Char) : List Char :=
  environmentIdMarker ++ ' ' :: environmentId

/-- The texts of a patch, with or without a line feed at the end. -/
inductive PatchText : Option (List Char) → List Hunk → List Char → Prop where
  | mk {environmentId : Option (List Char)} {hunks : List Hunk} {lines : List (List Char)}
      (henvironment : ∀ id ∈ environmentId, PathText id) (hhunks : HunksText hunks lines)
      (terminated : Bool) :
      PatchText environmentId hunks
        (joinLines (beginPatchMarker :: (environmentId.map environmentLine).toList ++ lines ++
          [endPatchMarker]) ++ if terminated then ['\n'] else [])

/-! ## Well-formed hunks -/

/-- A chunk that can be written: it has a line, and its context lines are the same on both
sides and in order. -/
structure UpdateFileChunk.WellFormed (chunk : UpdateFileChunk) : Prop where
  context : ∀ context ∈ chunk.changeContext, ContextText context
  nonempty : chunk.isEmpty = false
  lines : ∀ line ∈ chunk.oldLines ++ chunk.newLines, LineText line
  indices : ∀ index ∈ chunk.contextLineIndices, ∃ line,
    chunk.oldLines[index.1]? = some line ∧ chunk.newLines[index.2]? = some line
  ordered : chunk.contextLineIndices.Pairwise fun index later =>
    index.1 < later.1 ∧ index.2 < later.2

/-- A hunk that a patch can hold. -/
def Hunk.WellFormed : Hunk → Prop
  | .addFile path contents => PathText path ∧ ∃ lines : List (List Char),
      contents = lines.flatMap (· ++ ['\n']) ∧ ∀ line ∈ lines, LineText line
  | .deleteFile path => PathText path
  | .updateFile path movePath chunks => PathText path ∧ (∀ dest ∈ movePath, PathText dest) ∧
      chunks ≠ [] ∧ ∀ chunk ∈ chunks, chunk.WellFormed

/-! ## Lines and chunks -/

namespace ChangeLine

theorem head_render (change : ChangeLine) :
    ∃ c text, change.render = c :: text ∧ c ≠ '*' ∧ c ≠ '@' := by
  cases change with
  | context text | add text | remove text => exact ⟨_, _, rfl, by decide, by decide⟩

theorem isEndOfFile_push (chunk : UpdateFileChunk) (change : ChangeLine) :
    (change.push chunk).isEndOfFile = chunk.isEndOfFile := by
  cases change <;> rfl

theorem isEmpty_push (chunk : UpdateFileChunk) (change : ChangeLine) :
    (change.push chunk).isEmpty = false := by
  cases change <;> simp [ChangeLine.push, UpdateFileChunk.isEmpty, pushContextLine,
    pushNewLine, pushOldLine]

theorem isEndOfFile_foldl_push (chunk : UpdateFileChunk) (changes : List ChangeLine) :
    (changes.foldl push chunk).isEndOfFile = chunk.isEndOfFile := by
  induction changes generalizing chunk with
  | nil => rfl
  | cons change changes ih => rw [foldl_cons, ih, isEndOfFile_push]

theorem isEmpty_foldl_push (chunk : UpdateFileChunk) {changes : List ChangeLine}
    (hne : changes ≠ []) : (changes.foldl push chunk).isEmpty = false := by
  obtain ⟨init, last, rfl⟩ := (eq_nil_or_concat' changes).resolve_left hne
  rw [foldl_append]
  exact isEmpty_push _ last

end ChangeLine

/-! ## Ends of a text -/

variable {text : List Char}

/-- Trimmed text, as `trim` trims the end last. -/
theorem getLast?_of_trimEnd_eq {before : List Char} (h : trimEnd before = text) :
    ∀ c ∈ text.getLast?, isWhitespace c = false := by
  rw [← h]
  exact fun c hc => isWhitespace_of_mem_getLast?_trimEnd hc

theorem UpdateFileChunk.ofLines_false (ctx : Option (List Char)) (changes : List ChangeLine) :
    ofLines ctx changes false = changes.foldl ChangeLine.push { changeContext := ctx } := by
  have heof := ChangeLine.isEndOfFile_foldl_push { changeContext := ctx } changes
  unfold ofLines
  generalize changes.foldl ChangeLine.push { changeContext := ctx } = chunk at heof
  cases chunk
  cases heof
  rfl

/-! ## Writing a chunk -/

/-- The lines of both sides, with the places of the context lines. -/
structure Aligned (old new : List (List Char)) (indices : List (Nat × Nat)) : Prop where
  same : ∀ index ∈ indices, ∃ line, old[index.1]? = some line ∧ new[index.2]? = some line
  ordered : indices.Pairwise fun index later => index.1 < later.1 ∧ index.2 < later.2

/-- The chunk with these lines can be written. -/
def Written (context : Option (List Char)) (old new : List (List Char))
    (indices : List (Nat × Nat)) : Prop :=
  ∃ changes : List ChangeLine, (∀ change ∈ changes, change.text ∈ old ++ new) ∧
    changes.foldl ChangeLine.push { changeContext := context } =
      { changeContext := context, oldLines := old, newLines := new,
        contextLineIndices := indices }

section Written

variable {ctx : Option (List Char)} {old new : List (List Char)} {indices : List (Nat × Nat)}

theorem foldl_remove (chunk : UpdateFileChunk) (removed : List (List Char)) :
    (removed.map .remove).foldl ChangeLine.push chunk =
      { chunk with oldLines := chunk.oldLines ++ removed } := by
  induction removed generalizing chunk with
  | nil => simp
  | cons line removed ih => simp [ih, ChangeLine.push, pushOldLine]

theorem foldl_add (chunk : UpdateFileChunk) (added : List (List Char)) :
    (added.map .add).foldl ChangeLine.push chunk =
      { chunk with newLines := chunk.newLines ++ added } := by
  induction added generalizing chunk with
  | nil => simp
  | cons line added ih => simp [ih, ChangeLine.push, pushNewLine]

/-- Lines at the end that are no context lines are removed and added. -/
theorem Written.append (h : Written ctx old new indices) (removed added : List (List Char)) :
    Written ctx (old ++ removed) (new ++ added) indices := by
  obtain ⟨changes, htexts, hchgs⟩ := h
  refine ⟨changes ++ (removed.map .remove ++ added.map .add), ?_, ?_⟩
  · refine forall_mem_append.mpr ⟨fun change hchg => ?_, forall_mem_append.mpr ⟨?_, ?_⟩⟩
    · have hmem := htexts change hchg
      simp only [mem_append] at hmem ⊢
      tauto
    · simpa [ChangeLine.text] using fun line hline => .inr (.inl hline)
    · simpa [ChangeLine.text] using fun line hline => .inr (.inr (.inr hline))
  · rw [foldl_append, hchgs, foldl_append, foldl_remove, foldl_add]

/-- A context line at the end. -/
theorem Written.context (h : Written ctx old new indices) (line : List Char) :
    Written ctx (old ++ [line]) (new ++ [line]) (indices ++ [(old.length, new.length)]) := by
  obtain ⟨changes, htexts, hchgs⟩ := h
  refine ⟨changes ++ [.context line], forall_mem_append.mpr ⟨fun change hchg => ?_, ?_⟩, ?_⟩
  · have hmem := htexts change hchg
    simp only [mem_append] at hmem ⊢
    tauto
  · simp [ChangeLine.text]
  · rw [foldl_append, hchgs]
    rfl

theorem take_append_drop_of_getElem? {lines : List (List Char)} {i : Nat} {line : List Char}
    (h : lines[i]? = some line) : lines.take i ++ [line] ++ lines.drop (i + 1) = lines := by
  obtain ⟨hi, rfl⟩ := List.getElem?_eq_some_iff.mp h
  rw [List.append_assoc, List.singleton_append, ← List.drop_eq_getElem_cons hi,
    List.take_append_drop]

/-- **The lines of every chunk can be written**: those up to the last context line, and then
the others of both sides. -/
theorem Aligned.written (ctx : Option (List Char)) (h : Aligned old new indices) :
    Written ctx old new indices := by
  induction indices using List.reverseRecOn generalizing old new with
  | nil =>
    have hnil : Written ctx [] [] [] := ⟨[], by simp, rfl⟩
    exact hnil.append old new
  | append_singleton init last ih =>
    obtain ⟨hinit, -, hlt⟩ := pairwise_append.mp h.ordered
    obtain ⟨line, hold, hnew⟩ := h.same last (by simp)
    have hbefore : Aligned (old.take last.1) (new.take last.2) init := by
      refine ⟨fun index hindex => ?_, hinit⟩
      obtain ⟨hfst, hsnd⟩ := hlt index hindex last (by simp)
      rw [getElem?_take_of_lt hfst, getElem?_take_of_lt hsnd]
      exact h.same index (mem_append_left _ hindex)
    have hwritten := ((ih hbefore).context line).append (old.drop (last.1 + 1))
        (new.drop (last.2 + 1))
    have hi := (List.getElem?_eq_some_iff.mp hold).1
    have hj := (List.getElem?_eq_some_iff.mp hnew).1
    rwa [take_append_drop_of_getElem? hold, take_append_drop_of_getElem? hnew,
      List.length_take_of_le hi.le, List.length_take_of_le hj.le] at hwritten

end Written

/-! ## Writing a patch -/

variable {chunk : UpdateFileChunk}

theorem UpdateFileChunk.WellFormed.exists_chunkText (h : chunk.WellFormed) (first : Bool) :
    ∃ lines, ChunkText first chunk lines := by
  obtain ⟨changes, htexts, hchgs⟩ := Aligned.written chunk.changeContext ⟨h.indices, h.ordered⟩
  have hne : changes ≠ [] := by
    rintro rfl
    have hempty := h.nonempty
    rw [isEmpty, ← congrArg oldLines hchgs, ← congrArg newLines hchgs] at hempty
    cases hempty
  have hhead : ∃ header, HeaderText first chunk.changeContext header := by
    cases hctx : chunk.changeContext with
    | none => exact ⟨_, .bare⟩
    | some ctx => exact ⟨_, .context (h.context ctx hctx)⟩
  obtain ⟨header, hhead⟩ := hhead
  have hchunk : ofLines chunk.changeContext changes chunk.isEndOfFile = chunk := by
    rw [ofLines, hchgs]
  have htext := ChunkText.mk chunk.isEndOfFile hhead hne fun change hchg =>
    h.lines _ (htexts change hchg)
  rw [hchunk] at htext
  exact ⟨_, htext⟩

variable {chunks : List UpdateFileChunk}

theorem exists_chunksText (first : Bool) (h : ∀ chunk ∈ chunks, chunk.WellFormed) :
    ∃ lines, ChunksText first chunks lines := by
  induction chunks generalizing first with
  | nil => exact ⟨[], .nil⟩
  | cons chunk chunks ih =>
    obtain ⟨hchunk, hchunks⟩ := forall_mem_cons.mp h
    obtain ⟨lines, hlines⟩ := hchunk.exists_chunkText first
    obtain ⟨rest, hrest⟩ := ih false hchunks
    exact ⟨lines ++ rest, .cons hlines hrest⟩

theorem Hunk.WellFormed.exists_hunkText {hunk : Hunk} (h : hunk.WellFormed) :
    ∃ lines, HunkText hunk lines := by
  cases hunk with
  | addFile path contents =>
    obtain ⟨hpath, lines, rfl, hlines⟩ := h
    exact ⟨_, .addFile hpath hlines⟩
  | deleteFile path => exact ⟨_, .deleteFile h⟩
  | updateFile path movePath chunks =>
    obtain ⟨hpath, hmove, hne, hchunks⟩ := h
    obtain ⟨lines, hlines⟩ := exists_chunksText true hchunks
    exact ⟨_, .updateFile hpath hmove hne hlines⟩

variable {hunks : List Hunk}

/-- **Well-formed hunks can be written.** -/
theorem exists_patchText {envId : Option (List Char)}
    (henv : ∀ id ∈ envId, PathText id) (h : ∀ hunk ∈ hunks, hunk.WellFormed) :
    ∃ text, PatchText envId hunks text := by
  have hhunks : ∃ lines, HunksText hunks lines := by
    induction hunks with
    | nil => exact ⟨[], .nil⟩
    | cons hunk hunks ih =>
      obtain ⟨hhunk, hhunks⟩ := forall_mem_cons.mp h
      obtain ⟨lines, hlines⟩ := hhunk.exists_hunkText
      obtain ⟨rest, hrest⟩ := ih hhunks
      exact ⟨lines ++ rest, .cons hlines hrest⟩
  obtain ⟨lines, hlines⟩ := hhunks
  exact ⟨_, .mk henv hlines false⟩

/-! ## The lines of a patch -/

theorem LineText.cons {c : Char} (h : LineText text) (hfeed : c ≠ '\n') (hreturn : c ≠ '\r') :
    LineText (c :: text) := by
  refine ⟨?_, ?_⟩
  · simpa [hfeed.symm] using h.one_line
  · cases text with
    | nil => simpa using hreturn
    | cons d text => exact h.no_cr

theorem LineText.append {marker : List Char} (hmark : '\n' ∉ marker) (hne : text ≠ [])
    (hfeed : '\n' ∉ text) (hlast : ∀ c ∈ text.getLast?, isWhitespace c = false) :
    LineText (marker ++ text) := by
  refine ⟨by simp [hmark, hfeed], fun hreturn => ?_⟩
  rw [getLast?_append_of_ne_nil _ hne] at hreturn
  exact absurd (hlast '\r' hreturn) (by decide)

theorem PathText.lineText {marker path : List Char} (hmark : '\n' ∉ marker) (h : PathText path) :
    LineText (marker ++ path) :=
  .append hmark h.ne_nil h.one_line (getLast?_of_trimEnd_eq h.trimmed)

theorem ChangeLine.lineText {change : ChangeLine} (h : LineText change.text) :
    LineText change.render := by
  cases change <;> exact LineText.cons h (by decide) (by decide)

variable {lines : List (List Char)}

theorem ChunkText.lineText {first : Bool} (h : ChunkText first chunk lines) :
    ∀ line ∈ lines, LineText line := by
  obtain @⟨context, header, changes, isEndOfFile, hhead, -, hlines⟩ := h
  refine forall_mem_append.mpr ⟨forall_mem_append.mpr ⟨?_, ?_⟩, ?_⟩
  · cases hhead with
    | omitted _ => simp
    | bare => decide
    | context hctx =>
      exact forall_mem_singleton.mpr
        (.append (by decide) hctx.ne_nil hctx.one_line (getLast?_of_trimEnd_eq hctx.trimmed))
  · exact forall_mem_map.mpr fun change hchg => ChangeLine.lineText (hlines change hchg)
  · cases isEndOfFile <;> decide

theorem ChunksText.lineText {first : Bool} (h : ChunksText first chunks lines) :
    ∀ line ∈ lines, LineText line := by
  induction h with
  | nil => simp
  | cons hchunk _ ih => exact forall_mem_append.mpr ⟨hchunk.lineText, ih⟩

theorem HunkText.lineText {hunk : Hunk} (h : HunkText hunk lines) :
    ∀ line ∈ lines, LineText line := by
  cases h with
  | addFile hpath hlines =>
    refine forall_mem_cons.mpr ⟨hpath.lineText (by decide), fun line hline => ?_⟩
    obtain ⟨text, htext, rfl⟩ := mem_map.mp hline
    exact (hlines text htext).cons (by decide) (by decide)
  | deleteFile hpath => exact forall_mem_singleton.mpr (hpath.lineText (by decide))
  | @updateFile path movePath chunks lines hpath hmove _ hchunks =>
    refine forall_mem_cons.mpr ⟨hpath.lineText (by decide), ?_⟩
    refine forall_mem_append.mpr ⟨fun line hline => ?_, hchunks.lineText⟩
    obtain ⟨dest, hdest, rfl⟩ := Option.map_eq_some_iff.mp (Option.mem_toList.mp hline)
    exact (hmove dest hdest).lineText (by decide)

theorem HunksText.lineText (h : HunksText hunks lines) : ∀ line ∈ lines, LineText line := by
  induction h with
  | nil => simp
  | cons hhunk _ ih => exact forall_mem_append.mpr ⟨hhunk.lineText, ih⟩

end RenCrow.ApplyPatch
