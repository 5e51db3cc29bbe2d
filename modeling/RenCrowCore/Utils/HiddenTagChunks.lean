import RenCrowCore.Utils.InlineHiddenTag

/-!
# Hidden tags and chunks

When the way of cutting a text into chunks matters to the parser of `inline_hidden_tag.rs`: an
opener that is complete at the end of a chunk is taken at once, although another one, which is
longer or begins earlier, may still be arriving.

* `exists_early_open`, `feed_cut`: a cut behind such an opener, and what the parser makes of it;
* `chunks_irrelevant_iff`: chunks never matter exactly for the tags that are `Separable`.
-/

namespace RenCrow.StreamParser.InlineHiddenTagParser

open Text Streaming

variable {T : Type} {specs : List (InlineTagSpec T)} {spec : InlineTagSpec T}
  {active : ActiveTag T} {text word rest : List Char} {position : Nat}

/-! ## Texts of one element -/

/-- Only an empty text leaves no trace. -/
theorem eq_nil_of_stripAll (h : stripAll specs none text = ⟨[], []⟩) : text = [] := by
  cases hfirst : firstOpen specs text with
  | none =>
    rw [stripAll_outside_none hfirst] at h
    exact congrArg StreamTextChunk.visibleText h
  | some found =>
    rw [stripAll_outside_some hfirst] at h
    have hextracted := congrArg (fun chunk => chunk.extracted.length) h
    rw [stripAll_inside] at hextracted
    split at hextracted <;> simp at hextracted

/-- When nothing but one element comes out of a text, nothing follows the element. -/
theorem stripAll_closed {front : List Char} {item : ExtractedInlineTag T}
    (hfind : find active.closing text = some position)
    (h : ⟨front, []⟩ ++ stripAll specs (some active) text = ⟨[], [item]⟩) :
    text.drop (position + active.closing.length) = [] := by
  rw [stripAll_inside, hfind] at h
  have hvisible := congrArg StreamTextChunk.visibleText h
  have hextracted := congrArg StreamTextChunk.extracted h
  simp only [visibleText_append, List.append_eq_nil_iff] at hvisible
  simp only [extracted_append, List.nil_append, List.singleton_append, List.cons.injEq]
    at hextracted
  exact eq_nil_of_stripAll (StreamTextChunk.ext hvisible.2.2 hextracted.2)

/-- After an opener, one character is at most content. -/
theorem stripAll_short (hclosing : active.closing ≠ []) (hshort : text.length ≤ 1) :
    ∃ content, stripAll specs (some active) text = ⟨[], [⟨active.tag, active.content ++ content⟩]⟩ ∧
      content.length ≤ text.length := by
  rw [stripAll_inside]
  split
  · exact ⟨text, rfl, Nat.le_refl _⟩
  · rename_i position hfind
    have hpos := List.length_pos_iff.mpr hclosing
    have hle := find_le hfind
    have hnil : text.drop (position + active.closing.length) = [] :=
      List.drop_eq_nil_of_le (by omega)
    have hnone : firstOpen specs [] = none := (new_quiet specs).outside rfl
    rw [hnil, stripAll_outside_none hnone]
    exact ⟨text.take position, rfl, List.length_take_le' _ _⟩

/-- A text that begins with an opener and has at most one character more. -/
theorem stripAll_opener {outer : InlineTagSpec T} (houter : outer ∈ specs)
    (hshort : rest.length ≤ 1) :
    ∃ tag content, stripAll specs none (outer.opening ++ rest) = ⟨[], [⟨tag, content⟩]⟩ ∧
      content.length ≤ rest.length := by
  have hhere : find outer.opening (outer.opening ++ rest) = some 0 := by
    cases hopening : outer.opening with
    | nil => exact absurd hopening outer.opening_ne
    | cons c cs =>
      have hbegin : c :: cs <+: c :: (cs ++ rest) := List.prefix_append (c :: cs) rest
      rw [List.cons_append, find, splitOnce_here hbegin]
      rfl
  cases hfirst : firstOpen specs (outer.opening ++ rest) with
  | none =>
    rw [firstOpen_eq_none_iff.mp hfirst outer houter] at hhere
    cases hhere
  | some found =>
    obtain ⟨position, spec⟩ := found
    obtain ⟨-, -, hleads⟩ := of_firstOpen hfirst
    have hlead := hleads outer houter 0 hhere
    simp only [Leads, Nat.not_lt_zero, false_or] at hlead
    obtain ⟨rfl, hlong⟩ := hlead
    have hless : ((outer.opening ++ rest).drop (0 + spec.opening.length)).length ≤ rest.length := by
      rw [List.length_drop, List.length_append]
      omega
    obtain ⟨content, hcontent, hle⟩ := @stripAll_short T specs ⟨spec.tag, spec.closing, []⟩ _
      spec.closing_ne (hless.trans hshort)
    rw [stripAll_outside_some hfirst, hcontent]
    exact ⟨spec.tag, content, rfl, hle.trans hless⟩

/-! ## A cut behind an opener -/

theorem find_ne_none (hword : word ≠ []) (h : word <:+: text) : find word text ≠ none := by
  intro hnone
  obtain ⟨before, after, rfl⟩ := h
  refine not_start_of_splitOnce_eq_none hword (Option.map_eq_none_iff.mp hnone) ?_
    (List.prefix_append word after)
  exact ⟨before, by simp⟩

/-- If an opener is complete inside another one, then at the first place where one is complete,
nothing is held back. -/
theorem exists_early_open {inner outer : InlineTagSpec T} (hinner : inner ∈ specs)
    ( hinfix : inner.opening <:+: outer.opening.dropLast) :
    ∃ spec position early later, outer.opening = early ++ later ∧ later ≠ [] ∧
      early.length = position + spec.opening.length ∧
      firstOpen specs early = some (position, spec) := by
  have hopens : ∀ spec ∈ specs, ∀ length, spec.opening <:+: outer.opening.take length →
      firstOpen specs (outer.opening.take length) ≠ none := by
    intro spec hspec length h hnone
    exact find_ne_none spec.opening_ne h (firstOpen_eq_none_iff.mp hnone spec hspec)
  rw [List.dropLast_eq_take] at hinfix
  have hexists : ∃ length, firstOpen specs (outer.opening.take length) ≠ none :=
    ⟨_, hopens inner hinner _ hinfix⟩
  classical
  have hleast := Nat.find_min' hexists (hopens inner hinner _ hinfix)
  obtain ⟨⟨position, spec⟩, hfirst⟩ := Option.ne_none_iff_exists'.mp (Nat.find_spec hexists)
  obtain ⟨hspec, hfind, -⟩ := of_firstOpen hfirst
  have hle := find_le hfind
  rw [List.length_take] at hle
  -- the opener that is found ends at the shortest beginning in which there is one
  have hend : spec.opening <:+: outer.opening.take (position + spec.opening.length) := by
    obtain ⟨⟨before, after⟩, hsplit, rfl⟩ := Option.map_eq_some_iff.mp hfind
    have htext := splitOnce_eq_some hsplit
    have hbegin : before ++ spec.opening <+: outer.opening :=
      (List.prefix_append _ after).trans (htext ▸ List.take_prefix _ _)
    rw [← List.length_append, ← List.prefix_iff_eq_take.mp hbegin]
    exact (List.suffix_append before spec.opening).isInfix
  have hmin := Nat.find_min' hexists (hopens spec hspec _ hend)
  have hpos := List.length_pos_iff.mpr spec.opening_ne
  refine ⟨spec, position, _, _, (List.take_append_drop (Nat.find hexists) _).symm, ?_, ?_, hfirst⟩
  · rw [ne_eq, List.drop_eq_nil_iff]
    omega
  · rw [List.length_take]
    omega

/-- A chunk that ends with the first opener. -/
theorem pushStr_opener (hend : text.length = position + spec.opening.length)
    (hfirst : firstOpen specs text = some (position, spec)) :
    pushStr (new specs) text =
      (⟨specs, [], some ⟨spec.tag, spec.closing, []⟩⟩, ⟨text.take position, []⟩) := by
  have hpos := List.length_pos_iff.mpr spec.opening_ne
  obtain ⟨fuel, hfuel⟩ : ∃ fuel, text.length = fuel + 1 := ⟨text.length - 1, by omega⟩
  have hopen : findNextOpen ⟨specs, text, none⟩ = some (position, spec) := hfirst
  have hdrop : text.drop (position + spec.opening.length) = [] :=
    List.drop_eq_nil_of_le (Nat.le_of_eq hend)
  have hclose : find spec.closing [] = none := by
    simp [find, splitOnce, spec.closing_ne]
  simp only [pushStr, new, List.nil_append]
  rw [pushWithin]
  simp only [hopen, hdrop, hfuel]
  rw [pushWithin]
  simp [hclose]

/-- What the parser makes of a text that is cut behind an opener. -/
theorem feed_cut (hend : text.length = position + spec.opening.length)
    (hfirst : firstOpen specs text = some (position, spec)) (rest : List Char) :
    Parser.feed ⟨pushStr, finish⟩ (new specs) [text, rest] = ⟨text.take position, []⟩ ++
      stripAll specs (some ⟨spec.tag, spec.closing, []⟩) rest := by
  have hquiet := ((new_quiet specs).pushStr text).1
  rw [Parser.feed]
  dsimp only
  rw [pushStr_opener hend hfirst] at hquiet ⊢
  exact congrArg _ (hquiet.feed_single rest)

/-- Cutting behind an opener that is complete inside another one matters. -/
theorem separable_of_same (hsame : ∀ chunks, Parser.feed ⟨pushStr, finish⟩ (new specs) chunks =
    Parser.feed ⟨pushStr, finish⟩ (new specs) [chunks.flatten]) : Separable specs := by
  intro inner hinner outer houter hinfix
  obtain ⟨spec, position, early, later, hopening, hne, hend, hfirst⟩ :=
    exists_early_open hinner hinfix
  -- in one piece, the outer opener hides the rest
  have hwhole : ∀ rest : List Char, rest.length ≤ 1 → ∃ tag content,
      ⟨early.take position, []⟩ ++ stripAll specs (some ⟨spec.tag, spec.closing, []⟩)
        (later ++ rest) = ⟨[], [⟨tag, content⟩]⟩ ∧ content.length ≤ rest.length := by
    intro rest hshort
    obtain ⟨tag, content, hopener, hcontent⟩ := stripAll_opener houter hshort
    refine ⟨tag, content, ?_, hcontent⟩
    rw [← feed_cut hend hfirst, hsame, feed_new_single, ← hopener, hopening]
    simp
  obtain ⟨tag, content, hempty, hnone⟩ := hwhole [] (Nat.zero_le _)
  obtain rfl := List.eq_nil_of_length_eq_zero (Nat.le_zero.mp hnone)
  rw [List.append_nil] at hempty
  cases hfind : find spec.closing later with
  | none =>
    rw [stripAll_inside, hfind] at hempty
    have hextracted := congrArg StreamTextChunk.extracted hempty
    simp [hne] at hextracted
  | some place =>
    have hnil := stripAll_closed hfind hempty
    obtain ⟨tag', content', hone, -⟩ := hwhole ['x'] (Nat.le_refl _)
    have hrest := stripAll_closed (find_append_of_some spec.closing_ne hfind) hone
    rw [List.drop_append_of_le_length (find_le hfind), hnil] at hrest
    cases hrest

/-- **Several hidden tags.**  A text in one piece is cut as `stripAll` says, where of the openers
that occur the leftmost counts, and of those at one place the longest.  Cutting it into chunks
never matters if and only if no opener is complete inside another one that is still arriving. -/
theorem chunks_irrelevant_iff (specs : List (InlineTagSpec T)) :
    (∀ text, Parser.feed ⟨pushStr, finish⟩ (new specs) [text] = stripAll specs none text) ∧
    (∀ text position spec, firstOpen specs text = some (position, spec) →
      spec ∈ specs ∧ find spec.opening text = some position ∧
        ∀ other ∈ specs, ∀ place, find other.opening text = some place →
          Leads (position, spec) (place, other)) ∧
    ((∀ chunks, Parser.feed ⟨pushStr, finish⟩ (new specs) chunks =
      Parser.feed ⟨pushStr, finish⟩ (new specs) [chunks.flatten]) ↔ Separable specs) := by
  refine ⟨feed_new_single specs, fun _ _ _ => of_firstOpen, fun hsame => ?_, fun hsep chunks => ?_⟩
  · exact separable_of_same hsame
  · rw [feed_new_single]
    exact (parser_means_all hsep).feed_eq (new_quiet specs) chunks

/-- Two tags whose openers begin alike. -/
def sampleSpecs : List (InlineTagSpec Nat) :=
  [⟨1, "<a>".toList, "</a>".toList, by decide, by decide⟩,
    ⟨2, "<ab>".toList, "</ab>".toList, by decide, by decide⟩]

/-- The openers are cut in the middle, and the last element is not closed. -/
theorem chunks_irrelevant_iff_sample :
    Parser.feed ⟨pushStr, finish⟩ (new sampleSpecs)
        ["x<a".toList, "b>y</".toList, "ab>z<a><".toList, "ab>".toList] =
      Parser.feed ⟨pushStr, finish⟩ (new sampleSpecs) ["x<ab>y</ab>z<a><ab>".toList] ∧
    Parser.feed ⟨pushStr, finish⟩ (new sampleSpecs) ["x<ab>y</ab>z<a><ab>".toList] =
      ⟨"xz".toList, [⟨2, "y".toList⟩, ⟨1, "<ab>".toList⟩]⟩ := by
  have hsep : Separable sampleSpecs := by decide
  exact ⟨(chunks_irrelevant_iff sampleSpecs).2.2.mpr hsep _, by decide +kernel⟩

/-- An opener that is complete at the end of a chunk is taken, although a longer one at the same
place is still arriving. -/
theorem chunks_matter :
    let specs : List (InlineTagSpec Nat) := [⟨1, "<a".toList, ">".toList, by decide, by decide⟩,
      ⟨2, "<ab".toList, ">".toList, by decide, by decide⟩]
    Parser.feed ⟨pushStr, finish⟩ (new specs) ["<a".toList, "b>".toList] =
        ⟨[], [⟨1, "b".toList⟩]⟩ ∧
      Parser.feed ⟨pushStr, finish⟩ (new specs) ["<ab>".toList] = ⟨[], [⟨2, []⟩]⟩ := by
  decide +kernel

end RenCrow.StreamParser.InlineHiddenTagParser
