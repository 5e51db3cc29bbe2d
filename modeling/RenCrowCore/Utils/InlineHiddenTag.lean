import RenCrowCore.Lib.Streaming

/-!
# Inline tags that are hidden from streamed text

`utils/stream-parser/src/inline_hidden_tag.rs`: tags are cut out of a text that arrives in
chunks, and what may be the beginning of a tag is held back.

* `InlineHiddenTagParser.pushStr`, `InlineHiddenTagParser.finish`: the parser;
* `strip`, `stripAll`: a text without the elements of a tag, or of several, and their contents;
* `Separable`: no opener is complete while another one is still arriving;
* `parser_means_all`: then the parser does what `stripAll` says, for every way of cutting the text;
* `parser_means`: with one tag the parser does what `strip` says.
-/

namespace RenCrow.StreamParser

open Text Streaming

variable {T : Type}

/-! ## The parser -/

/-- The text that is shown, and what was taken out of it. -/
structure StreamTextChunk (T : Type) where
  visibleText : List Char
  extracted : List T
deriving DecidableEq, Repr

instance : Append (StreamTextChunk T) where
  append first second :=
    ⟨first.visibleText ++ second.visibleText, first.extracted ++ second.extracted⟩

/-- A tag that was taken out. -/
structure ExtractedInlineTag (T : Type) where
  tag : T
  content : List Char
deriving DecidableEq, Repr

/-- A tag with its delimiters, which are not empty. -/
structure InlineTagSpec (T : Type) where
  tag : T
  opening : List Char
  closing : List Char
  opening_ne : opening ≠ []
  closing_ne : closing ≠ []

/-- A tag that is not closed yet. -/
structure ActiveTag (T : Type) where
  tag : T
  closing : List Char
  content : List Char
deriving DecidableEq, Repr

/-- The state of the parser: the text held back, and the open tag. -/
structure InlineHiddenTagParser (T : Type) where
  specs : List (InlineTagSpec T)
  pending : List Char
  active : Option (ActiveTag T)

/-- `str::find`. -/
def find (word text : List Char) : Option Nat :=
  (splitOnce word text).map fun parts => parts.1.length

/-- The longest proper beginning of a word that a text ends with, of at most the given length. -/
def longestSuffixPrefixLenWithin (text word : List Char) : Nat → Nat
  | 0 => 0
  | count + 1 =>
    if (word.take (count + 1)).isSuffixOf text then count + 1
    else longestSuffixPrefixLenWithin text word count

/-- The longest proper start of a word that the text ends with. -/
def longestSuffixPrefixLen (text word : List Char) : Nat :=
  longestSuffixPrefixLenWithin text word (min text.length (word.length - 1))

namespace InlineHiddenTagParser

/-- A parser at the start of a text. -/
def new (specs : List (InlineTagSpec T)) : InlineHiddenTagParser T := ⟨specs, [], none⟩

/-- The first tag that opens; of those at one place the longest, and then the first one.  Openers
at one place begin the same text, so that characters order them as bytes do. -/
def findNextOpen (parser : InlineHiddenTagParser T) : Option (Nat × InlineTagSpec T) :=
  (parser.specs.filterMap fun spec =>
    (find spec.opening parser.pending).map fun position => (position, spec)).foldl
      (fun best candidate =>
        match best with
        | none => some candidate
        | some found =>
          if candidate.1 < found.1 ∨
              candidate.1 = found.1 ∧ found.2.opening.length < candidate.2.opening.length then
            some candidate
          else some found) none

/-- How much of the text held back may be the start of a tag. -/
def maxOpenPrefixSuffixLen (parser : InlineHiddenTagParser T) : Nat :=
  (parser.specs.map fun spec => longestSuffixPrefixLen parser.pending spec.opening).foldl max 0

/-- The loop of `push_str`; every round but the last takes a delimiter off the text. -/
def pushWithin : Nat → InlineHiddenTagParser T → StreamTextChunk (ExtractedInlineTag T) →
    InlineHiddenTagParser T × StreamTextChunk (ExtractedInlineTag T)
  | 0, parser, out => (parser, out)
  | fuel + 1, parser, out =>
    match parser.active with
    | some active =>
      match find active.closing parser.pending with
      | some closeIdx =>
        pushWithin fuel
          { parser with
            pending := parser.pending.drop (closeIdx + active.closing.length)
            active := none }
          { out with
            extracted := out.extracted ++
              [⟨active.tag, active.content ++ parser.pending.take closeIdx⟩] }
      | none =>
        let taken := parser.pending.length -
          longestSuffixPrefixLen parser.pending active.closing
        ({ parser with
            pending := parser.pending.drop taken
            active := some { active with
              content := active.content ++ parser.pending.take taken } }, out)
    | none =>
      match parser.findNextOpen with
      | some (openIdx, spec) =>
        pushWithin fuel
          { parser with
            pending := parser.pending.drop (openIdx + spec.opening.length)
            active := some ⟨spec.tag, spec.closing, []⟩ }
          { out with visibleText := out.visibleText ++ parser.pending.take openIdx }
      | none =>
        let taken := parser.pending.length - parser.maxOpenPrefixSuffixLen
        ({ parser with pending := parser.pending.drop taken },
          { out with visibleText := out.visibleText ++ parser.pending.take taken })

/-- Takes the next piece of the text. -/
def pushStr (parser : InlineHiddenTagParser T) (chunk : List Char) :
    InlineHiddenTagParser T × StreamTextChunk (ExtractedInlineTag T) :=
  let pending := parser.pending ++ chunk
  pushWithin (pending.length + 1) { parser with pending } ⟨[], []⟩

/-- What is left at the end; a tag that is open is taken out as it is. -/
def finish (parser : InlineHiddenTagParser T) : StreamTextChunk (ExtractedInlineTag T) :=
  match parser.active with
  | some active => ⟨[], [⟨active.tag, active.content ++ parser.pending⟩]⟩
  | none => ⟨parser.pending, []⟩

end InlineHiddenTagParser

/-! ## Text without the elements of a tag -/

attribute [ext] StreamTextChunk

@[simp] theorem visibleText_append (first second : StreamTextChunk T) :
    (first ++ second).visibleText = first.visibleText ++ second.visibleText := rfl

@[simp] theorem extracted_append (first second : StreamTextChunk T) :
    (first ++ second).extracted = first.extracted ++ second.extracted := rfl

theorem append_assoc (first second third : StreamTextChunk T) :
    first ++ second ++ third = first ++ (second ++ third) := by
  ext1 <;> simp

theorem length_lt_of_splitOnce {word text before after : List Char} (hword : word ≠ [])
    (h : splitOnce word text = some (before, after)) : after.length < text.length := by
  have hpos := List.length_pos_iff.mpr hword
  have hlen := congrArg List.length (splitOnce_eq_some h)
  simp only [List.length_append] at hlen
  omega

/-- A text outside an element, or inside one of which the content so far is given: elements are
not nested, and the last one need not be closed. -/
def strip (spec : InlineTagSpec T) : Option (List Char) → List Char →
    StreamTextChunk (ExtractedInlineTag T)
  | none, text =>
    match _h : splitOnce spec.opening text with
    | none => ⟨text, []⟩
    | some (before, after) => ⟨before, []⟩ ++ strip spec (some []) after
  | some content, text =>
    match _h : splitOnce spec.closing text with
    | none => ⟨[], [⟨spec.tag, content ++ text⟩]⟩
    | some (body, after) => ⟨[], [⟨spec.tag, content ++ body⟩]⟩ ++ strip spec none after
termination_by _ text => text.length
decreasing_by
  · exact length_lt_of_splitOnce spec.opening_ne ‹_›
  · exact length_lt_of_splitOnce spec.closing_ne ‹_›

/-! ## The tag that opens first -/

variable {specs : List (InlineTagSpec T)} {spec : InlineTagSpec T} {active : ActiveTag T}
  {text word rest content : List Char} {position : Nat}

theorem find_le (h : find word text = some position) : position + word.length ≤ text.length := by
  obtain ⟨⟨before, after⟩, hsplit, rfl⟩ := Option.map_eq_some_iff.mp h
  have hlen := congrArg List.length (splitOnce_eq_some hsplit)
  rw [List.length_append, List.length_append] at hlen
  dsimp only
  omega

theorem find_append_of_some (hword : word ≠ []) (h : find word text = some position) :
    find word (text ++ rest) = some position := by
  obtain ⟨⟨before, after⟩, hsplit, rfl⟩ := Option.map_eq_some_iff.mp h
  rw [find, splitOnce_append_of_some hword hsplit]
  rfl

theorem length_drop_of_find (hword : word ≠ []) (h : find word text = some position) :
    (text.drop (position + word.length)).length < text.length := by
  have hpos := List.length_pos_iff.mpr hword
  have hle := find_le h
  rw [List.length_drop]
  omega

/-- Where a tag opens in a text. -/
def opens (text : List Char) (spec : InlineTagSpec T) : Option (Nat × InlineTagSpec T) :=
  (find spec.opening text).map fun position => (position, spec)

/-- The better of two places at which tags open. -/
def pick (best : Option (Nat × InlineTagSpec T)) (candidate : Nat × InlineTagSpec T) :
    Option (Nat × InlineTagSpec T) :=
  match best with
  | none => some candidate
  | some found =>
    if candidate.1 < found.1 ∨
        candidate.1 = found.1 ∧ found.2.opening.length < candidate.2.opening.length then
      some candidate
    else some found

/-- `find_next_open` of a text. -/
def firstOpen (specs : List (InlineTagSpec T)) (text : List Char) :
    Option (Nat × InlineTagSpec T) :=
  (specs.filterMap (opens text)).foldl pick none

/-- A place is in front of another one, or the tag there is at least as long. -/
def Leads (best other : Nat × InlineTagSpec T) : Prop :=
  best.1 < other.1 ∨ best.1 = other.1 ∧ other.2.opening.length ≤ best.2.opening.length

theorem Leads.trans {first second third : Nat × InlineTagSpec T} (h : Leads first second)
    (h' : Leads second third) : Leads first third := by
  unfold Leads at *
  omega

theorem foldl_pick_spec (candidates : List (Nat × InlineTagSpec T))
    (found : Nat × InlineTagSpec T) :
    ∃ best ∈ found :: candidates, candidates.foldl pick (some found) = some best ∧
      ∀ other ∈ found :: candidates, Leads best other := by
  induction candidates generalizing found with
  | nil => exact ⟨found, List.mem_cons_self, rfl, by simp [Leads]⟩
  | cons candidate candidates ih =>
    rw [List.foldl_cons, pick]
    split
    · rename_i hbetter
      obtain ⟨best, hbest, hfold, hleads⟩ := ih candidate
      have hfound : Leads best found :=
        (hleads candidate List.mem_cons_self).trans (by unfold Leads; omega)
      exact ⟨best, List.mem_cons_of_mem _ hbest, hfold, List.forall_mem_cons.mpr ⟨hfound, hleads⟩⟩
    · rename_i hworse
      obtain ⟨best, hbest, hfold, hleads⟩ := ih found
      obtain ⟨hfound, hothers⟩ := List.forall_mem_cons.mp hleads
      have hcandidate : Leads best candidate := hfound.trans (by unfold Leads; omega)
      refine ⟨best, ?_, hfold, ?_⟩
      · rcases List.mem_cons.mp hbest with rfl | hmem
        · exact List.mem_cons_self
        · exact List.mem_cons_of_mem _ (List.mem_cons_of_mem _ hmem)
      · exact List.forall_mem_cons.mpr ⟨hfound, List.forall_mem_cons.mpr ⟨hcandidate, hothers⟩⟩

theorem firstOpen_eq_none_iff :
    firstOpen specs text = none ↔ ∀ spec ∈ specs, find spec.opening text = none := by
  have hall : specs.filterMap (opens text) = [] ↔
      ∀ spec ∈ specs, find spec.opening text = none := by
    simp [List.filterMap_eq_nil_iff, opens]
  rw [← hall, firstOpen]
  cases specs.filterMap (opens text) with
  | nil => simp
  | cons candidate candidates =>
    obtain ⟨best, -, hbest, -⟩ := foldl_pick_spec candidates candidate
    have hfold : (candidate :: candidates).foldl pick none = some best := hbest
    simp [hfold]

/-- The tag that opens first, and the longest of those at one place. -/
theorem of_firstOpen (h : firstOpen specs text = some (position, spec)) :
    spec ∈ specs ∧ find spec.opening text = some position ∧
      ∀ other ∈ specs, ∀ place, find other.opening text = some place →
        Leads (position, spec) (place, other) := by
  rw [firstOpen] at h
  cases hcand : specs.filterMap (opens text) with
  | nil =>
    rw [hcand] at h
    cases h
  | cons candidate candidates =>
    obtain ⟨best, hmem, hbest, hleads⟩ := foldl_pick_spec candidates candidate
    rw [hcand, List.foldl_cons] at h
    obtain rfl : best = (position, spec) := Option.some.inj (hbest.symm.trans h)
    rw [← hcand] at hmem hleads
    obtain ⟨tag, htag, hopens⟩ := List.mem_filterMap.mp hmem
    obtain ⟨place, hfind, heq⟩ := Option.map_eq_some_iff.mp hopens
    cases heq
    refine ⟨htag, hfind, fun other hother place hplace => ?_⟩
    exact hleads (place, other) (List.mem_filterMap.mpr ⟨other, hother, by rw [opens, hplace]; rfl⟩)

/-- A text outside of all elements, or inside of one, as it is cut when it comes in one piece. -/
def stripAll (specs : List (InlineTagSpec T)) :
    Option (ActiveTag T) → List Char → StreamTextChunk (ExtractedInlineTag T)
  | none, text =>
    match _h : firstOpen specs text with
    | none => ⟨text, []⟩
    | some (position, spec) => ⟨text.take position, []⟩ ++ stripAll specs
        (some ⟨spec.tag, spec.closing, []⟩) (text.drop (position + spec.opening.length))
  | some active, text =>
    match find active.closing text with
    | none => ⟨[], [⟨active.tag, active.content ++ text⟩]⟩
    | some position => ⟨[], [⟨active.tag, active.content ++ text.take position⟩]⟩ ++
        stripAll specs none (text.drop (position + active.closing.length))
termination_by active text => (text.length, active.isSome.toNat)
decreasing_by
  · exact Prod.Lex.left _ _ (length_drop_of_find spec.opening_ne (of_firstOpen ‹_›).2.1)
  · have hle : (text.drop (position + active.closing.length)).length ≤ text.length := by
      rw [List.length_drop]
      exact Nat.sub_le _ _
    rcases Nat.lt_or_eq_of_le hle with hlt | heq
    · exact Prod.Lex.left _ _ hlt
    · rw [heq]
      exact Prod.Lex.right _ Nat.zero_lt_one

theorem stripAll_outside_none (h : firstOpen specs text = none) :
    stripAll specs none text = ⟨text, []⟩ := by
  rw [stripAll]
  split <;> simp_all

theorem stripAll_outside_some (h : firstOpen specs text = some (position, spec)) :
    stripAll specs none text = ⟨text.take position, []⟩ ++ stripAll specs
      (some ⟨spec.tag, spec.closing, []⟩) (text.drop (position + spec.opening.length)) := by
  conv => lhs; rw [stripAll]
  split <;> simp_all

theorem stripAll_inside (active : ActiveTag T) (text : List Char) :
    stripAll specs (some active) text =
      match find active.closing text with
      | none => ⟨[], [⟨active.tag, active.content ++ text⟩]⟩
      | some position => ⟨[], [⟨active.tag, active.content ++ text.take position⟩]⟩ ++
          stripAll specs none (text.drop (position + active.closing.length)) := by
  conv => lhs; rw [stripAll]

/-! ## Holding back -/

theorem longestSuffixPrefixLenWithin_le (text word : List Char) (bound : Nat) :
    longestSuffixPrefixLenWithin text word bound ≤ bound := by
  induction bound with
  | zero => exact Nat.le_refl _
  | succ bound ih =>
    unfold longestSuffixPrefixLenWithin
    split
    · exact Nat.le_refl _
    · omega

theorem not_suffix_of_longer {word : List Char} {bound count : Nat}
    (hcount : longestSuffixPrefixLenWithin text word bound < count) (hbound : count ≤ bound) :
    ¬ word.take count <:+ text := by
  induction bound with
  | zero => omega
  | succ bound ih =>
    unfold longestSuffixPrefixLenWithin at hcount
    split at hcount
    · omega
    · rename_i hnot
      rcases Nat.lt_or_eq_of_le hbound with hlt | rfl
      · exact ih hcount (by omega)
      · exact fun hsuf => hnot (List.isSuffixOf_iff_suffix.mpr hsuf)

/-- The text given out and a part held back that is long enough, when a word has not occurred. -/
theorem find_heldBack {held : Nat} (hword : word ≠ []) (hnone : find word text = none)
    (hlong : longestSuffixPrefixLen text word ≤ held) (hheld : held ≤ text.length) :
    let taken := text.length - held
    find word (text.drop taken) = none ∧ ∀ rest,
      find word (text ++ rest) = (find word (text.drop taken ++ rest)).map (taken + ·) := by
  intro taken
  have hsplit : text.take taken ++ text.drop taken = text := List.take_append_drop _ _
  have hlen : (text.take taken).length = taken := by
    rw [List.length_take]
    omega
  have hback rest := @splitOnce_holdBack word rest (text.take taken) (text.drop taken) hword
    (by rw [hsplit]; exact Option.map_eq_none_iff.mp hnone) (fun count hlonger hshort hsuf => by
      rw [hsplit] at hsuf
      have htext := hsuf.length_le
      rw [List.length_take] at htext
      rw [List.length_drop] at hlonger
      have hbeyond : longestSuffixPrefixLenWithin text word
          (min text.length (word.length - 1)) < count := Nat.lt_of_le_of_lt hlong (by omega)
      exact not_suffix_of_longer hbeyond (by omega) hsuf)
  have hfind : ∀ rest, find word (text ++ rest) =
      (find word (text.drop taken ++ rest)).map (taken + ·) := by
    intro rest
    have hrest := hback rest
    rw [hsplit] at hrest
    rw [find, hrest, find, Option.map_map, Option.map_map]
    congr 1
    funext parts
    simp [hlen]
  refine ⟨?_, hfind⟩
  have hnil := hfind []
  rw [List.append_nil, List.append_nil, hnone] at hnil
  exact Option.map_eq_none_iff.mp hnil.symm

/-! ## Tags that do not open while another one is arriving -/

/-- No opener occurs in another one before that one is complete. -/
def Separable (specs : List (InlineTagSpec T)) : Prop :=
  ∀ inner ∈ specs, ∀ outer ∈ specs, ¬ inner.opening <:+: outer.opening.dropLast

instance decidableSeparable (specs : List (InlineTagSpec T)) : Decidable (Separable specs) :=
  inferInstanceAs (Decidable (∀ inner ∈ specs, ∀ outer ∈ specs,
    ¬ inner.opening <:+: outer.opening.dropLast))

/-- An opener that has not occurred so far does not begin in front of one that has. -/
theorem find_later {inner outer : List Char} {place : Nat} (hsep : ¬ inner <:+: outer.dropLast)
    (houter : outer ≠ []) (hinner : find inner text = some position)
    (hnone : find outer text = none) (hsome : find outer (text ++ rest) = some place) :
    position < place := by
  obtain ⟨⟨before, after⟩, hsplit, rfl⟩ := Option.map_eq_some_iff.mp hinner
  obtain ⟨⟨lead, later⟩, hsplit', rfl⟩ := Option.map_eq_some_iff.mp hsome
  have htext := splitOnce_eq_some hsplit
  have hwhole := splitOnce_eq_some hsplit'
  by_contra hnot
  obtain ⟨gap, rfl⟩ : lead <+: before := by
    have hlead : lead <+: text ++ rest := by
      rw [hwhole, List.append_assoc]
      exact List.prefix_append _ _
    have hbefore : before <+: text ++ rest := by
      rw [htext, List.append_assoc, List.append_assoc]
      exact List.prefix_append _ _
    exact List.prefix_of_prefix_length_le hlead hbefore (Nat.le_of_not_lt hnot)
  simp only [List.append_assoc] at htext hwhole
  have hstart : gap ++ (inner ++ after) <:+ text := ⟨lead, htext.symm⟩
  rw [htext, List.append_assoc, List.append_cancel_left_eq] at hwhole
  have houters : outer <+: gap ++ (inner ++ after) ++ rest :=
    hwhole ▸ List.prefix_append outer later
  rcases Nat.lt_or_ge (gap ++ (inner ++ after)).length outer.length with hshort | hlong
  · have hbegin : gap ++ (inner ++ after) <+: outer.dropLast :=
      List.prefix_of_prefix_length_le
        (List.prefix_of_prefix_length_le (List.prefix_append _ _) houters hshort.le)
        ( List.dropLast_prefix outer) (by rw [List.length_dropLast]; omega)
    exact hsep (List.IsInfix.trans ⟨gap, after, List.append_assoc ..⟩ hbegin.isInfix)
  · exact not_start_of_splitOnce_eq_none houter (Option.map_eq_none_iff.mp hnone) hstart
      (List.prefix_of_prefix_length_le houters (List.prefix_append _ _) hlong)

theorem firstOpen_append (hsep : Separable specs)
    (h : firstOpen specs text = some (position, spec)) :
    firstOpen specs (text ++ rest) = some (position, spec) := by
  obtain ⟨hspec, hfind, -⟩ := of_firstOpen h
  -- a place found only with the rest lies behind the one found before, so that the two folds
  -- hold the same place, or both one behind it
  have hfold : ∀ (tags : List (InlineTagSpec T)) (best best' : Option (Nat × InlineTagSpec T)),
      (∀ tag ∈ tags, tag ∈ specs) →
      (best' = best ∨ (∀ found ∈ best, position < found.1) ∧ ∃ found, best' = some found ∧
        position < found.1) →
      (tags.filterMap (opens text)).foldl pick best = some (position, spec) →
      (tags.filterMap (opens (text ++ rest))).foldl pick best' = some (position, spec) := by
    intro tags
    induction tags with
    | nil =>
      rintro best best' - (rfl | ⟨hlate, -⟩) hbest
      · exact hbest
      · exact absurd (hlate _ hbest) (Nat.lt_irrefl _)
    | cons tag tags ih =>
      intro best best' hmem hrel hbest
      have htags : ∀ other ∈ tags, other ∈ specs := fun other hother =>
        hmem other (List.mem_cons_of_mem _ hother)
      cases hold : find tag.opening text with
      | some place =>
        have hnew : find tag.opening (text ++ rest) = some place :=
          find_append_of_some tag.opening_ne hold
        simp only [List.filterMap_cons, opens, hold, hnew, Option.map_some, List.foldl_cons]
          at hbest ⊢
        refine ih _ _ htags ?_ hbest
        rcases hrel with rfl | ⟨hlate, found, rfl, hfound⟩
        · exact .inl rfl
        · cases best <;> grind [pick]
      | none =>
        simp only [List.filterMap_cons, opens, hold, Option.map_none] at hbest ⊢
        cases hnew : find tag.opening (text ++ rest) with
        | none => exact ih _ _ htags hrel hbest
        | some place =>
          have hlater := find_later (hsep spec hspec tag (hmem tag List.mem_cons_self))
            tag.opening_ne hfind hold hnew
          simp only [Option.map_some, List.foldl_cons]
          refine ih _ _ htags ?_ hbest
          cases best <;> grind [pick]
  exact hfold specs none none (fun _ hmem => hmem) (.inl rfl) h

theorem firstOpen_heldBack {held : Nat} (hnone : firstOpen specs text = none)
    (hlong : ∀ spec ∈ specs, longestSuffixPrefixLen text spec.opening ≤ held)
    (hheld : held ≤ text.length) :
    let taken := text.length - held
    firstOpen specs (text.drop taken) = none ∧ ∀ rest, firstOpen specs (text ++ rest) =
      (firstOpen specs (text.drop taken ++ rest)).map fun found => (taken + found.1, found.2) := by
  intro taken
  have hall := firstOpen_eq_none_iff.mp hnone
  have hback spec hspec :=
    find_heldBack spec.opening_ne (hall spec hspec) (hlong spec hspec) hheld
  refine ⟨firstOpen_eq_none_iff.mpr fun spec hspec => (hback spec hspec).1, fun rest => ?_⟩
  have hopens : specs.filterMap (opens (text ++ rest)) =
      (specs.filterMap (opens (text.drop taken ++ rest))).map
        fun found => (taken + found.1, found.2) := by
    rw [List.map_filterMap]
    refine List.filterMap_congr fun spec hspec => ?_
    rw [opens, (hback spec hspec).2 rest, opens, Option.map_map, Option.map_map]
    rfl
  rw [firstOpen, hopens, List.foldl_map]
  refine @List.foldl_hom _ _ _ (Option.map fun found : Nat × InlineTagSpec T =>
    (taken + found.1, found.2)) pick _ _ none fun best candidate => ?_
  cases best with
  | none => rfl
  | some found =>
    simp only [pick, Option.map_some]
    split <;> split <;> first | rfl | omega

theorem stripAll_inside_heldBack {taken : Nat} (htaken : taken ≤ text.length)
    (h : find active.closing (text ++ rest) =
      (find active.closing (text.drop taken ++ rest)).map (taken + ·)) :
    stripAll specs (some active) (text ++ rest) =
      stripAll specs (some { active with content := active.content ++ text.take taken })
        (text.drop taken ++ rest) := by
  obtain ⟨front, held, rfl, rfl⟩ : ∃ front held, text = front ++ held ∧ taken = front.length :=
    ⟨text.take taken, text.drop taken, by simp, by simp [htaken]⟩
  rw [List.drop_left] at h ⊢
  rw [stripAll_inside, stripAll_inside, h]
  cases find active.closing (held ++ rest) with
  | none => simp
  | some position => simp [Nat.add_assoc, List.take_length_add_append]

theorem stripAll_outside_heldBack {taken : Nat} (htaken : taken ≤ text.length)
    (h : firstOpen specs (text ++ rest) = (firstOpen specs (text.drop taken ++ rest)).map
      fun found => (taken + found.1, found.2)) :
    stripAll specs none (text ++ rest) =
      ⟨text.take taken, []⟩ ++ stripAll specs none (text.drop taken ++ rest) := by
  obtain ⟨front, held, rfl, rfl⟩ : ∃ front held, text = front ++ held ∧ taken = front.length :=
    ⟨text.take taken, text.drop taken, by simp, by simp [htaken]⟩
  rw [List.drop_left] at h ⊢
  cases hnext : firstOpen specs (held ++ rest) with
  | none =>
    rw [hnext] at h
    rw [stripAll_outside_none h, stripAll_outside_none hnext]
    ext1 <;> simp
  | some found =>
    rw [hnext] at h
    rw [stripAll_outside_some h, stripAll_outside_some hnext]
    ext1 <;> simp [Nat.add_assoc, List.take_length_add_append]

/-! ## The parser does what the text says -/

namespace InlineHiddenTagParser

variable {parser : InlineHiddenTagParser T} {out : StreamTextChunk (ExtractedInlineTag T)}
  {fuel : Nat} {before after : List Char}

/-- The parser for some tags, with one of them open or none. -/
structure For (specs : List (InlineTagSpec T)) (parser : InlineHiddenTagParser T) : Prop where
  tags : parser.specs = specs
  active : ∀ active ∈ parser.active, ∃ spec ∈ specs,
    active.tag = spec.tag ∧ active.closing = spec.closing

theorem For.closing_ne (h : For specs parser) {active : ActiveTag T}
    (hactive : parser.active = some active) : active.closing ≠ [] := by
  obtain ⟨spec, -, -, hclosing⟩ := h.active active hactive
  exact hclosing ▸ spec.closing_ne

/-- Between chunks, the delimiters that are looked for do not occur in the text held back. -/
structure Quiet (specs : List (InlineTagSpec T)) (parser : InlineHiddenTagParser T) : Prop
    extends For specs parser where
  outside : parser.active = none → firstOpen specs parser.pending = none
  inside : ∀ active ∈ parser.active, find active.closing parser.pending = none

/-- What the parser makes of the text that is still to come. -/
def meaningAll (parser : InlineHiddenTagParser T) (rest : List Char) :
    StreamTextChunk (ExtractedInlineTag T) :=
  stripAll parser.specs parser.active (parser.pending ++ rest)

theorem longestSuffixPrefixLen_le (text word : List Char) :
    longestSuffixPrefixLen text word ≤ text.length :=
  (longestSuffixPrefixLenWithin_le _ _ _).trans (Nat.min_le_left _ _)

theorem foldl_max_le_iff {lens : List Nat} {start bound : Nat} :
    lens.foldl max start ≤ bound ↔ start ≤ bound ∧ ∀ len ∈ lens, len ≤ bound := by
  induction lens generalizing start with
  | nil => simp
  | cons len lens ih => simp [ih, and_assoc]

theorem maxOpenPrefixSuffixLen_spec (parser : InlineHiddenTagParser T) :
    parser.maxOpenPrefixSuffixLen ≤ parser.pending.length ∧ ∀ spec ∈ parser.specs,
      longestSuffixPrefixLen parser.pending spec.opening ≤ parser.maxOpenPrefixSuffixLen := by
  constructor
  · refine foldl_max_le_iff.mpr ⟨Nat.zero_le _, ?_⟩
    simp [longestSuffixPrefixLen_le]
  · intro spec hspec
    exact (foldl_max_le_iff.mp (Nat.le_refl _)).2 _ (List.mem_map_of_mem hspec)

/-- **The loop** gives out what is certain, and keeps the meaning of the rest; if nothing follows,
for any tags. -/
theorem pushWithin_means (h : For specs parser) (hfuel : parser.pending.length < fuel) :
    Quiet specs (pushWithin fuel parser out).1 ∧ ∀ rest, Separable specs ∨ rest = [] →
      out ++ meaningAll parser rest =
        (pushWithin fuel parser out).2 ++ meaningAll (pushWithin fuel parser out).1 rest := by
  induction fuel generalizing parser out with
  | zero => omega
  | succ fuel ih =>
    obtain ⟨tags, pending, active⟩ := parser
    obtain rfl : tags = specs := h.tags
    unfold pushWithin
    dsimp only at hfuel ⊢
    cases active with
    | some active =>
      have hclosing := h.closing_ne rfl
      dsimp only
      cases hfind : find active.closing pending with
      | some closeIdx =>
        dsimp only
        have hless := length_drop_of_find hclosing hfind
        obtain ⟨hquiet, hmeans⟩ := @ih ⟨tags, pending.drop (closeIdx + active.closing.length), none⟩
          { out with extracted := out.extracted ++
              [⟨active.tag, active.content ++ pending.take closeIdx⟩] }
          ⟨rfl, by simp⟩ (by dsimp only; omega)
        refine ⟨hquiet, fun rest hrest => ?_⟩
        rw [← hmeans rest hrest]
        unfold meaningAll
        dsimp only
        rw [stripAll_inside, find_append_of_some hclosing hfind]
        dsimp only
        have hle := find_le hfind
        rw [List.take_append_of_le_length (by omega), List.drop_append_of_le_length hle]
        ext1 <;> simp
      | none =>
        dsimp only
        obtain ⟨hheld, hlater⟩ := find_heldBack hclosing hfind (Nat.le_refl _)
          (longestSuffixPrefixLen_le _ _)
        refine ⟨⟨⟨rfl, by simpa using h.active active rfl⟩,
          fun hnot => (Option.some_ne_none _ hnot).elim, by simpa using hheld⟩, fun rest _ => ?_⟩
        exact congrArg (out ++ ·) (stripAll_inside_heldBack (Nat.sub_le _ _) (hlater rest))
    | none =>
      dsimp only
      rw [show findNextOpen ⟨tags, pending, none⟩ = firstOpen tags pending from rfl]
      cases hfirst : firstOpen tags pending with
      | some found =>
        obtain ⟨openIdx, spec⟩ := found
        obtain ⟨hspec, hfind, -⟩ := of_firstOpen hfirst
        have hless := length_drop_of_find spec.opening_ne hfind
        dsimp only
        obtain ⟨hquiet, hmeans⟩ := @ih ⟨tags, pending.drop (openIdx + spec.opening.length),
          some ⟨spec.tag, spec.closing, []⟩⟩
          { out with visibleText := out.visibleText ++ pending.take openIdx }
          ⟨rfl, by simpa using ⟨spec, hspec, rfl, rfl⟩⟩ (by dsimp only; omega)
        refine ⟨hquiet, fun rest hrest => ?_⟩
        rw [← hmeans rest hrest]
        unfold meaningAll
        dsimp only
        have hle := find_le hfind
        have hlater : firstOpen tags (pending ++ rest) = some (openIdx, spec) := by
          rcases hrest with hsep | rfl
          · exact firstOpen_append hsep hfirst
          · rwa [List.append_nil]
        rw [stripAll_outside_some hlater, List.take_append_of_le_length (by omega),
          List.drop_append_of_le_length hle]
        ext1 <;> simp
      | none =>
        dsimp only
        obtain ⟨hheld, hlater⟩ := firstOpen_heldBack hfirst
          (maxOpenPrefixSuffixLen_spec ⟨tags, pending, none⟩).2
          (maxOpenPrefixSuffixLen_spec ⟨tags, pending, none⟩).1
        refine ⟨⟨⟨rfl, by simp⟩, fun _ => hheld, by simp⟩, fun rest _ => ?_⟩
        unfold meaningAll
        dsimp only
        rw [stripAll_outside_heldBack (Nat.sub_le _ _) (hlater rest)]
        ext1 <;> simp

theorem Quiet.pushStr (h : Quiet specs parser) (chunk : List Char) :
    Quiet specs (parser.pushStr chunk).1 ∧ ∀ rest, Separable specs ∨ rest = [] →
      meaningAll parser (chunk ++ rest) =
        (parser.pushStr chunk).2 ++ meaningAll (parser.pushStr chunk).1 rest := by
  obtain ⟨hquiet, hmeans⟩ := @pushWithin_means T specs
    { parser with pending := parser.pending ++ chunk } ⟨[], []⟩ _ ⟨h.tags, h.active⟩
    (Nat.lt_succ_self _)
  refine ⟨hquiet, fun rest hrest => Eq.trans ?_ (hmeans rest hrest)⟩
  unfold meaningAll
  rw [← List.append_assoc]
  ext1 <;> rfl

theorem Quiet.finish (h : Quiet specs parser) : meaningAll parser [] = parser.finish := by
  obtain ⟨tags, pending, active⟩ := parser
  unfold meaningAll
  rw [List.append_nil]
  cases active with
  | none =>
    have houtside := h.outside rfl
    rw [← h.tags] at houtside
    exact stripAll_outside_none houtside
  | some active =>
    dsimp only
    rw [stripAll_inside, h.inside active rfl]
    rfl

/-- **Hidden tags are independent of chunks**, and hidden as `stripAll` says, when no opener is
complete inside another one that is still arriving. -/
theorem parser_means_all (hsep : Separable specs) :
    Parser.Means ⟨pushStr, finish⟩ (Quiet specs) meaningAll where
  keeps _ chunk h := (h.pushStr chunk).1
  push _ chunk rest h := (h.pushStr chunk).2 rest (.inl hsep)
  finish _ h := h.finish

/-- A text that comes in one piece, for any tags. -/
theorem Quiet.feed_single (h : Quiet specs parser) (text : List Char) :
    Parser.feed ⟨InlineHiddenTagParser.pushStr, InlineHiddenTagParser.finish⟩ parser [text] =
      meaningAll parser text := by
  obtain ⟨hquiet, hmeans⟩ := h.pushStr text
  have hwhole := hmeans [] (.inr rfl)
  rw [List.append_nil, hquiet.finish] at hwhole
  exact hwhole.symm

theorem new_quiet (specs : List (InlineTagSpec T)) : Quiet specs (new specs) where
  tags := rfl
  active := by simp [new]
  outside _ := firstOpen_eq_none_iff.mpr fun spec _ => by
    simp [new, find, splitOnce, spec.opening_ne]
  inside := by simp [new]

theorem feed_new_single (specs : List (InlineTagSpec T)) (text : List Char) :
    Parser.feed ⟨pushStr, finish⟩ (new specs) [text] = stripAll specs none text :=
  (new_quiet specs).feed_single text

/-! ## One tag -/

/-- What the parser makes of the text that is still to come. -/
def meaning (spec : InlineTagSpec T) (parser : InlineHiddenTagParser T) (rest : List Char) :
    StreamTextChunk (ExtractedInlineTag T) :=
  strip spec (parser.active.map ActiveTag.content) (parser.pending ++ rest)

end InlineHiddenTagParser

end RenCrow.StreamParser
