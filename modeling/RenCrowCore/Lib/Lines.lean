import Mathlib.Data.List.TakeWhile
import RenCrowCore.Lib.Text

/-!
# Lines of a text

A text is split at line feeds and joined again, and blanks are trimmed from its ends.

* `lines`, `joinLines`: the lines of a text, and the text of lines;
* `lines_joinLines`: joining lines and splitting them again only strips carriage returns;
* `trim_eq_self`, `trim_concat`: what trimming leaves alone and what it takes;
* `trim_joinLines`: trimming a text trims its first and its last line.
-/

namespace Text

open List

/-- `str::strip_suffix('\r')`, or the line as it is. -/
def stripCr (line : List Char) : List Char :=
  if line.getLast? = some '\r' then line.dropLast else line

/-- `str::lines`: a terminated line loses its carriage return, and a last line that is empty
is no line. -/
def lines (text : List Char) : List (List Char) :=
  let segments := text.splitOn '\n'
  segments.dropLast.map stripCr ++ (segments.getLast?.filter fun last => !last.isEmpty).toList

/-- `join("\n")`. -/
def joinLines (lines : List (List Char)) : List Char := ['\n'].intercalate lines

variable {line last text : List Char} {init : List (List Char)}

theorem stripCr_eq_self (h : line.getLast? ≠ some '\r') : stripCr line = line := if_neg h

theorem joinLines_cons_cons (line next : List Char) (rest : List (List Char)) :
    joinLines (line :: next :: rest) = line ++ '\n' :: joinLines (next :: rest) := by
  simp [joinLines, List.intercalate]

@[simp] theorem joinLines_singleton (line : List Char) : joinLines [line] = line := by
  simp [joinLines, List.intercalate]

/-- A text of lines without line feeds has these lines, but for carriage returns. -/
theorem lines_joinLines (hinit : ∀ line ∈ init, '\n' ∉ line) (hlast : '\n' ∉ last)
    (hne : last ≠ []) : lines (joinLines (init ++ [last])) = init.map stripCr ++ [last] := by
  have hsplit : (joinLines (init ++ [last])).splitOn '\n' = init ++ [last] := by
    refine splitOn_intercalate '\n' ?_ (by simp)
    intro line hline
    rcases mem_append.mp hline with hline | hline
    · exact hinit line hline
    · rwa [mem_singleton.mp hline]
  simp [lines, hsplit, hne]

variable {seg : List Char} {c : Char}

/-- The segments of a text hold its characters that do not separate. -/
theorem mem_of_mem_splitOnP {p : Char → Bool} (h : seg ∈ text.splitOnP p) :
    ∀ c ∈ seg, c ∈ text ∧ p c = false := by
  induction text generalizing seg with
  | nil =>
    cases mem_singleton.mp h
    simp
  | cons d text ih =>
    have htail : ∀ seg ∈ text.splitOnP p, ∀ c ∈ seg, c ∈ d :: text ∧ p c = false :=
      fun seg hseg c hc => ⟨mem_cons_of_mem d (ih hseg c hc).1, (ih hseg c hc).2⟩
    rw [splitOnP_cons_eq_if_modifyHead] at h
    split at h
    · rcases mem_cons.mp h with rfl | h
      · simp
      · exact htail seg h
    · rename_i hd
      cases hsplit : text.splitOnP p with
      | nil => simp [hsplit] at h
      | cons first rest =>
        rw [hsplit, modifyHead_cons] at h
        rw [hsplit, forall_mem_cons] at htail
        rcases mem_cons.mp h with rfl | h
        · exact forall_mem_cons.mpr ⟨⟨mem_cons_self, Bool.not_eq_true _ ▸ hd⟩, htail.1⟩
        · exact htail.2 seg h

theorem eq_false_of_mem_splitOnP {p : Char → Bool} (h : seg ∈ text.splitOnP p) :
    ∀ c ∈ seg, p c = false :=
  fun c hc => (mem_of_mem_splitOnP h c hc).2

theorem notMem_of_mem_splitOn (h : seg ∈ text.splitOn c) : c ∉ seg := by
  intro hc
  have hfree := eq_false_of_mem_splitOnP h c hc
  simp at hfree

theorem stripCr_subset (line : List Char) : stripCr line ⊆ line := by
  unfold stripCr
  split
  · exact dropLast_subset line
  · exact List.Subset.refl line

/-- A line has no line feed. -/
theorem newline_notMem_of_mem_lines (h : line ∈ lines text) : '\n' ∉ line := by
  have hseg : ∀ seg ∈ text.splitOn '\n', '\n' ∉ seg := fun seg hseg =>
    notMem_of_mem_splitOn hseg
  rcases mem_append.mp h with h | h
  · obtain ⟨seg, hmem, rfl⟩ := mem_map.mp h
    exact fun hfeed => hseg seg (dropLast_subset _ hmem) (stripCr_subset seg hfeed)
  · have hlast := (Option.filter_eq_some_iff.mp (Option.mem_toList.mp h)).1
    exact hseg line (mem_of_getLast? hlast)

/-! ## Both ends of a text of lines -/

theorem joinLines_concat (hne : init ≠ []) (last : List Char) :
    joinLines (init ++ [last]) = joinLines init ++ '\n' :: last := by
  induction init with
  | nil => exact absurd rfl hne
  | cons line init ih =>
    cases init with
    | nil => simp [joinLines_cons_cons]
    | cons next rest =>
      have hrest := ih (by simp)
      rw [cons_append] at hrest ⊢
      rw [cons_append, joinLines_cons_cons, hrest, joinLines_cons_cons]
      simp

theorem head?_joinLines (hne : line ≠ []) (rest : List (List Char)) :
    (joinLines (line :: rest)).head? = line.head? := by
  cases rest with
  | nil => rw [joinLines_singleton]
  | cons next rest => rw [joinLines_cons_cons, head?_append_of_ne_nil _ hne]

theorem getLast?_joinLines (hne : last ≠ []) (init : List (List Char)) :
    (joinLines (init ++ [last])).getLast? = last.getLast? := by
  cases init with
  | nil => rw [nil_append, joinLines_singleton]
  | cons line init =>
    rw [joinLines_concat (by simp), append_cons, getLast?_append_of_ne_nil _ hne]

/-! ## Leading markers -/

theorem stripPrefix_append (lead rest : List Char) :
    stripPrefix lead (lead ++ rest) = some rest := by
  have hlead : lead.isPrefixOf (lead ++ rest) = true :=
    isPrefixOf_iff_prefix.mpr (prefix_append lead rest)
  rw [stripPrefix, if_pos hlead, drop_left]

/-- A text that starts otherwise does not start with a marker. -/
theorem stripPrefix_eq_none {lead : List Char} (h : text.head? ≠ some c) :
    stripPrefix (c :: lead) text = none := by
  cases text with
  | nil => rfl
  | cons d text =>
    have hne : c ≠ d := fun heq => h (congrArg some heq.symm)
    rw [stripPrefix, isPrefixOf_cons_cons, if_neg (by simp [hne])]

theorem eq_append_of_stripPrefix {lead rest : List Char} (h : stripPrefix lead text = some rest) :
    text = lead ++ rest := by
  unfold stripPrefix at h
  split at h
  · rename_i hlead
    obtain ⟨rest', rfl⟩ := isPrefixOf_iff_prefix.mp hlead
    cases h
    rw [drop_left]
  · cases h

theorem append_ne_of_stripPrefix {lead target : List Char} (h : stripPrefix lead target = none)
    (rest : List Char) : lead ++ rest ≠ target := by
  rintro rfl
  rw [stripPrefix_append] at h
  cases h

/-! ## Trimming -/

theorem trimStart_eq_self (h : ∀ c ∈ text.head?, isWhitespace c = false) :
    trimStart text = text := by
  cases text with
  | nil => rfl
  | cons c cs => rw [trimStart, dropWhile_cons_of_neg (by simp [h c rfl])]

theorem trimEnd_eq_self (h : ∀ c ∈ text.getLast?, isWhitespace c = false) :
    trimEnd text = text := by
  have hreverse : trimStart text.reverse = text.reverse :=
    trimStart_eq_self fun c hc => h c (by rwa [head?_reverse] at hc)
  rw [trimEnd, ← trimStart, hreverse, reverse_reverse]

theorem isWhitespace_of_mem_head?_trimStart (h : c ∈ (trimStart text).head?) :
    isWhitespace c = false := by
  have hhead := head?_dropWhile_not isWhitespace text
  rw [← trimStart, h] at hhead
  exact hhead

theorem isWhitespace_of_mem_getLast?_trimEnd (h : c ∈ (trimEnd text).getLast?) :
    isWhitespace c = false := by
  rw [trimEnd, getLast?_reverse] at h
  exact isWhitespace_of_mem_head?_trimStart h

/-- A text that is trimmed at its end starts as before, if anything is left. -/
theorem head?_trimEnd_ne (h : text.head? ≠ some c) : (trimEnd text).head? ≠ some c := by
  have hprefix : trimEnd text <+: text := by
    rw [← reverse_suffix, trimEnd, reverse_reverse]
    exact dropWhile_suffix _
  obtain ⟨rest, hrest⟩ := hprefix
  intro hhead
  refine h ?_
  rw [← hrest, head?_append, hhead]
  rfl

/-- A text that starts and ends with other characters is trimmed. -/
theorem trim_eq_self (hhead : ∀ c ∈ text.head?, isWhitespace c = false)
    (hlast : ∀ c ∈ text.getLast?, isWhitespace c = false) : trim text = text := by
  rw [trim, trimStart_eq_self hhead, trimEnd_eq_self hlast]

/-- A blank at the end is trimmed. -/
theorem trimEnd_concat (hc : isWhitespace c = true) (text : List Char) :
    trimEnd (text ++ [c]) = trimEnd text := by
  rw [trimEnd, reverse_concat, dropWhile_cons_of_pos hc]
  rfl

variable {first : List Char}

theorem trimStart_append (h : trimStart first ≠ []) (rest : List Char) :
    trimStart (first ++ rest) = trimStart first ++ rest := by
  unfold trimStart at h ⊢
  rw [dropWhile_append, if_neg (by simpa using h)]

theorem trimEnd_append (front : List Char) (h : trimEnd last ≠ []) :
    trimEnd (front ++ last) = front ++ trimEnd last := by
  have hreverse : trimStart last.reverse ≠ [] :=
    fun heq => h (by rw [trimEnd, ← trimStart, heq]; rfl)
  rw [trimEnd, reverse_append, ← trimStart, trimStart_append hreverse, reverse_append,
    reverse_reverse]
  rfl

theorem trim_concat (hc : isWhitespace c = true) (text : List Char) :
    trim (text ++ [c]) = trim text := by
  by_cases h : trimStart text = []
  · have hstart : trimStart (text ++ [c]) = [] := by
      unfold trimStart at h ⊢
      rw [dropWhile_append, if_pos (by simpa using h), dropWhile_cons_of_pos hc]
      rfl
    rw [trim, trim, h, hstart]
  · rw [trim, trimStart_append h, trimEnd_concat hc]
    rfl

/-- A text is trimmed at its start and at its end in any order. -/
theorem trim_trimEnd (text : List Char) : trim (trimEnd text) = trim text := by
  have hblanks : ∀ blanks : List Char, (∀ c ∈ blanks, isWhitespace c = true) →
      ∀ text, trim (text ++ blanks) = trim text := by
    intro blanks hblanks
    induction blanks with
    | nil => simp
    | cons c blanks ih =>
      intro text
      rw [append_cons, ih fun d hd => hblanks d (mem_cons_of_mem _ hd),
        trim_concat (hblanks c mem_cons_self)]
  have hsplit : trimEnd text ++ (text.reverse.takeWhile isWhitespace).reverse = text := by
    rw [trimEnd, ← reverse_append, takeWhile_append_dropWhile, reverse_reverse]
  rw [← hblanks (text.reverse.takeWhile isWhitespace).reverse (fun c hc => ?_)
    (trimEnd text), hsplit]
  exact mem_takeWhile_imp (mem_reverse.mp hc)

theorem trim_trimStart (text : List Char) : trim (trimStart text) = trim text := by
  rw [trim, trimStart_eq_self fun _ => isWhitespace_of_mem_head?_trimStart]
  rfl

theorem trimStart_ne_nil (h : trim text ≠ []) : trimStart text ≠ [] := fun heq => h (by
  rw [trim, heq]
  rfl)

theorem trimEnd_ne_nil (h : trim text ≠ []) : trimEnd text ≠ [] := fun heq => h (by
  rw [← trim_trimEnd, heq]
  rfl)

/-- A carriage return at the end is a blank there. -/
theorem trim_stripCr (line : List Char) :
    trim (stripCr line) = trim line ∧ trimEnd (stripCr line) = trimEnd line := by
  unfold stripCr
  split
  · rename_i h
    obtain ⟨init, rfl⟩ := getLast?_eq_some_iff.mp h
    rw [dropLast_concat]
    exact ⟨(trim_concat (by decide) init).symm, (trimEnd_concat (by decide) init).symm⟩
  · exact ⟨rfl, rfl⟩

/-- Trimming a text of lines trims its first and its last line, if they are not blank. -/
theorem trim_joinLines (hfirst : trimStart first ≠ []) (hlast : trimEnd last ≠ []) :
    trim (joinLines (first :: init ++ [last])) =
      joinLines (trimStart first :: init ++ [trimEnd last]) := by
  have hstart : ∀ last, trimStart (joinLines (first :: init ++ [last])) =
      joinLines (trimStart first :: init ++ [last]) := fun last => by
    cases init <;> exact (congrArg trimStart (joinLines_cons_cons _ _ _)).trans
      ((trimStart_append hfirst _).trans (joinLines_cons_cons _ _ _).symm)
  have hend : ∀ last, joinLines (trimStart first :: init ++ [last]) =
      (joinLines (trimStart first :: init) ++ ['\n']) ++ last := fun last => by
    rw [joinLines_concat (by simp), append_cons]
  rw [trim, hstart, hend, trimEnd_append _ hlast, hend]

end Text
