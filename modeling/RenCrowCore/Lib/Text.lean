import Mathlib.Data.List.Sort
import Mathlib.Data.String.Basic

/-!
# UTF-8 text and byte ranges

Text is a list of characters; offsets into it count UTF-8 bytes, and a range is
usable only where both ends fall between two characters.

* `splitBytes_eq_some_iff`, `slice_eq_some_iff`: what it means to cut a text at a
  byte offset or to take a byte range from it;
* `keepOutside`: the elements of a list whose position is in none of the given
  ranges;
* `removeRanges_spec`: removing valid, disjoint ranges one after the other, from
  right to left, always succeeds and deletes exactly the bytes in the ranges.
-/

namespace Text

open List

/-! ## White space -/

/-- The Unicode `White_Space` property, `char::is_whitespace`. -/
def isWhitespace (c : Char) : Bool :=
  (9 ≤ c.toNat && c.toNat ≤ 13) || c.toNat == 0x20 || c.toNat == 0x85 || c.toNat == 0xA0 ||
    c.toNat == 0x1680 || (0x2000 ≤ c.toNat && c.toNat ≤ 0x200A) || c.toNat == 0x2028 ||
    c.toNat == 0x2029 || c.toNat == 0x202F || c.toNat == 0x205F || c.toNat == 0x3000

/-- `str::trim().is_empty()`. -/
def isBlank (s : String) : Bool := s.toList.all isWhitespace

/-- `str::trim_start`. -/
def trimStart (text : List Char) : List Char := text.dropWhile isWhitespace

/-- `str::trim_end`. -/
def trimEnd (text : List Char) : List Char := (text.reverse.dropWhile isWhitespace).reverse

/-- `str::trim`. -/
def trim (text : List Char) : List Char := trimEnd (trimStart text)

/-! ## Parts of a text -/

/-- `str::strip_prefix`. -/
def stripPrefix (lead text : List Char) : Option (List Char) :=
  if lead.isPrefixOf text then some (text.drop lead.length) else none

/-- `str::split_once`: the text around the first occurrence of a separator. -/
def splitOnce (separator : List Char) : List Char → Option (List Char × List Char)
  | [] => if separator.isEmpty then some ([], []) else none
  | c :: cs =>
    if separator.isPrefixOf (c :: cs) then some ([], (c :: cs).drop separator.length)
    else (splitOnce separator cs).map fun parts => (c :: parts.1, parts.2)

/-- `char::to_ascii_lowercase`. -/
def toAsciiLower (c : Char) : Char :=
  if 'A' ≤ c ∧ c ≤ 'Z' then Char.ofNat (c.toNat + 32) else c

/-- `str::eq_ignore_ascii_case`. -/
def eqIgnoreAsciiCase (a b : List Char) : Bool :=
  decide (a.map toAsciiLower = b.map toAsciiLower)

/-! ## Lengths and cuts -/

/-- The UTF-8 bytes of a text. -/
def utf8Bytes (text : List Char) : List UInt8 := text.flatMap String.utf8EncodeChar

/-- The number of UTF-8 bytes of a text. -/
def byteLen : List Char → Nat
  | [] => 0
  | c :: cs => c.utf8Size + byteLen cs

@[simp] theorem byteLen_nil : byteLen [] = 0 := rfl

@[simp] theorem byteLen_cons (c : Char) (cs : List Char) :
    byteLen (c :: cs) = c.utf8Size + byteLen cs := rfl

@[simp] theorem byteLen_append (as bs : List Char) :
    byteLen (as ++ bs) = byteLen as + byteLen bs := by
  induction as with
  | nil => simp
  | cons c cs ih => simp [ih, Nat.add_assoc]

@[simp] theorem utf8Bytes_append (as bs : List Char) :
    utf8Bytes (as ++ bs) = utf8Bytes as ++ utf8Bytes bs := flatMap_append

@[simp] theorem length_utf8Bytes (text : List Char) : (utf8Bytes text).length = byteLen text := by
  induction text with
  | nil => rfl
  | cons c cs ih =>
    rw [utf8Bytes, flatMap_cons, length_append, String.length_utf8EncodeChar, byteLen]
    exact congrArg _ ih

/-- A text cut at a byte offset; `none` when the offset is inside a character or
past the end. -/
def splitBytes : List Char → Nat → Option (List Char × List Char)
  | cs, 0 => some ([], cs)
  | [], _ + 1 => none
  | c :: cs, n + 1 =>
    if c.utf8Size ≤ n + 1 then
      (splitBytes cs (n + 1 - c.utf8Size)).map fun p => (c :: p.1, p.2)
    else none

theorem byteLen_eq_zero {cs : List Char} (h : byteLen cs = 0) : cs = [] := by
  cases cs with
  | nil => rfl
  | cons c cs =>
    have := c.utf8Size_pos
    rw [byteLen_cons] at h
    omega

/-- A cut at `n` splits off exactly `n` bytes. -/
theorem splitBytes_eq_some_iff {cs : List Char} {n : Nat} {a b : List Char} :
    splitBytes cs n = some (a, b) ↔ cs = a ++ b ∧ byteLen a = n := by
  fun_induction splitBytes cs n generalizing a b with
  | case1 cs =>
    constructor
    · rintro ⟨⟩
      exact ⟨rfl, rfl⟩
    · rintro ⟨rfl, hlen⟩
      rw [byteLen_eq_zero hlen]
      rfl
  | case2 n =>
    refine iff_of_false nofun ?_
    rintro ⟨h, hlen⟩
    obtain ⟨rfl, -⟩ := append_eq_nil_iff.mp h.symm
    cases hlen
  | case3 c cs n hle ih =>
    rw [Option.map_eq_some_iff]
    constructor
    · rintro ⟨⟨a', b'⟩, hsplit, ⟨⟩⟩
      obtain ⟨rfl, hlen⟩ := ih.mp hsplit
      refine ⟨rfl, ?_⟩
      show c.utf8Size + byteLen a' = n + 1
      omega
    · rintro ⟨h, hlen⟩
      cases a with
      | nil => cases hlen
      | cons d ds =>
        obtain ⟨rfl, rfl⟩ := List.cons.inj h
        exact ⟨(ds, b), ih.mpr ⟨rfl, by rw [byteLen_cons] at hlen; omega⟩, rfl⟩
  | case4 c cs n hgt =>
    refine iff_of_false nofun ?_
    rintro ⟨h, hlen⟩
    cases a with
    | nil => cases hlen
    | cons d ds =>
      obtain ⟨rfl, -⟩ := List.cons.inj h
      rw [byteLen_cons] at hlen
      omega

/-! ## Nearby boundaries -/

/-- `str::is_char_boundary`. -/
def isBoundary (text : List Char) (n : Nat) : Bool := (splitBytes text n).isSome

@[simp] theorem isBoundary_zero (text : List Char) : isBoundary text 0 = true := by
  cases text <;> rfl

variable {text : List Char} {n : Nat}

theorem isBoundary_iff :
    isBoundary text n = true ↔ ∃ before after, text = before ++ after ∧ byteLen before = n := by
  simp [isBoundary, Option.isSome_iff_exists, splitBytes_eq_some_iff]

/-- The last boundary at or before an offset. -/
def boundaryBefore (text : List Char) : Nat → Nat
  | 0 => 0
  | n + 1 => if isBoundary text (n + 1) then n + 1 else boundaryBefore text n

/-- The first boundary among `fuel` offsets from `start` on, and the offset after
them if there is none. -/
def boundaryAfter (text : List Char) (start : Nat) : Nat → Nat
  | 0 => start
  | fuel + 1 => if isBoundary text start then start else boundaryAfter text (start + 1) fuel

theorem boundaryBefore_le (text : List Char) (n : Nat) : boundaryBefore text n ≤ n := by
  fun_induction boundaryBefore text n with
  | case1 | case2 => exact le_refl _
  | case3 n _ ih => exact Nat.le_succ_of_le ih

theorem isBoundary_boundaryBefore (text : List Char) (n : Nat) :
    isBoundary text (boundaryBefore text n) = true := by
  fun_induction boundaryBefore text n with
  | case1 => exact isBoundary_zero text
  | case2 n h => exact h
  | case3 n _ ih => exact ih

theorem le_boundaryBefore {m n : Nat} (hm : isBoundary text m = true) (hle : m ≤ n) :
    m ≤ boundaryBefore text n := by
  fun_induction boundaryBefore text n with
  | case1 | case2 => exact hle
  | case3 n hno ih =>
    have hne : m ≠ n + 1 := fun h => hno (h ▸ hm)
    exact ih (by omega)

/-- A search that passes over a boundary stops at or before it. -/
theorem boundaryAfter_spec {start fuel m : Nat} (hm : isBoundary text m = true) (hstart : start ≤ m)
    (hfuel : m < start + fuel) :
    isBoundary text (boundaryAfter text start fuel) = true ∧
      start ≤ boundaryAfter text start fuel ∧ boundaryAfter text start fuel ≤ m := by
  induction fuel generalizing start with
  | zero => omega
  | succ fuel ih =>
    rw [boundaryAfter]
    split
    · rename_i h
      exact ⟨h, le_refl _, hstart⟩
    · rename_i hno
      have hne : m ≠ start := fun h => hno (h ▸ hm)
      obtain ⟨hb, hle, hmle⟩ :=
        ih (show start + 1 ≤ m by omega) (show m < start + 1 + fuel by omega)
      exact ⟨hb, by omega, hmle⟩

theorem isBoundary_cons {c : Char} {cs : List Char} {m : Nat} (h : isBoundary cs m = true) :
    isBoundary (c :: cs) (c.utf8Size + m) = true := by
  obtain ⟨before, after, rfl, hlen⟩ := isBoundary_iff.mp h
  refine isBoundary_iff.mpr ⟨c :: before, after, rfl, ?_⟩
  rw [byteLen_cons, hlen]

/-- A character takes at most four bytes, so a boundary is never far. -/
theorem exists_boundary_near (text : List Char) (h : n ≤ byteLen text) :
    (∃ m, isBoundary text m = true ∧ m ≤ n ∧ n < m + 4) ∧
      ∃ m, isBoundary text m = true ∧ n ≤ m ∧ m < n + 4 := by
  induction text generalizing n with
  | nil =>
    obtain rfl : n = 0 := Nat.le_zero.mp h
    exact ⟨⟨0, rfl, by omega⟩, ⟨0, rfl, by omega⟩⟩
  | cons c cs ih =>
    have hc := c.utf8Size_le_four
    rw [byteLen_cons] at h
    by_cases hn : n < c.utf8Size
    · refine ⟨⟨0, isBoundary_zero _, by omega⟩, ?_⟩
      by_cases hz : n = 0
      · exact ⟨0, isBoundary_zero _, by omega⟩
      · exact ⟨c.utf8Size + 0, isBoundary_cons (isBoundary_zero cs), by omega⟩
    · obtain ⟨⟨a, ha, hale⟩, ⟨b, hb, hble⟩⟩ := ih (n := n - c.utf8Size) (by omega)
      exact ⟨⟨c.utf8Size + a, isBoundary_cons ha, by omega⟩,
        ⟨c.utf8Size + b, isBoundary_cons hb, by omega⟩⟩

/-! ## Ranges -/

/-- A half-open range of bytes. -/
structure ByteRange where
  start : Nat
  stop : Nat
deriving DecidableEq, Repr, Inhabited

/-- A position lies in a range. -/
def ByteRange.covers (r : ByteRange) (n : Nat) : Bool := decide (r.start ≤ n) && decide (n < r.stop)

variable {r : ByteRange} {rs : List ByteRange}

theorem ByteRange.covers_iff : r.covers n = true ↔ r.start ≤ n ∧ n < r.stop := by
  simp [ByteRange.covers]

/-- Two ranges have a position in common. -/
def overlaps (a b : ByteRange) : Bool := decide (a.start < b.stop) && decide (b.start < a.stop)

theorem overlaps_iff {a b : ByteRange} :
    overlaps a b = true ↔ a.start < b.stop ∧ b.start < a.stop := by
  simp [overlaps]

theorem overlaps_comm (a b : ByteRange) : overlaps a b = overlaps b a := by
  rw [overlaps, overlaps, Bool.and_comm]

/-- A position is not in two ranges that do not overlap. -/
theorem covers_eq_false {a b : ByteRange} (h : overlaps a b = false)
    (hb : b.covers n = true) : a.covers n = false := by
  rw [ByteRange.covers_iff] at hb
  rw [← Bool.not_eq_true, overlaps_iff] at h
  rw [← Bool.not_eq_true, ByteRange.covers_iff]
  omega

/-- `str::get(start..stop)`: the text in a range, if its ends are boundaries. -/
def slice (text : List Char) (r : ByteRange) : Option (List Char) :=
  if r.start ≤ r.stop then do
    let (_, rest) ← splitBytes text r.start
    let (part, _) ← splitBytes rest (r.stop - r.start)
    return part
  else none

/-- `String::replace_range(start..stop, "")`; `none` stands for its panic on a
range that is not on character boundaries. -/
def removeRange (text : List Char) (r : ByteRange) : Option (List Char) :=
  if r.start ≤ r.stop then do
    let (before, rest) ← splitBytes text r.start
    let (_, after) ← splitBytes rest (r.stop - r.start)
    return before ++ after
  else none

/-- A range cuts a text into three. -/
def Cuts (text : List Char) (r : ByteRange) (before part after : List Char) : Prop :=
  text = before ++ (part ++ after) ∧ byteLen before = r.start ∧
    byteLen before + byteLen part = r.stop

variable {part : List Char}

theorem slice_eq_some_iff :
    slice text r = some part ↔ ∃ before after, Cuts text r before part after := by
  unfold slice Cuts
  constructor
  · intro h
    split at h
    · rename_i hle
      obtain ⟨⟨before, rest⟩, hfirst, h⟩ := Option.bind_eq_some_iff.mp h
      obtain ⟨⟨part', after⟩, hsnd, h⟩ := Option.bind_eq_some_iff.mp h
      cases h
      obtain ⟨rfl, hstart⟩ := splitBytes_eq_some_iff.mp hfirst
      obtain ⟨rfl, hlen⟩ := splitBytes_eq_some_iff.mp hsnd
      exact ⟨before, after, rfl, hstart, by omega⟩
    · cases h
  · rintro ⟨before, after, rfl, hstart, hstop⟩
    rw [if_pos (by omega), splitBytes_eq_some_iff.mpr ⟨rfl, hstart⟩]
    simp only [Option.bind_eq_bind, Option.bind_some]
    rw [splitBytes_eq_some_iff.mpr ⟨rfl, show byteLen part = r.stop - r.start by omega⟩]
    rfl

/-- Between two boundaries there is a text. -/
theorem slice_of_boundaries {a b : Nat} (ha : isBoundary text a = true)
    (hb : isBoundary text b = true)
    (hle : a ≤ b) : ∃ part, slice text ⟨a, b⟩ = some part ∧ byteLen part = b - a := by
  obtain ⟨before, rest, rfl, hbefore⟩ := isBoundary_iff.mp ha
  obtain ⟨upto, after, heq, hupto⟩ := isBoundary_iff.mp hb
  rcases append_eq_append_iff.mp heq with ⟨part, rfl, hrest⟩ | ⟨extra, rfl, -⟩
  · rw [byteLen_append] at hupto
    refine ⟨part, slice_eq_some_iff.mpr ⟨before, after, ?_, hbefore, hupto ▸ rfl⟩, by omega⟩
    rw [hrest]
  · rw [byteLen_append] at hbefore
    obtain rfl := byteLen_eq_zero (show byteLen extra = 0 by omega)
    refine ⟨[], slice_eq_some_iff.mpr ⟨upto ++ [], rest, rfl, hbefore ▸ ?_, ?_⟩, ?_⟩
    all_goals simp at hbefore ⊢
    all_goals omega

theorem stop_le_of_slice (h : (slice text r).isSome = true) : r.stop ≤ byteLen text := by
  obtain ⟨part, hpart⟩ := Option.isSome_iff_exists.mp h
  obtain ⟨before, after, rfl, hstart, hstop⟩ := slice_eq_some_iff.mp hpart
  rw [byteLen_append, byteLen_append]
  omega

theorem removeRange_of_cuts {before after : List Char}
    (h : Cuts text r before part after) : removeRange text r = some (before ++ after) := by
  obtain ⟨rfl, hstart, hstop⟩ := h
  rw [removeRange, if_pos (by omega), splitBytes_eq_some_iff.mpr ⟨rfl, hstart⟩]
  simp only [Option.bind_eq_bind, Option.bind_some]
  rw [splitBytes_eq_some_iff.mpr ⟨rfl, show byteLen part = r.stop - r.start by omega⟩]
  rfl

/-- A range that ends inside a prefix of the text does not depend on what follows. -/
theorem slice_append_of_le {before : List Char} (after after' : List Char)
    (hle : r.stop ≤ byteLen before) (h : slice (before ++ after) r = some part) :
    slice (before ++ after') r = some part := by
  obtain ⟨x, y, htext, hstart, hstop⟩ := slice_eq_some_iff.mp h
  have hxpart : ∃ z, before = (x ++ part) ++ z := by
    rw [← append_assoc] at htext
    rcases append_eq_append_iff.mp htext with ⟨as, has, -⟩ | ⟨bs, hbs, -⟩
    · -- then `before` is a prefix of equal length
      have hlen := congrArg byteLen has
      simp only [byteLen_append] at hlen
      obtain rfl := byteLen_eq_zero (show byteLen as = 0 by omega)
      exact ⟨[], by rw [has, append_nil, append_nil]⟩
    · exact ⟨bs, hbs⟩
  obtain ⟨z, rfl⟩ := hxpart
  exact slice_eq_some_iff.mpr ⟨x, z ++ after', by simp, hstart, hstop⟩

/-! ## Deletion -/

variable {α : Type}

/-- Some range covers a position. -/
def covered (rs : List ByteRange) (n : Nat) : Bool := rs.any (·.covers n)

/-- The elements whose position, counted from `n`, is in none of the ranges. -/
def keepFrom (rs : List ByteRange) : Nat → List α → List α
  | _, [] => []
  | n, x :: xs => if covered rs n then keepFrom rs (n + 1) xs else x :: keepFrom rs (n + 1) xs

/-- The elements whose position is in none of the ranges. -/
def keepOutside (rs : List ByteRange) (xs : List α) : List α := keepFrom rs 0 xs

theorem keepFrom_append (rs : List ByteRange) (n : Nat) (xs ys : List α) :
    keepFrom rs n (xs ++ ys) = keepFrom rs n xs ++ keepFrom rs (n + xs.length) ys := by
  induction xs generalizing n with
  | nil => rfl
  | cons x xs ih =>
    have hn : n + 1 + xs.length = n + (x :: xs).length := by
      rw [length_cons]
      omega
    rw [cons_append, keepFrom, keepFrom, ih (n + 1), hn]
    split <;> rfl

theorem keepFrom_congr {rs' : List ByteRange} {n n' : Nat} {xs : List α}
    (h : ∀ i < xs.length, covered rs (n + i) = covered rs' (n' + i)) :
    keepFrom rs n xs = keepFrom rs' n' xs := by
  induction xs generalizing n n' with
  | nil => rfl
  | cons x xs ih =>
    have hrest : keepFrom rs (n + 1) xs = keepFrom rs' (n' + 1) xs := ih fun i hi => by
      rw [Nat.add_assoc, Nat.add_assoc, Nat.add_comm 1]
      exact h (i + 1) (by simpa using hi)
    rw [keepFrom, keepFrom, show covered rs n = covered rs' n' from h 0 (by simp), hrest]

/-- Elements that are all covered, or all not. -/
theorem keepFrom_of_forall {xs : List α} {b : Bool}
    (h : ∀ i, n ≤ i → i < n + xs.length → covered rs i = b) : keepFrom rs n xs = cond b [] xs := by
  induction xs generalizing n with
  | nil => cases b <;> rfl
  | cons x xs ih =>
    rw [length_cons] at h
    rw [keepFrom, h n (le_refl n) (by omega), ih fun i hi hlt => h i (by omega) (by omega)]
    cases b <;> rfl

/-- Ranges that all end at or before a position cover nothing from there on. -/
theorem keepFrom_of_stop_le (h : ∀ r ∈ rs, r.stop ≤ n) (xs : List α) : keepFrom rs n xs = xs := by
  refine keepFrom_of_forall (b := false) fun i hi _ => any_eq_false.mpr fun r hr hcovers => ?_
  have hstop := h r hr
  rw [ByteRange.covers_iff] at hcovers
  omega

/-- Deleting the last range first: what is left of it is what the other ranges
leave of the text without it. -/
theorem keepOutside_cons {as bs cs : List α}
    (hstart : as.length = r.start) (hstop : as.length + bs.length = r.stop)
    (hrs : ∀ r' ∈ rs, r'.stop ≤ r.start) :
    keepOutside (r :: rs) (as ++ (bs ++ cs)) = keepOutside rs (as ++ cs) := by
  have hfirst : keepFrom (r :: rs) 0 as = keepFrom rs 0 as := by
    refine keepFrom_congr ?_
    intro i hi
    have : r.covers (0 + i) = false := by
      rw [← Bool.not_eq_true, ByteRange.covers_iff]
      omega
    rw [covered, covered, any_cons, this, Bool.false_or]
  have hmid : keepFrom (r :: rs) (0 + as.length) bs = [] := by
    refine keepFrom_of_forall (b := true) ?_
    intro i hi hlt
    have : r.covers i = true := by
      rw [ByteRange.covers_iff]
      omega
    rw [covered, any_cons, this, Bool.true_or]
  have hlast : keepFrom (r :: rs) (0 + as.length + bs.length) cs = cs := by
    refine keepFrom_of_stop_le (forall_mem_cons.mpr ⟨by omega, fun r' hr' => ?_⟩) cs
    have := hrs r' hr'
    omega
  have hrest : keepFrom rs (0 + as.length) cs = cs := by
    refine keepFrom_of_stop_le (fun r' hr' => ?_) cs
    have := hrs r' hr'
    omega
  rw [keepOutside, keepOutside, keepFrom_append, keepFrom_append, keepFrom_append, hfirst, hmid,
    hlast, hrest, nil_append]

/-- Ranges are removed one after the other. -/
def removeRanges (text : List Char) : List ByteRange → Option (List Char)
  | [] => some text
  | r :: rs => do removeRanges (← removeRange text r) rs

/-- **Deleting disjoint ranges from right to left** always succeeds, and leaves
exactly the bytes outside them. -/
theorem removeRanges_spec (hvalid : ∀ r ∈ rs, (slice text r).isSome = true)
    (hsort : rs.Pairwise fun r r' => r'.stop ≤ r.start) :
    ∃ out, removeRanges text rs = some out ∧
      utf8Bytes out = keepOutside rs (utf8Bytes text) := by
  induction rs generalizing text with
  | nil => exact ⟨text, rfl, (keepFrom_of_stop_le (by simp) _).symm⟩
  | cons r rs ih =>
    rw [pairwise_cons] at hsort
    obtain ⟨part, hpart⟩ := Option.isSome_iff_exists.mp (hvalid r (mem_cons_self ..))
    obtain ⟨before, after, hcuts⟩ := slice_eq_some_iff.mp hpart
    have hrem := removeRange_of_cuts hcuts
    obtain ⟨rfl, hstart, hstop⟩ := hcuts
    -- the ranges still to be removed lie in front of the one that is gone
    have hvalid' : ∀ r' ∈ rs, (slice (before ++ after) r').isSome = true := by
      intro r' hr'
      obtain ⟨part', hpart'⟩ := Option.isSome_iff_exists.mp (hvalid r' (mem_cons_of_mem _ hr'))
      have hle : r'.stop ≤ byteLen before := hstart ▸ hsort.1 r' hr'
      rw [slice_append_of_le (part ++ after) after hle hpart']
      rfl
    obtain ⟨out, hout, hbytes⟩ := ih hvalid' hsort.2
    refine ⟨out, ?_, ?_⟩
    · rw [removeRanges, hrem]
      exact hout
    · rw [hbytes, utf8Bytes_append, utf8Bytes_append, utf8Bytes_append]
      refine (keepOutside_cons ?_ ?_ hsort.1).symm
      · rw [length_utf8Bytes, hstart]
      · rw [length_utf8Bytes, length_utf8Bytes, hstop]

/-- Ranges ordered by start and then by end. -/
def sortAscending (rs : List ByteRange) : List ByteRange :=
  rs.insertionSort fun a b => a.start < b.start ∨ (a.start = b.start ∧ a.stop ≤ b.stop)

theorem mem_sortAscending : r ∈ sortAscending rs ↔ r ∈ rs := mem_insertionSort _

/-- `windows(2).any(|pair| pair[1].start < pair[0].end)`. -/
def adjacentOverlap : List ByteRange → Bool
  | a :: b :: rest => decide (b.start < a.stop) || adjacentOverlap (b :: rest)
  | _ => false

/-- Ranges in which no neighbours overlap are disjoint, and in order. -/
theorem pairwise_of_not_adjacentOverlap
    (hne : ∀ r ∈ rs, r.start < r.stop) (h : adjacentOverlap rs = false) :
    rs.Pairwise fun a b => a.stop ≤ b.start := by
  induction rs with
  | nil => exact .nil
  | cons a rest ih =>
    cases rest with
    | nil => exact pairwise_singleton _ _
    | cons b rest =>
      rw [adjacentOverlap, Bool.or_eq_false_iff, decide_eq_false_iff_not] at h
      have htail := ih (fun r hr => hne r (mem_cons_of_mem _ hr)) h.2
      refine pairwise_cons.mpr ⟨?_, htail⟩
      intro c hc
      rcases mem_cons.mp hc with rfl | hc
      · omega
      · have hbc := (pairwise_cons.mp htail).1 c hc
        have hb := hne b (by simp)
        omega

/-- No overlap escapes a check of neighbours after sorting. -/
theorem pairwise_sortAscending (hne : ∀ r ∈ rs, r.start < r.stop)
    (h : adjacentOverlap (sortAscending rs) = false) :
    (sortAscending rs).Pairwise fun a b => overlaps a b = false := by
  have hsort := pairwise_of_not_adjacentOverlap (fun r hr => hne r (mem_sortAscending.mp hr)) h
  refine hsort.imp ?_
  intro a b hab
  rw [← Bool.not_eq_true, overlaps_iff]
  omega

@[simp] theorem keepOutside_nil (xs : List α) : keepOutside [] xs = xs :=
  keepFrom_of_stop_le (by simp) xs

/-- Ranges ordered by falling start, `sort_by_key(|r| Reverse(r.start))`. -/
def sortDescending (rs : List ByteRange) : List ByteRange :=
  rs.insertionSort fun a b => b.start ≤ a.start

theorem mem_sortDescending : r ∈ sortDescending rs ↔ r ∈ rs := mem_insertionSort _

/-- Disjoint, nonempty ranges in falling order end where the one before begins,
or earlier. -/
theorem pairwise_sortDescending (hne : ∀ r ∈ rs, r.start < r.stop)
    (hdisj : rs.Pairwise fun a b => overlaps a b = false) :
    (sortDescending rs).Pairwise fun r r' => r'.stop ≤ r.start := by
  have hperm : (sortDescending rs).Perm rs := perm_insertionSort _ rs
  have hdisj' : (sortDescending rs).Pairwise fun a b => overlaps a b = false := by
    refine (hperm.pairwise_iff ?_).mpr hdisj
    intro a b h
    rwa [overlaps_comm]
  have hstarts : (sortDescending rs).Pairwise fun a b => b.start ≤ a.start := by
    exact pairwise_insertionSort _ rs
  refine (hdisj'.and hstarts).imp_of_mem ?_
  rintro a b ha hb ⟨hover, hle⟩
  have hane := hne a (mem_sortDescending.mp ha)
  rw [← Bool.not_eq_true, overlaps_iff] at hover
  omega

theorem keepOutside_congr_mem {rs' : List ByteRange} (h : ∀ r, r ∈ rs ↔ r ∈ rs')
    (xs : List α) : keepOutside rs xs = keepOutside rs' xs := by
  refine keepFrom_congr ?_
  intro i _
  rw [covered, covered, Bool.eq_iff_iff, any_eq_true, any_eq_true]
  simp only [h]

/-- **Deleting disjoint ranges**, sorted by falling start, leaves exactly the bytes
outside them. -/
theorem removeRanges_sortDescending
    (hvalid : ∀ r ∈ rs, (slice text r).isSome = true) (hne : ∀ r ∈ rs, r.start < r.stop)
    (hdisj : rs.Pairwise fun a b => overlaps a b = false) :
    ∃ out, removeRanges text (sortDescending rs) = some out ∧
      utf8Bytes out = keepOutside rs (utf8Bytes text) := by
  obtain ⟨out, hout, hbytes⟩ := removeRanges_spec
    (fun r hr => hvalid r (mem_sortDescending.mp hr)) (pairwise_sortDescending hne hdisj)
  exact ⟨out, hout, hbytes.trans (keepOutside_congr_mem (fun r => mem_sortDescending) _)⟩

end Text
