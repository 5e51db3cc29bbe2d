import RenCrowCore.Lib.Text
import Mathlib.Algebra.GroupWithZero.Nat

/-!
# What is kept of a text

The characters of a text that lie outside given byte ranges.

* `utf8Bytes_keepChars`: where the ranges are on boundaries, these characters have
  exactly the bytes outside the ranges;
* `length_keepOutside`: how many bytes disjoint ranges leave.
-/

namespace Text

variable {text : List Char} {α : Type}

theorem utf8Bytes_injective {as bs : List Char} (h : utf8Bytes as = utf8Bytes bs) : as = bs :=
  String.ofList_inj.mp (String.toByteArray_inj.mp (congrArg List.toByteArray h))

/-- The characters whose first byte, counted from `n`, is in none of the ranges. -/
def keepChars (rs : List ByteRange) : Nat → List Char → List Char
  | _, [] => []
  | n, c :: cs =>
    if covered rs n then keepChars rs (n + c.utf8Size) cs
    else c :: keepChars rs (n + c.utf8Size) cs

theorem keepChars_append (rs : List ByteRange) (n : Nat) (as bs : List Char) :
    keepChars rs n (as ++ bs) = keepChars rs n as ++ keepChars rs (n + byteLen as) bs := by
  induction as generalizing n with
  | nil => rfl
  | cons c cs ih =>
    rw [List.cons_append, keepChars, keepChars, ih, byteLen_cons, Nat.add_assoc]
    split <;> rfl

theorem keepChars_of_not_covered {rs : List ByteRange} {n : Nat}
    (h : ∀ i, n ≤ i → i < n + byteLen text → covered rs i = false) :
    keepChars rs n text = text := by
  induction text generalizing n with
  | nil => rfl
  | cons c cs ih =>
    have hpos := c.utf8Size_pos
    rw [byteLen_cons] at h
    rw [keepChars, h n (le_refl n) (by omega), ih fun i hi hlt => h i (by omega) (by omega)]
    rfl

/-- An offset does not fall inside a character of a text that starts at `n`. -/
def Between (text : List Char) (n b : Nat) : Prop :=
  b ≤ n ∨ n + byteLen text ≤ b ∨ isBoundary text (b - n) = true

theorem Between.of_cons {c : Char} {cs : List Char} {n b : Nat} (h : Between (c :: cs) n b) :
    (b ≤ n ∨ n + c.utf8Size ≤ b) ∧ Between cs (n + c.utf8Size) b := by
  rcases h with h | h | h
  · exact ⟨.inl h, .inl (by omega)⟩
  · rw [byteLen_cons] at h
    exact ⟨.inr (by omega), .inr (.inl (by omega))⟩
  · obtain ⟨_ | ⟨d, before⟩, after, heq, hlen⟩ := isBoundary_iff.mp h
    · rw [byteLen_nil] at hlen
      exact ⟨.inl (by omega), .inl (by omega)⟩
    · obtain ⟨rfl, rfl⟩ := List.cons.inj heq
      rw [byteLen_cons] at hlen
      have hpos := c.utf8Size_pos
      refine ⟨.inr (by omega), .inr (.inr (isBoundary_iff.mpr ⟨before, after, rfl, by omega⟩))⟩

/-- The offset, moved to the nearer end of the text when it is outside, is a boundary. -/
theorem Between.clamp {n b : Nat} (h : Between text n b) :
    isBoundary text (min b (n + byteLen text) - n) = true := by
  rcases h with h | h | h
  · rw [show min b (n + byteLen text) - n = 0 by omega]
    exact isBoundary_zero text
  · refine isBoundary_iff.mpr ⟨text, [], (List.append_nil text).symm, by omega⟩
  · obtain ⟨before, after, rfl, hlen⟩ := isBoundary_iff.mp h
    refine isBoundary_iff.mpr ⟨before, after, rfl, ?_⟩
    rw [byteLen_append]
    omega

/-- On boundaries, characters are kept or lost as a whole. -/
theorem utf8Bytes_keepChars {rs : List ByteRange} {n : Nat}
    (h : ∀ r ∈ rs, Between text n r.start ∧ Between text n r.stop) :
    utf8Bytes (keepChars rs n text) = keepFrom rs n (utf8Bytes text) := by
  induction text generalizing n with
  | nil => rfl
  | cons c cs ih =>
    have hrest := ih fun r hr => ⟨(h r hr).1.of_cons.2, (h r hr).2.of_cons.2⟩
    have hsize : (String.utf8EncodeChar c).length = c.utf8Size := String.length_utf8EncodeChar c
    have hwhole : ∀ i, n ≤ i → i < n + (String.utf8EncodeChar c).length →
        covered rs i = covered rs n := by
      intro i hi hlt
      rw [covered, covered, Bool.eq_iff_iff, List.any_eq_true, List.any_eq_true]
      refine exists_congr fun r => and_congr_right fun hr => ?_
      have hstart := (h r hr).1.of_cons.1
      have hstop := (h r hr).2.of_cons.1
      rw [ByteRange.covers_iff, ByteRange.covers_iff]
      omega
    have hsplit : utf8Bytes (c :: cs) = String.utf8EncodeChar c ++ utf8Bytes cs := rfl
    rw [hsplit, keepFrom_append, hsize, ← hrest, keepChars]
    split
    · rename_i hcovered
      rw [keepFrom_of_forall fun i hi hlt => (hwhole i hi hlt).trans hcovered]
      rfl
    · rename_i hcovered
      rw [keepFrom_of_forall fun i hi hlt =>
        (hwhole i hi hlt).trans (Bool.eq_false_iff.mpr hcovered)]
      rfl

theorem isBoundary_of_slice {r : ByteRange} (h : (slice text r).isSome = true) :
    isBoundary text r.start = true ∧ isBoundary text r.stop = true := by
  obtain ⟨part, hpart⟩ := Option.isSome_iff_exists.mp h
  obtain ⟨before, after, rfl, hstart, hstop⟩ := slice_eq_some_iff.mp hpart
  refine ⟨isBoundary_iff.mpr ⟨before, part ++ after, rfl, hstart⟩,
    isBoundary_iff.mpr ⟨before ++ part, after, by simp, ?_⟩⟩
  rw [byteLen_append]
  exact hstop

theorem between_of_slice {r : ByteRange} (h : (slice text r).isSome = true) :
    Between text 0 r.start ∧ Between text 0 r.stop :=
  ⟨.inr (.inr (isBoundary_of_slice h).1), .inr (.inr (isBoundary_of_slice h).2)⟩

theorem Between.append {as bs : List Char} {n b : Nat} (h : Between (as ++ bs) n b) :
    Between as n b ∧ Between bs (n + byteLen as) b := by
  by_cases hle : b ≤ n
  · exact ⟨.inl hle, .inl (by omega)⟩
  rcases h with h | h | h
  · exact absurd h hle
  · rw [byteLen_append] at h
    exact ⟨.inr (.inl (by omega)), .inr (.inl (by omega))⟩
  · obtain ⟨before, after, heq, hlen⟩ := isBoundary_iff.mp h
    rcases List.append_eq_append_iff.mp heq with ⟨x, rfl, rfl⟩ | ⟨y, rfl, rfl⟩
    · rw [byteLen_append] at hlen
      exact ⟨.inr (.inl (by omega)), .inr (.inr (isBoundary_iff.mpr ⟨x, after, rfl, by omega⟩))⟩
    · refine ⟨.inr (.inr (isBoundary_iff.mpr ⟨before, y, rfl, hlen⟩)), .inl ?_⟩
      rw [byteLen_append]
      omega

/-- The bytes that one more range takes away. -/
theorem length_keepFrom_cons {r : ByteRange} {rs : List ByteRange} {n : Nat} {xs : List α}
    (h : ∀ r' ∈ rs, overlaps r r' = false) :
    (keepFrom (r :: rs) n xs).length + (min r.stop (n + xs.length) - max r.start n) =
      (keepFrom rs n xs).length := by
  induction xs generalizing n with
  | nil =>
    simp only [keepFrom, List.length_nil]
    omega
  | cons x xs ih =>
    have ih := @ih (n + 1)
    have hcons : covered (r :: rs) n = (r.covers n || covered rs n) := List.any_cons
    rw [keepFrom, keepFrom, hcons, List.length_cons]
    cases hr : r.covers n with
    | true =>
      have hrs : covered rs n = false := by
        rw [covered, List.any_eq_false]
        intro r' hr' hcovers
        rw [covers_eq_false (h r' hr') hcovers] at hr
        cases hr
      rw [ByteRange.covers_iff] at hr
      simp only [hrs, Bool.true_or, if_true, Bool.false_eq_true, if_false, List.length_cons]
      omega
    | false =>
      rw [← Bool.not_eq_true, ByteRange.covers_iff] at hr
      rw [Bool.false_or]
      split
      · omega
      · rw [List.length_cons, List.length_cons]
        omega

/-- The bytes that disjoint ranges leave of a text, none of which crosses its end. -/
theorem length_keepOutside {rs : List ByteRange} {xs : List α}
    (hdisj : rs.Pairwise fun a b => overlaps a b = false)
    (hend : ∀ r ∈ rs, r.start ≤ r.stop ∧
      (r.stop ≤ xs.length ∨ xs.length < r.stop ∧ xs.length ≤ r.start)) :
    (keepOutside rs xs).length + ((rs.filter fun r => decide (r.stop ≤ xs.length)).map
      fun r => r.stop - r.start).sum = xs.length := by
  induction rs with
  | nil => simp
  | cons r rs ih =>
    rw [List.pairwise_cons] at hdisj
    have ih := ih hdisj.2 fun r' hr' => hend r' (List.mem_cons_of_mem _ hr')
    have hone : (keepOutside (r :: rs) xs).length + _ = (keepOutside rs xs).length :=
      length_keepFrom_cons hdisj.1
    obtain ⟨hle, hstop | hstart⟩ := hend r List.mem_cons_self
    · rw [List.filter_cons_of_pos (by simpa using hstop), List.map_cons, List.sum_cons]
      omega
    · rw [List.filter_cons_of_neg (by simpa using hstart.1)]
      omega

/-- Sorted ranges have rising starts. -/
theorem pairwise_start_sortAscending (rs : List ByteRange) :
    (sortAscending rs).Pairwise fun a b => a.start ≤ b.start := by
  have : Std.Total fun a b : ByteRange =>
      a.start < b.start ∨ (a.start = b.start ∧ a.stop ≤ b.stop) := ⟨fun a b => by omega⟩
  have : IsTrans ByteRange fun a b =>
      a.start < b.start ∨ (a.start = b.start ∧ a.stop ≤ b.stop) := ⟨fun a b c => by omega⟩
  exact (List.pairwise_insertionSort _ rs).imp fun h => by omega

end Text
