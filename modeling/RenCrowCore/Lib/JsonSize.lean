import RenCrowCore.Lib.Json
import RenCrowCore.Lib.Text

/-!
# The size of JSON texts

Bounds on the number of bytes of a compact JSON text.

* `byteLen_renderString_le`: escapes make a string at most six times as long;
* `byteLen_renderItems_le_of_sublist`: leaving items out does not make an array longer;
* `byteLen_renderFields_cons_le`, `serializedLen_array_cons_cons`: what one more field adds
  to an object, and one more item to an array.
-/

namespace Serde

open Text List

namespace Json

/-- The number of bytes of a value's text. -/
def serializedLen (value : Json) : Nat := byteLen value.render

theorem utf8Size_hexDigit (n : Nat) : (hexDigit n).utf8Size = 1 := by
  have hdigits : ("0123456789abcdef".toList.all fun c => c.utf8Size == 1) = true := by decide
  unfold hexDigit
  rw [getD_eq_getElem?_getD]
  cases h : "0123456789abcdef".toList[n]? with
  | none => rfl
  | some c => exact eq_of_beq (all_eq_true.mp hdigits c (mem_of_getElem? h))

theorem byteLen_renderChar_le (c : Char) : byteLen (renderChar c) ≤ 6 * c.utf8Size := by
  have hpos := c.utf8Size_pos
  have hescape : ∀ a b : Char, a.utf8Size = 1 → b.utf8Size = 1 →
      byteLen [a, b] ≤ 6 * c.utf8Size := by
    intro a b ha hb
    simp only [byteLen_cons, byteLen_nil, ha, hb]
    omega
  unfold renderChar
  split_ifs
  iterate 7 exact hescape _ _ (by decide) (by decide)
  · simp only [byteLen_cons, byteLen_nil, utf8Size_hexDigit]
    have hu : 'u'.utf8Size = 1 := by decide
    have hzero : '0'.utf8Size = 1 := by decide
    have hslash : '\\'.utf8Size = 1 := by decide
    omega
  · simp only [byteLen_cons, byteLen_nil]
    omega

theorem byteLen_flatMap_renderChar_le (cs : List Char) :
    byteLen (cs.flatMap renderChar) ≤ 6 * byteLen cs := by
  induction cs with
  | nil => exact Nat.le_refl _
  | cons c cs ih =>
    have hc := byteLen_renderChar_le c
    rw [flatMap_cons, byteLen_append, byteLen_cons]
    omega

/-- **Escapes make a string at most six times as long.** -/
theorem byteLen_renderString_le (s : String) :
    byteLen (renderString s) ≤ 6 * byteLen s.toList + 2 := by
  have hquote : '"'.utf8Size = 1 := by decide
  have hbody := byteLen_flatMap_renderChar_le s.toList
  simp only [renderString, cons_append, byteLen_cons, byteLen_append, byteLen_nil, hquote]
  omega

theorem byteLen_renderItems_cons_le (item : Json) (items : List Json) :
    byteLen (renderItems items) ≤ byteLen (renderItems (item :: items)) := by
  cases items with
  | nil => exact Nat.zero_le _
  | cons next rest =>
    simp only [renderItems, byteLen_append, byteLen_cons]
    omega

/-- **Leaving items out** does not make an array longer. -/
theorem byteLen_renderItems_le_of_sublist {part items : List Json} (h : part.Sublist items) :
    byteLen (renderItems part) ≤ byteLen (renderItems items) := by
  induction h with
  | slnil => exact Nat.le_refl _
  | cons item hpart ih => exact ih.trans (byteLen_renderItems_cons_le item _)
  | cons_cons item hpart ih =>
    rename_i part items
    cases part with
    | nil =>
      cases items with
      | nil => exact Nat.le_refl _
      | cons next rest =>
        simp only [renderItems, byteLen_append]
        omega
    | cons first others =>
      cases items with
      | nil => cases hpart
      | cons next rest =>
        simp only [renderItems, byteLen_append, byteLen_cons] at ih ⊢
        omega

theorem serializedLen_array_le_of_sublist {part items : List Json} (h : part.Sublist items) :
    serializedLen (.array part) ≤ serializedLen (.array items) := by
  have hitems := byteLen_renderItems_le_of_sublist h
  simp only [serializedLen, render, cons_append, byteLen_cons, byteLen_append]
  omega

theorem byteLen_le_mul_length (cs : List Char) : byteLen cs ≤ 4 * cs.length := by
  induction cs with
  | nil => exact Nat.le_refl _
  | cons c cs ih =>
    have hc := c.utf8Size_le_four
    rw [byteLen_cons, length_cons]
    omega

/-- A 64-bit integer has at most twenty digits. -/
theorem serializedLen_ofNat_le (n : Nat) : serializedLen (ofNat n) ≤ 80 := by
  have hlt : (UInt64.ofNat n).toNat < 10 ^ 20 := by
    have := (UInt64.ofNat n).toNat_lt
    omega
  have hdigits := (Nat.length_toDigits_le_iff (by decide) (by decide)).mpr hlt
  have hbytes := byteLen_le_mul_length (Nat.toDigits 10 (UInt64.ofNat n).toNat)
  simp only [serializedLen, ofNat, render, renderNumber]
  omega

theorem byteLen_renderFields_cons_le (key : String) (value : Json)
    (fields : List (String × Json)) : byteLen (renderFields ((key, value) :: fields)) ≤
      byteLen (renderString key) + serializedLen value + 2 +
        byteLen (renderFields fields) := by
  have hcolon : ':'.utf8Size = 1 := by decide
  have hcomma : ','.utf8Size = 1 := by decide
  cases fields with
  | nil =>
    simp only [renderFields, serializedLen, byteLen_append, byteLen_cons, hcolon]
    omega
  | cons field fields =>
    simp only [renderFields, serializedLen, byteLen_append, byteLen_cons,
      append_assoc, cons_append, hcolon, hcomma]
    omega

theorem serializedLen_object (fields : List (String × Json)) :
    serializedLen (.object fields) = byteLen (renderFields fields) + 2 := by
  have hopen : '\x7b'.utf8Size = 1 := by decide
  have hclose : '\x7d'.utf8Size = 1 := by decide
  simp only [serializedLen, render, cons_append, byteLen_cons, byteLen_append, byteLen_nil]
  omega

theorem serializedLen_array_singleton (item : Json) :
    serializedLen (.array [item]) = serializedLen item + 2 := by
  have hopen : '['.utf8Size = 1 := by decide
  have hclose : ']'.utf8Size = 1 := by decide
  simp only [serializedLen, render, renderItems, cons_append, byteLen_cons,
    byteLen_append, byteLen_nil]
  omega

theorem serializedLen_array_cons_cons (item next : Json) (rest : List Json) :
    serializedLen (.array (item :: next :: rest)) =
      serializedLen item + 1 + serializedLen (.array (next :: rest)) := by
  have hcomma : ','.utf8Size = 1 := by decide
  simp only [serializedLen, render, renderItems, cons_append, byteLen_cons,
    byteLen_append, byteLen_nil, append_assoc]
  omega

end Json

end Serde
