import RenCrowCore.Lib.Json

/-!
# Reading string literals back

The literal of a string says where it ends, and which string it is of.

* `readChar`: the first character of the inside of a literal;
* `renderString_append_inj`: a literal and what stands after it can be told apart.
-/

namespace Serde

namespace Json

/-- The value of a lower-case hexadecimal digit. -/
def hexValue (c : Char) : Nat := "0123456789abcdef".toList.idxOf c

theorem hexValue_hexDigit {n : Nat} (h : n < 16) : hexValue (hexDigit n) = n := by
  have hall : ∀ n < 16, hexValue (hexDigit n) = n := by decide
  exact hall n h

/-- What stands after a backslash. -/
def readEscape : List Char → Option (Char × List Char)
  | '"' :: rest => some ('"', rest)
  | '\\' :: rest => some ('\\', rest)
  | 'b' :: rest => some (Char.ofNat 8, rest)
  | 't' :: rest => some (Char.ofNat 9, rest)
  | 'n' :: rest => some (Char.ofNat 10, rest)
  | 'f' :: rest => some (Char.ofNat 12, rest)
  | 'r' :: rest => some (Char.ofNat 13, rest)
  | 'u' :: '0' :: '0' :: high :: low :: rest =>
    some (Char.ofNat (16 * hexValue high + hexValue low), rest)
  | _ => none

/-- The first character of the inside of a literal; the closing quote is none. -/
def readChar : List Char → Option (Char × List Char)
  | [] => none
  | c :: rest => if c = '"' then none else if c = '\\' then readEscape rest else some (c, rest)

/-- An escaped character is read back. -/
theorem readChar_renderChar (c : Char) (rest : List Char) :
    readChar (renderChar c ++ rest) = some (c, rest) := by
  have hcode {n : Nat} (h : c.toNat = n) : Char.ofNat n = c := h ▸ Char.ofNat_toNat c
  unfold renderChar
  split_ifs with hquote hslash h8 h9 h10 h12 h13 hcontrol
  · simp [readChar, readEscape, hquote]
  · simp [readChar, readEscape, hslash]
  · simpa [readChar, readEscape] using hcode h8
  · simpa [readChar, readEscape] using hcode h9
  · simpa [readChar, readEscape] using hcode h10
  · simpa [readChar, readEscape] using hcode h12
  · simpa [readChar, readEscape] using hcode h13
  · have hhigh : hexValue (hexDigit (c.toNat / 16)) = c.toNat / 16 := hexValue_hexDigit (by omega)
    have hlow : hexValue (hexDigit (c.toNat % 16)) = c.toNat % 16 := hexValue_hexDigit (by omega)
    have hsum : c.toNat = 16 * (c.toNat / 16) + c.toNat % 16 := by omega
    simp [readChar, readEscape, hhigh, hlow, hcode hsum]
  · simp [readChar, hquote, hslash]

/-- The inside of a literal and what stands after its closing quote. -/
theorem flatMap_renderChar_append_inj {cs ds after after' : List Char}
    (h : cs.flatMap renderChar ++ '"' :: after = ds.flatMap renderChar ++ '"' :: after') :
    cs = ds ∧ after = after' := by
  have hread (c : Char) (cs tail : List Char) : readChar ((c :: cs).flatMap renderChar ++ tail) =
        some (c, cs.flatMap renderChar ++ tail) := by
    rw [List.flatMap_cons, List.append_assoc, readChar_renderChar]
  induction cs generalizing ds with
  | nil =>
    cases ds with
    | nil => exact ⟨rfl, (List.cons.inj h).2⟩
    | cons d ds =>
      have hnone := hread d ds ('"' :: after')
      rw [← h] at hnone
      simp [readChar] at hnone
  | cons c cs ih =>
    have hfirst := hread c cs ('"' :: after)
    rw [h] at hfirst
    cases ds with
    | nil => simp [readChar] at hfirst
    | cons d ds =>
      rw [hread d ds, Option.some.injEq, Prod.mk.injEq] at hfirst
      obtain ⟨rfl, rfl⟩ := ih hfirst.2.symm
      exact ⟨by rw [hfirst.1], rfl⟩

/-- **A literal says where it ends.** -/
theorem renderString_append_inj {s t : String} {after after' : List Char}
    (h : renderString s ++ after = renderString t ++ after') : s = t ∧ after = after' := by
  simp only [renderString, List.cons_append, List.append_assoc, List.nil_append,
    List.cons.injEq, true_and] at h
  obtain ⟨htext, hafter⟩ := flatMap_renderChar_append_inj h
  exact ⟨String.ext htext, hafter⟩

end Json

end Serde
