import Mathlib.Data.List.Basic

/-!
# Lines of bytes

Bytes as complete lines, each with the line feed that ends it, and a rest that is not a line yet.

* `completeLines`: the lines that end with a line feed;
* `IsLine`: bytes up to a line feed;
* `completeLines_flatten_append`, `exists_completeLines`: bytes as complete lines and a rest.
-/

namespace ByteLines

open List

/-- The line feed. -/
def newline : UInt8 := 10

/-- `u8::is_ascii_whitespace`. -/
def isAsciiWhitespace (byte : UInt8) : Bool := [9, 10, 12, 13, 32].contains byte

/-- The lines that end with a line feed; bytes after the last one are left for later. -/
def completeLines (pending : List UInt8) : List UInt8 → List (List UInt8)
  | [] => []
  | byte :: rest =>
    if byte = newline then (pending ++ [byte]) :: completeLines [] rest
    else completeLines (pending ++ [byte]) rest

/-- Bytes up to a line feed. -/
def IsLine (line : List UInt8) : Prop := ∃ body, newline ∉ body ∧ line = body ++ [newline]

theorem completeLines_body {body : List UInt8} (hbody : newline ∉ body)
    (pending rest : List UInt8) :
    completeLines pending (body ++ newline :: rest) =
      (pending ++ body ++ [newline]) :: completeLines [] rest := by
  induction body generalizing pending with
  | nil => simp [completeLines]
  | cons byte body ih =>
    have hbyte : byte ≠ newline := fun h => hbody (h ▸ mem_cons_self)
    have hrest : newline ∉ body := fun h => hbody (mem_cons_of_mem _ h)
    rw [cons_append, completeLines, if_neg hbyte, ih hrest]
    simp

variable {lines : List (List UInt8)}

/-- Complete lines are read as they are, and then what follows them. -/
theorem completeLines_flatten_append (hlines : ∀ line ∈ lines, IsLine line) (rest : List UInt8) :
    completeLines [] (lines.flatten ++ rest) = lines ++ completeLines [] rest := by
  induction lines with
  | nil => rfl
  | cons line lines ih =>
    obtain ⟨body, hbody, rfl⟩ := hlines line mem_cons_self
    have hrest := ih fun later hlater => hlines later (mem_cons_of_mem _ hlater)
    have hshape : (((body ++ [newline]) :: lines).flatten ++ rest) =
        body ++ newline :: (lines.flatten ++ rest) := by simp
    rw [hshape, completeLines_body hbody, hrest]
    rfl

/-- Bytes are complete lines and a rest without one. -/
theorem exists_completeLines {pending : List UInt8} (hpend : newline ∉ pending)
    (bytes : List UInt8) :
    ∃ rest, pending ++ bytes = (completeLines pending bytes).flatten ++ rest ∧
      ∀ line ∈ completeLines pending bytes, IsLine line := by
  induction bytes generalizing pending with
  | nil => exact ⟨pending, by simp [completeLines], by simp [completeLines]⟩
  | cons byte bytes ih =>
    unfold completeLines
    split
    · rename_i hbyte
      subst hbyte
      have hnil : newline ∉ ([] : List UInt8) := not_mem_nil
      obtain ⟨rest, hbytes, hlines⟩ := ih hnil
      refine ⟨rest, ?_, ?_⟩
      · rw [nil_append] at hbytes
        rw [flatten_cons, append_assoc, ← hbytes]
        simp
      · exact forall_mem_cons.mpr ⟨⟨pending, hpend, rfl⟩, hlines⟩
    · rename_i hbyte
      have hpend' : newline ∉ pending ++ [byte] := by simpa [hpend] using Ne.symm hbyte
      obtain ⟨rest, hbytes, hlines⟩ := ih hpend'
      refine ⟨rest, ?_, hlines⟩
      rw [← hbytes]
      simp

theorem isLine_of_mem_completeLines (bytes : List UInt8) :
    ∀ line ∈ completeLines [] bytes, IsLine line :=
  (exists_completeLines (not_mem_nil : newline ∉ ([] : List UInt8)) bytes).choose_spec.2

theorem flatten_length_pos (hlines : ∀ line ∈ lines, IsLine line) (hne : lines ≠ []) :
    0 < lines.flatten.length := by
  obtain ⟨line, lines, rfl⟩ := exists_cons_of_ne_nil hne
  obtain ⟨body, -, rfl⟩ := hlines line mem_cons_self
  rw [flatten_cons, length_append, length_append, length_singleton]
  omega

end ByteLines
