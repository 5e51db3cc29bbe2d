import Mathlib.Data.List.Induction
import RenCrowCore.Utils.InlineHiddenTag

/-!
# Text that arrives as bytes

`utils/stream-parser/src/utf8_stream.rs`: a parser of text is fed with chunks of bytes, and the
beginning of a character is held back until the rest of it has come.

* `Utf8StreamParser.pushBytes`, `Utf8StreamParser.finish`: the wrapper;
* `pushBytes_all_or_nothing`: a chunk that is rejected leaves no trace, and of the others the
  parser gets exactly the text.
-/

namespace RenCrow.StreamParser

open Text Streaming

/-! ## Decoding -/

/-- `std::str::Utf8Error`; without a length the input has only ended too early. -/
structure Utf8Error where
  validUpTo : Nat
  errorLen : Option Nat
deriving DecidableEq, Repr

/-- Whether a byte can stand at this place after the first byte of a character. -/
def continues (first byte : UInt8) (place : Nat) : Bool :=
  if place = 1 ∧ first = 0xE0 then 0xA0 ≤ byte && byte ≤ 0xBF
  else if place = 1 ∧ first = 0xED then 0x80 ≤ byte && byte ≤ 0x9F
  else if place = 1 ∧ first = 0xF0 then 0x90 ≤ byte && byte ≤ 0xBF
  else if place = 1 ∧ first = 0xF4 then 0x80 ≤ byte && byte ≤ 0x8F
  else 0x80 ≤ byte && byte ≤ 0xBF

/-- The bytes at fault where no character can be read, or none if it is cut short. -/
def errorLen (bytes : List UInt8) : Option Nat :=
  let first := bytes.headD 0
  let width := if 0xC2 ≤ first ∧ first ≤ 0xDF then 2 else if 0xE0 ≤ first ∧ first ≤ 0xEF then 3
    else if 0xF0 ≤ first ∧ first ≤ 0xF4 then 4 else 1
  ((List.range' 1 (width - 1)).findSome? fun place =>
    match bytes[place]? with
    | none => some none
    | some byte => if continues first byte place then none else some (some place)).getD (some 1)

/-- The characters that can be read, and the bytes after them. -/
def decodeWithin : Nat → List UInt8 → List Char × List UInt8
  | 0, bytes => ([], bytes)
  | fuel + 1, bytes =>
    match bytes.toByteArray.utf8DecodeChar? 0 with
    | some c =>
      let read := decodeWithin fuel (bytes.drop c.utf8Size)
      (c :: read.1, read.2)
    | none => ([], bytes)

/-- `std::str::from_utf8`. -/
def fromUtf8 (bytes : List UInt8) : Except Utf8Error (List Char) :=
  let read := decodeWithin bytes.length bytes
  if read.2.isEmpty then .ok read.1 else .error ⟨bytes.length - read.2.length, errorLen read.2⟩

theorem utf8Bytes_decodeWithin (fuel : Nat) (bytes : List UInt8) :
    utf8Bytes (decodeWithin fuel bytes).1 ++ (decodeWithin fuel bytes).2 = bytes := by
  induction fuel generalizing bytes with
  | zero => rfl
  | succ fuel ih =>
    unfold decodeWithin
    split
    · rename_i c hchar
      obtain ⟨later, hlater⟩ := ByteArray.exists_of_utf8DecodeChar?_eq_some hchar
      have hbytes := congrArg (fun array : ByteArray => array.data.toList) hlater
      simp only [List.data_toByteArray, ByteArray.data_append, Array.toList_append] at hbytes
      have hdrop : bytes.drop c.utf8Size = later.data.toList := by
        rw [hbytes, ← String.length_utf8EncodeChar, List.drop_left]
      have hcons : utf8Bytes (c :: (decodeWithin fuel (bytes.drop c.utf8Size)).1) =
          String.utf8EncodeChar c ++ utf8Bytes (decodeWithin fuel (bytes.drop c.utf8Size)).1 := rfl
      rw [hcons, List.append_assoc, ih, hdrop, ← hbytes]
    · rfl

theorem utf8Bytes_of_fromUtf8 {bytes : List UInt8} {text : List Char}
    (h : fromUtf8 bytes = .ok text) :
    utf8Bytes text = bytes := by
  have hread := utf8Bytes_decodeWithin bytes.length bytes
  unfold fromUtf8 at h
  dsimp only at h
  split at h
  · rename_i hrest
    rw [List.isEmpty_iff.mp hrest, List.append_nil] at hread
    cases h
    exact hread
  · cases h

/-! ## The wrapper -/

/-- Why bytes are refused. -/
inductive Utf8StreamParserError where
  | invalidUtf8 (validUpTo errorLen : Nat)
  | incompleteUtf8AtEof
deriving DecidableEq, Repr

/-- A parser of text, with the bytes of a character that has not arrived as a whole. -/
structure Utf8StreamParser (σ : Type) where
  inner : σ
  pendingUtf8 : List UInt8 := []

variable {σ E : Type} (parser : Parser σ Char (StreamTextChunk E))

namespace Utf8StreamParser

/-- `push_bytes`: the chunk goes behind the bytes that wait.  When it is invalid, they are cut
back to the length they had before it. -/
def pushBytes (state : Utf8StreamParser σ) (chunk : List UInt8) :
    Utf8StreamParser σ × Except Utf8StreamParserError (StreamTextChunk E) :=
  let oldLen := state.pendingUtf8.length
  let pending := state.pendingUtf8 ++ chunk
  match fromUtf8 pending with
  | .ok text =>
    (⟨(parser.push state.inner text).1, []⟩, .ok (parser.push state.inner text).2)
  | .error ⟨validUpTo, some errorLen⟩ =>
    ({ state with pendingUtf8 := pending.take oldLen }, .error (.invalidUtf8 validUpTo errorLen))
  | .error ⟨validUpTo, none⟩ =>
    if validUpTo = 0 then ({ state with pendingUtf8 := pending }, .ok ⟨[], []⟩)
    else
      match fromUtf8 (pending.take validUpTo) with
      | .error error =>
        ({ state with pendingUtf8 := pending.take oldLen },
          .error (.invalidUtf8 error.validUpTo (error.errorLen.getD 0)))
      | .ok text =>
        (⟨(parser.push state.inner text).1, pending.drop validUpTo⟩,
          .ok (parser.push state.inner text).2)

/-- What is left at the end of the stream. -/
def finish (state : Utf8StreamParser σ) : Except Utf8StreamParserError (StreamTextChunk E) :=
  if state.pendingUtf8.isEmpty then .ok (⟨[], []⟩ ++ parser.finish state.inner)
  else
    match fromUtf8 state.pendingUtf8 with
    | .error ⟨validUpTo, some errorLen⟩ => .error (.invalidUtf8 validUpTo errorLen)
    | .error ⟨_, none⟩ => .error .incompleteUtf8AtEof
    | .ok text =>
      .ok ((parser.push state.inner text).2 ++ parser.finish (parser.push state.inner text).1)

/-- The chunks that were accepted so far, and the answers to them put together. -/
structure Fed (σ E : Type) where
  state : Utf8StreamParser σ
  accepted : List (List UInt8) := []
  answer : StreamTextChunk E := ⟨[], []⟩

/-- Pushes one chunk; an answer is added only where the chunk was accepted. -/
def push (fed : Fed σ E) (chunk : List UInt8) : Fed σ E :=
  match pushBytes parser fed.state chunk with
  | (state, .ok answer) => ⟨state, fed.accepted ++ [chunk], fed.answer ++ answer⟩
  | (state, .error _) => { fed with state }

/-- Chunk after chunk is pushed, whatever the answers are. -/
def pushAll (inner : σ) (chunks : List (List UInt8)) : Fed σ E :=
  chunks.foldl (push parser) { state := { inner } }

variable {parser} {state : Utf8StreamParser σ} {chunk : List UInt8} {answer : StreamTextChunk E}

/-- Cutting the bytes back takes away the chunk and nothing else. -/
theorem truncate_pending (state : Utf8StreamParser σ) (chunk : List UInt8) :
    { state with
      pendingUtf8 := (state.pendingUtf8 ++ chunk).take state.pendingUtf8.length } = state := by
  rw [List.take_left]

theorem state_of_error {error : Utf8StreamParserError}
    (h : (pushBytes parser state chunk).2 = .error error) :
    (pushBytes parser state chunk).1 = state := by
  unfold pushBytes at h ⊢
  dsimp only at h ⊢
  split
  · rename_i htext
    rw [htext] at h
    cases h
  · exact truncate_pending state chunk
  · rename_i herr
    rw [herr] at h
    dsimp only at h
    split
    · rename_i hzero
      rw [if_pos hzero] at h
      cases h
    · rename_i hpos
      rw [if_neg hpos] at h
      split
      · exact truncate_pending state chunk
      · rename_i htext
        rw [htext] at h
        cases h

/-- The parser gets the text of an accepted chunk, as far as it can be read. -/
theorem pushBytes_eq_ok {next : Utf8StreamParser σ}
    (h : pushBytes parser state chunk = (next, .ok answer)) :
    ∃ pieces : List (List Char),
      utf8Bytes pieces.flatten ++ next.pendingUtf8 = state.pendingUtf8 ++ chunk ∧
        ∀ later, parser.feed state.inner (pieces ++ later) = answer ++
          parser.feed next.inner later := by
  unfold pushBytes at h
  dsimp only at h
  split at h
  · rename_i text htext
    cases h
    exact ⟨[text], by simp [utf8Bytes_of_fromUtf8 htext], fun later => rfl⟩
  · cases h
  · split at h
    · cases h
      exact ⟨[], rfl, fun later => by ext1 <;> simp⟩
    · split at h
      · cases h
      · rename_i text htext
        cases h
        exact ⟨[text], by simp [utf8Bytes_of_fromUtf8 htext], fun later => rfl⟩

theorem finish_eq_ok (h : finish parser state = .ok answer) :
    ∃ pieces : List (List Char), utf8Bytes pieces.flatten = state.pendingUtf8 ∧
      parser.feed state.inner pieces = answer := by
  unfold finish at h
  split at h
  · rename_i hempty
    cases h
    exact ⟨[], (List.isEmpty_iff.mp hempty).symm, by ext1 <;> simp [Parser.feed]⟩
  · split at h
    · cases h
    · cases h
    · rename_i text htext
      cases h
      exact ⟨[text], by simp [utf8Bytes_of_fromUtf8 htext], rfl⟩

theorem pushAll_concat {inner : σ} {chunks : List (List UInt8)} :
    pushAll parser inner (chunks ++ [chunk]) = push parser (pushAll parser inner chunks) chunk := by
  rw [pushAll, List.foldl_append]
  rfl

variable (parser) in
/-- What has been accepted is what the parser got and what is held back. -/
theorem pushAll_spec (inner : σ) (chunks : List (List UInt8)) :
    pushAll parser inner (pushAll parser inner chunks).accepted = pushAll parser inner chunks ∧
    ∃ pieces : List (List Char),
      utf8Bytes pieces.flatten ++ (pushAll parser inner chunks).state.pendingUtf8 =
        (pushAll parser inner chunks).accepted.flatten ∧
      ∀ later, parser.feed inner (pieces ++ later) = (pushAll parser inner chunks).answer ++
        parser.feed (pushAll parser inner chunks).state.inner later := by
  induction chunks using List.reverseRecOn with
  | nil => exact ⟨rfl, [], rfl, fun later => by ext1 <;> simp [pushAll]⟩
  | append_singleton chunks chunk ih =>
    obtain ⟨hagain, pieces, hbytes, hfeed⟩ := ih
    rw [pushAll_concat]
    generalize pushAll parser inner chunks = fed at *
    cases hpush : pushBytes parser fed.state chunk with
    | mk next result =>
      cases result with
      | error error =>
        have hstate := state_of_error (congrArg Prod.snd hpush)
        rw [hpush] at hstate
        obtain rfl : next = fed.state := hstate
        have hsame : push parser fed chunk = fed := by simp only [push, hpush]
        rw [hsame]
        exact ⟨hagain, pieces, hbytes, hfeed⟩
      | ok answer =>
        have hnext : push parser fed chunk =
            ⟨next, fed.accepted ++ [chunk], fed.answer ++ answer⟩ := by simp only [push, hpush]
        rw [hnext]
        obtain ⟨more, hmore, hanswer⟩ := pushBytes_eq_ok hpush
        refine ⟨?_, pieces ++ more, ?_, fun later => ?_⟩
        · rw [pushAll_concat, hagain, hnext]
        · rw [List.flatten_append, utf8Bytes_append, List.append_assoc, hmore, ← List.append_assoc,
            hbytes]
          simp
        · rw [List.append_assoc, hfeed, hanswer, append_assoc]

/-- **A chunk of bytes counts as a whole or not at all.**  A rejected chunk leaves the wrapper
as it was, so a run is that of its accepted chunks; and if they end well, they are the UTF-8 of
a text that the parser got in order. -/
theorem pushBytes_all_or_nothing (parser : Parser σ Char (StreamTextChunk E)) :
    (∀ state chunk error, (pushBytes parser state chunk).2 = .error error →
      (pushBytes parser state chunk).1 = state) ∧
    ∀ inner chunks,
      pushAll parser inner (pushAll parser inner chunks).accepted = pushAll parser inner chunks ∧
      ∀ answer, finish parser (pushAll parser inner chunks).state = .ok answer →
        ∃ pieces : List (List Char),
          utf8Bytes pieces.flatten = (pushAll parser inner chunks).accepted.flatten ∧
          parser.feed inner pieces = (pushAll parser inner chunks).answer ++ answer := by
  refine ⟨fun state chunk error h => state_of_error h, fun inner chunks => ?_⟩
  obtain ⟨hagain, pieces, hbytes, hfeed⟩ := pushAll_spec parser inner chunks
  refine ⟨hagain, fun answer h => ?_⟩
  obtain ⟨more, hmore, hanswer⟩ := finish_eq_ok h
  refine ⟨pieces ++ more, ?_, ?_⟩
  · rw [List.flatten_append, utf8Bytes_append, hmore, hbytes]
  · rw [hfeed, hanswer]

/-- A parser that shows all text. -/
def shown : Parser Unit Char (StreamTextChunk Unit) :=
  ⟨fun _ text => ((), ⟨text, []⟩), fun _ => ⟨[], []⟩⟩

theorem pushBytes_all_or_nothing_sample : ∃ answer,
    finish shown (pushAll shown () [[0xC3], [0x28], [0xA9]]).state = .ok answer ∧
      ∃ pieces : List (List Char), utf8Bytes pieces.flatten = [0xC3, 0xA9] ∧
        shown.feed () pieces =
          (pushAll shown () [[0xC3], [0x28], [0xA9]]).answer ++ answer := by
  refine ⟨⟨[], []⟩, by decide +kernel, ?_⟩
  exact ((pushBytes_all_or_nothing shown).2 () [[0xC3], [0x28], [0xA9]]).2 ⟨[], []⟩
    (by decide +kernel)

end Utf8StreamParser

end RenCrow.StreamParser
