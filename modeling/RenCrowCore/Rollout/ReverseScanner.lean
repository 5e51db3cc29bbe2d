import Mathlib.Data.List.Basic
import RenCrowCore.Lib.ByteLines

/-!
# Records read from the end of a file

`rollout/src/reverse_jsonl_scanner.rs`: the records of a prefix of a file, from the last to the
first, in chunks that cut them anywhere.

* `ReverseJsonlScanner.scanNext`: the next record;
* `outcomes`: what the records of a text give;
* `scanNext_eq`: the calls return these outcomes, and then nothing.
-/

namespace RenCrow.Rollout

open List ByteLines

/-- `READ_CHUNK_SIZE`. -/
def readChunkSize : Nat := 64 * 1024

/-- `chunk` is what lies before the position in it. -/
structure ReverseJsonlScanner where
  reader : List UInt8
  nextChunkEnd : Nat
  chunk : List UInt8
  recordReversed : List UInt8
  maxRecordBytes : Option Nat
  discardingOversizedRecord : Bool

/-- `chunk[..position]` and `chunk[position + 1..]` for the `rposition` of a line feed. -/
def rposition : List UInt8 → Option (List UInt8 × List UInt8)
  | [] => none
  | byte :: bytes =>
    match rposition bytes with
    | some (before, fragment) => some (byte :: before, fragment)
    | none => if byte = newline then some ([], bytes) else none

namespace ReverseJsonlScanner

/-- A scanner that starts at an offset. -/
def newAt (reader : List UInt8) (endByteOffset : Nat) : Except String ReverseJsonlScanner :=
  if reader.length < endByteOffset then .error "reverse JSONL scan end is past the file"
  else .ok ⟨reader, endByteOffset, [], [], none, false⟩

/-- A scanner that skips longer records. -/
def withMaxRecordBytes (scanner : ReverseJsonlScanner) (maxRecordBytes : Nat) :
    ReverseJsonlScanner :=
  { scanner with maxRecordBytes := some maxRecordBytes }

/-- The next chunk, once the last one is used up. -/
def readChunk (scanner : ReverseJsonlScanner) : ReverseJsonlScanner :=
  let readSize := min scanner.nextChunkEnd readChunkSize
  if scanner.chunk.isEmpty then { scanner with
    nextChunkEnd := scanner.nextChunkEnd - readSize
    chunk := (scanner.reader.drop (scanner.nextChunkEnd - readSize)).take readSize }
  else scanner

/-- The fragment behind `before` joins the record, unless that becomes too long. -/
def extend (scanner : ReverseJsonlScanner) (before fragment : List UInt8) : ReverseJsonlScanner :=
  if scanner.discardingOversizedRecord then { scanner with chunk := before }
  else if scanner.maxRecordBytes.any (· < scanner.recordReversed.length + fragment.length) then
    { scanner with chunk := before, recordReversed := [], discardingOversizedRecord := true }
  else
    { scanner with
      chunk := before, recordReversed := scanner.recordReversed ++ fragment.reverse }

variable {O : Type} (parse : List UInt8 → O)

/-- Parses the record that was collected, unless it is blank. -/
def finishRecord (scanner : ReverseJsonlScanner) : ReverseJsonlScanner × Option O :=
  let record := scanner.recordReversed.reverse
  ({ scanner with recordReversed := [] },
    if record.all isAsciiWhitespace then none else some (parse record))

/-- The end of a record that is parsed, or of one that was too long. -/
def endRecord (scanner : ReverseJsonlScanner) : ReverseJsonlScanner × Option O :=
  if scanner.discardingOversizedRecord then
    ({ scanner with discardingOversizedRecord := false }, none)
  else scanner.finishRecord parse

/-- The loop; every round takes at least one byte. -/
def scanWithin : Nat → ReverseJsonlScanner → ReverseJsonlScanner × Option O
  | 0, scanner => (scanner, none)
  | fuel + 1, scanner =>
    if scanner.chunk.isEmpty && scanner.nextChunkEnd == 0 then scanner.endRecord parse
    else
      let scanner := scanner.readChunk
      match rposition scanner.chunk with
      | some (before, fragment) =>
        match (scanner.extend before fragment).endRecord parse with
        | (scanner, some outcome) => (scanner, some outcome)
        | (scanner, none) => scanWithin fuel scanner
      | none => scanWithin fuel (scanner.extend [] scanner.chunk)

/-- The record before the ones returned so far. -/
def scanNext (scanner : ReverseJsonlScanner) : ReverseJsonlScanner × Option O :=
  scanner.scanWithin parse (scanner.nextChunkEnd + scanner.chunk.length + 1)

/-- The scanner after some calls. -/
def after (scanner : ReverseJsonlScanner) : Nat → ReverseJsonlScanner
  | 0 => scanner
  | calls + 1 => after (scanner.scanNext parse).1 calls

/-! ## The outcomes of a text -/

/-- The record is too long. -/
def skips (limit : Option Nat) (record : List UInt8) : Bool := limit.any (· < record.length)

/-- What a record gives, unless it is skipped or blank. -/
def outcome (limit : Option Nat) (record : List UInt8) : Option O :=
  if skips limit record || record.all isAsciiWhitespace then none else some (parse record)

/-- The outcomes of the records of a text, from the last to the first. -/
def outcomes (limit : Option Nat) (text : List UInt8) : List O :=
  (text.splitOn newline).reverse.filterMap (outcome parse limit)

variable {parse} {limit : Option Nat} {reader chunk tail : List UInt8} {stop : Nat}

theorem outcomes_of_not_mem (h : newline ∉ tail) :
    outcomes parse limit tail = (outcome parse limit tail).toList := by
  rw [outcomes, splitOn_eq_singleton h]
  cases hout : outcome parse limit tail <;> simp [hout]

theorem outcomes_append (before : List UInt8) (h : newline ∉ tail) :
    outcomes parse limit (before ++ newline :: tail) =
      (outcome parse limit tail).toList ++ outcomes parse limit before := by
  have hsplit : (before ++ newline :: tail).splitOn newline =
      before.splitOn newline ++ tail.splitOn newline :=
    splitOnP_append_cons before tail (beq_self_eq_true newline)
  rw [outcomes, hsplit, reverse_append, filterMap_append, ← outcomes_of_not_mem h]
  rfl

theorem rposition_spec (bytes : List UInt8) :
    (rposition bytes).elim (newline ∉ bytes) fun split =>
      split.1 ++ newline :: split.2 = bytes ∧ newline ∉ split.2 := by
  induction bytes with
  | nil => simp [rposition]
  | cons byte bytes ih =>
    unfold rposition
    cases hrest : rposition bytes with
    | some split =>
      rw [hrest] at ih
      exact ⟨congrArg (byte :: ·) ih.1, ih.2⟩
    | none =>
      rw [hrest] at ih
      by_cases hbyte : byte = newline
      · simpa [hbyte] using ih
      · have hne : newline ≠ byte := Ne.symm hbyte
        simpa [hbyte, hne] using ih

/-! ## A scanner inside a record -/

/-- The scanner that has read the end of a record, and has the chunk still to read. -/
def inside (reader : List UInt8) (limit : Option Nat) (stop : Nat) (chunk tail : List UInt8) :
    ReverseJsonlScanner :=
  ⟨reader, stop, chunk, if skips limit tail then [] else tail.reverse, limit, skips limit tail⟩

@[simp] theorem inside_chunk : (inside reader limit stop chunk tail).chunk = chunk := rfl

@[simp] theorem inside_nextChunkEnd :
    (inside reader limit stop chunk tail).nextChunkEnd = stop := rfl

theorem skips_nil (limit : Option Nat) : skips limit [] = false := by
  cases limit <;> simp [skips]

theorem extend_inside (before fragment : List UInt8) :
    (inside reader limit stop chunk tail).extend before fragment =
      inside reader limit stop before (fragment ++ tail) := by
  cases limit with
  | none => simp [inside, extend, skips]
  | some limit =>
    by_cases hskip : limit < tail.length
    · have hmore : limit < fragment.length + tail.length := by omega
      simp [inside, extend, skips, hskip, hmore]
    · simp only [inside, extend, skips, Option.any_some, hskip, decide_false, Bool.false_eq_true,
        if_false, length_reverse, length_append, Nat.add_comm fragment.length]
      split <;> simp_all

theorem endRecord_inside : (inside reader limit stop chunk tail).endRecord parse =
    (inside reader limit stop chunk [], outcome parse limit tail) := by
  cases hskip : skips limit tail <;>
    simp [inside, endRecord, finishRecord, outcome, hskip, skips_nil]

/-- A chunk is there, unless the beginning of the file is reached. -/
theorem readChunk_inside (limit : Option Nat) (tail : List UInt8) (hstop : stop ≤ reader.length)
    (hend : ¬ (chunk = [] ∧ stop = 0)) :
    ∃ stop' chunk', (inside reader limit stop chunk tail).readChunk =
        inside reader limit stop' chunk' tail ∧ chunk' ≠ [] ∧ stop' ≤ reader.length ∧
      stop' + chunk'.length = stop + chunk.length ∧
      reader.take stop' ++ chunk' = reader.take stop ++ chunk := by
  unfold readChunk
  by_cases hchunk : chunk = []
  · subst hchunk
    have hpos : stop ≠ 0 := fun hzero => hend ⟨rfl, hzero⟩
    have hsize : readChunkSize = 65536 := rfl
    refine ⟨_, _, rfl, ?_, ?_, ?_, ?_⟩
    · rw [← length_pos_iff]
      simp [inside]
      omega
    · simp only [inside]
      omega
    · simp [inside]
      omega
    · simp only [inside, append_nil]
      rw [← take_append_drop (stop - min stop readChunkSize) (reader.take stop),
        take_take, drop_take]
      congr 2 <;> omega
  · exact ⟨stop, chunk, by simp [inside, hchunk], hchunk, hstop, rfl, rfl⟩

/-- **The loop** gives the first of the outcomes, and leaves the others. -/
theorem scanWithin_inside (parse : List UInt8 → O) (limit : Option Nat) (chunk : List UInt8)
    {fuel : Nat} (hstop : stop ≤ reader.length) (htail : newline ∉ tail)
    (hfuel : stop + chunk.length < fuel) :
    ∃ stop' chunk', (inside reader limit stop chunk tail).scanWithin parse fuel =
        (inside reader limit stop' chunk' [],
          (outcomes parse limit (reader.take stop ++ chunk ++ tail)).head?) ∧
      stop' ≤ reader.length ∧ outcomes parse limit (reader.take stop' ++ chunk') =
        (outcomes parse limit (reader.take stop ++ chunk ++ tail)).tail := by
  induction fuel generalizing stop chunk tail with
  | zero => omega
  | succ fuel ih =>
    unfold scanWithin
    by_cases hend : chunk = [] ∧ stop = 0
    · -- the first record of the file ends here
      obtain ⟨rfl, rfl⟩ := hend
      have hnil : outcomes parse limit [] = [] := by simp [outcomes, outcome]
      refine ⟨0, [], ?_, hstop, ?_⟩ <;> rw [take_zero, nil_append]
      · rw [nil_append, outcomes_of_not_mem htail, Option.head?_toList]
        exact endRecord_inside
      · rw [nil_append, outcomes_of_not_mem htail, hnil]
        cases outcome parse limit tail <;> rfl
    · obtain ⟨stop', chunk', hread, hne, hstop', hlength, htext⟩ :=
        readChunk_inside limit tail hstop hend
      have hmore : ¬ (chunk.isEmpty && stop == 0) = true := by simpa using hend
      have hposition := rposition_spec chunk'
      have hpos := length_pos_of_ne_nil hne
      simp only [inside_chunk, inside_nextChunkEnd, if_neg hmore, hread, extend_inside,
        endRecord_inside, ← htext]
      cases hsplit : rposition chunk' with
      | some split =>
        obtain ⟨before, fragment⟩ := split
        rw [hsplit] at hposition
        obtain ⟨(rfl : before ++ newline :: fragment = _), hfragment⟩ := hposition
        have hrecord : newline ∉ fragment ++ tail := by simp [hfragment, htail]
        have hwhole : reader.take stop' ++ (before ++ newline :: fragment) ++ tail =
          (reader.take stop' ++ before) ++ newline :: (fragment ++ tail) := by simp
        rw [hwhole, outcomes_append _ hrecord]
        dsimp only
        cases outcome parse limit (fragment ++ tail) with
        | some outcome => exact ⟨stop', before, rfl, hstop', rfl⟩
        | none =>
          have hrest := ih before hstop' not_mem_nil
          rw [append_nil] at hrest
          apply hrest
          simp only [length_append, length_cons] at hlength
          omega
      | none =>
        rw [hsplit] at hposition
        have hrecord : newline ∉ chunk' ++ tail := by simp_all
        have hrest := ih [] hstop' hrecord
        rw [append_nil, ← append_assoc] at hrest
        apply hrest
        simp only [length_nil]
        omega

theorem scanNext_after (parse : List UInt8 → O) (limit : Option Nat) (chunk : List UInt8)
    (hstop : stop ≤ reader.length) (calls : Nat) :
    (((inside reader limit stop chunk []).after parse calls).scanNext parse).2 =
      (outcomes parse limit (reader.take stop ++ chunk))[calls]? := by
  induction calls generalizing stop chunk with
  | zero =>
    obtain ⟨_, _, (hscan : scanNext parse _ = _), -⟩ :=
      scanWithin_inside parse limit chunk hstop not_mem_nil (Nat.lt_succ_self _)
    rw [after, hscan, append_nil, head?_eq_getElem?]
  | succ calls ih =>
    obtain ⟨stop', chunk', (hscan : scanNext parse _ = _), hstop', hrest⟩ :=
      scanWithin_inside parse limit chunk hstop not_mem_nil (Nat.lt_succ_self _)
    rw [after, hscan, ih chunk' hstop', hrest, getElem?_tail, append_nil]

/-- **The calls of a scanner** return the outcomes of the records of the prefix, from the last to
the first, and after them nothing. -/
theorem scanNext_eq (parse : List UInt8 → O) (contents : List UInt8) (endByteOffset : Nat)
    (h : endByteOffset ≤ contents.length) (limit : Option Nat) :
    ∃ scanner, newAt contents endByteOffset = .ok scanner ∧ ∀ calls,
      (((limit.elim scanner scanner.withMaxRecordBytes).after parse calls).scanNext parse).2 =
        (outcomes parse limit (contents.take endByteOffset))[calls]? := by
  refine ⟨_, if_neg (Nat.not_lt.mpr h), fun calls => ?_⟩
  have hcalls := scanNext_after parse limit [] h calls
  rw [inside, skips_nil, append_nil] at hcalls
  cases limit <;> exact hcalls

/-- The blank record and the one that is too long are passed over. -/
theorem scanNext_eq_sample : ∃ scanner, newAt [49, 10, 50, 51, 52, 10, 32, 10] 8 = .ok scanner ∧
    ((scanner.withMaxRecordBytes 2).scanNext id).2 = some [49] := by
  obtain ⟨scanner, hnew, hcalls⟩ :=
    scanNext_eq id [49, 10, 50, 51, 52, 10, 32, 10] 8 (by decide) (some 2)
  exact ⟨scanner, hnew, (hcalls 0).trans (by decide)⟩

end ReverseJsonlScanner

end RenCrow.Rollout
