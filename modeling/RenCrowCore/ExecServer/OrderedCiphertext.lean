import RenCrowCore.Lib.Arrivals

/-!
# The reorder window

`exec-server/src/noise_relay/ordered_ciphertext.rs`: relay records are put back into the order
of their sequence numbers before they are decrypted, within a window.

* `push`: one record arrives, and the records that are contiguous now are released;
* `push_valid`: the window holds what its counters say;
* `push_represents`: the window is a function of what has arrived, `Represents`;
* `push_ok`: a record in the window is accepted.
-/

namespace RenCrow.NoiseRelay

open Arrivals List

/-- The bytes of a message. -/
abbrev Bytes := List UInt8

/-- The errors of the server. -/
inductive ExecServerError where
  | protocol (message : String)
  | json (message : String)
  | closed
deriving DecidableEq, Repr

/-- `MAX_REORDER_DISTANCE`. -/
def maxReorderDistance : Nat := 64

/-- `MAX_PENDING_BYTES`. -/
def maxPendingBytes : Nat := 1024 * 1024

/-- `u32::checked_add(1)`. -/
def checkedSucc (number : Nat) : Except ExecServerError Nat :=
  if number + 1 < 2 ^ 32 then .ok (number + 1)
  else .error (.protocol "Noise relay sequence number exhausted")

/-- Records that wait for others, by their numbers. -/
structure OrderedCiphertextFrames where
  nextSeq : Nat
  pending : List (Nat × Bytes)
  pendingBytes : Nat
deriving DecidableEq, Repr

namespace OrderedCiphertextFrames

/-- Nothing has arrived. -/
def empty : OrderedCiphertextFrames := ⟨0, [], 0⟩

/-- The next record is waited for. -/
def advance (frames : OrderedCiphertextFrames) :
    Except ExecServerError OrderedCiphertextFrames := do
  let nextSeq ← checkedSucc frames.nextSeq
  return { frames with nextSeq }

/-- The expected record is taken out of the ones that wait. -/
def remove (frames : OrderedCiphertextFrames) (payload : Bytes) : OrderedCiphertextFrames :=
  { frames with
    pending := frames.pending.filter fun entry => entry.1 ≠ frames.nextSeq
    pendingBytes := frames.pendingBytes - payload.length }

/-- The loop that releases what is contiguous; every round takes a record out. -/
def drainWithin : Nat → OrderedCiphertextFrames → List Bytes →
    OrderedCiphertextFrames × Except ExecServerError (List Bytes)
  | 0, frames, ready => (frames, .ok ready)
  | fuel + 1, frames, ready =>
    match frames.pending.lookup frames.nextSeq with
    | none => (frames, .ok ready)
    | some payload =>
      match (frames.remove payload).advance with
      | .ok next => drainWithin fuel next (ready ++ [payload])
      | .error error => (frames.remove payload, .error error)

/-- One record arrives; the state after it is there also if it fails. -/
def push (frames : OrderedCiphertextFrames) (seq : Nat) (payload : Bytes) :
    OrderedCiphertextFrames × Except ExecServerError (List Bytes) :=
  if seq < frames.nextSeq ∨ (frames.pending.lookup seq).isSome then (frames, .ok [])
  else if frames.nextSeq < seq then
    if maxReorderDistance < seq - frames.nextSeq then
      (frames, .error (.protocol "Noise relay ciphertext exceeds reorder window"))
    else if maxPendingBytes < frames.pendingBytes + payload.length then
      (frames, .error (.protocol "Noise relay pending ciphertext buffer is full"))
    else
      ({ frames with
          pending := frames.pending ++ [(seq, payload)]
          pendingBytes := frames.pendingBytes + payload.length }, .ok [])
  else
    match frames.advance with
    | .error error => (frames, .error error)
    | .ok next => drainWithin next.pending.length next [payload]

/-! ## The counters -/

/-- The bytes are counted, and the numbers lie between a number and the end of the window. -/
structure Bounded (frames : OrderedCiphertextFrames) (low : Nat) : Prop where
  bytes : frames.pendingBytes = (frames.pending.map fun entry => entry.2.length).sum
  distinct : (frames.pending.map Prod.fst).Nodup
  window : ∀ entry ∈ frames.pending,
    low ≤ entry.1 ∧ entry.1 ≤ frames.nextSeq + maxReorderDistance

/-- A window between two records: what waits is above the expected number. -/
abbrev Valid (frames : OrderedCiphertextFrames) : Prop := Bounded frames (frames.nextSeq + 1)

theorem empty_valid : empty.Valid := ⟨rfl, nodup_nil, by simp [empty]⟩

variable {frames next : OrderedCiphertextFrames} {payload : Bytes} {seq low fuel : Nat}
  {ready payloads : List Bytes}

theorem advance_eq_ok (h : frames.advance = .ok next) :
    next = { frames with nextSeq := frames.nextSeq + 1 } := by
  unfold advance checkedSucc at h
  split at h
  · exact (Except.ok.inj h).symm
  · cases h

theorem advance_eq_error {error : ExecServerError} (h : frames.advance = .error error) :
    ¬ frames.nextSeq + 1 < 2 ^ 32 := by
  intro hlt
  unfold advance checkedSucc at h
  rw [if_pos hlt] at h
  cases h

/-- Taking the expected record out leaves the ones above it. -/
theorem Bounded.remove (h : Bounded frames frames.nextSeq)
    (hlookup : frames.pending.lookup frames.nextSeq = some payload) :
    Valid (frames.remove payload) := by
  refine ⟨?_, h.distinct.sublist (filter_sublist.map _), ?_⟩
  · have hsum : (frames.pending.map fun entry => entry.2.length).sum = payload.length +
        ((frames.remove payload).pending.map fun entry => entry.2.length).sum :=
      sum_lookup List.length h.distinct hlookup
    rw [← h.bytes] at hsum
    show frames.pendingBytes - payload.length = _
    omega
  · intro entry hentry
    obtain ⟨hentry, hne⟩ := mem_filter.mp hentry
    obtain ⟨hlow, hhigh⟩ := h.window entry hentry
    have hne : entry.1 ≠ frames.nextSeq := of_decide_eq_true hne
    refine ⟨?_, hhigh⟩
    show frames.nextSeq + 1 ≤ entry.1
    omega

theorem length_remove_lt (hlookup : frames.pending.lookup frames.nextSeq = some payload) :
    (frames.remove payload).pending.length < frames.pending.length := by
  refine length_filter_lt_length_iff_exists.mpr ?_
  by_contra hnone
  have hkey : frames.nextSeq ∉ frames.pending.map Prod.fst := by
    intro hmem
    obtain ⟨entry, hentry, heq⟩ := mem_map.mp hmem
    exact hnone ⟨entry, hentry, by simp [heq]⟩
  rw [lookup_eq_none_iff.mpr hkey] at hlookup
  cases hlookup

theorem Valid.advance (h : frames.Valid) (hadv : frames.advance = .ok next) :
    Bounded next next.nextSeq := by
  obtain rfl := advance_eq_ok hadv
  refine ⟨h.bytes, h.distinct, fun entry hentry => ?_⟩
  obtain ⟨hlow, hhigh⟩ := h.window entry hentry
  exact ⟨hlow, by dsimp only; omega⟩

/-- **The loop** ends with a window in which the expected record does not wait. -/
theorem drainWithin_valid (h : Bounded frames frames.nextSeq)
    (hfuel : frames.pending.length ≤ fuel) :
    (drainWithin fuel frames ready).1.Valid := by
  induction fuel generalizing frames ready with
  | zero =>
    have hnil : frames.pending = [] := eq_nil_of_length_eq_zero (Nat.le_zero.mp hfuel)
    exact ⟨h.bytes, h.distinct, by simp [drainWithin, hnil]⟩
  | succ fuel ih =>
    unfold drainWithin
    cases hlookup : frames.pending.lookup frames.nextSeq with
    | none =>
      dsimp only
      refine ⟨h.bytes, h.distinct, fun entry hentry => ?_⟩
      obtain ⟨hlow, hhigh⟩ := h.window entry hentry
      have hne : entry.1 ≠ frames.nextSeq := fun heq =>
        Arrivals.lookup_eq_none_iff.mp hlookup (heq ▸ mem_map_of_mem hentry)
      exact ⟨by omega, hhigh⟩
    | some payload =>
      have hrem := h.remove hlookup
      have hless := length_remove_lt hlookup
      dsimp only
      cases hadv : (frames.remove payload).advance with
      | error error => exact hrem
      | ok next =>
        refine ih (hrem.advance hadv) ?_
        obtain rfl := advance_eq_ok hadv
        dsimp only
        omega

/-- **The counters of the window** are right after every record. -/
theorem push_valid (h : frames.Valid) : (frames.push seq payload).1.Valid := by
  unfold push
  split
  · exact h
  · rename_i hnew
    have hmissing := Arrivals.lookup_eq_none_iff.mp
        (Option.not_isSome_iff_eq_none.mp (not_or.mp hnew).2)
    split
    · split
      · exact h
      · split
        · exact h
        · refine ⟨?_, ?_, ?_⟩
          · simp [h.bytes]
          · rw [map_append, nodup_append]
            refine ⟨h.distinct, by simp, ?_⟩
            simp only [map_cons, map_nil, mem_singleton, forall_eq]
            exact fun key hkey heq => hmissing (heq ▸ hkey)
          · intro entry hentry
            rcases mem_append.mp hentry with hentry | hentry
            · exact h.window entry hentry
            · obtain rfl := mem_singleton.mp hentry
              dsimp only
              omega
    · cases hadv : frames.advance with
      | error error => exact h
      | ok next => exact drainWithin_valid (h.advance hadv) (Nat.le_refl _)

/-! ## What the window stands for -/

/-- The window after some arrivals: the lower numbers have been released, and the first arrivals
of the others wait. -/
structure Represents (frames : OrderedCiphertextFrames) (arrivals : List (Nat × Bytes)) : Prop where
  released : ∀ number < frames.nextSeq, (arrivals.lookup number).isSome = true
  pending : frames.pending = ahead arrivals frames.nextSeq

variable {arrivals : List (Nat × Bytes)} {final : OrderedCiphertextFrames} {error : ExecServerError}

theorem empty_represents : empty.Represents [] := ⟨by simp [empty], rfl⟩

theorem lookup_pending (h : frames.Represents arrivals) :
    frames.pending.lookup frames.nextSeq = arrivals.lookup frames.nextSeq := by
  rw [h.pending, lookup_ahead, if_pos (Nat.le_refl _)]

/-- The payloads of consecutive numbers. -/
def Consecutive (arrivals : List (Nat × Bytes)) (first : Nat) (payloads : List Bytes) : Prop :=
  ∀ index payload, payloads[index]? = some payload →
    arrivals.lookup (first + index) = some payload

theorem Consecutive.concat {first : Nat} {payloads : List Bytes}
    (h : Consecutive arrivals first payloads)
    (hlast : arrivals.lookup (first + payloads.length) = some payload) :
    Consecutive arrivals first (payloads ++ [payload]) := by
  intro index found hfound
  rcases Nat.lt_trichotomy index payloads.length with hlt | heq | hgt
  · exact h index found (by rwa [getElem?_append_left hlt] at hfound)
  · subst heq
    rw [getElem?_concat_length] at hfound
    exact hfound ▸ hlast
  · rw [getElem?_eq_none (by simp; omega)] at hfound
    cases hfound

variable (h : frames.Represents arrivals)
include h

/-- Taking the expected record out and going on to the next number. -/
theorem Represents.remove_advance (hlookup : frames.pending.lookup frames.nextSeq = some payload)
    (hadv : (frames.remove payload).advance = .ok next) : next.Represents arrivals := by
  obtain rfl := advance_eq_ok hadv
  constructor
  · intro number hnum
    rcases Nat.lt_succ_iff_lt_or_eq.mp hnum with hlt | heq
    · exact h.released number hlt
    · rw [heq]
      show (arrivals.lookup frames.nextSeq).isSome = true
      rw [← lookup_pending h, hlookup]
      rfl
  · show frames.pending.filter _ = ahead arrivals (frames.nextSeq + 1)
    rw [h.pending, ahead_succ]

theorem drainWithin_represents {first : Nat} (hready : Consecutive arrivals first ready)
    (hfirst : first + ready.length = frames.nextSeq) (hfuel : frames.pending.length ≤ fuel)
    (hdrain : drainWithin fuel frames ready = (final, .ok payloads)) :
    final.Represents arrivals ∧ arrivals.lookup final.nextSeq = none ∧
      Consecutive arrivals first payloads ∧ first + payloads.length = final.nextSeq := by
  induction fuel generalizing frames ready with
  | zero =>
    have hnil : frames.pending = [] := eq_nil_of_length_eq_zero (Nat.le_zero.mp hfuel)
    cases hdrain
    refine ⟨h, ?_, hready, hfirst⟩
    rw [← lookup_pending h, hnil, lookup_nil]
  | succ fuel ih =>
    unfold drainWithin at hdrain
    cases hlookup : frames.pending.lookup frames.nextSeq with
    | none =>
      rw [hlookup] at hdrain
      cases hdrain
      exact ⟨h, (lookup_pending h).symm.trans hlookup, hready, hfirst⟩
    | some payload =>
      have hless := length_remove_lt hlookup
      rw [hlookup] at hdrain
      dsimp only at hdrain
      cases hadv : (frames.remove payload).advance with
      | error error =>
        rw [hadv] at hdrain
        cases hdrain
      | ok next =>
        rw [hadv] at hdrain
        have hnext := h.remove_advance hlookup hadv
        have hlast : arrivals.lookup (first + ready.length) = some payload := by
          rw [hfirst, ← lookup_pending h, hlookup]
        obtain rfl := advance_eq_ok hadv
        refine ih hnext (hready.concat hlast) ?_ ?_ hdrain
        · simp only [length_append, length_singleton]
          show _ = frames.nextSeq + 1
          omega
        · dsimp only
          omega

/-- A record is a repetition if its number has arrived. -/
theorem isRepetition_iff : seq < frames.nextSeq ∨ (frames.pending.lookup seq).isSome = true ↔
      (arrivals.lookup seq).isSome = true := by
  rw [h.pending, lookup_ahead]
  constructor
  · rintro (hlt | hsome)
    · exact h.released seq hlt
    · split at hsome
      · exact hsome
      · cases hsome
  · intro hsome
    rcases Nat.lt_or_ge seq frames.nextSeq with hlt | hge
    · exact .inl hlt
    · exact .inr (by rw [if_pos hge]; exact hsome)

/-- The expected record arrives. -/
theorem Represents.expected (hnone : arrivals.lookup frames.nextSeq = none) :
    ({ frames with nextSeq := frames.nextSeq + 1 } : OrderedCiphertextFrames).Represents
      (arrivals ++ [(frames.nextSeq, payload)]) := by
  constructor
  · intro number hnum
    rw [lookup_concat]
    rcases Nat.lt_succ_iff_lt_or_eq.mp hnum with hlt | heq
    · simp [h.released number hlt]
    · simp [heq]
  · show frames.pending = ahead _ (frames.nextSeq + 1)
    rw [ahead_concat_new hnone, if_neg (by omega), ← ahead_succ, h.pending]
    -- no arrival has the expected number
    have hmissing : frames.nextSeq ∉ (ahead arrivals frames.nextSeq).map Prod.fst := by
      rw [← Arrivals.lookup_eq_none_iff, lookup_ahead, if_pos (Nat.le_refl _), hnone]
    refine (filter_eq_self.mpr fun entry hentry => ?_).symm
    rw [decide_eq_true_iff]
    intro heq
    have hmem := mem_map_of_mem (f := Prod.fst) hentry
    exact hmissing (heq ▸ hmem)

/-- **A record that is accepted** leaves the window that stands for the arrivals with it, and
releases the consecutive numbers from the expected one on. -/
theorem push_represents (hnone : arrivals.lookup frames.nextSeq = none)
    (hpush : frames.push seq payload = (final, .ok payloads)) :
    final.Represents (arrivals ++ [(seq, payload)]) ∧
      (arrivals ++ [(seq, payload)]).lookup final.nextSeq = none ∧
      Consecutive (arrivals ++ [(seq, payload)]) frames.nextSeq payloads ∧
      frames.nextSeq + payloads.length = final.nextSeq := by
  unfold push at hpush
  split at hpush
  · rename_i hrepeated
    have hknown := (isRepetition_iff h).mp hrepeated
    have hne : frames.nextSeq ≠ seq := by
      rintro rfl
      rw [hnone] at hknown
      cases hknown
    cases hpush
    refine ⟨⟨fun number hnum => ?_, ?_⟩, ?_, by simp [Consecutive], rfl⟩
    · rw [lookup_concat]
      simp [h.released number hnum]
    · rw [ahead_concat_known hknown, h.pending]
    · rw [lookup_concat, hnone, if_neg hne]
      rfl
  · rename_i hnew
    have hmissing : arrivals.lookup seq = none :=
      Option.not_isSome_iff_eq_none.mp fun hsome => hnew ((isRepetition_iff h).mpr hsome)
    split at hpush
    · rename_i hlater
      split at hpush
      · cases hpush
      · split at hpush
        · cases hpush
        · cases hpush
          refine ⟨⟨fun number hnum => ?_, ?_⟩, ?_, by simp [Consecutive], rfl⟩
          · rw [lookup_concat]
            simp [h.released number hnum]
          · rw [ahead_concat_new hmissing, if_pos (Nat.le_of_lt hlater), ← h.pending]
          · show (arrivals ++ [(seq, payload)]).lookup frames.nextSeq = none
            rw [lookup_concat, hnone, if_neg (by omega)]
            rfl
    · have heq : seq = frames.nextSeq := by
        omega
      subst heq
      cases hadv : frames.advance with
      | error error =>
        rw [hadv] at hpush
        cases hpush
      | ok next =>
        rw [hadv] at hpush
        obtain rfl := advance_eq_ok hadv
        have hsingle : Consecutive (arrivals ++ [(frames.nextSeq, payload)])
            frames.nextSeq [payload] :=
          @Consecutive.concat payload _ _ [] (fun _ _ hfound => by simp at hfound)
            (by rw [lookup_concat]; simp [hnone])
        exact drainWithin_represents (h.expected hnone) hsingle rfl (Nat.le_refl _) hpush

/-- The loop does not run out of numbers if none of the arrivals has the last one. -/
theorem drainWithin_ok
    (hnums : ∀ number, (arrivals.lookup number).isSome = true → number + 1 < 2 ^ 32) :
    ∃ payloads, (drainWithin fuel frames ready).2 = .ok payloads := by
  induction fuel generalizing frames ready with
  | zero => exact ⟨ready, rfl⟩
  | succ fuel ih =>
    unfold drainWithin
    cases hlookup : frames.pending.lookup frames.nextSeq with
    | none => exact ⟨ready, rfl⟩
    | some payload =>
      dsimp only
      cases hadv : (frames.remove payload).advance with
      | ok next => exact ih (h.remove_advance hlookup hadv)
      | error error =>
        have hlast : ¬ frames.nextSeq + 1 < 2 ^ 32 :=
          @advance_eq_error (frames.remove payload) error hadv
        refine absurd (hnums frames.nextSeq ?_) hlast
        rw [← lookup_pending h, hlookup]
        rfl

/-- **A record in the window** is accepted. -/
theorem push_ok (hbounded : frames.Valid) (hnone : arrivals.lookup frames.nextSeq = none)
    (hnums : ∀ number, ((arrivals ++ [(seq, payload)]).lookup number).isSome = true →
      number + 1 < 2 ^ 32)
    (hwindow : arrivals.lookup seq = none → seq ≤ frames.nextSeq + maxReorderDistance ∧
      (frames.nextSeq < seq → ((ahead arrivals frames.nextSeq).map fun entry =>
        entry.2.length).sum + payload.length ≤ maxPendingBytes)) :
    ∃ payloads, (frames.push seq payload).2 = .ok payloads := by
  unfold push
  split
  · exact ⟨[], rfl⟩
  · rename_i hnew
    have hmissing : arrivals.lookup seq = none :=
      Option.not_isSome_iff_eq_none.mp fun hsome => hnew ((isRepetition_iff h).mpr hsome)
    obtain ⟨hnear, hroom⟩ := hwindow hmissing
    split
    · rename_i hlater
      rw [if_neg (by omega), if_neg ?_]
      · exact ⟨[], rfl⟩
      · have hroom := hroom hlater
        rw [← h.pending, ← hbounded.bytes] at hroom
        omega
    · have heq : seq = frames.nextSeq := by
        omega
      subst heq
      cases hadv : frames.advance with
      | error error =>
        refine absurd (hnums frames.nextSeq ?_) (advance_eq_error hadv)
        simp
      | ok next =>
        obtain rfl := advance_eq_ok hadv
        exact drainWithin_ok (h.expected hnone) hnums

end OrderedCiphertextFrames

end RenCrow.NoiseRelay
