import RenCrowCore.ThreadStore.Materialization

/-!
# Incremental projection

A rollout file grows by appends of any bytes, and from time to time it is materialised.  Only
complete lines are projected, and the checkpoint says where the next run goes on, so the rows
do not depend on when the runs were made.

* `stepsEnd`: the ordinal after a list of steps, the same for reader and writer;
* `Projected`: the rows are those of complete lines, projected at once;
* `Projected.materialize`: a run on top of projected lines projects all lines;
* `materializeToSqlite_incremental`: after any runs, the next one leaves what one run on the
  whole file does.
-/

namespace RenCrow.ThreadStore

open Fallible List ByteLines

variable {lines : List (List UInt8)}

/-! ## Ordinals of steps -/

/-- The ordinal after a step. -/
def stepEnd : RolloutProjectionStep → Nat
  | .line projection => projection.position.ordinal + 1
  | .skippedOrdinalRange _ endOrdinalExclusive => endOrdinalExclusive

/-- The ordinal after a list of steps. -/
def stepsEnd (nextOrdinal : Nat) (steps : List RolloutProjectionStep) : Nat :=
  steps.foldl (fun _ step => stepEnd step) nextOrdinal

theorem stepsEnd_append (nextOrdinal : Nat) (steps more : List RolloutProjectionStep) :
    stepsEnd nextOrdinal (steps ++ more) = stepsEnd (stepsEnd nextOrdinal steps) more :=
  foldl_append

/-- A step starts where the steps before it end. -/
def stepFits (nextOrdinal : Nat) : RolloutProjectionStep → Prop
  | .line projection => projection.position.ordinal = nextOrdinal
  | .skippedOrdinalRange startOrdinal endOrdinalExclusive =>
    startOrdinal = nextOrdinal ∧ startOrdinal < endOrdinalExclusive

/-- Each step starts where the one before has ended. -/
def stepsFit : Nat → List RolloutProjectionStep → Prop
  | _, [] => True
  | nextOrdinal, step :: steps => stepFits nextOrdinal step ∧ stepsFit (stepEnd step) steps

variable {nextOrdinal : Nat} {steps more : List RolloutProjectionStep}

theorem stepsFit_append (hsteps : stepsFit nextOrdinal steps)
    (hmore : stepsFit (stepsEnd nextOrdinal steps) more) :
    stepsFit nextOrdinal (steps ++ more) := by
  induction steps generalizing nextOrdinal with
  | nil => exact hmore
  | cons step steps ih => exact ⟨hsteps.1, ih hsteps.2 hmore⟩

theorem stepsFit_le (h : stepsFit nextOrdinal steps) :
    nextOrdinal ≤ stepsEnd nextOrdinal steps := by
  induction steps generalizing nextOrdinal with
  | nil => exact le_rfl
  | cons step steps ih =>
    refine le_trans ?_ (ih h.2)
    cases step with
    | line projection => exact h.1 ▸ Nat.le_succ _
    | skippedOrdinalRange first stop => exact h.1.1 ▸ h.1.2.le

/-! ## Errors of integers -/

/-- The errors for values that are too large. -/
def rangeErrors : List ThreadStoreError :=
  [.internal "rollout ordinal exceeds SQLite integer range",
    .internal "rollout byte offset exceeds SQLite integer range",
    .internal "durable rollout byte offset overflow"]

/-- A result with the property, unless a value was too large. -/
def InRange {α : Type} (P : α → Prop) : ThreadStoreResult α → Prop
  | .ok result => P result
  | .error e => e ∈ rangeErrors

section InRange

variable {α β : Type} {P : α → Prop} {Q : β → Prop} {x : ThreadStoreResult α}

theorem InRange.of_ok {result : α} (h : InRange P x) (hx : x = .ok result) : P result := by
  rwa [hx] at h

theorem InRange.imp {R : α → Prop} (h : InRange P x) (himp : ∀ a, P a → R a) : InRange R x := by
  cases x with
  | ok a => exact himp a h
  | error e => exact h

theorem InRange.bind {f : α → ThreadStoreResult β} (hx : InRange P x)
    (hf : ∀ a, x = .ok a → P a → InRange Q (f a)) : InRange Q (x >>= f) := by
  cases x with
  | ok a => exact hf a rfl hx
  | error e => exact hx

/-- A fold whose steps keep what is known of the state and of the rest of the list. -/
theorem InRange.foldlM {step : β → α → ThreadStoreResult β} (known : β → List α → Prop)
    (hstep : ∀ state a rest, known state (a :: rest) → InRange (known · rest) (step state a))
    {state : β} {list : List α} (h : known state list) :
    InRange (known · []) (list.foldlM step state) := by
  induction list generalizing state with
  | nil => exact h
  | cons a rest ih =>
    rw [foldlM_cons]
    exact (hstep state a rest h).bind fun next _ hnext => ih hnext

theorem sqliteInteger_inRange {value : Nat} {field : String}
    (hfield : field = "rollout ordinal" ∨ field = "rollout byte offset") :
    InRange (fun integer => integer = value ∧ value ≤ i64Max) (sqliteInteger value field) := by
  unfold sqliteInteger
  split
  · rename_i hle
    exact ⟨rfl, hle⟩
  · show _ ∈ rangeErrors
    rcases hfield with rfl | rfl <;> decide

theorem checkedAdd_inRange {a b : Nat} {message : String} (h : .internal message ∈ rangeErrors) :
    InRange (· = a + b) (checkedAdd a b message) := by
  unfold checkedAdd
  split
  · exact rfl
  · exact h

end InRange

/-! ## What a line is read as -/

/-- Items and realtime items have the times that their rows need. -/
def ProjectedRolloutLine.IsTimed (projection : ProjectedRolloutLine) : Prop :=
  (∀ change ∈ projection.changes.changedItems,
      (change.startedAtMs.or projection.fallbackCreatedAtMs).isSome = true) ∧
    (projection.realtimeItem.isSome = true → projection.fallbackCreatedAtMs.isSome = true)

/-- The items of a step say when they were created. -/
def RolloutProjectionStep.IsTimed : RolloutProjectionStep → Prop
  | .line projection => projection.IsTimed
  | .skippedOrdinalRange _ _ => True

/-- Steps that go on from an ordinal and have their times. -/
structure ReadFrom (nextOrdinal : Nat) (steps : List RolloutProjectionStep) : Prop where
  fit : stepsFit nextOrdinal steps
  timed : ∀ step ∈ steps, step.IsTimed

theorem ReadFrom.append (hsteps : ReadFrom nextOrdinal steps)
    (hmore : ReadFrom (stepsEnd nextOrdinal steps) more) :
    ReadFrom nextOrdinal (steps ++ more) where
  fit := stepsFit_append hsteps.fit hmore.fit
  timed := forall_mem_append.mpr ⟨hsteps.timed, hmore.timed⟩

theorem ReadFrom.tail {step : RolloutProjectionStep}
    (h : ReadFrom nextOrdinal (step :: steps)) : ReadFrom (stepEnd step) steps :=
  ⟨h.fit.2, fun later hlater => h.timed later (mem_cons_of_mem _ hlater)⟩

theorem ReadFrom.nil (nextOrdinal : Nat) : ReadFrom nextOrdinal [] := ⟨trivial, by simp⟩

/-- A position inside a file. -/
def LinePosition.Within (length : Nat) (position : LinePosition) : Prop :=
  position.startByteOffset ≤ length ∧ position.endByteOffset ≤ length

/-- The line of a step is inside a file. -/
def RolloutProjectionStep.Within (length : Nat) : RolloutProjectionStep → Prop
  | .line projection => projection.position.Within length
  | .skippedOrdinalRange _ _ => True

theorem RolloutProjectionStep.Within.mono {step : RolloutProjectionStep} {length longer : Nat}
    (h : step.Within length) (hle : length ≤ longer) : step.Within longer := by
  cases step with
  | line => exact ⟨h.1.trans hle, h.2.trans hle⟩
  | skippedOrdinalRange => trivial

open ReadFrom

section Reading

variable {decode : List UInt8 → LineReading} {start : Option Nat} {offset lineEnd : Nat}
  {line : RolloutLine} {bytes : List UInt8}

variable (decode) in
/-- The ordinal of a line, if it is read as a record. -/
def lineOrdinal (bytes : List UInt8) : Option Nat :=
  if bytes.all isAsciiWhitespace then none
  else
    match decode bytes with
    | .malformed | .unknown => none
    | .decoded line => line.ordinal

/-- What a line with an ordinal is read as: steps to the next ordinal, in the bytes of the line. -/
structure ReadsLine (nextOrdinal length : Nat) (ordinal : Option Nat)
    (steps : List RolloutProjectionStep) (next : Nat) :
    Prop extends ReadFrom nextOrdinal steps where
  next_eq : stepsEnd nextOrdinal steps = next
  within : ∀ step ∈ steps, step.Within length
  after : ∀ ord ∈ ordinal, ord < next

theorem ReadsLine.nothing {length : Nat} : ReadsLine nextOrdinal length none [] nextOrdinal :=
  ⟨nil _, rfl, by simp, by simp⟩

theorem isTimed_of_needsTimestamp (pos : LinePosition) {changes : ThreadHistoryChangeSet}
    {realtimeItem : Option RealtimeItem} {timestampMs : Option Int}
    (h : ¬ (needsTimestamp changes realtimeItem = true ∧ timestampMs = none)) :
    ProjectedRolloutLine.IsTimed
      ⟨pos, if needsTimestamp changes realtimeItem = true then timestampMs else none, changes,
        realtimeItem⟩ := by
  have hsome : needsTimestamp changes realtimeItem = true → timestampMs.isSome = true := by
    intro hneeds
    rw [Option.isSome_iff_ne_none]
    exact fun hnone => h ⟨hneeds, hnone⟩
  refine ⟨?_, ?_⟩
  · intro change hchg
    cases hstarted : change.startedAtMs with
    | some _ => rfl
    | none =>
      have hneeds : needsTimestamp changes realtimeItem = true :=
        Bool.or_eq_true_iff.mpr (Or.inl (any_eq_true.mpr ⟨change, hchg, by simp [hstarted]⟩))
      rw [if_pos hneeds, Option.none_or]
      exact hsome hneeds
  · intro hitem
    have hneeds : needsTimestamp changes realtimeItem = true :=
      Bool.or_eq_true_iff.mpr (Or.inr hitem)
    rw [if_pos hneeds]
    exact hsome hneeds

/-- The steps of a decoded line go on from the expected ordinal. -/
theorem readDecodedLine_inRange :
    InRange (fun (steps, next) => ReadsLine nextOrdinal
      (max offset lineEnd) line.ordinal steps next)
      (readDecodedLine start offset lineEnd nextOrdinal line) := by
  unfold readDecodedLine
  split
  · rename_i hord
    rw [hord]
    exact ReadsLine.nothing
  rename_i ord hord
  rw [hord]
  split
  · rename_i hlt
    exact ⟨nil _, rfl, by simp, by simpa using hlt⟩
  rename_i hle
  refine (checkedAdd_inRange (by decide)).bind ?_
  rintro following - rfl
  have hafter : ∀ other ∈ some ord, other < ord + 1 := by simp
  split
  · exact ⟨⟨⟨⟨rfl, by omega⟩, trivial⟩, by simp [RolloutProjectionStep.IsTimed]⟩, rfl,
      by simp [RolloutProjectionStep.Within], hafter⟩
  · rename_i htimed
    have htimed' := isTimed_of_needsTimestamp ⟨ord, offset, lineEnd⟩ htimed
    have hwithin : LinePosition.Within (max offset lineEnd) ⟨ord, offset, lineEnd⟩ :=
      ⟨le_max_left .., le_max_right ..⟩
    split
    · rename_i hgap
      exact ⟨⟨⟨⟨rfl, hgap⟩, rfl, trivial⟩, by simpa [RolloutProjectionStep.IsTimed] using htimed'⟩,
        rfl,
        by simpa [RolloutProjectionStep.Within] using hwithin, hafter⟩
    · rename_i hgap
      have hsame : ord = nextOrdinal := by omega
      exact ⟨⟨⟨hsame, trivial⟩, by simpa [RolloutProjectionStep.IsTimed] using htimed'⟩, rfl,
        by simpa [RolloutProjectionStep.Within] using hwithin, hafter⟩

theorem readLine_inRange :
    InRange (fun (steps, next) =>
      ReadsLine nextOrdinal (max offset lineEnd) (lineOrdinal decode bytes) steps next)
      (readLine decode start offset lineEnd nextOrdinal bytes) := by
  unfold readLine lineOrdinal
  split
  · exact ReadsLine.nothing
  cases decode bytes with
  | malformed | unknown => exact ReadsLine.nothing
  | decoded line => exact readDecodedLine_inRange

/-- What lines are read as, from an offset on. -/
structure ReadsLines (decode : List UInt8 → LineReading) (offset nextOrdinal : Nat)
    (lines : List (List UInt8)) (steps : List RolloutProjectionStep) (stop : Nat) :
    Prop extends ReadFrom nextOrdinal steps where
  stop_eq : stop = offset + lines.flatten.length
  within : ∀ step ∈ steps, step.Within stop
  after : ∀ line ∈ lines, ∀ ord ∈ lineOrdinal decode line, ord < stepsEnd nextOrdinal steps

theorem readLines_inRange :
    InRange (fun (steps, stop) => ReadsLines decode offset nextOrdinal lines steps stop)
    (readLines decode start offset nextOrdinal lines) := by
  induction lines generalizing offset nextOrdinal with
  | nil => exact ⟨nil _, rfl, by simp, by simp⟩
  | cons line lines ih =>
    refine (checkedAdd_inRange (by decide)).bind ?_
    rintro lineEnd - rfl
    refine readLine_inRange.bind ?_
    rintro ⟨first, next⟩ - ⟨hfirst, rfl, hwithin, hafter⟩
    refine ih.bind ?_
    rintro ⟨rest, stop⟩ - ⟨hrest, rfl, hwithin', hafter'⟩
    refine ⟨hfirst.append hrest, ?_, ?_, ?_⟩
    · rw [flatten_cons, length_append, Nat.add_assoc]
    · refine forall_mem_append.mpr ⟨fun step hstep => ?_, hwithin'⟩
      exact (hwithin step hstep).mono (by omega)
    · rw [stepsEnd_append]
      refine forall_mem_cons.mpr ⟨fun ord hord => ?_, hafter'⟩
      exact lt_of_lt_of_le (hafter ord hord) (stepsFit_le hrest.fit)

theorem readLines_cons (line : List UInt8) (lines : List (List UInt8)) :
    readLines decode start offset nextOrdinal (line :: lines) = (do
      let lineEnd ← checkedAdd offset line.length "durable rollout byte offset overflow"
      let first ← readLine decode start offset lineEnd nextOrdinal line
      let rest ← readLines decode start lineEnd first.2 lines
      return (first.1 ++ rest.1, rest.2)) := rfl

/-- Lines are read one after the other, the ordinal going along. -/
theorem readLines_append (lines more : List (List UInt8)) :
    readLines decode start offset nextOrdinal (lines ++ more) = (do
      let first ← readLines decode start offset nextOrdinal lines
      let rest ← readLines decode start first.2 (stepsEnd nextOrdinal first.1) more
      return (first.1 ++ rest.1, rest.2)) := by
  induction lines generalizing offset nextOrdinal with
  | nil =>
    change _ = (readLines decode start offset nextOrdinal more >>= fun result =>
      pure ([] ++ result.1, result.2))
    simp
  | cons line lines ih =>
    rw [cons_append, readLines_cons, readLines_cons, bind_assoc]
    refine bind_congr fun lineEnd => ?_
    cases hfirst : readLine decode start offset lineEnd nextOrdinal line with
    | error e => rfl
    | ok first =>
      obtain ⟨steps, next⟩ := first
      obtain ⟨-, rfl, -, -⟩ := readLine_inRange.of_ok hfirst
      change (readLines decode start lineEnd (stepsEnd nextOrdinal steps) (lines ++ more) >>= _) =
        (readLines decode start lineEnd (stepsEnd nextOrdinal steps) lines >>= _ >>= _)
      rw [ih, bind_assoc, bind_assoc]
      refine bind_congr fun result => ?_
      rw [pure_bind, bind_assoc, stepsEnd_append]
      refine bind_congr fun rest => ?_
      rw [pure_bind, append_assoc]

end Reading

/-! ## What the steps are written as -/

section Writing

variable (threadId : String) (rows : RolloutRows)
  {projection : ProjectedRolloutLine} {fallback : Option Int}
  {step : RolloutProjectionStep} {after : RolloutRows × Nat}

theorem applyItem_inRange (pos : LinePosition) {change : ThreadHistoryItemChange}
    (h : (change.startedAtMs.or fallback).isSome = true) :
    InRange (fun _ => True) (applyItem threadId pos fallback rows change) := by
  obtain ⟨createdAtMs, hcreated⟩ := Option.isSome_iff_exists.mp h
  unfold applyItem
  rw [hcreated]
  trivial

theorem applyChangeSet_inRange (pos : LinePosition) {changes : ThreadHistoryChangeSet}
    (h : ∀ change ∈ changes.changedItems, (change.startedAtMs.or fallback).isSome = true) :
    InRange (fun _ => True) (applyChangeSet threadId pos fallback changes rows) := by
  refine (InRange.foldlM (fun _ rest => ∀ change ∈ rest,
    (change.startedAtMs.or fallback).isSome = true) ?_ h).imp fun _ _ => trivial
  intro rows change rest hrest
  obtain ⟨hchange, hrest⟩ := forall_mem_cons.mp hrest
  exact (applyItem_inRange threadId rows pos hchange).imp fun _ _ => hrest

theorem applyRealtime_inRange
    (h : projection.realtimeItem.isSome = true → projection.fallbackCreatedAtMs.isSome = true) :
    InRange (fun _ => True) (applyRealtime projection rows) := by
  unfold applyRealtime
  split
  · trivial
  · rename_i hitem hcreated
    rw [hitem, hcreated] at h
    exact absurd (h rfl) Bool.false_ne_true
  · trivial

/-- A line that fits and has its times can only fail on its integers. -/
theorem applyLine_inRange (hfits : projection.position.ordinal = nextOrdinal)
    (htimed : projection.IsTimed) :
    InRange (fun after => after.2 = projection.position.ordinal + 1)
      (applyLine threadId projection rows nextOrdinal) := by
  refine (sqliteInteger_inRange (.inl rfl)).bind ?_
  rintro _ - ⟨rfl, -⟩
  rw [if_neg (not_not_intro hfits)]
  refine (sqliteInteger_inRange (.inr rfl)).bind fun _ _ _ => ?_
  refine (sqliteInteger_inRange (.inr rfl)).bind fun _ _ _ => ?_
  refine (applyChangeSet_inRange threadId rows _ htimed.1).bind fun _ _ _ => ?_
  refine (applyRealtime_inRange _ htimed.2).bind fun _ _ _ => ?_
  split
  · exact rfl
  · show _ ∈ rangeErrors
    decide

theorem applySkipped_inRange {start stop : Nat} (hstart : start = nextOrdinal)
    (hlt : start < stop) :
    InRange (· = stop) (applySkipped threadId start stop nextOrdinal) := by
  refine (sqliteInteger_inRange (.inl rfl)).bind ?_
  rintro _ - ⟨rfl, -⟩
  rw [if_neg (not_not_intro hstart)]
  refine (sqliteInteger_inRange (.inl rfl)).bind ?_
  rintro _ - ⟨rfl, -⟩
  rw [if_neg (Nat.not_le.mpr hlt)]
  exact rfl

theorem applyStep_inRange {state : RolloutRows × Nat} (hfits : stepFits state.2 step)
    (htimed : step.IsTimed) :
    InRange (fun after => after.2 = stepEnd step) (applyStep threadId state step) := by
  cases step with
  | line projection => exact applyLine_inRange threadId state.1 hfits htimed
  | skippedOrdinalRange start stop =>
    exact (applySkipped_inRange threadId hfits.1 hfits.2).bind fun _ _ hnext => hnext

/-- Steps that were read can only fail on their integers. -/
theorem applySteps_inRange (hread : ReadFrom nextOrdinal steps) :
    InRange (fun after => after.2 = stepsEnd nextOrdinal steps)
      (steps.foldlM (applyStep threadId) (rows, nextOrdinal)) := by
  refine (InRange.foldlM (fun (state : RolloutRows × Nat) rest => ReadFrom state.2 rest ∧
    stepsEnd state.2 rest = stepsEnd nextOrdinal steps) ?_ ⟨hread, rfl⟩).imp fun _ h => h.2
  rintro state step rest ⟨hrest, hend⟩
  refine (applyStep_inRange threadId hrest.fit.1 (hrest.timed step mem_cons_self)).imp ?_
  intro next hnext
  rw [hnext]
  exact ⟨hrest.tail, hend⟩

end Writing

/-! ## The checkpoint goes along -/

/-- The rows with another checkpoint. -/
def RolloutRows.withCheckpoint (rows : RolloutRows) (checkpoint : Option ProjectionState) :
    RolloutRows :=
  { rows with projection := checkpoint }

open RolloutRows

section Checkpoint

variable (threadId : String) (rows : RolloutRows) (checkpoint : Option ProjectionState)

theorem applyTurns_withCheckpoint (pos : LinePosition) (turns : List ThreadHistoryTurnMetadata) :
    turns.foldl (applyTurn pos) (rows.withCheckpoint checkpoint) =
      (turns.foldl (applyTurn pos) rows).withCheckpoint checkpoint :=
  foldl_hom (withCheckpoint · checkpoint) fun _ _ => rfl

theorem applyChangeSet_withCheckpoint (pos : LinePosition) (fallback : Option Int)
    (changes : ThreadHistoryChangeSet) :
    applyChangeSet threadId pos fallback changes (rows.withCheckpoint checkpoint) =
      (applyChangeSet threadId pos fallback changes rows).map (withCheckpoint · checkpoint) := by
  unfold applyChangeSet
  rw [applyTurns_withCheckpoint]
  refine foldlM_map (g := (withCheckpoint · checkpoint)) ?_ _ _
  intro rows change
  unfold applyItem
  split <;> rfl

theorem applyRealtime_withCheckpoint (projection : ProjectedRolloutLine) :
    applyRealtime projection (rows.withCheckpoint checkpoint) =
      (applyRealtime projection rows).map (withCheckpoint · checkpoint) := by
  unfold applyRealtime
  split <;> rfl

theorem applyLine_withCheckpoint (projection : ProjectedRolloutLine) (nextOrdinal : Nat) :
    applyLine threadId projection (rows.withCheckpoint checkpoint) nextOrdinal =
      (applyLine threadId projection rows nextOrdinal).map fun state =>
        (state.1.withCheckpoint checkpoint, state.2) := by
  unfold applyLine
  rw [applyChangeSet_withCheckpoint]
  cases sqliteInteger projection.position.ordinal "rollout ordinal" with
  | error e => rfl
  | ok ord =>
    dsimp only [bind, Except.bind]
    split
    · rfl
    cases sqliteInteger projection.position.startByteOffset "rollout byte offset" with
    | error e => rfl
    | ok _ =>
      cases sqliteInteger projection.position.endByteOffset "rollout byte offset" with
      | error e => rfl
      | ok _ =>
        cases applyChangeSet threadId projection.position projection.fallbackCreatedAtMs
            projection.changes rows with
        | error e => rfl
        | ok changed =>
          dsimp only [Except.map]
          rw [applyRealtime_withCheckpoint]
          cases applyRealtime projection changed with
          | error e => rfl
          | ok final =>
            dsimp only [Except.map]
            split <;> rfl

/-- The checkpoint of the rows does not matter to the steps. -/
theorem applySteps_withCheckpoint (nextOrdinal : Nat) (steps : List RolloutProjectionStep) :
    steps.foldlM (applyStep threadId) (rows.withCheckpoint checkpoint, nextOrdinal) =
      (steps.foldlM (applyStep threadId) (rows, nextOrdinal)).map fun state =>
        (state.1.withCheckpoint checkpoint, state.2) := by
  have hstep : ∀ (state : RolloutRows × Nat) step,
      applyStep threadId (state.1.withCheckpoint checkpoint, state.2) step =
        (applyStep threadId state step).map fun state =>
          (state.1.withCheckpoint checkpoint, state.2) := by
    intro state step
    cases step with
    | line projection =>
      exact applyLine_withCheckpoint threadId state.1 checkpoint projection state.2
    | skippedOrdinalRange start stop =>
      dsimp only [applyStep]
      cases applySkipped threadId start stop state.2 <;> rfl
  exact foldlM_map (g := fun state => (state.1.withCheckpoint checkpoint, state.2)) hstep
    (rows, nextOrdinal) steps

end Checkpoint

/-! ## Rows of complete lines -/

section Projecting

variable (decode : List UInt8 → LineReading) (threadId : String) (header : SessionMeta)
  {rest : List UInt8}

/-- The rows are those of the lines, projected at once from no rows. -/
def Projected (lines : List (List UInt8)) (rows : RolloutRows) : Prop :=
  ∃ steps projected,
    readLines decode header.subagentHistoryStartOrdinal 0 (initialOrdinal header) lines =
      .ok (steps, lines.flatten.length) ∧
    steps.foldlM (applyStep threadId) ({}, initialOrdinal header) =
      .ok (projected, stepsEnd (initialOrdinal header) steps) ∧
    rows = projected.withCheckpoint (if lines = [] then none
      else some ⟨lines.flatten.length, stepsEnd (initialOrdinal header) steps⟩) ∧
    (lines ≠ [] → initialOrdinal header ≤ i64Max ∧ lines.flatten.length ≤ i64Max)

theorem projected_nil : Projected decode threadId header [] {} :=
  ⟨[], {}, rfl, rfl, rfl, fun h => absurd rfl h⟩

variable {decode threadId header} {rows : RolloutRows}

theorem checkpoint_eq {projected : RolloutRows}
    (hread : readLines decode header.subagentHistoryStartOrdinal 0 (initialOrdinal header) lines =
      .ok (steps, lines.flatten.length))
    (hrows : rows = projected.withCheckpoint (if lines = [] then none
      else some ⟨lines.flatten.length, stepsEnd (initialOrdinal header) steps⟩)) :
    rows.projection.getD ⟨0, initialOrdinal header⟩ =
      ⟨lines.flatten.length, stepsEnd (initialOrdinal header) steps⟩ := by
  subst hrows
  split
  · rename_i hnil
    subst hnil
    cases hread
    rfl
  · rfl

/-- A run on rows of complete lines gives the rows of all complete lines, and can only fail on
integers. -/
theorem Projected.materialize (hrows : Projected decode threadId header lines rows) :
    InRange (Projected decode threadId header (lines ++ completeLines [] rest))
      (materializeToSqlite decode threadId ⟨header, lines.flatten ++ rest⟩ rows) := by
  obtain ⟨steps, projected, hread, happly, hcp, hrange⟩ := hrows
  unfold materializeToSqlite readProjectionSteps
  rw [checkpoint_eq hread hcp]
  dsimp only
  rw [if_neg (by simp), drop_left]
  refine readLines_inRange.bind ?_
  rintro ⟨more, stop⟩ hmore ⟨hfrom, hstop, -, -⟩
  have hlen : (lines ++ completeLines [] rest).flatten.length = stop := by
    rw [hstop, flatten_append, length_append]
  have hall : readLines decode header.subagentHistoryStartOrdinal 0 (initialOrdinal header)
      (lines ++ completeLines [] rest) =
        .ok (steps ++ more, (lines ++ completeLines [] rest).flatten.length) := by
    rw [readLines_append, hread]
    exact bind_eq_ok.mpr ⟨_, rfl, bind_eq_ok.mpr ⟨_, hmore, by rw [hlen]; rfl⟩⟩
  dsimp only
  by_cases hnil : completeLines [] rest = []
  · -- nothing is complete that was not projected before
    rw [hnil] at hmore ⊢
    cases hmore
    rw [if_pos ⟨rfl, rfl⟩, append_nil]
    exact ⟨steps, projected, hread, happly, hcp, hrange⟩
  have hpos := flatten_length_pos (isLine_of_mem_completeLines rest) hnil
  rw [if_neg (by rintro ⟨-, h⟩; omega)]
  refine (sqliteInteger_inRange (.inl rfl)).bind ?_
  rintro _ - ⟨rfl, hinit⟩
  refine (sqliteInteger_inRange (.inr rfl)).bind ?_
  rintro _ - ⟨rfl, -⟩
  rw [checkpoint_eq hread hcp, if_neg (not_not_intro rfl)]
  refine (applySteps_inRange threadId rows hfrom).bind ?_
  rintro ⟨final, next⟩ hfold rfl
  refine (sqliteInteger_inRange (.inr rfl)).bind ?_
  rintro _ - ⟨rfl, hle⟩
  rw [hcp, applySteps_withCheckpoint] at hfold
  obtain ⟨⟨all, _⟩, hmoreRows, heq⟩ := map_eq_ok.mp hfold
  cases heq
  refine ⟨steps ++ more, all, hall, ?_, ?_, fun _ => ⟨hinit, hlen ▸ hle⟩⟩
  · rw [foldlM_append, happly, stepsEnd_append]
    exact hmoreRows
  · have hne : lines ++ completeLines [] rest ≠ [] := by simp [hnil]
    rw [if_neg hne, hlen, stepsEnd_append]
    rfl

/-- Rows of the complete lines of a file are what one run on no rows gives. -/
theorem Projected.materialize_empty {bytes : List UInt8}
    (hrows : Projected decode threadId header (completeLines [] bytes) rows) :
    materializeToSqlite decode threadId ⟨header, bytes⟩ {} = .ok rows := by
  obtain ⟨steps, projected, hread, happly, hcp, hrange⟩ := hrows
  unfold materializeToSqlite readProjectionSteps
  dsimp only [Option.getD]
  rw [if_neg (Nat.not_lt_zero _), drop_zero, hread]
  by_cases hnil : completeLines [] bytes = []
  · rw [hnil] at hread hcp ⊢
    cases hread
    cases happly
    rw [hcp]
    rfl
  · have hpos := flatten_length_pos (isLine_of_mem_completeLines bytes) hnil
    obtain ⟨hinit, hlen⟩ := hrange hnil
    change (if steps = [] ∧ 0 = (completeLines [] bytes).flatten.length then _ else _) = _
    rw [if_neg (by rintro ⟨-, h⟩; omega), applyProjection]
    refine bind_eq_ok.mpr ⟨_, sqliteInteger_eq_ok_iff.mpr ⟨rfl, hinit⟩, ?_⟩
    refine bind_eq_ok.mpr ⟨0, sqliteInteger_eq_ok_iff.mpr ⟨rfl, Nat.zero_le _⟩, ?_⟩
    refine bind_eq_ok.mpr ⟨_, happly, ?_⟩
    refine bind_eq_ok.mpr ⟨_, sqliteInteger_eq_ok_iff.mpr ⟨rfl, hlen⟩, ?_⟩
    rw [hcp, if_neg hnil]
    rfl

end Projecting

/-! ## Runs -/

/-- A rollout and its rows: bytes come to the file, and runs commit or roll back. -/
inductive ProjectionEvent where
  | append (bytes : List UInt8)
  | materialize (commits : Bool)

section Runs

variable (decode : List UInt8 → LineReading) (threadId : String)

/-- The file grows, or is projected as far as it goes; a call that fails changes nothing. -/
def projectionStep (state : RolloutFile × RolloutRows) : ProjectionEvent → RolloutFile × RolloutRows
  | .append bytes => ({ state.1 with bytes := state.1.bytes ++ bytes }, state.2)
  | .materialize false => state
  | .materialize true =>
    match materializeToSqlite decode threadId state.1 state.2 with
    | .ok rows => (state.1, rows)
    | .error _ => state

/-- The rows are those of the first complete lines of the file. -/
def UpToDate (header : SessionMeta) (state : RolloutFile × RolloutRows) : Prop :=
  ∃ lines rest, state.1 = ⟨header, lines.flatten ++ rest⟩ ∧ (∀ line ∈ lines, IsLine line) ∧
    Projected decode threadId header lines state.2

variable {decode threadId} {header : SessionMeta} {state : RolloutFile × RolloutRows}

theorem UpToDate.materialize {rows : RolloutRows} (h : UpToDate decode threadId header state)
    (hrun : materializeToSqlite decode threadId state.1 state.2 = .ok rows) :
    Projected decode threadId header (completeLines [] state.1.bytes) rows := by
  obtain ⟨lines, rest, hfile, hlines, hrows⟩ := h
  rw [hfile] at hrun ⊢
  rw [completeLines_flatten_append hlines]
  exact hrows.materialize.of_ok hrun

theorem upToDate_projectionStep (h : UpToDate decode threadId header state)
    (event : ProjectionEvent) :
    UpToDate decode threadId header (projectionStep decode threadId state event) := by
  cases event with
  | append bytes =>
    obtain ⟨lines, rest, hfile, hlines, hrows⟩ := h
    refine ⟨lines, rest ++ bytes, ?_, hlines, hrows⟩
    dsimp only [projectionStep]
    rw [hfile, append_assoc]
  | materialize commits =>
    cases commits with
    | false => exact h
    | true =>
      dsimp only [projectionStep]
      split
      · rename_i rows hrun
        have hprojected := h.materialize hrun
        obtain ⟨lines, rest, hfile, hlines, -⟩ := h
        have hnil : newline ∉ ([] : List UInt8) := not_mem_nil
        obtain ⟨tail, htail, hcomplete⟩ := exists_completeLines hnil state.1.bytes
        refine ⟨_, tail, ?_, hcomplete, hprojected⟩
        rw [← htail, nil_append, hfile]
      · exact h

theorem upToDate_run (header : SessionMeta) (events : List ProjectionEvent) :
    UpToDate decode threadId header
      (events.foldl (projectionStep decode threadId) (⟨header, []⟩, {})) := by
  have hstart : UpToDate decode threadId header (⟨header, []⟩, {}) :=
    ⟨[], [], rfl, by simp, projected_nil decode threadId header⟩
  exact List.foldlRecOn events _ hstart fun _ h event _ => upToDate_projectionStep h event

end Runs

/-- The errors of the checks on offsets and ordinals. -/
def IsRejection (threadId : String) (e : ThreadStoreError) : Prop :=
  e = .internal ("thread history projection for " ++ threadId ++ " is behind durable rollout") ∨
    (∃ expected found, e = unexpectedOrdinal threadId expected found) ∨
    e = .internal ("thread history projection for " ++ threadId ++
      " has an empty skipped ordinal range")

theorem not_isRejection {threadId : String} {e : ThreadStoreError} (h : e ∈ rangeErrors) :
    ¬ IsRejection threadId e := by
  have hother : ∀ text : String, e ≠ .internal
      ("thread history projection for " ++ threadId ++ text) := by
    intro text he
    have hfirst : ∀ message, e = .internal message → message.toList.head? ≠ some 't' := by
      intro message hmsg
      subst hmsg
      simp only [rangeErrors, mem_cons, ThreadStoreError.internal.injEq, not_mem_nil, or_false] at h
      rcases h with rfl | rfl | rfl <;> decide
    refine hfirst _ he ?_
    simp [String.toList_append]
  rintro (h | ⟨expected, found, h⟩ | h)
  · exact hother _ h
  · refine hother (" expected ordinal " ++ toString expected ++ ", got " ++ toString found)
      (h.trans ?_)
    simp [unexpectedOrdinal, String.append_assoc]
  · exact hother _ h

/-- **Incremental projection equals one-shot projection.**  However the file has grown and
whenever runs were made, committed or rolled back, the next run is not rejected, and if it
succeeds it leaves the rows and the checkpoint of one run on the whole file. -/
theorem materializeToSqlite_incremental (decode : List UInt8 → LineReading) (threadId : String)
    (header : SessionMeta) (events : List ProjectionEvent) :
    let state := events.foldl (projectionStep decode threadId) (⟨header, []⟩, {})
    (∀ e, materializeToSqlite decode threadId state.1 state.2 = .error e →
      ¬ IsRejection threadId e) ∧
      ∀ rows, materializeToSqlite decode threadId state.1 state.2 = .ok rows →
        materializeToSqlite decode threadId state.1 {} = .ok rows := by
  intro state
  have hstate : UpToDate decode threadId header state := upToDate_run header events
  refine ⟨?_, ?_⟩
  · intro e he
    obtain ⟨lines, rest, hfile, -, hrows⟩ := hstate
    have hrange := @Projected.materialize _ _ _ _ rest _ hrows
    rw [← hfile, he] at hrange
    exact not_isRejection hrange
  · intro rows hrun
    have hprojected := hstate.materialize hrun
    obtain ⟨lines, rest, hfile, -, -⟩ := hstate
    have hsame : state.1 = ⟨header, state.1.bytes⟩ := by rw [hfile]
    rw [hsame]
    exact hprojected.materialize_empty

end RenCrow.ThreadStore
