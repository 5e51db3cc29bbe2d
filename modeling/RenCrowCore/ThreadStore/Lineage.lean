import RenCrowCore.ThreadStore.Materialization

/-!
# Rollout lineages

A forked thread keeps no copy of what it inherits: its rollout names the rollout it was
forked from and where it was cut.  Following these pointers gives the ranges that make up the
history of a thread (`rollout_lineage.rs`).

* `resolveRolloutLineage`: the segments of a thread, oldest first;
* `IsLineage`: what is known of the segments of a resolved lineage;
* `isLineage_of_resolve`: a resolved lineage has that form;
* `resolveRolloutLineage_extends`: a lineage stays the same while files grow.
-/

namespace RenCrow.ThreadStore

open List

/-! ## The store -/

/-- What the state database says about a thread. -/
structure ThreadMetadata where
  archived : Bool
  historyMode : ThreadHistoryMode
deriving DecidableEq, Repr

/-- The rows of all rollouts. -/
abbrev HistoryDb := String → RolloutRows

/-- The store: its files, and the rows projected from them. -/
structure LocalThreadStore where
  /-- The metadata of threads, if there is a state database. -/
  stateDb : Option (String → Option ThreadMetadata)
  /-- The rollout that a thread writes to. -/
  currentRollout : String → Option String
  files : List (String × RolloutFile)
  history : HistoryDb

/-- The file of a rollout. -/
def LocalThreadStore.file? (store : LocalThreadStore) (rolloutId : String) : Option RolloutFile :=
  (store.files.find? fun entry => entry.1 = rolloutId).map Prod.snd

/-! ## Segments -/

/-- One range of a rollout that contributes to the history of a thread. -/
structure RolloutLineageSegment where
  rolloutId : String
  startOrdinal : Nat
  stop : Option HistoryPosition
deriving DecidableEq, Repr

/-- The segments that make up the history of a thread, oldest first. -/
abbrev RolloutLineage := List RolloutLineageSegment

namespace RolloutLineageSegment

variable (segment : RolloutLineageSegment)

/-- Where a segment ends, if it does. -/
def endOrdinal : Option Nat := segment.stop.map HistoryPosition.endOrdinalExclusive

/-- The ordinals of a segment. -/
def contains (ordinal : Nat) : Bool :=
  segment.startOrdinal ≤ ordinal && segment.endOrdinal.all (ordinal < ·)

end RolloutLineageSegment

/-- The segment of an ordinal. -/
def segmentIndexForOrdinal (lineage : RolloutLineage) (ordinal : Nat) : Option Nat :=
  lineage.findIdx? fun segment => segment.contains ordinal

/-- A lineage that cannot be used. -/
def malformedLineage (threadId detail : String) : ThreadStoreError :=
  .invalidRequest ("invalid paginated history lineage for " ++ threadId ++ ": " ++ detail)

/-- `validate_cutoff_bounds`. -/
def validateCutoffBounds (requestedThreadId : String) (file : RolloutFile)
    (stop : HistoryPosition) :
    ThreadStoreResult Unit :=
  if stop.endOrdinalExclusive = 0 then
    .error (malformedLineage requestedThreadId "cutoff cannot include source session metadata")
  else if file.bytes.length < stop.endByteOffset then
    .error (malformedLineage requestedThreadId "cutoff byte offset is past the source rollout")
  else .ok ()

/-- The end of a segment lies within its file. -/
def validateCutoff (requestedThreadId : String) (file : RolloutFile) :
    Option HistoryPosition → ThreadStoreResult Unit
  | none => .ok ()
  | some stop => validateCutoffBounds requestedThreadId file stop

/-- The ordinal of the first line after the metadata. -/
def segmentStart (requestedThreadId : String) (header : SessionMeta) : ThreadStoreResult Nat :=
  match header.historyBase with
  | none => .ok 1
  | some base =>
    if base.endOrdinalExclusive + 1 ≤ u64Max then .ok (base.endOrdinalExclusive + 1)
    else .error (malformedLineage requestedThreadId "source ordinal overflow")

/-- The segment of a file in the lineage. -/
def lineageSegment (requestedThreadId rolloutId : String) (file : RolloutFile)
    (stop : Option HistoryPosition) : ThreadStoreResult RolloutLineageSegment :=
  if file.header.historyMode ≠ .paginated then
    .error (malformedLineage requestedThreadId "source rollout is not paginated")
  else do
    validateCutoff requestedThreadId file stop
    let startOrdinal ← segmentStart requestedThreadId file.header
    return ⟨rolloutId, startOrdinal, stop⟩

/-- The pointers from a rollout on.  A rollout is visited once, so there are no more steps
than files. -/
def lineageFrom (store : LocalThreadStore) (requestedThreadId : String) :
    Nat → List String → String → Option HistoryPosition → ThreadStoreResult RolloutLineage
  | 0, _, _, _ => .error (malformedLineage requestedThreadId "cycle detected")
  | fuel + 1, seen, rolloutId, stop =>
    match store.file? rolloutId with
    | none => .error (malformedLineage rolloutId "missing source rollout")
    | some file =>
      if rolloutId ∈ seen then .error (malformedLineage requestedThreadId "cycle detected")
      else do
        let segment ← lineageSegment requestedThreadId rolloutId file stop
        match file.header.historyBase with
        | none => return [segment]
        | some base =>
          let older ← lineageFrom store requestedThreadId fuel (rolloutId :: seen) base.threadId
            (some base)
          return older ++ [segment]

/-- `resolve_rollout_lineage`. -/
def resolveRolloutLineage (store : LocalThreadStore) (requestedThreadId : String) :
    ThreadStoreResult RolloutLineage :=
  match store.currentRollout requestedThreadId with
  | none => .error (malformedLineage requestedThreadId "missing source rollout")
  | some rolloutId =>
    match store.file? rolloutId with
    | none => .error (malformedLineage requestedThreadId "missing source rollout")
    | some file =>
      if file.header.id ≠ requestedThreadId then
        .error (malformedLineage requestedThreadId "source rollout belongs to another thread")
      else
        lineageFrom store requestedThreadId (store.files.length + 1) [] rolloutId none

/-! ## Resolved lineages -/

/-- No rollout comes twice, and ordinals start after the metadata. -/
structure IsLineage (lineage : RolloutLineage) : Prop where
  distinct : (lineage.map RolloutLineageSegment.rolloutId).Nodup
  start_pos : ∀ segment ∈ lineage, 1 ≤ segment.startOrdinal

variable {store : LocalThreadStore} {requested rolloutId : String} {file : RolloutFile}
  {stop : Option HistoryPosition} {segment : RolloutLineageSegment} {lineage : RolloutLineage}

section Resolved

open Fallible

theorem segmentStart_pos {header : SessionMeta} {start : Nat}
    (h : segmentStart requested header = .ok start) : 1 ≤ start := by
  unfold segmentStart at h
  split at h
  · cases h
    exact le_rfl
  · split at h
    · cases h
      exact Nat.le_add_left 1 _
    · cases h

theorem lineageSegment_eq_ok (h : lineageSegment requested rolloutId file stop = .ok segment) :
    segment.rolloutId = rolloutId ∧ 1 ≤ segment.startOrdinal := by
  simp only [lineageSegment, ite_error_eq_ok, bind_eq_ok] at h
  obtain ⟨-, -, -, start, hstart, ⟨⟩⟩ := h
  exact ⟨rfl, segmentStart_pos hstart⟩

theorem isLineage_of_lineageFrom {fuel : Nat} {seen : List String}
    (h : lineageFrom store requested fuel seen rolloutId stop = .ok lineage) :
    IsLineage lineage ∧ ∀ segment ∈ lineage, segment.rolloutId ∉ seen := by
  induction fuel generalizing seen rolloutId stop lineage with
  | zero => cases h
  | succ fuel ih =>
    unfold lineageFrom at h
    split at h
    · cases h
    rw [ite_error_eq_ok, bind_eq_ok] at h
    obtain ⟨hseen, segment, hseg, h⟩ := h
    obtain ⟨hid, hstart⟩ := lineageSegment_eq_ok hseg
    split at h
    · cases h
      refine ⟨⟨nodup_singleton _, ?_⟩, ?_⟩
      · simpa using hstart
      · simpa [hid] using hseen
    · obtain ⟨older, holder, h⟩ := bind_eq_ok.mp h
      cases h
      obtain ⟨hlin, hfresh⟩ := ih holder
      refine ⟨⟨?_, ?_⟩, ?_⟩
      · rw [map_append, nodup_append']
        refine ⟨hlin.distinct, nodup_singleton _, ?_⟩
        intro id hmem hlast
        obtain ⟨other, hother, rfl⟩ := mem_map.mp hmem
        rw [map_singleton, mem_singleton, hid] at hlast
        exact hfresh other hother (hlast ▸ mem_cons_self)
      · intro other hother
        rcases mem_append.mp hother with hother | hother
        · exact hlin.start_pos other hother
        · rwa [mem_singleton.mp hother]
      · intro other hother
        rcases mem_append.mp hother with hother | hother
        · exact fun hmem => hfresh other hother (mem_cons_of_mem _ hmem)
        · rwa [mem_singleton.mp hother, hid]

theorem isLineage_of_resolve (h : resolveRolloutLineage store requested = .ok lineage) :
    IsLineage lineage := by
  unfold resolveRolloutLineage at h
  split at h
  · cases h
  split at h
  · cases h
  exact (isLineage_of_lineageFrom (ite_error_eq_ok.mp h).2).1

end Resolved

/-! ## Growing files -/

/-- A file with bytes appended. -/
def grownEntry (rolloutId : String) (bytes : List UInt8) (entry : String × RolloutFile) :
    String × RolloutFile :=
  if entry.1 = rolloutId then (entry.1, { entry.2 with bytes := entry.2.bytes ++ bytes })
  else entry

/-- Bytes at the end of a rollout. -/
def LocalThreadStore.append (store : LocalThreadStore) (rolloutId : String) (bytes : List UInt8) :
    LocalThreadStore :=
  { store with files := store.files.map (grownEntry rolloutId bytes) }

section Growing

open Fallible

variable {later : LocalThreadStore} {longer : RolloutFile}

/-- One file extends another one. -/
structure RolloutFile.Extends (longer file : RolloutFile) : Prop where
  header_eq : longer.header = file.header
  length_le : file.bytes.length ≤ longer.bytes.length

/-- The files after more bytes for one of them. -/
theorem file?_append_eq (rolloutId id : String) (bytes : List UInt8) :
    (store.append rolloutId bytes).file? id = (store.file? id).map fun file =>
        ⟨file.header, file.bytes ++ if id = rolloutId then bytes else []⟩ := by
  have hsame : ((fun entry : String × RolloutFile => decide (entry.1 = id)) ∘
      grownEntry rolloutId bytes) = fun entry => decide (entry.1 = id) := by
    funext entry
    unfold Function.comp grownEntry
    split <;> rfl
  unfold LocalThreadStore.file? LocalThreadStore.append
  rw [find?_map, hsame, Option.map_map, Option.map_map]
  refine Option.map_congr ?_
  intro entry hentry
  have hid : entry.1 = id := by simpa using find?_some hentry
  unfold grownEntry
  dsimp only [Function.comp]
  rw [hid]
  split <;> simp

/-- One store extends another one if its files do. -/
structure LocalThreadStore.Extends (later store : LocalThreadStore) : Prop where
  current_eq : later.currentRollout = store.currentRollout
  count_eq : later.files.length = store.files.length
  file : ∀ {id file}, store.file? id = some file →
    ∃ longer, later.file? id = some longer ∧ longer.Extends file

theorem extends_append (id : String) (bytes : List UInt8) :
    (store.append id bytes).Extends store where
  current_eq := rfl
  count_eq := length_map _
  file h := by
    rw [file?_append_eq, h]
    exact ⟨_, rfl, rfl, by simp⟩

theorem extends_of_files (hfiles : later.files = store.files)
    (hcur : later.currentRollout = store.currentRollout) : later.Extends store where
  current_eq := hcur
  count_eq := congrArg List.length hfiles
  file h := by
    rw [LocalThreadStore.file?, hfiles]
    exact ⟨_, h, rfl, le_rfl⟩

theorem validateCutoff_extends (hlonger : longer.Extends file)
    (h : validateCutoff requested file stop = .ok ()) :
    validateCutoff requested longer stop = .ok () := by
  cases stop with
  | none => rfl
  | some stop =>
    have hlen := hlonger.length_le
    simp only [validateCutoff, validateCutoffBounds, ite_error_eq_ok] at h ⊢
    exact ⟨h.1, by omega, trivial⟩

theorem lineageSegment_extends (hlonger : longer.Extends file)
    (h : lineageSegment requested rolloutId file stop = .ok segment) :
    lineageSegment requested rolloutId longer stop = .ok segment := by
  simp only [lineageSegment, ite_error_eq_ok, bind_eq_ok, hlonger.header_eq] at h ⊢
  obtain ⟨hmode, ⟨⟩, hcut, h⟩ := h
  exact ⟨hmode, (), validateCutoff_extends hlonger hcut, h⟩

theorem lineageFrom_extends (hlater : later.Extends store) {fuel : Nat} {seen : List String}
    (h : lineageFrom store requested fuel seen rolloutId stop = .ok lineage) :
    lineageFrom later requested fuel seen rolloutId stop = .ok lineage := by
  induction fuel generalizing seen rolloutId stop lineage with
  | zero => cases h
  | succ fuel ih =>
    unfold lineageFrom at h ⊢
    split at h
    · cases h
    rename_i file hfile
    obtain ⟨longer, hfile', hlonger⟩ := hlater.file hfile
    simp only [hfile', ite_error_eq_ok, bind_eq_ok, hlonger.header_eq] at h ⊢
    obtain ⟨hseen, segment, hseg, h⟩ := h
    refine ⟨hseen, segment, lineageSegment_extends hlonger hseg, ?_⟩
    split at h
    · exact h
    · obtain ⟨older, holder, h⟩ := bind_eq_ok.mp h
      exact bind_eq_ok.mpr ⟨older, ih holder, h⟩

/-- A thread keeps its lineage while files grow. -/
theorem resolveRolloutLineage_extends (hlater : later.Extends store)
    (h : resolveRolloutLineage store requested = .ok lineage) :
    resolveRolloutLineage later requested = .ok lineage := by
  unfold resolveRolloutLineage at h ⊢
  rw [hlater.current_eq, hlater.count_eq]
  split at h
  · cases h
  split at h
  · cases h
  rename_i file hfile
  obtain ⟨longer, hfile', hlonger⟩ := hlater.file hfile
  simp only [hfile', ite_error_eq_ok, hlonger.header_eq] at h ⊢
  exact ⟨h.1, lineageFrom_extends hlater h.2⟩

end Growing

end RenCrow.ThreadStore
