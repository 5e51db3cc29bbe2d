import RenCrowCore.ThreadStore.TurnRecords

/-!
# A fork keeps a prefix

However threads are created, written, forked and reverted, the history of each thread is made
of ranges in ascending order, and a new thread has exactly the records of its source below the
boundary.

* `Inherits`: the segments before a rollout, from its pointers;
* `Ascending`: the ranges of a lineage follow each other;
* `SoundStore`: what holds of a store after any steps;
* `AtBoundary`: the ordinal of a boundary, from the records of turns;
* `forkRevert_exact`: the prefix law.
-/

namespace RenCrow.ThreadStore

open Fallible Run List ByteLines

/-! ## What a rollout inherits -/

/-- The ordinals of a rollout start after its metadata. -/
def ownSegment (rolloutId : String) (header : SessionMeta) (stop : Option HistoryPosition) :
    RolloutLineageSegment := ⟨rolloutId, initialOrdinal header + 1, stop⟩

/-- The lineage of a rollout after what it keeps. -/
def ownLineage (rolloutId : String) (header : SessionMeta) (kept : RolloutLineage) :
    RolloutLineage :=
  kept ++ [ownSegment rolloutId header none]

/-- The cut of a rollout lies in its file. -/
def CutFits (file : RolloutFile) (stop : Option HistoryPosition) : Prop :=
  ∀ position ∈ stop, position.endOrdinalExclusive ≠ 0 ∧ position.endByteOffset ≤ file.bytes.length

/-- The segments that a rollout with this base inherits, oldest first. -/
inductive Inherits (store : LocalThreadStore) : Option HistoryPosition → RolloutLineage → Prop
  | root : Inherits store none []
  | cut {base : HistoryPosition} {file : RolloutFile} {older : RolloutLineage}
      (hfile : store.file? base.threadId = some file) (hmode : file.header.historyMode = .paginated)
      (hcut : CutFits file (some base)) (hrange : base.endOrdinalExclusive + 1 ≤ u64Max)
      (holder : Inherits store file.header.historyBase older) :
      Inherits store (some base) (older ++ [ownSegment base.threadId file.header (some base)])

/-- The files of one store are in another one, where they may be longer. -/
def FilesGrow (store later : LocalThreadStore) : Prop :=
  ∀ rolloutId file, store.file? rolloutId = some file →
    ∃ longer, later.file? rolloutId = some longer ∧ longer.Extends file

variable {rolloutId threadId : String} {file : RolloutFile} {base : Option HistoryPosition}
  {kept older newer : RolloutLineage} {segment : RolloutLineageSegment} {next : LocalThreadStore}
  {position : HistoryPosition} {boundary : ForkBoundary}

section Inheriting

variable {store : LocalThreadStore} {stop : Option HistoryPosition}

theorem lineageSegment_eq (requested rolloutId : String)
    (hmode : file.header.historyMode = .paginated) (hcut : CutFits file stop)
    (h : Inherits store file.header.historyBase kept) :
    lineageSegment requested rolloutId file stop = .ok (ownSegment rolloutId file.header stop) := by
  have hvalid : validateCutoff requested file stop = .ok () := by
    cases stop with
    | none => rfl
    | some position =>
      obtain ⟨hpos, hlen⟩ := hcut position rfl
      dsimp only [validateCutoff, validateCutoffBounds]
      rw [if_neg hpos, if_neg (Nat.not_lt.mpr hlen)]
  unfold lineageSegment segmentStart ownSegment initialOrdinal
  rw [if_neg (by simp [hmode]), hvalid]
  generalize file.header.historyBase = base at h
  cases h with
  | root => rfl
  | cut _ _ _ hrange _ =>
    dsimp only
    rw [if_pos hrange]
    rfl

/-- The pointers of a rollout lead through what it inherits. -/
theorem Inherits.lineageFrom_eq (h : Inherits store base kept) (requested : String)
    {fuel : Nat} {seen : List String} (hfile : store.file? rolloutId = some file)
    (hmode : file.header.historyMode = .paginated) (hbase : file.header.historyBase = base)
    (hcut : CutFits file stop) (hdist : ((kept ++ [ownSegment rolloutId file.header stop]).map
      RolloutLineageSegment.rolloutId).Nodup)
    (hseen : ∀ segment ∈ kept ++ [ownSegment rolloutId file.header stop], segment.rolloutId ∉ seen)
    (hfuel : kept.length < fuel) :
    lineageFrom store requested fuel seen rolloutId stop =
      .ok (kept ++ [ownSegment rolloutId file.header stop]) := by
  induction fuel generalizing base kept rolloutId file stop seen with
  | zero => omega
  | succ fuel ih =>
    have hfresh : rolloutId ∉ seen := hseen _ (mem_append_right _ mem_cons_self)
    unfold lineageFrom
    rw [hfile]
    dsimp only
    rw [if_neg hfresh, lineageSegment_eq _ _ hmode hcut (hbase ▸ h), hbase]
    cases h with
    | root => rfl
    | cut hsrc hmode' hcut' _ holder =>
      rw [map_append, nodup_append'] at hdist
      refine bind_eq_ok.mpr ⟨_, rfl, bind_eq_ok.mpr ⟨_, ?_, rfl⟩⟩
      refine ih holder hsrc hmode' rfl hcut' hdist.1 ?_ (by simpa using hfuel)
      intro other hother hmem
      rcases mem_cons.mp hmem with hmem | hmem
      · exact hdist.2.2 (mem_map_of_mem hother) (by simp [hmem, ownSegment])
      · exact hseen other (mem_append_left _ hother) hmem

/-- A segment of a lineage is that of a rollout after what it inherits. -/
structure Follows (store : LocalThreadStore) (older : RolloutLineage)
    (segment : RolloutLineageSegment)
    (file : RolloutFile) : Prop where
  found : store.file? segment.rolloutId = some file
  paginated : file.header.historyMode = .paginated
  start : segment.startOrdinal = initialOrdinal file.header + 1
  inherits : Inherits store file.header.historyBase older

theorem Inherits.follows (h : Inherits store base kept) (hbase : file.header.historyBase = base)
    (hfile : store.file? rolloutId = some file) (hmode : file.header.historyMode = .paginated)
    (hsplit : kept ++ [ownSegment rolloutId file.header stop] = older ++ segment :: newer) :
    ∃ owner, Follows store older segment owner := by
  induction h generalizing rolloutId file stop newer with
  | root =>
    cases older with
    | nil =>
      cases hsplit
      exact ⟨file, hfile, hmode, rfl, hbase ▸ .root⟩
    | cons => simp at hsplit
  | cut hsrc hmode' hcut hrange holder ih =>
    rcases eq_nil_or_concat newer with rfl | ⟨newer, last, rfl⟩
    · obtain ⟨rfl, hlast⟩ := append_inj' hsplit rfl
      cases hlast
      exact ⟨file, hfile, hmode, rfl, hbase ▸ .cut hsrc hmode' hcut hrange holder⟩
    · rw [concat_eq_append, ← cons_append, ← append_assoc] at hsplit
      exact ih rfl hsrc hmode' (append_inj' hsplit rfl).1

theorem Inherits.file_of_mem (h : Inherits store base kept) (hmem : segment ∈ kept) :
    ∃ file, store.file? segment.rolloutId = some file := by
  cases h with
  | root => cases hmem
  | cut hfile hmode _ _ holder =>
    obtain ⟨older, newer, hsplit⟩ := append_of_mem hmem
    obtain ⟨owner, howner⟩ := holder.follows rfl hfile hmode hsplit
    exact ⟨owner, howner.found⟩

/-- The base of a rollout is the cut of the last segment it inherits. -/
theorem Inherits.base_eq (h : Inherits store base kept) :
    kept.getLast?.bind RolloutLineageSegment.stop = base := by
  cases h with
  | root => rfl
  | cut =>
    rw [getLast?_concat]
    rfl

theorem Inherits.mono {later : LocalThreadStore} (h : Inherits store base kept)
    (hgrow : FilesGrow store later) : Inherits later base kept := by
  induction h with
  | root => exact .root
  | @cut base file older hfile hmode hcut hrange _ ih =>
    obtain ⟨longer, hlater, hlonger⟩ := hgrow _ _ hfile
    rw [← hlonger.header_eq] at hmode ih ⊢
    refine .cut hlater hmode ?_ hrange ih
    exact fun position hmem =>
      ⟨(hcut position hmem).1, (hcut position hmem).2.trans hlonger.length_le⟩

end Inheriting

/-! ## Ranges -/

/-- The ranges of the segments follow each other, and only the last one may be empty. -/
structure Ascending (lineage : RolloutLineage) : Prop where
  nonempty : ∀ segment ∈ lineage, ∀ stop ∈ segment.endOrdinal, segment.startOrdinal < stop
  ordered : lineage.Pairwise fun older newer => ∃ stop ∈ older.endOrdinal, stop < newer.startOrdinal

section Ranges

variable {decode : List UInt8 → LineReading} {store : LocalThreadStore} {lineage : RolloutLineage}
  {bound : Nat}

theorem contains_eq_true {ord : Nat} : segment.contains ord = true ↔
      segment.startOrdinal ≤ ord ∧ ∀ stop ∈ segment.endOrdinal, ord < stop := by
  unfold RolloutLineageSegment.contains
  cases segment.endOrdinal <;> simp

theorem contains_of_mem_segmentRecords {record : Record}
    (h : record ∈ segmentRecords decode store segment) :
    segment.contains record.1 = true := (mem_filter.mp h).2

variable (decode store) in
/-- The records of a lineage below an ordinal of one of its segments. -/
theorem lineageRecords_below (hasc : Ascending lineage)
    (hsplit : lineage = older ++ segment :: newer) (hstart : segment.startOrdinal ≤ bound)
    (hstop : ∀ stop ∈ segment.endOrdinal, bound ≤ stop) :
    (lineageRecords decode store lineage).filter (fun record => record.1 < bound) =
      lineageRecords decode store older ++
        (segmentRecords decode store segment).filter fun record => record.1 < bound := by
  subst hsplit
  obtain ⟨-, hord⟩ := hasc
  rw [pairwise_append, pairwise_cons] at hord
  obtain ⟨-, ⟨hnewer, -⟩, holder⟩ := hord
  have hbefore : (lineageRecords decode store older).filter (fun record => record.1 < bound) =
      lineageRecords decode store older := by
    refine filter_eq_self.mpr ?_
    intro record hrec
    obtain ⟨other, hother, hmem⟩ := mem_flatMap.mp hrec
    obtain ⟨stop, hmemStop, hlt⟩ := holder other hother segment mem_cons_self
    have hcont := (contains_eq_true.mp (contains_of_mem_segmentRecords hmem)).2 stop hmemStop
    exact decide_eq_true (by omega)
  have hafter : (lineageRecords decode store newer).filter (fun record => record.1 < bound) =
      [] := by
    refine filter_eq_nil_iff.mpr ?_
    intro record hrec
    obtain ⟨other, hother, hmem⟩ := mem_flatMap.mp hrec
    obtain ⟨stop, hmemStop, hlt⟩ := hnewer other hother
    have hbound := hstop stop hmemStop
    have hcont := (contains_eq_true.mp (contains_of_mem_segmentRecords hmem)).1
    simp only [decide_eq_true_eq, not_lt]
    omega
  unfold lineageRecords at hbefore hafter ⊢
  rw [flatMap_append, flatMap_cons, filter_append, filter_append, hbefore, hafter, append_nil]

/-- A cut at an ordinal leaves the records below it. -/
theorem segmentRecords_cut {position : HistoryPosition}
    (hstop : ∀ stop ∈ segment.endOrdinal, position.endOrdinalExclusive ≤ stop) :
    segmentRecords decode store { segment with stop := some position } =
      (segmentRecords decode store segment).filter fun record =>
        record.1 < position.endOrdinalExclusive := by
  unfold segmentRecords
  rw [filter_filter]
  refine filter_congr ?_
  intro record _
  rw [Bool.eq_iff_iff, Bool.and_eq_true, contains_eq_true, contains_eq_true, decide_eq_true_eq]
  constructor
  · rintro ⟨hstart, hlt⟩
    have hlt := hlt _ rfl
    exact ⟨hlt, hstart, fun stop hmem => lt_of_lt_of_le hlt (hstop stop hmem)⟩
  · rintro ⟨hlt, hstart, -⟩
    refine ⟨hstart, ?_⟩
    intro stop hmem
    cases hmem
    exact hlt

theorem segmentRecords_below_start :
    (segmentRecords decode store segment).filter (fun record => record.1 < segment.startOrdinal) =
      [] := by
  refine filter_eq_nil_iff.mpr ?_
  intro record hmem
  have hstart := (contains_eq_true.mp (contains_of_mem_segmentRecords hmem)).1
  simpa using hstart

theorem Ascending.of_append (h : Ascending (older ++ newer)) : Ascending older :=
  ⟨fun segment hmem => h.nonempty segment (mem_append_left _ hmem),
    (pairwise_append.mp h.ordered).1⟩

/-- A segment after all cuts of a lineage may follow it. -/
theorem Ascending.concat (h : Ascending lineage)
    (hnonempty : ∀ stop ∈ segment.endOrdinal, segment.startOrdinal < stop)
    (hafter : ∀ other ∈ lineage, ∃ stop ∈ other.endOrdinal, stop < segment.startOrdinal) :
    Ascending (lineage ++ [segment]) := by
  refine ⟨forall_mem_append.mpr ⟨h.nonempty, by simpa using hnonempty⟩, ?_⟩
  exact pairwise_append.mpr ⟨h.ordered, pairwise_singleton _ _, by simpa using hafter⟩

/-- The segments before the last one end before it starts. -/
theorem Ascending.before_last (h : Ascending (older ++ [segment])) :
    ∀ other ∈ older, ∃ stop ∈ other.endOrdinal, stop < segment.startOrdinal :=
  fun other hother => (pairwise_append.mp h.ordered).2.2 other hother segment mem_cons_self

end Ranges

/-! ## What a base keeps -/

/-- A lineage that a rollout with this base may have before it. -/
structure Keeps (store : LocalThreadStore) (base : Option HistoryPosition) (kept : RolloutLineage) :
    Prop where
  inherits : Inherits store base kept
  distinct : (kept.map RolloutLineageSegment.rolloutId).Nodup
  ascending : Ascending kept
  ends : ∀ segment ∈ kept, ∃ stop ∈ segment.endOrdinal,
    stop < (base.map HistoryPosition.endOrdinalExclusive).getD 0 + 1

/-- A rollout of the store after what it keeps. -/
structure KeptBefore (store : LocalThreadStore) (rolloutId : String) (file : RolloutFile)
    (kept : RolloutLineage) : Prop where
  found : store.file? rolloutId = some file
  paginated : file.header.historyMode = .paginated
  keeps : Keeps store file.header.historyBase kept
  fresh : ∀ segment ∈ kept, segment.rolloutId ≠ rolloutId

/-- A place where a rollout of the lineage can be cut. -/
structure PositionFits (store : LocalThreadStore) (lineage : RolloutLineage)
    (position : HistoryPosition) :
    Prop where
  file : ∃ file, store.file? position.threadId = some file ∧ position.endByteOffset ≤
    file.bytes.length
  range : position.endOrdinalExclusive + 1 ≤ u64Max
  start : ∀ segment ∈ lineage, segment.rolloutId = position.threadId →
    segment.startOrdinal ≤ position.endOrdinalExclusive

section Bases

variable {decode : List UInt8 → LineReading} {store : LocalThreadStore}

theorem Keeps.mono (h : Keeps store base kept) (hgrow : FilesGrow store next) :
    Keeps next base kept :=
  ⟨h.inherits.mono hgrow, h.distinct, h.ascending, h.ends⟩

theorem KeptBefore.mono {longer : RolloutFile} (h : KeptBefore store rolloutId file kept)
    (hgrow : FilesGrow store next) (hnext : next.file? rolloutId = some longer)
    (hhead : longer.header = file.header) : KeptBefore next rolloutId longer kept :=
  ⟨hnext, hhead ▸ h.paginated, hhead ▸ h.keeps.mono hgrow, h.fresh⟩

/-- The lineage of a rollout with what it keeps. -/
abbrev KeptBefore.lineage (_ : KeptBefore store rolloutId file kept) : RolloutLineage :=
  ownLineage rolloutId file.header kept

section Own

variable (h : KeptBefore store rolloutId file kept)
include h

theorem KeptBefore.ascending : Ascending h.lineage :=
  h.keeps.ascending.concat (fun _ hmem => nomatch hmem) h.keeps.ends

theorem KeptBefore.distinct : (h.lineage.map RolloutLineageSegment.rolloutId).Nodup := by
  unfold KeptBefore.lineage ownLineage
  rw [map_append, nodup_append']
  refine ⟨h.keeps.distinct, nodup_singleton _, ?_⟩
  intro id hmem hlast
  obtain ⟨segment, hseg, rfl⟩ := mem_map.mp hmem
  exact h.fresh segment hseg (mem_singleton.mp hlast)

theorem KeptBefore.eq_of_rolloutId {other : RolloutLineageSegment}
    (hseg : segment ∈ h.lineage)
    (hother : other ∈ h.lineage) (hid : other.rolloutId = segment.rolloutId) :
    other = segment :=
  inj_on_of_nodup_map h.distinct hother hseg hid

theorem KeptBefore.follows (hsplit : h.lineage = older ++ segment :: newer) :
    ∃ owner, Follows store older segment owner :=
  h.keeps.inherits.follows rfl h.found h.paginated hsplit

theorem KeptBefore.file_of_mem (hmem : segment ∈ h.lineage) :
    ∃ owner, store.file? segment.rolloutId = some owner := by
  obtain ⟨older, newer, hsplit⟩ := append_of_mem hmem
  obtain ⟨owner, hfoll⟩ := h.follows hsplit
  exact ⟨owner, hfoll.found⟩

/-- The lineage of a thread is resolved. -/
theorem KeptBefore.resolve (hcur : store.currentRollout threadId = some rolloutId)
    (hid : file.header.id = threadId) :
    resolveRolloutLineage store threadId = .ok h.lineage := by
  have hlen : h.lineage.length ≤ store.files.length := by
    have hsub : h.lineage.map RolloutLineageSegment.rolloutId ⊆ store.files.map Prod.fst := by
      intro id hmem
      obtain ⟨segment, hseg, rfl⟩ := mem_map.mp hmem
      obtain ⟨owner, howner⟩ := h.file_of_mem hseg
      obtain ⟨entry, hfind, -⟩ := Option.map_eq_some_iff.mp howner
      have hentry : entry.1 = segment.rolloutId := by simpa using find?_some hfind
      exact hentry ▸ mem_map_of_mem (mem_of_find?_eq_some hfind)
    simpa using (subperm_of_subset h.distinct hsub).length_le
  simp only [ownLineage, length_append, length_singleton] at hlen
  unfold resolveRolloutLineage
  rw [hcur]
  dsimp only
  rw [h.found]
  dsimp only
  rw [if_neg (not_not_intro hid)]
  exact h.keeps.inherits.lineageFrom_eq threadId h.found h.paginated rfl
    (fun _ hmem => nomatch hmem)
    h.distinct (fun _ _ hmem => nomatch hmem) (by omega)

/-- **The base of a position keeps the records below it.** -/
theorem historyBaseAt_keeps (hfits : PositionFits store h.lineage position)
    (hbase : historyBaseAt h.lineage position = .ok base) :
    ∃ inherited, Keeps store base inherited ∧
      lineageRecords decode store inherited =
        (lineageRecords decode store h.lineage).filter fun record =>
          record.1 < position.endOrdinalExclusive := by
  unfold historyBaseAt at hbase
  split at hbase
  · cases hbase
  rename_i place hplace
  obtain ⟨hsplit, hid⟩ := cutPlace_eq_some hplace
  split at hbase
  · cases hbase
  rename_i hexceeds
  have hstop : ∀ stop ∈ place.cut.endOrdinal, position.endOrdinalExclusive ≤ stop := by
    intro stop hmem
    obtain ⟨cut, hcut, rfl⟩ := Option.map_eq_some_iff.mp hmem
    unfold exceedsSegment at hexceeds
    rw [hcut] at hexceeds
    simp only [Option.any_some, Bool.or_eq_true, decide_eq_true_eq, not_or, not_lt] at hexceeds
    exact hexceeds.1
  obtain ⟨owner, howner⟩ := h.follows hsplit
  have hstart := hfits.start place.cut (by simp [hsplit]) hid
  have hbelow := lineageRecords_below decode store h.ascending hsplit hstart hstop
  have hwhole : h.lineage = (place.older ++ [place.cut]) ++ place.newer := by
    simp [hsplit]
  have hasc : Ascending (place.older ++ [place.cut]) := (hwhole ▸ h.ascending).of_append
  have hdist : ((place.older ++ [place.cut]).map RolloutLineageSegment.rolloutId).Nodup := by
    have hdist := h.distinct
    rw [hwhole, map_append] at hdist
    exact hdist.of_append_left
  split at hbase
  · -- the segment would be empty: its own base is taken
    rename_i hempty
    cases hbase
    rw [howner.inherits.base_eq]
    refine ⟨place.older, ⟨howner.inherits, ?_, hasc.of_append, ?_⟩, ?_⟩
    · rw [map_append] at hdist
      exact hdist.of_append_left
    · have hbefore := hasc.before_last
      rw [howner.start] at hbefore
      exact hbefore
    · rw [hbelow, hempty, segmentRecords_below_start, append_nil]
  · rename_i hnonempty
    cases hbase
    have hlt : place.cut.startOrdinal < position.endOrdinalExclusive := by omega
    obtain ⟨target, htgt, hlen⟩ := hfits.file
    obtain rfl : target = owner := Option.some.inj (htgt.symm.trans (hid ▸ howner.found))
    have hcut : CutFits target (some position) := by
      intro other hmem
      cases hmem
      exact ⟨by omega, hlen⟩
    have hseg : ownSegment position.threadId target.header (some position) =
        { place.cut with stop := some position } := by
      rw [ownSegment, ← howner.start, ← hid]
    have hinh := Inherits.cut htgt howner.paginated hcut hfits.range howner.inherits
    rw [hseg] at hinh
    refine ⟨_, ⟨hinh, by simpa using hdist, ?_, ?_⟩, ?_⟩
    · refine hasc.of_append.concat ?_ hasc.before_last
      intro other hmem
      cases hmem
      exact hlt
    · refine forall_mem_append.mpr ⟨fun other hmem => ?_, ?_⟩
      · obtain ⟨stop, hmemStop, hbefore⟩ := hasc.before_last other hmem
        exact ⟨stop, hmemStop, hbefore.trans (Nat.lt_succ_of_lt hlt)⟩
      · exact forall_mem_singleton.mpr ⟨_, rfl, Nat.lt_succ_self _⟩
    · rw [hbelow, ← segmentRecords_cut hstop]
      unfold lineageRecords
      rw [flatMap_append, flatMap_singleton]

end Own

end Bases

/-! ## Stores after any steps -/

/-- A rollout has an ascending lineage, its rows come from its lines, and it starts with its
metadata. -/
structure SoundRollout (decode : List UInt8 → LineReading) (store : LocalThreadStore)
    (rolloutId : String)
    (file : RolloutFile) : Prop where
  lineage : ∃ kept, KeptBefore store rolloutId file kept
  rows : UpToDate decode rolloutId file.header (file, store.history rolloutId)
  metadata : ∃ line rest, IsLine line ∧ file.bytes = line ++ rest ∧
    lineOrdinal decode line = some (initialOrdinal file.header)

/-- The rows of a rollout are those of all its complete lines. -/
def Materialized (decode : List UInt8 → LineReading) (store : LocalThreadStore)
    (rolloutId : String) : Prop :=
  ∀ file, store.file? rolloutId = some file →
    Projected decode rolloutId file.header (completeLines [] file.bytes) (store.history rolloutId)

/-- Every rollout of a store is sound, and every thread has one. -/
structure SoundStore (decode : List UInt8 → LineReading) (store : LocalThreadStore) : Prop where
  rollouts : ∀ rolloutId file, store.file? rolloutId = some file →
    SoundRollout decode store rolloutId file
  unknown : ∀ rolloutId, store.file? rolloutId = none → store.history rolloutId = {}
  current : ∀ threadId rolloutId, store.currentRollout threadId = some rolloutId →
    ∃ file, store.file? rolloutId = some file ∧ file.header.id = threadId

section Sound

variable {decode : List UInt8 → LineReading} {store : LocalThreadStore}

variable (h : SoundStore decode store)
include h

/-- What the lineage of a thread is made of. -/
theorem SoundStore.resolve (hcur : store.currentRollout threadId = some rolloutId) :
    ∃ file kept, KeptBefore store rolloutId file kept ∧
      resolveRolloutLineage store threadId = .ok (ownLineage rolloutId file.header kept) := by
  obtain ⟨file, hfile, hid⟩ := h.current threadId rolloutId hcur
  obtain ⟨kept, hkept⟩ := (h.rollouts rolloutId file hfile).lineage
  exact ⟨file, kept, hkept, hkept.resolve hcur hid⟩

/-- Files that grow and rows that stay up to date keep a store sound. -/
theorem SoundStore.grow (more : String → List UInt8)
    (hcur : next.currentRollout = store.currentRollout)
    (hfiles : ∀ id, next.file? id = (store.file? id).map fun file =>
      ⟨file.header, file.bytes ++ more id⟩)
    (hunknown : ∀ id, store.file? id = none → next.history id = store.history id)
    (hrows : ∀ id file, store.file? id = some file →
      UpToDate decode id file.header (⟨file.header, file.bytes ++ more id⟩, next.history id)) :
    SoundStore decode next := by
  have hlonger : ∀ {id file}, store.file? id = some file →
      next.file? id = some ⟨file.header, file.bytes ++ more id⟩ := by
    intro id file hfile
    rw [hfiles, hfile, Option.map_some]
  have hgrow : FilesGrow store next := fun id file hfile => ⟨_, hlonger hfile, rfl, by simp⟩
  constructor
  · intro id longer hnext
    rw [hfiles] at hnext
    obtain ⟨file, hfile, rfl⟩ := Option.map_eq_some_iff.mp hnext
    obtain ⟨⟨kept, hkept⟩, -, line, rest, hline, hbytes, hord⟩ := h.rollouts id file hfile
    exact ⟨⟨kept, hkept.mono hgrow (hlonger hfile) rfl⟩, hrows id file hfile,
      line, rest ++ more id, hline, by rw [hbytes, append_assoc], hord⟩
  · intro id hnone
    rw [hfiles, Option.map_eq_none_iff] at hnone
    rw [hunknown id hnone, h.unknown id hnone]
  · intro thread id hid
    obtain ⟨file, hfile, hhead⟩ := h.current thread id (hcur ▸ hid)
    exact ⟨_, hlonger hfile, hhead⟩

theorem sound_append (rolloutId : String) (bytes : List UInt8) :
    SoundStore decode (store.append rolloutId bytes) := by
  refine h.grow (fun id => if id = rolloutId then bytes else []) rfl
    (fun id => file?_append_eq rolloutId id bytes) (fun _ _ => rfl) ?_
  intro id file hfile
  exact upToDate_projectionStep (h.rollouts id file hfile).rows (.append _)

/-- A run brings the rows of a rollout up to its last complete line. -/
theorem sound_materialize (hrun : materializeRollout decode store rolloutId = .ok next) :
    SoundStore decode next ∧ next.files = store.files ∧ next.currentRollout = store.currentRollout ∧
      Materialized decode next rolloutId ∧
      ∀ other, Materialized decode store other → Materialized decode next other := by
  unfold materializeRollout at hrun
  split at hrun
  · rename_i hnone
    cases hrun
    refine ⟨h, rfl, rfl, ?_, fun _ hother => hother⟩
    intro file hfile
    rw [hnone] at hfile
    cases hfile
  rename_i file hfile
  obtain ⟨rows, hrows, hrun⟩ := bind_eq_ok.mp hrun
  cases hrun
  have hrow := (h.rollouts rolloutId file hfile).rows
  have hdone : Materialized decode
      { store with history := Function.update store.history rolloutId rows } rolloutId := by
    intro other hother
    obtain rfl := Option.some.inj (hfile.symm.trans hother)
    dsimp only
    rw [Function.update_self]
    exact hrow.materialize hrows
  refine ⟨h.grow (fun _ => []) rfl ?_ ?_ ?_, rfl, rfl, hdone, ?_⟩
  · intro id
    simp only [append_nil]
    exact (Option.map_id' ..).symm
  · intro id hid
    refine Function.update_of_ne ?_ ..
    rintro rfl
    simp [hfile] at hid
  · intro id other hother
    simp only [append_nil]
    by_cases hid : id = rolloutId
    · subst hid
      rw [hfile] at hother
      cases hother
      have hstep := upToDate_projectionStep hrow (.materialize true)
      dsimp only [projectionStep] at hstep
      rw [hrows] at hstep
      rw [Function.update_self]
      exact hstep
    · rw [Function.update_of_ne hid]
      exact (h.rollouts id other hother).rows
  · intro other hother
    by_cases hid : other = rolloutId
    · exact hid ▸ hdone
    · intro file hfile
      dsimp only
      rw [Function.update_of_ne hid]
      exact hother file hfile

/-- Runs over the rollouts of some segments bring the rows of all of them up to date. -/
theorem sound_materializeAll {segs : RolloutLineage}
    (hrun : segs.foldlM (fun store segment => materializeRollout decode store segment.rolloutId)
      store = .ok next) :
    SoundStore decode next ∧ next.files = store.files ∧
      next.currentRollout = store.currentRollout ∧
      (∀ segment ∈ segs, Materialized decode next segment.rolloutId) ∧
      ∀ other, Materialized decode store other → Materialized decode next other := by
  induction segs generalizing store with
  | nil =>
    cases hrun
    exact ⟨h, rfl, rfl, by simp, fun _ hother => hother⟩
  | cons segment segs ih =>
    obtain ⟨between, hfirst, hrun⟩ := bind_eq_ok.mp hrun
    obtain ⟨hsound, hfiles, hcur, hdone, hkeeps⟩ := sound_materialize h hfirst
    obtain ⟨hsound', hfiles', hcur', hdone', hkeeps'⟩ := ih hsound hrun
    refine ⟨hsound', hfiles'.trans hfiles, hcur'.trans hcur, ?_, ?_⟩
    · exact forall_mem_cons.mpr ⟨hkeeps' _ hdone, hdone'⟩
    · exact fun other hother => hkeeps' other (hkeeps other hother)

end Sound

/-! ## Boundaries of sound stores -/

/-- The records of a rollout that start or end turns. -/
def rolloutTurns (decode : List UInt8 → LineReading) (store : LocalThreadStore)
    (rolloutId : String) : List TurnRecord :=
  ((store.file? rolloutId).map fun file =>
    turnRecords decode file.header.subagentHistoryStartOrdinal (initialOrdinal file.header)
      (completeLines [] file.bytes)).getD []

/-- The segment shows a turn: its range has the first record of the turn in its rollout. -/
def Shows (turns : String → List TurnRecord) (turnId : String) (segment : RolloutLineageSegment)
    (first : Nat) : Prop :=
  firstOrdinal turnId (turns segment.rolloutId) = some first ∧ segment.contains first = true

/-- The ordinal at a boundary of a lineage, from the records of the turns of its rollouts. -/
inductive AtBoundary (turns : String → List TurnRecord) (lineage : RolloutLineage) :
    ForkBoundary → Option Nat → Prop
  /-- All records lie before the latest place. -/
  | latest : AtBoundary turns lineage .latest none
  /-- The newest segment that shows the turn counts, and the record that ends the turn there. -/
  | throughTurn {turnId : String} {older newer : RolloutLineage} {segment : RolloutLineageSegment}
      {first stop : Nat} (hsplit : lineage = older ++ segment :: newer)
      (hshows : Shows turns turnId segment first)
      (hnewest : ∀ other ∈ newer, ∀ ordinal, ¬ Shows turns turnId other ordinal)
      (hends : terminalOrdinal turnId (turns segment.rolloutId) = some stop) :
      AtBoundary turns lineage (.throughTurn turnId) (some (stop + 1))
  /-- The oldest segment that shows the turn counts, and the first record of the turn there. -/
  | beforeTurn {turnId : String} {older newer : RolloutLineage} {segment : RolloutLineageSegment}
      {first : Nat} (hsplit : lineage = older ++ segment :: newer)
      (hshows : Shows turns turnId segment first)
      (holdest : ∀ other ∈ older, ∀ ordinal, ¬ Shows turns turnId other ordinal) :
      AtBoundary turns lineage (.beforeTurn turnId) (some first)

section Boundaries

variable {decode : List UInt8 → LineReading} {store : LocalThreadStore} {row : TurnRow}
  (h : SoundStore decode store) (hkept : KeptBefore store rolloutId file kept)

theorem completeLines_length_le (bytes : List UInt8) :
    (completeLines [] bytes).flatten.length ≤ bytes.length := by
  obtain ⟨rest, hrest, -⟩ := exists_completeLines not_mem_nil bytes
  have hlen := congrArg List.length hrest
  simp only [nil_append, length_append] at hlen
  omega

include hkept

/-- A place of the rollout of a segment, not before the segment. -/
theorem position_fits {owner : RolloutFile} (hseg : segment ∈ hkept.lineage)
    (howner : store.file? segment.rolloutId = some owner) {ord offset : Nat}
    (hlen : offset ≤ owner.bytes.length) (hmax : ord ≤ i64Max)
    (hstart : segment.startOrdinal ≤ ord) :
    PositionFits store hkept.lineage ⟨segment.rolloutId, ord, offset⟩ := by
  refine ⟨⟨owner, howner, hlen⟩, ?_, fun other hother hid => ?_⟩
  · have hrange : i64Max + 1 ≤ u64Max := by decide
    dsimp only
    omega
  · rw [hkept.eq_of_rolloutId hseg hother hid]
    exact hstart

include h

/-- The rollout of a segment can be cut where one of its turns starts or ends. -/
theorem turn_fits {segment : RolloutLineageSegment}
    (hseg : segment ∈ hkept.lineage)
    (hrow : row ∈ segment.turns store.history) :
    PositionFits store hkept.lineage
        ⟨segment.rolloutId, row.rolloutOrdinal, row.rolloutByteOffset⟩ ∧
      ∀ ord ∈ row.rolloutEndOrdinal, ∀ offset ∈ row.rolloutEndByteOffset,
        PositionFits store hkept.lineage ⟨segment.rolloutId, ord + 1, offset⟩ := by
  obtain ⟨owner, howner⟩ := hkept.file_of_mem hseg
  obtain ⟨lines, rest, hbytes, -, hrows⟩ := (h.rollouts _ owner howner).rows
  have hlen : lines.flatten.length ≤ owner.bytes.length := by
    rw [congrArg RolloutFile.bytes hbytes, length_append]
    exact Nat.le_add_right _ _
  obtain ⟨hmem, hcont⟩ := mem_filter.mp hrow
  have hplaced := hrows.placed row hmem
  have hord := hplaced.ordinal_lt
  have hstart := (contains_eq_true.mp hcont).1
  refine ⟨position_fits hkept hseg howner (hplaced.offset_le.trans hlen) (by omega) hstart, ?_⟩
  intro ord hend offset hoff
  obtain ⟨hle, hlt⟩ := hplaced.end_ordinal ord hend
  exact position_fits hkept hseg howner ((hplaced.end_offset offset hoff).trans hlen) (by omega)
    (by omega)

omit h in
/-- The rows of a segment are those of the turns that it shows. -/
theorem spans_of_mem (hseg : segment ∈ hkept.lineage)
    (hdone : Materialized decode store segment.rolloutId) :
    Spans (rolloutTurns decode store segment.rolloutId)
      (store.history segment.rolloutId).turns := by
  obtain ⟨owner, howner⟩ := hkept.file_of_mem hseg
  unfold rolloutTurns
  rw [howner]
  exact (hdone owner howner).spans

omit h in
/-- A row that a segment has is that of a turn which the segment shows. -/
theorem shows_of_row (hseg : segment ∈ hkept.lineage)
    (hdone : Materialized decode store segment.rolloutId)
    (hrow : row ∈ segment.turns store.history) :
    Shows (rolloutTurns decode store) row.turnId segment row.rolloutOrdinal ∧
      terminalOrdinal row.turnId (rolloutTurns decode store segment.rolloutId) =
        row.rolloutEndOrdinal := by
  obtain ⟨hmem, hcont⟩ := mem_filter.mp hrow
  have hspans := (spans_of_mem hkept hseg hdone).rows row hmem
  exact ⟨⟨hspans.first, hcont⟩, hspans.terminal.symm⟩

omit h in
/-- A segment without a row for a turn does not show it. -/
theorem not_shows_of_hasTurn {turnId : String} {segs : RolloutLineage}
    (hsub : ∀ segment ∈ segs, segment ∈ hkept.lineage)
    (hdone : ∀ segment ∈ hkept.lineage, Materialized decode store segment.rolloutId)
    (hnone : hasTurn store.history segs turnId = false) :
    ∀ segment ∈ segs, ∀ ordinal, ¬ Shows (rolloutTurns decode store) turnId segment ordinal := by
  rintro segment hmem ordinal ⟨hfirst, hcont⟩
  have hspans := spans_of_mem hkept (hsub segment hmem) (hdone segment (hsub segment hmem))
  obtain ⟨record, hfound, -⟩ := Option.map_eq_some_iff.mp hfirst
  have hid : record.turnId = turnId := by simpa using find?_some hfound
  obtain ⟨row, hrow, hturn⟩ := hspans.complete record (mem_of_find?_eq_some hfound)
  have hord := (hspans.rows row hrow).first
  rw [hturn, hid, hfirst] at hord
  obtain rfl := Option.some.inj hord
  refine any_eq_false.mp hnone segment hmem (any_eq_true.mpr ⟨row, ?_, ?_⟩)
  · exact mem_filter.mpr ⟨hrow, hcont⟩
  · exact decide_eq_true (hturn.trans hid)

/-- The latest place lies after all records of the lineage. -/
theorem latest_fits (hrows : Projected decode rolloutId file.header (completeLines [] file.bytes)
      (store.history rolloutId))
    (hlatest : latestPosition store.history threadId hkept.lineage = .ok position) :
    PositionFits store hkept.lineage position ∧
      ∀ record ∈ lineageRecords decode store hkept.lineage,
        record.1 < position.endOrdinalExclusive := by
  obtain ⟨line, rest, hline, hbytes, hmeta⟩ := (h.rollouts rolloutId file hkept.found).metadata
  have hsplit : completeLines [] file.bytes = line :: completeLines [] rest := by
    have hlines : ∀ other ∈ [line], IsLine other := by simpa using hline
    simpa [hbytes] using completeLines_flatten_append hlines rest
  obtain ⟨state, hstate, hoff, hmax, hbelow⟩ := hrows.checkpoint (by simp [hsplit])
  have hfirst : initialOrdinal file.header < state.nextOrdinal :=
    hbelow line (by simp [hsplit]) _ hmeta
  unfold latestPosition KeptBefore.lineage ownLineage at hlatest
  rw [getLast?_concat] at hlatest
  dsimp only [ownSegment] at hlatest
  rw [hstate] at hlatest
  cases hlatest
  refine ⟨position_fits hkept (mem_append_right _ mem_cons_self) hkept.found
    (hoff ▸ completeLines_length_le file.bytes) hmax hfirst, ?_⟩
  intro record hrec
  obtain ⟨segment, hseg, hmem⟩ := mem_flatMap.mp hrec
  rcases mem_append.mp hseg with hseg | hseg
  · obtain ⟨stop, hstop, hlt⟩ := hkept.keeps.ends segment hseg
    have hcont := (contains_eq_true.mp (contains_of_mem_segmentRecords hmem)).2 stop hstop
    unfold initialOrdinal at hfirst
    dsimp only
    omega
  · rw [mem_singleton.mp hseg] at hmem
    have hrecs := (mem_filter.mp hmem).1
    dsimp only [rolloutRecords, ownSegment] at hrecs
    rw [hkept.found] at hrecs
    obtain ⟨other, hother, hrec⟩ := mem_filterMap.mp hrecs
    obtain ⟨ord, hord, rfl⟩ := Option.map_eq_some_iff.mp hrec
    exact hbelow other hother ord hord

/-- The row of a turn gives the ordinal at its boundary and a place to cut there. -/
theorem turnBoundary_fits {latest : HistoryPosition} (hturn : boundary ≠ .latest)
    (hdone : ∀ segment ∈ hkept.lineage, Materialized decode store segment.rolloutId)
    (hpos : boundaryPosition store.history hkept.lineage latest boundary = .ok position) :
    PositionFits store hkept.lineage position ∧
      AtBoundary (rolloutTurns decode store) hkept.lineage boundary
        (some position.endOrdinalExclusive) := by
  cases boundary with
  | latest => exact absurd rfl hturn
  | throughTurn turnId =>
    obtain ⟨⟨id, row⟩, hfound, hplace⟩ := bind_eq_ok.mp hpos
    obtain ⟨before, segment, after, hsplit, rfl, hrow, rfl, hnone⟩ := findTurn_eq_ok hfound
    have hlineage : hkept.lineage = after.reverse ++ segment :: before.reverse := by
      rw [← reverse_reverse hkept.lineage, hsplit]
      simp
    have hmem : segment ∈ hkept.lineage := by simp [hlineage]
    obtain ⟨hshows, hterminal⟩ := shows_of_row hkept hmem (hdone segment hmem) hrow
    dsimp only [turnEndPosition] at hplace
    split at hplace
    · cases hplace
    split at hplace
    · rename_i hend hoff
      cases hplace
      refine ⟨(turn_fits h hkept hmem hrow).2 _ hend _ hoff, ?_⟩
      refine .throughTurn hlineage hshows ?_ (hterminal.trans hend)
      intro other hother
      refine not_shows_of_hasTurn hkept (fun other hother => ?_) hdone hnone other
        (mem_reverse.mp hother)
      simp [hlineage, hother]
    · cases hplace
  | beforeTurn turnId =>
    obtain ⟨⟨id, row⟩, hfound, hplace⟩ := bind_eq_ok.mp hpos
    obtain ⟨older, segment, newer, hsplit, rfl, hrow, rfl, hnone⟩ := findTurn_eq_ok hfound
    have hmem : segment ∈ hkept.lineage := by simp [hsplit]
    obtain ⟨hshows, -⟩ := shows_of_row hkept hmem (hdone segment hmem) hrow
    dsimp only [turnStartPosition] at hplace
    split at hplace <;> cases hplace
    refine ⟨(turn_fits h hkept hmem hrow).1, .beforeTurn hsplit hshows ?_⟩
    refine not_shows_of_hasTurn hkept (fun other hother => ?_) hdone hnone
    simp [hsplit, hother]

/-- **The base at a boundary keeps the records before it.** -/
theorem historyBaseAtBoundary_keeps {base : Option HistoryPosition}
    (hdone : ∀ segment ∈ segmentsToMaterialize boundary hkept.lineage,
      Materialized decode store segment.rolloutId)
    (hbase : historyBaseAtBoundary store.history threadId boundary hkept.lineage = .ok base) :
    ∃ inherited bound, Keeps store base inherited ∧
      AtBoundary (rolloutTurns decode store) hkept.lineage boundary bound ∧
      lineageRecords decode store inherited =
        (lineageRecords decode store hkept.lineage).filter fun record =>
          bound.all (record.1 < ·) := by
  obtain ⟨latest, hlatest, hrest⟩ := bind_eq_ok.mp hbase
  obtain ⟨position, hpos, hat⟩ := bind_eq_ok.mp hrest
  by_cases hturn : boundary = .latest
  · subst hturn
    cases hpos
    have hlast : ownSegment rolloutId file.header none ∈
        segmentsToMaterialize .latest hkept.lineage := by
      simp [segmentsToMaterialize, ownLineage]
    have hrows := hdone _ hlast file hkept.found
    obtain ⟨hfits, hall⟩ := latest_fits h hkept hrows hlatest
    obtain ⟨inherited, hkeeps, hrecs⟩ := historyBaseAt_keeps hkept hfits hat
    refine ⟨inherited, none, hkeeps, .latest, hrecs.trans ?_⟩
    refine filter_congr ?_
    intro record hmem
    simp [hall record hmem]
  · have hsegs : segmentsToMaterialize boundary hkept.lineage = hkept.lineage := by
      cases boundary with
      | latest => exact absurd rfl hturn
      | throughTurn | beforeTurn => rfl
    rw [hsegs] at hdone
    obtain ⟨hfits, hbound⟩ := turnBoundary_fits h hkept hturn hdone hpos
    obtain ⟨inherited, hkeeps, hrecs⟩ := historyBaseAt_keeps hkept hfits hat
    exact ⟨inherited, _, hkeeps, hbound, hrecs⟩

end Boundaries

/-! ## New rollouts -/

section Adding

variable {decode : List UInt8 → LineReading} {store : LocalThreadStore} {header : SessionMeta}
  {line : List UInt8}

theorem file?_add (hnext : next.files = store.files ++ [(rolloutId, ⟨header, line⟩)])
    (hfresh : store.file? rolloutId = none) (id : String) :
    next.file? id = if id = rolloutId then some ⟨header, line⟩ else store.file? id := by
  unfold LocalThreadStore.file? at hfresh ⊢
  rw [hnext, find?_append]
  split
  · rename_i hid
    subst hid
    rw [Option.map_eq_none_iff.mp hfresh]
    simp
  · rename_i hid
    simp [Ne.symm hid]

/-- **A new rollout has what it keeps, and no records of its own.** -/
theorem sound_add (h : SoundStore decode store) (hkeeps : Keeps store header.historyBase kept)
    (hmode : header.historyMode = .paginated)
    (hadd : addRollout decode store rolloutId header line = some next) :
    SoundStore decode next ∧
      visibleRecords decode next header.id = .ok (lineageRecords decode store kept) := by
  obtain ⟨⟨hnone, hone, hord⟩, hnext⟩ := Option.ite_none_right_eq_some.mp hadd
  have hfiles : next.files = store.files ++ [(rolloutId, ⟨header, line⟩)] := by cases hnext; rfl
  have hfile := file?_add hfiles hnone
  have hcur : next.currentRollout =
      Function.update store.currentRollout header.id (some rolloutId) := by cases hnext; rfl
  have hhist : next.history = store.history := by cases hnext; rfl
  have hline : IsLine line := isLine_of_mem_completeLines line line (by simp [hone])
  have hold : ∀ id file, store.file? id = some file → next.file? id = some file := by
    intro id file hid
    rw [hfile, if_neg, hid]
    rintro rfl
    simp [hnone] at hid
  have hgrow : FilesGrow store next := fun id file hid => ⟨file, hold id file hid, rfl, le_rfl⟩
  have hfresh : ∀ segment ∈ kept, segment.rolloutId ≠ rolloutId := by
    intro segment hmem hid
    obtain ⟨file, hfound⟩ := hkeeps.inherits.file_of_mem hmem
    simp [hid, hnone] at hfound
  have hnew : KeptBefore next rolloutId ⟨header, line⟩ kept :=
    ⟨by rw [hfile, if_pos rfl], hmode, hkeeps.mono hgrow, hfresh⟩
  have hsound : SoundStore decode next := by
    constructor
    · intro id file hid
      rw [hfile] at hid
      split at hid
      · rename_i heq
        cases hid
        subst heq
        refine ⟨⟨kept, hnew⟩, ?_, line, [], hline, (append_nil line).symm, hord⟩
        rw [hhist, h.unknown id hnone]
        exact ⟨[], line, rfl, by simp, projected_nil decode id header⟩
      · obtain ⟨⟨kept, hkept⟩, hrows, hmeta⟩ := h.rollouts id file hid
        exact ⟨⟨kept, hkept.mono hgrow (hold id file hid) rfl⟩, hhist ▸ hrows, hmeta⟩
    · intro id hid
      rw [hfile] at hid
      split at hid
      · cases hid
      · rw [hhist, h.unknown id hid]
    · intro threadId id hid
      rw [hcur] at hid
      by_cases heq : threadId = header.id
      · subst heq
        rw [Function.update_self] at hid
        cases hid
        exact ⟨_, hnew.found, rfl⟩
      · rw [Function.update_of_ne heq] at hid
        obtain ⟨file, hfound, hhead⟩ := h.current threadId id hid
        exact ⟨file, hold id file hfound, hhead⟩
  refine ⟨hsound, ?_⟩
  -- the records of the new rollout are its metadata, which lies before its segment
  have hrecs : lineageRecords decode next kept = lineageRecords decode store kept := by
    refine flatMap_congr ?_
    intro segment hmem
    unfold segmentRecords rolloutRecords
    rw [hfile, if_neg (hfresh segment hmem)]
  have hown : segmentRecords decode next (ownSegment rolloutId header none) = [] := by
    unfold segmentRecords rolloutRecords fileRecords ownSegment
    rw [hnew.found]
    simp [hone, hord, RolloutLineageSegment.contains]
  have hres := hnew.resolve (hcur ▸ Function.update_self ..) rfl
  unfold visibleRecords
  rw [hres]
  refine congrArg Except.ok ?_
  unfold lineageRecords at hrecs ⊢
  rw [KeptBefore.lineage, ownLineage, flatMap_append, flatMap_singleton, hrecs, hown, append_nil]

end Adding

/-! ## Runs -/

/-- The new thread has exactly the records of its source before the boundary. -/
def HasPrefix (decode : List UInt8 → LineReading) (store next : LocalThreadStore)
    (sourceId threadId : String) (boundary : ForkBoundary) : Prop :=
  ∃ lineage records bound, resolveRolloutLineage store sourceId = .ok lineage ∧
    visibleRecords decode store sourceId = .ok records ∧
    AtBoundary (rolloutTurns decode store) lineage boundary bound ∧
    visibleRecords decode next threadId = .ok (records.filter fun record =>
      bound.all (record.1 < ·))

section Runs

variable {decode : List UInt8 → LineReading} {store prepared : LocalThreadStore}
  {sourceId op : String}

theorem lineageRecords_congr (hfiles : next.files = store.files) (lineage : RolloutLineage) :
    lineageRecords decode next lineage = lineageRecords decode store lineage := by
  unfold lineageRecords segmentRecords rolloutRecords LocalThreadStore.file?
  rw [hfiles]

theorem rolloutTurns_congr (hfiles : next.files = store.files) :
    rolloutTurns decode next = rolloutTurns decode store := by
  unfold rolloutTurns LocalThreadStore.file?
  rw [hfiles]

/-- **What a prepared base keeps.** -/
theorem prepareBase_keeps (h : SoundStore decode store)
    (hprep : prepareBase decode op store sourceId boundary = .ok (prepared, base)) :
    SoundStore decode prepared ∧ ∃ lineage kept bound,
      resolveRolloutLineage store sourceId = .ok lineage ∧ Keeps prepared base kept ∧
      AtBoundary (rolloutTurns decode store) lineage boundary bound ∧
      lineageRecords decode prepared kept =
        (lineageRecords decode store lineage).filter fun record =>
          bound.all (record.1 < ·) := by
  obtain ⟨lineage, hlin, hprep⟩ := bind_eq_ok.mp hprep
  split at hprep
  · cases hprep
  obtain ⟨later, hlater, hprep⟩ := bind_eq_ok.mp hprep
  obtain ⟨found, hfound, hprep⟩ := bind_eq_ok.mp hprep
  cases hprep
  obtain ⟨hsound, hfiles, hcur, hdone, -⟩ := sound_materializeAll h hlater
  have hres := resolveRolloutLineage_extends (extends_of_files hfiles hcur) hlin
  obtain ⟨rolloutId, hthr⟩ : ∃ rolloutId, prepared.currentRollout sourceId = some rolloutId := by
    cases hthr : prepared.currentRollout sourceId with
    | none =>
      rw [resolveRolloutLineage, hthr] at hres
      cases hres
    | some rolloutId => exact ⟨rolloutId, rfl⟩
  obtain ⟨file, kept, hbefore, hown⟩ := hsound.resolve hthr
  obtain rfl := Except.ok.inj (hown.symm.trans hres)
  obtain ⟨inherited, bound, hkept, hbound, hrecs⟩ :=
    historyBaseAtBoundary_keeps hsound hbefore hdone hfound
  rw [rolloutTurns_congr hfiles] at hbound
  refine ⟨hsound, _, inherited, bound, hlin, hkept, hbound, ?_⟩
  rw [hrecs, lineageRecords_congr hfiles]

/-- A new rollout at a prepared base. -/
theorem sound_prepared {start : Option Nat} {line : List UInt8} (h : SoundStore decode store)
    (hnew : ((prepareBase decode op store sourceId boundary).toOption.bind fun found =>
      addRollout decode found.1 rolloutId ⟨threadId, .paginated, found.2, start⟩ line) =
        some next) :
    SoundStore decode next ∧ HasPrefix decode store next sourceId threadId boundary := by
  obtain ⟨⟨prepared, base⟩, hprep, hadd⟩ := Option.bind_eq_some_iff.mp hnew
  obtain ⟨hsound, lineage, kept, bound, hlin, hkept, hbound, hrecs⟩ :=
    prepareBase_keeps h (toOption_eq_some.mp hprep)
  obtain ⟨hnext, hvis⟩ := sound_add hsound hkept rfl hadd
  refine ⟨hnext, lineage, lineageRecords decode store lineage, bound, hlin, ?_, hbound, ?_⟩
  · unfold visibleRecords
    rw [hlin]
    rfl
  · rw [hvis, hrecs]

theorem sound_storeStep {event : StoreEvent} (h : SoundStore decode store)
    (hstep : storeStep decode store event = some next) : SoundStore decode next := by
  cases event with
  | create threadId rolloutId start line =>
    obtain ⟨-, hadd⟩ := Option.ite_none_right_eq_some.mp hstep
    have hkeeps : Keeps store none [] := ⟨.root, nodup_nil, ⟨by simp, List.Pairwise.nil⟩, by simp⟩
    exact (sound_add h hkeeps rfl hadd).1
  | append rolloutId bytes =>
    cases hstep
    exact sound_append h rolloutId bytes
  | materialize rolloutId => exact (sound_materialize h (toOption_eq_some.mp hstep)).1
  | fork sourceId threadId rolloutId boundary start line =>
    obtain ⟨-, hfork⟩ := Option.ite_none_right_eq_some.mp hstep
    exact (sound_prepared h hfork).1
  | revert threadId turnId rolloutId start line => exact (sound_prepared h hstep).1

theorem sound_emptyStore (decode : List UInt8 → LineReading)
    (stateDb : Option (String → Option ThreadMetadata)) :
    SoundStore decode (emptyStore stateDb) where
  rollouts := fun _ _ h => nomatch h
  unknown := fun _ _ => rfl
  current := fun _ _ h => nomatch h

end Runs

/-- **Forks and reverts keep exactly a prefix.**  In every store that threads were created in,
written, materialised, forked and reverted, the lineage of each thread resolves, without a
repetition and with ascending ranges; and a fork or revert that succeeds leaves exactly the
records of the source before its boundary. -/
theorem forkRevert_exact (decode : List UInt8 → LineReading)
    (stateDb : Option (String → Option ThreadMetadata)) (events : List StoreEvent)
    (store : LocalThreadStore)
    (hrun : run (storeStep decode) (emptyStore stateDb) events = some store) :
    (∀ threadId rolloutId, store.currentRollout threadId = some rolloutId →
      ∃ lineage, resolveRolloutLineage store threadId = .ok lineage ∧
        (lineage.map RolloutLineageSegment.rolloutId).Nodup ∧ Ascending lineage) ∧
      (∀ sourceId threadId rolloutId boundary start line next,
        storeStep decode store (.fork sourceId threadId rolloutId boundary start line) = some next →
          HasPrefix decode store next sourceId threadId boundary) ∧
      ∀ threadId turnId rolloutId start line next,
        storeStep decode store (.revert threadId turnId rolloutId start line) = some next →
          HasPrefix decode store next threadId threadId (.beforeTurn turnId) := by
  have hstep : ∀ store event next, SoundStore decode store →
      storeStep decode store event = some next →
      SoundStore decode next := fun _ _ _ h hnext => sound_storeStep h hnext
  have h := run_invariant hstep hrun (sound_emptyStore decode stateDb)
  refine ⟨?_, ?_, ?_⟩
  · intro threadId rolloutId hcur
    obtain ⟨file, kept, hkept, hres⟩ := h.resolve hcur
    exact ⟨_, hres, hkept.distinct, hkept.ascending⟩
  · intro sourceId threadId rolloutId boundary start line next hfork
    obtain ⟨-, hfork⟩ := Option.ite_none_right_eq_some.mp hfork
    exact (sound_prepared h hfork).2
  · intro threadId turnId rolloutId start line next hrevert
    exact (sound_prepared h hrevert).2

/-! ## Two turns and a fork between them -/

/-- The first byte of a sample is its ordinal, the second one its kind. -/
def sampleRecord : List UInt8 → LineReading
  | ordinal :: 0 :: _ => .decoded ⟨some ordinal.toNat, none, .other⟩
  | ordinal :: 1 :: _ => .decoded ⟨some ordinal.toNat, none, .turnStarted "first" (some 5)⟩
  | ordinal :: 2 :: _ =>
    .decoded ⟨some ordinal.toNat, none, .turnComplete "first" none (some 5) (some 9) (some 4)⟩
  | ordinal :: 3 :: _ => .decoded ⟨some ordinal.toNat, none, .turnStarted "second" (some 10)⟩
  | ordinal :: 4 :: _ =>
    .decoded ⟨some ordinal.toNat, none, .turnAborted (some "second") (some 10) (some 12) (some 2)⟩
  | _ => .malformed

/-- A thread with two turns, a fork through the first one, and a second turn in the fork. -/
def sampleEvents : List StoreEvent :=
  [.create "source" "source" none [0, 0, 10],
    .append "source" [1, 1, 10, 2, 2, 10, 3, 3, 10, 4, 4, 10],
    .fork "source" "fork" "fork" (.throughTurn "first") none [3, 0, 10],
    .append "fork" [4, 0, 10, 5, 3, 10, 6, 0, 10]]

/-- The fork is taken back to before its own second turn. -/
theorem forkRevert_exact_sample :
    ∃ store next, run (storeStep sampleRecord) (emptyStore (some fun _ => none)) sampleEvents =
        some store ∧
      storeStep sampleRecord store (.revert "fork" "second" "reverted" none [5, 0, 10]) =
        some next ∧
      HasPrefix sampleRecord store next "fork" "fork" (.beforeTurn "second") ∧
      (visibleRecords sampleRecord next "fork").map (List.map Prod.fst) = .ok [1, 2, 4] := by
  have hsome : ((run (storeStep sampleRecord) (emptyStore (some fun _ => none))
      (sampleEvents ++ [.revert "fork" "second" "reverted" none [5, 0, 10]])).map fun next =>
        (visibleRecords sampleRecord next "fork").map (List.map Prod.fst)) =
      some (.ok [1, 2, 4]) := by
    decide +kernel
  obtain ⟨next, hrun, hrecords⟩ := Option.map_eq_some_iff.mp hsome
  obtain ⟨store, hstore, hlast⟩ := run_append_eq_some.mp hrun
  obtain ⟨_, hnext, hnil⟩ := run_cons_eq_some.mp hlast
  cases hnil
  exact ⟨store, next, hstore, hnext,
    (forkRevert_exact sampleRecord _ sampleEvents store hstore).2.2 _ _ _ _ _ _ hnext, hrecords⟩

end RenCrow.ThreadStore
