import RenCrowCore.Lib.Except
import Mathlib

/-!
# Threads in sections

`state/src/runtime/thread_section_order.rs` keeps the order of the threads of a section in
an integer column, finds a free integer for a moved thread and renumbers the section when
there is none.

* `insertBefore`, `Lists.move`: what a move means, on plain lists;
* `sectionMovePosition_spec`: a position is always found, and it lies where the thread goes;
* `moves_as_lists`: every sequence of moves acts on the sections as on plain lists.
-/

namespace RenCrow.State

open Fallible

/-! ## Plain lists -/

/-- `thread` put immediately before `before`, or at the end. -/
def insertBefore {α : Type} [DecidableEq α] (thread : α) (before : Option α) : List α → List α
  | [] => [thread]
  | other :: rest =>
    if some other = before then thread :: other :: rest
    else other :: insertBefore thread before rest

theorem mem_insertBefore {α : Type} [DecidableEq α] {thread a : α} {before : Option α}
    {list : List α} :
    a ∈ insertBefore thread before list ↔ a = thread ∨ a ∈ list := by
  induction list with
  | nil => simp [insertBefore]
  | cons other rest ih =>
    unfold insertBefore
    split
    · simp
    · simp [ih, or_left_comm]

/-- A sorted list stays sorted when the new thread belongs where it is put. -/
theorem insertBefore_pairwise {α : Type} [DecidableEq α] {below : α → α → Prop} {thread : α}
    {before : Option α} {list : List α} (hsorted : list.Pairwise below)
    (hbefore : ∀ b ∈ before, b ∈ list)
    (hleft : ∀ a ∈ list, (∀ b ∈ before, below a b) → below a thread)
    (hright : ∀ a ∈ list, ∀ b ∈ before, a = b ∨ below b a → below thread a) :
    (insertBefore thread before list).Pairwise below := by
  induction list with
  | nil => exact List.pairwise_singleton _ _
  | cons other rest ih =>
    obtain ⟨hother, hrest⟩ := List.pairwise_cons.mp hsorted
    unfold insertBefore
    split
    · rename_i heq
      refine List.pairwise_cons.mpr ⟨fun a ha => ?_, hsorted⟩
      exact hright a ha other heq.symm ((List.mem_cons.mp ha).imp_right (hother a))
    · rename_i hne
      have hlater : ∀ b ∈ before, b ∈ rest := by
        intro b hb
        refine (List.mem_cons.mp (hbefore b hb)).resolve_left ?_
        rintro rfl
        exact hne hb.symm
      refine List.pairwise_cons.mpr ⟨fun a ha => ?_, ih hrest hlater
        (fun a ha => hleft a (.tail _ ha)) fun a ha => hright a (.tail _ ha)⟩
      rcases mem_insertBefore.mp ha with rfl | ha
      · exact hleft other (.head _) fun b hb => hother b (hlater b hb)
      · exact hother a ha

/-- One call of `move_thread_to_section`, with the time it is made at. -/
structure Move where
  thread : String
  sectionId? : Option String
  before? : Option String
  now : Int

/-- Whether the call names a known thread, section and place. -/
def Move.isValid (call : Move) (threads sections : List String) (lists : String → List String) :
    Bool :=
  call.thread ∈ threads && match call.sectionId? with
  | none => call.before?.isNone
  | some s => s ∈ sections && call.before?.all fun b => b ∈ lists s && b ≠ call.thread

theorem Move.isValid_some {thread s : String} {before : Option String} {now : Int}
    {threads sections : List String} {lists : String → List String} :
    (⟨thread, some s, before, now⟩ : Move).isValid threads sections lists ↔
      thread ∈ threads ∧ s ∈ sections ∧ ∀ b ∈ before, b ∈ (lists s).filter (· ≠ thread) := by
  cases before <;> simp [Move.isValid]

/-- What a call does to the lists of threads of the sections. -/
def Lists.move (threads sections : List String) (lists : String → List String) (call : Move) :
    String → List String :=
  let without := fun s => (lists s).filter (· ≠ call.thread)
  if call.isValid threads sections lists then
    match call.sectionId? with
    | none => without
    | some s => Function.update without s (insertBefore call.thread call.before? (without s))
  else lists

/-! ## The table -/

/-- `SECTION_POSITION_GAP`. -/
def sectionPositionGap : Int := 1000000

/-- `i64::MAX`. -/
def i64Max : Int := 9223372036854775807

/-- The columns of the `threads` table that order sections, and the `thread_sections`. -/
structure StateRuntime where
  ids : List String
  threadSectionId : String → Option String
  sectionPosition : String → Option Int
  sectionEnteredAtMs : String → Option Int
  threadSections : List String
  /-- `id` is the primary key. -/
  primaryKey : ids.Nodup

/-- Why a call fails. -/
inductive MoveError where
  | beforeWithoutSection
  | noSection (name : String)
  | beforeItself (thread : String)
  | beforeNotInSection (before name : String)
  | noRemainingPositions (name : String)

/-- The text of an error. -/
def MoveError.message : MoveError → String
  | beforeWithoutSection => "before thread cannot be specified without a section"
  | noSection name => s!"section {name} does not exist"
  | beforeItself thread => s!"thread {thread} cannot be moved before itself"
  | beforeNotInSection before name => s!"before thread {before} is not in section {name}"
  | noRemainingPositions name => s!"section {name} has no remaining thread positions"

namespace StateRuntime

/-- The threads with `thread_section_id = s`. -/
def members (db : StateRuntime) (s : String) : List String :=
  db.ids.filter (db.threadSectionId · = some s)

/-- `ORDER BY section_position ASC, id ASC`, where NULL comes first. -/
def sortKey (db : StateRuntime) (id : String) : WithBot Int ×ₗ String :=
  toLex (db.sectionPosition id, id)

/-- The threads of a section in the order of their positions. -/
def sectionThreads (db : StateRuntime) (s : String) : List String :=
  (db.members s).mergeSort (db.sortKey · ≤ db.sortKey ·)

/-- The rows of the section that a move of `thread` looks at. -/
def others (db : StateRuntime) (s thread : String) : List String :=
  (db.members s).filter (· ≠ thread)

/-- `ROW_NUMBER()` over the rows that a move looks at. -/
def rowNumber (db : StateRuntime) (s thread id : String) : Nat :=
  ((db.others s thread).filter (db.sortKey · ≤ db.sortKey id)).length

/-- The rows get positions with equal gaps; the moved thread keeps the one it has. -/
def renumberSectionPositions (db : StateRuntime) (s thread : String) : StateRuntime :=
  { db with
    sectionPosition := fun id =>
      if id ∈ db.others s thread then some (db.rowNumber s thread id * sectionPositionGap)
      else db.sectionPosition id }

/-- One round of the loop of `section_move_position`. -/
def freePosition (db : StateRuntime) (s thread : String) :
    Option String → Except MoveError (Option Int)
  | some before =>
    match if before ∈ db.members s then db.sectionPosition before else none with
    | none => .error (.beforeNotInSection before s)
    | some upper =>
      let positions := (db.others s thread).filterMap db.sectionPosition
      match (positions.filter (· < upper)).max? with
      | some lower => .ok (if upper - lower > 1 then some (lower + (upper - lower) / 2) else none)
      | none => .ok (if upper > 1 then some (upper / 2) else none)
  | none =>
    let maxPosition := ((db.others s thread).filterMap db.sectionPosition).max?
    -- `checked_add`
    let position := maxPosition.getD 0 + sectionPositionGap
    .ok (if position ≤ i64Max then some position else none)

/-- The table, renumbered if need be, and the position of the moved thread in it. -/
def sectionMovePosition (db : StateRuntime) (s thread : String) (before : Option String) :
    Except MoveError (StateRuntime × Int) := do
  match ← db.freePosition s thread before with
  | some position => return (db, position)
  | none =>
    let db := db.renumberSectionPositions s thread
    match ← db.freePosition s thread before with
    | some position => return (db, position)
    | none => throw (.noRemainingPositions s)

/-- `UPDATE threads SET … WHERE id = thread`. -/
def set (db : StateRuntime) (thread : String) (s : Option String) (position entered : Option Int) :
    StateRuntime :=
  { db with
    threadSectionId := Function.update db.threadSectionId thread s
    sectionPosition := Function.update db.sectionPosition thread position
    sectionEnteredAtMs := Function.update db.sectionEnteredAtMs thread entered }

/-- `move_thread_to_section`: whether the thread was found, and the table after the commit.  An
error commits nothing. -/
def moveThreadToSection (db : StateRuntime) (call : Move) :
    Except MoveError (Bool × StateRuntime) :=
  if call.sectionId? = none ∧ call.before? ≠ none then .error .beforeWithoutSection
  else if call.thread ∉ db.ids then .ok (false, db)
  else match call.sectionId? with
  | none => .ok (true, db.set call.thread none none none)
  | some s =>
    if s ∉ db.threadSections then .error (.noSection s)
    else if call.before? = some call.thread then .error (.beforeItself call.thread)
    else match call.before?.filter fun before => !decide (before ∈ db.members s) with
    | some before => .error (.beforeNotInSection before s)
    | none => do
      let (next, position) ← db.sectionMovePosition s call.thread call.before?
      let entered :=
        if db.threadSectionId call.thread = some s then db.sectionEnteredAtMs call.thread
        else some call.now
      return (true, next.set call.thread (some s) (some position) entered)

/-- The table after a call. -/
def after (db : StateRuntime) (call : Move) : StateRuntime :=
  match db.moveThreadToSection call with
  | .ok (_, next) => next
  | .error _ => db

/-- The integer a thread is placed at. -/
def place (db : StateRuntime) (id : String) : Int := (db.sectionPosition id).getD 0

variable {db next new : StateRuntime} {s thread a b : String} {before : Option String}
  {list : List String} {position : Int}

theorem mem_members : a ∈ db.members s ↔ a ∈ db.ids ∧ db.threadSectionId a = some s := by
  simp [members]

/-! ## Positions -/

/-- The threads of the list have increasing positive positions. -/
structure Orders (db : StateRuntime) (list : List String) : Prop where
  position : ∀ a ∈ list, db.sectionPosition a = some (db.place a)
  range : ∀ a ∈ list, 0 < db.place a ∧ db.place a ≤ i64Max
  sorted : list.Pairwise fun a b => db.place a < db.place b

/-- The list is the section. -/
structure Section (db : StateRuntime) (s : String) (list : List String) : Prop extends
    db.Orders list where
  mem : ∀ a, a ∈ list ↔ a ∈ db.members s

theorem Orders.sortKey_lt (h : db.Orders list) (ha : a ∈ list) (hb : b ∈ list)
    (hab : db.place a < db.place b) : db.sortKey a < db.sortKey b := by
  rw [sortKey, sortKey, Prod.Lex.toLex_lt_toLex, h.position a ha, h.position b hb]
  exact .inl (WithBot.coe_lt_coe.mpr hab)

theorem Section.sectionThreads_eq (h : db.Section s list) : db.sectionThreads s = list := by
  have htrans : ∀ a b c, decide (db.sortKey a ≤ db.sortKey b) = true →
      decide (db.sortKey b ≤ db.sortKey c) = true →
        decide (db.sortKey a ≤ db.sortKey c) = true := by
    simpa using fun _ _ _ => le_trans
  have htotal : ∀ a b, (decide (db.sortKey a ≤ db.sortKey b) ||
      decide (db.sortKey b ≤ db.sortKey a)) = true := by
    simpa using fun _ _ => le_total _ _
  have hkeys : list.Pairwise fun a b => db.sortKey a < db.sortKey b :=
    h.sorted.imp_of_mem h.sortKey_lt
  refine List.Perm.eq_of_pairwise (fun a b _ _ hab hba => ?_)
    (List.pairwise_mergeSort htrans htotal _) (hkeys.imp fun hab => decide_eq_true hab.le) ?_
  · exact congrArg (fun key => (ofLex key).2)
      (le_antisymm (of_decide_eq_true hab) (of_decide_eq_true hba))
  · refine (List.mergeSort_perm ..).trans ?_
    refine (List.perm_ext_iff_of_nodup (db.primaryKey.filter _) ?_).mpr fun a => (h.mem a).symm
    exact hkeys.imp fun hab heq => hab.ne (congrArg db.sortKey heq)

theorem Orders.congr (h : db.Orders list)
    (hsame : ∀ a ∈ list, next.sectionPosition a = db.sectionPosition a) : next.Orders list := by
  have hplace : ∀ a ∈ list, next.place a = db.place a := fun a ha => by
    rw [place, place, hsame a ha]
  refine ⟨fun a ha => ?_, fun a ha => ?_, h.sorted.imp_of_mem fun ha hb hab => ?_⟩
  · rw [hsame a ha, hplace a ha, h.position a ha]
  · rw [hplace a ha]
    exact h.range a ha
  · rwa [hplace _ ha, hplace _ hb]

/-- What is left of a section without `thread`. -/
theorem Section.orders_filter (h : db.Section s list) : db.Orders (list.filter (· ≠ thread)) where
  position a ha := h.position a (List.mem_of_mem_filter ha)
  range a ha := h.range a (List.mem_of_mem_filter ha)
  sorted := h.sorted.filter _

theorem Section.mem_others (h : db.Section s list) :
    a ∈ db.others s thread ↔ a ∈ list.filter (· ≠ thread) := by
  rw [others, List.mem_filter, List.mem_filter, h.mem]

/-- A free position before `before`, or after all of the list. -/
structure Room (db : StateRuntime) (list : List String) (before : Option String)
    (position : Int) : Prop where
  range : 0 < position ∧ position ≤ i64Max
  left : ∀ a ∈ list, (∀ b ∈ before, db.place a < db.place b) → db.place a < position
  right : ∀ a ∈ list, ∀ b ∈ before, db.place b ≤ db.place a → position < db.place a

/-- Positions as renumbering leaves them. -/
def Spaced (db : StateRuntime) (list : List String) : Prop :=
  ∀ a ∈ list, ∃ row : Nat, db.place a = row * 1000000 ∧ 1 ≤ row ∧ row ≤ 9 * 10 ^ 11

/-- The largest of some positive numbers, or zero. -/
theorem max?_getD_spec (positions : List Int) (h : ∀ p ∈ positions, 0 < p) :
    0 ≤ positions.max?.getD 0 ∧ (∀ p ∈ positions, p ≤ positions.max?.getD 0) ∧
      (positions.max?.getD 0 = 0 ∨ positions.max?.getD 0 ∈ positions) := by
  cases hmax : positions.max? with
  | none =>
    obtain rfl := List.max?_eq_none_iff.mp hmax
    simp
  | some top =>
    obtain ⟨hmem, hle⟩ := List.max?_eq_some_iff.mp hmax
    exact ⟨(h top hmem).le, hle, .inr hmem⟩

section Free

variable (hothers : ∀ a, a ∈ db.others s thread ↔ a ∈ list) (h : db.Orders list)
include hothers h

theorem mem_positions {p : Int} :
    p ∈ (db.others s thread).filterMap db.sectionPosition ↔ ∃ a ∈ list, db.place a = p := by
  simp only [List.mem_filterMap, hothers]
  refine exists_congr fun a => and_congr_right fun ha => ?_
  rw [h.position a ha, Option.some.injEq]

/-- A round at the end of the section. -/
theorem freePosition_none :
    ∃ free, db.freePosition s thread none = .ok free ∧
      (∀ position ∈ free, db.Room list none position) ∧ (db.Spaced list → free.isSome) := by
  have hgap : sectionPositionGap = 1000000 := rfl
  have hmem := fun p => mem_positions hothers h (p := p)
  refine ⟨_, rfl, ?_⟩
  generalize (db.others s thread).filterMap db.sectionPosition = positions at *
  obtain ⟨hzero, htop, hmax⟩ := max?_getD_spec positions fun p hp => by
    obtain ⟨a, ha, rfl⟩ := (hmem p).mp hp
    exact (h.range a ha).1
  generalize positions.max?.getD 0 = top at *
  refine ⟨fun position hposition => ?_, fun hspaced => ?_⟩
  · obtain ⟨hle, rfl⟩ : top + sectionPositionGap ≤ i64Max ∧
        top + sectionPositionGap = position := by simpa using hposition
    refine ⟨by omega, fun a ha _ => ?_, fun _ _ _ hb => nomatch hb⟩
    have := htop _ ((hmem _).mpr ⟨a, ha, rfl⟩)
    omega
  · rw [Option.isSome_ite, i64Max]
    rcases hmax with rfl | hmax
    · decide
    · obtain ⟨a, ha, rfl⟩ := (hmem top).mp hmax
      obtain ⟨row, hrow, -, hrows⟩ := hspaced a ha
      omega

/-- A round before a thread: the midpoint between it and the thread before it, where zero stands
for a thread that is missing. -/
theorem freePosition_some (hb : b ∈ list) :
    ∃ free, db.freePosition s thread (some b) = .ok free ∧
      (∀ position ∈ free, db.Room list (some b) position) ∧ (db.Spaced list → free.isSome) := by
  have hmem := fun p => mem_positions hothers h (p := p)
  have hupper := h.range b hb
  have hfree : db.freePosition s thread (some b) = .ok (
      let lower := (((db.others s thread).filterMap db.sectionPosition).filter
        (· < db.place b)).max?.getD 0
      if db.place b - lower > 1 then some (lower + (db.place b - lower) / 2) else none) := by
    simp only [freePosition, if_pos (List.mem_of_mem_filter ((hothers b).mpr hb)),
      h.position b hb]
    cases (((db.others s thread).filterMap db.sectionPosition).filter
      (· < db.place b)).max? <;> simp
  refine ⟨_, hfree, ?_⟩
  generalize (db.others s thread).filterMap db.sectionPosition = positions at *
  obtain ⟨hzero, htop, hmax⟩ := max?_getD_spec (positions.filter (· < db.place b)) fun p hp => by
    obtain ⟨a, ha, rfl⟩ := (hmem p).mp (List.mem_of_mem_filter hp)
    exact (h.range a ha).1
  generalize (positions.filter (· < db.place b)).max?.getD 0 = lower at *
  refine ⟨fun position hposition => ?_, fun hspaced => ?_⟩
  · obtain ⟨hroom, rfl⟩ : 1 < db.place b - lower ∧
        lower + (db.place b - lower) / 2 = position := by simpa using hposition
    refine ⟨by omega, fun a ha hlt => ?_, fun a ha c hc hle => ?_⟩
    · have := htop _ (List.mem_filter.mpr ⟨(hmem _).mpr ⟨a, ha, rfl⟩, by simpa using hlt⟩)
      omega
    · cases hc
      omega
  · obtain ⟨row, hrow, hmin, -⟩ := hspaced b hb
    rw [Option.isSome_ite]
    rcases hmax with rfl | hmax
    · omega
    · obtain ⟨hlower, hlt⟩ := List.mem_filter.mp hmax
      obtain ⟨a, ha, rfl⟩ := (hmem lower).mp hlower
      obtain ⟨row', hrow', -, -⟩ := hspaced a ha
      have := of_decide_eq_true hlt
      omega

/-- A round finds room for the thread, if any, and finds some among spaced positions. -/
theorem freePosition_spec (hbefore : ∀ b ∈ before, b ∈ list) :
    ∃ free, db.freePosition s thread before = .ok free ∧
      (∀ position ∈ free, db.Room list before position) ∧ (db.Spaced list → free.isSome) := by
  cases before with
  | none => exact freePosition_none hothers h
  | some b => exact freePosition_some hothers h (hbefore b rfl)

/-! ## Renumbering -/

theorem rowNumber_lt (ha : a ∈ list) (hb : b ∈ list) (hab : db.place a < db.place b) :
    db.rowNumber s thread a < db.rowNumber s thread b := by
  have hkey := h.sortKey_lt ha hb hab
  have hsub : ((db.others s thread).filter (db.sortKey · ≤ db.sortKey a)).Sublist
      ((db.others s thread).filter (db.sortKey · ≤ db.sortKey b)) :=
    List.monotone_filter_right _ fun c hc => decide_eq_true ((of_decide_eq_true hc).trans hkey.le)
  by_contra hge
  have hmem : b ∈ (db.others s thread).filter (db.sortKey · ≤ db.sortKey a) := by
    rw [hsub.eq_of_length_le (not_lt.mp hge)]
    exact List.mem_filter.mpr ⟨(hothers b).mpr hb, by simp⟩
  exact hkey.not_ge (of_decide_eq_true (List.mem_filter.mp hmem).2)

theorem renumber_spec (hsize : db.ids.length ≤ 9 * 10 ^ 11) :
    (db.renumberSectionPositions s thread).Orders list ∧
      (db.renumberSectionPositions s thread).Spaced list := by
  have hposition : ∀ a ∈ list, (db.renumberSectionPositions s thread).sectionPosition a =
      some (db.rowNumber s thread a * sectionPositionGap) := fun a ha => if_pos ((hothers a).mpr ha)
  generalize db.renumberSectionPositions s thread = next at *
  have hplace : ∀ a ∈ list, next.place a = db.rowNumber s thread a * 1000000 := fun a ha => by
    rw [place, hposition a ha]
    rfl
  have hrow : ∀ a ∈ list, 1 ≤ db.rowNumber s thread a ∧ db.rowNumber s thread a ≤ 9 * 10 ^ 11 := by
    intro a ha
    refine ⟨List.length_pos_of_mem (List.mem_filter.mpr ⟨(hothers a).mpr ha, by simp⟩), ?_⟩
    exact ((List.length_filter_le ..).trans (List.length_filter_le ..)).trans
      ((List.length_filter_le ..).trans hsize)
  refine ⟨⟨fun a ha => ?_, fun a ha => ?_, h.sorted.imp_of_mem fun ha hb hab => ?_⟩,
    fun a ha => ⟨_, hplace a ha, hrow a ha⟩⟩
  · rw [hplace a ha, hposition a ha]
    rfl
  · have := hrow a ha
    rw [hplace a ha, i64Max]
    omega
  · have := rowNumber_lt hothers h ha hb hab
    rw [hplace _ ha, hplace _ hb]
    omega

/-- **A position is always found**, and it lies where the thread goes. -/
theorem sectionMovePosition_spec (hbefore : ∀ b ∈ before, b ∈ list)
    (hsize : db.ids.length ≤ 9 * 10 ^ 11) :
    ∃ positions position, db.sectionMovePosition s thread before =
        .ok ({ db with sectionPosition := positions }, position) ∧
      (∀ a ∉ db.others s thread, positions a = db.sectionPosition a) ∧
      Orders { db with sectionPosition := positions } list ∧
      Room { db with sectionPosition := positions } list before position := by
  obtain ⟨free, hfree, hroom, -⟩ := freePosition_spec hothers h hbefore
  cases free with
  | some position =>
    exact ⟨_, position, bind_eq_ok.mpr ⟨_, hfree, rfl⟩, fun _ _ => rfl, h, hroom position rfl⟩
  | none =>
    obtain ⟨horders, hspaced⟩ := renumber_spec hothers h hsize
    obtain ⟨free, hfree', hroom, hsome⟩ :=
      @freePosition_spec (db.renumberSectionPositions s thread) _ _ _ _ hothers horders hbefore
    obtain ⟨position, rfl⟩ := Option.isSome_iff_exists.mp (hsome hspaced)
    refine ⟨_, position, ?_, fun a ha => if_neg ha, horders, hroom position rfl⟩
    exact bind_eq_ok.mpr ⟨_, hfree, bind_eq_ok.mpr ⟨_, hfree', rfl⟩⟩

end Free

/-! ## A move -/

theorem Section.mem_set {sectionId? : Option String} (h : db.Section s list)
    (hthread : thread ∈ db.ids) : a ∈ (db.set thread sectionId? none none).members s ↔
      a ∈ list.filter (· ≠ thread) ∨ a = thread ∧ sectionId? = some s := by
  rw [mem_members, List.mem_filter, h.mem, mem_members]
  by_cases ha : a = thread
  · subst ha
    simp [set, hthread]
  · simp [set, ha]

/-- The table has the threads and sections of `start`, and holds the lists. -/
structure Holds (start : StateRuntime) (lists : String → List String) (db : StateRuntime) :
    Prop where
  ids : db.ids = start.ids
  sections : db.threadSections = start.threadSections
  holds : ∀ s, db.Section s (lists s)

variable {start : StateRuntime} {lists : String → List String} {calls : List Move}

theorem holds_clear (h : start.Holds lists db) (hthread : thread ∈ db.ids) :
    start.Holds (fun s => (lists s).filter (· ≠ thread)) (db.set thread none none none) := by
  refine ⟨h.ids, h.sections, fun s => ⟨(h.holds s).orders_filter.congr fun a ha => ?_, fun a => ?_⟩⟩
  · simp [set, of_decide_eq_true (List.mem_filter.mp ha).2]
  · simp [(h.holds s).mem_set hthread]

theorem Room.congr (h : db.Room list before position) (hbefore : ∀ b ∈ before, b ∈ list)
    (hsame : ∀ a ∈ list, next.place a = db.place a) : next.Room list before position := by
  refine ⟨h.range, fun a ha hlt => ?_, fun a ha b hb hle => ?_⟩
  · rw [hsame a ha]
    refine h.left a ha fun b hb => ?_
    rw [← hsame a ha, ← hsame b (hbefore b hb)]
    exact hlt b hb
  · rw [hsame a ha, hsame b (hbefore b hb)] at hle
    rw [hsame a ha]
    exact h.right a ha b hb hle

/-- The section `thread` is put into. -/
theorem Room.orders_insertBefore (h : db.Room list before position) (hlist : db.Orders list)
    (hbefore : ∀ b ∈ before, b ∈ list) (hthread : db.sectionPosition thread = some position) :
    db.Orders (insertBefore thread before list) := by
  obtain rfl : db.place thread = position := by rw [place, hthread, Option.getD_some]
  constructor
  · simpa only [mem_insertBefore, forall_eq_or_imp] using ⟨hthread, hlist.position⟩
  · simpa only [mem_insertBefore, forall_eq_or_imp] using ⟨h.range, hlist.range⟩
  · refine insertBefore_pairwise hlist.sorted hbefore h.left fun a ha b hb hab => ?_
    exact h.right a ha b hb (hab.elim (fun heq => heq ▸ le_rfl) le_of_lt)

theorem move_into {now : Int} (h : start.Holds lists db) (hsize : db.ids.length ≤ 9 * 10 ^ 11)
    (hthread : thread ∈ db.ids) (hs : s ∈ db.threadSections)
    (hbefore : ∀ b ∈ before, b ∈ (lists s).filter (· ≠ thread)) :
    ∃ new, db.moveThreadToSection ⟨thread, some s, before, now⟩ = .ok (true, new) ∧
      start.Holds (Function.update (fun s => (lists s).filter (· ≠ thread)) s
        (insertBefore thread before ((lists s).filter (· ≠ thread)))) new := by
  obtain ⟨positions, position, hmove, hsame, horders, hroom⟩ := sectionMovePosition_spec
    (fun a => (h.holds s).mem_others) (h.holds s).orders_filter hbefore hsize
  have hself : before ≠ some thread := fun heq => by simpa using hbefore thread heq
  have hmembers : (before.filter fun before => !decide (before ∈ db.members s)) = none := by
    refine Option.filter_eq_none_iff.mpr fun b hb => ?_
    simpa [(h.holds s).mem] using (List.mem_filter.mp (hbefore b hb)).1
  let next : StateRuntime := { db with sectionPosition := positions }
  let entered := if db.threadSectionId thread = some s then db.sectionEnteredAtMs thread
    else some now
  let new := next.set thread (some s) (some position) entered
  have hmem : ∀ s' a, a ∈ new.members s' ↔
      a ∈ (lists s').filter (· ≠ thread) ∨ a = thread ∧ some s = some s' :=
    fun s' a => (h.holds s').mem_set hthread
  have hrest : ∀ {list : List String} {a}, a ∈ list.filter (· ≠ thread) →
      new.sectionPosition a = next.sectionPosition a := fun ha =>
    Function.update_of_ne (by simpa using (List.mem_filter.mp ha).2) ..
  refine ⟨new, by simp [moveThreadToSection, hthread, hs, hself, hmembers, hmove, new,
    next, entered],
    h.ids, h.sections, fun s' => ?_⟩
  by_cases hs' : s' = s
  · subst hs'
    rw [Function.update_self]
    refine ⟨?_, fun a => by simp [mem_insertBefore, hmem, or_comm]⟩
    refine (hroom.congr hbefore fun a ha => ?_).orders_insertBefore
      (horders.congr fun a => hrest) hbefore (Function.update_self ..)
    rw [place, place, hrest ha]
  · rw [Function.update_of_ne hs']
    refine ⟨(h.holds s').orders_filter.congr fun a ha => ?_, fun a => by simp [hmem, Ne.symm hs']⟩
    refine (hrest ha).trans (hsame a fun hother => hs' ?_)
    have ha := mem_members.mp (((h.holds s').mem a).mp (List.mem_of_mem_filter ha))
    have hother := mem_members.mp (List.mem_of_mem_filter hother)
    exact Option.some.inj (ha.2.symm.trans hother.2)

/-- Every other call changes nothing, and none of them for lack of positions. -/
theorem refused {call : Move} (h : start.Holds lists db)
    (hcall : ¬ call.isValid db.ids db.threadSections lists) :
    db.moveThreadToSection call = .ok (false, db) ∨ ∃ e, db.moveThreadToSection call = .error e ∧
      ∀ name, e ≠ .noRemainingPositions name := by
  obtain ⟨thread, sectionId?, before, now⟩ := call
  unfold moveThreadToSection
  split
  · exact .inr ⟨_, rfl, nofun⟩
  rename_i hplace
  split
  · exact .inl rfl
  rename_i hthread
  rw [not_not] at hthread
  cases sectionId? with
  | none => exact absurd (by simpa [Move.isValid, hthread] using hplace) hcall
  | some s =>
    dsimp only
    split
    · exact .inr ⟨_, rfl, nofun⟩
    rename_i hs
    split
    · exact .inr ⟨_, rfl, nofun⟩
    rename_i hself
    split
    · exact .inr ⟨_, rfl, nofun⟩
    rename_i hbefore
    refine absurd (Move.isValid_some.mpr ⟨hthread, not_not.mp hs, fun b hb => ?_⟩) hcall
    refine List.mem_filter.mpr ⟨((h.holds s).mem b).mpr ?_, decide_eq_true fun heq => ?_⟩
    · simpa using Option.filter_eq_none_iff.mp hbefore b hb
    · exact hself (hb.trans (congrArg some heq))

/-- **One call** acts on the lists, and does not fail for lack of positions. -/
theorem Holds.step (h : start.Holds lists db) (hsize : start.ids.length ≤ 9 * 10 ^ 11)
    (call : Move) :
    start.Holds (Lists.move start.ids start.threadSections lists call) (db.after call) ∧
      ∀ name, db.moveThreadToSection call ≠ .error (.noRemainingPositions name) := by
  unfold Lists.move
  rw [← h.ids, ← h.sections]
  split
  · rename_i hcall
    obtain ⟨new, hmove, hnew⟩ : ∃ new, db.moveThreadToSection call = .ok (true, new) ∧
        start.Holds (match call.sectionId? with
          | none => fun s => (lists s).filter (· ≠ call.thread)
          | some s => Function.update (fun s => (lists s).filter (· ≠ call.thread)) s
            (insertBefore call.thread call.before? ((lists s).filter (· ≠ call.thread)))) new := by
      obtain ⟨thread, sectionId?, before, now⟩ := call
      cases sectionId? with
      | none =>
        obtain ⟨hthread, rfl⟩ : thread ∈ db.ids ∧
            before = none := by simpa [Move.isValid] using hcall
        exact ⟨_, by simp [moveThreadToSection, hthread], holds_clear h hthread⟩
      | some s =>
        obtain ⟨hthread, hs, hbefore⟩ := Move.isValid_some.mp hcall
        exact move_into h (h.ids ▸ hsize) hthread hs hbefore
    rw [after, hmove]
    exact ⟨hnew, nofun⟩
  · rename_i hcall
    rcases refused h hcall with hok | ⟨e, herror, he⟩
    · rw [after, hok]
      exact ⟨h, nofun⟩
    · rw [after, herror]
      exact ⟨h, fun name heq => he name (Except.error.inj heq)⟩

theorem Holds.run (h : start.Holds lists db) (hsize : start.ids.length ≤ 9 * 10 ^ 11)
    (calls : List Move) :
    start.Holds (calls.foldl (Lists.move start.ids start.threadSections) lists)
      (calls.foldl after db) := by
  induction calls generalizing lists db with
  | nil => exact h
  | cons call calls ih => exact ih (h.step hsize call).1

/-- **Moving threads acts on plain lists.** Starting with no thread in a section, the sections
hold what every sequence of calls makes of empty lists, at positive and pairwise distinct
positions, and no call fails for lack of positions. -/
theorem moves_as_lists (start : StateRuntime)
    (hstart : ∀ thread ∈ start.ids, start.threadSectionId thread = none)
    (hsize : start.ids.length ≤ 9 * 10 ^ 11) (calls : List Move) :
    let db := calls.foldl after start
    (∀ s, db.sectionThreads s =
      calls.foldl (Lists.move start.ids start.threadSections) (fun _ => []) s) ∧
      (∀ s, ∃ positions : List Int, (db.sectionThreads s).map db.sectionPosition =
        positions.map some ∧ positions.Nodup ∧ ∀ position ∈ positions, 0 < position) ∧
      ∀ call name, db.moveThreadToSection call ≠ .error (.noRemainingPositions name) := by
  have hempty : start.Holds (fun _ => []) start := by
    refine ⟨rfl, rfl, fun s => ⟨by constructor <;> simp, fun a => ?_⟩⟩
    simp only [mem_members, List.not_mem_nil, false_iff, not_and]
    intro ha
    simp [hstart a ha]
  have hrun := hempty.run hsize calls
  refine ⟨fun s => (hrun.holds s).sectionThreads_eq, fun s => ?_, fun call =>
    (hrun.step hsize call).2⟩
  have hs := hrun.holds s
  rw [hs.sectionThreads_eq]
  refine ⟨_, ?_, List.pairwise_map.mpr (hs.sorted.imp ne_of_lt), ?_⟩
  · rw [List.map_map]
    exact List.map_congr_left hs.position
  · simpa using fun a ha => (hs.range a ha).1

/-- Four threads and two sections. -/
def sampleStart : StateRuntime :=
  ⟨["a", "b", "c", "d"], fun _ => none, fun _ => none, fun _ => none, ["s", "t"], by decide⟩

/-- Two threads move past each other until no position is left between them and `"c"`; then
`"c"` moves to another section, before a thread that is there, and a call is refused. -/
def sampleCalls : List Move :=
  [⟨"a", some "s", none, 1⟩, ⟨"b", some "s", none, 2⟩, ⟨"c", some "s", none, 3⟩,
    ⟨"d", some "t", none, 4⟩] ++
  (List.replicate 11 [⟨"a", some "s", some "c", 5⟩, ⟨"b", some "s", some "c", 6⟩]).flatten ++
  [⟨"c", some "t", some "d", 7⟩, ⟨"a", some "t", some "b", 8⟩]

/-- The lists are those of plain lists, and the section was renumbered on the way: `"a"` has moved
towards the end and is yet placed before where `"b"` started. -/
theorem moves_as_lists_sample :
    (sampleCalls.foldl after sampleStart).sectionThreads "s" = ["a", "b"] ∧
      (sampleCalls.foldl after sampleStart).sectionThreads "t" = ["c", "d"] ∧
      (sampleCalls.foldl after sampleStart).place "a" = 1500000 := by
  have hlists := (moves_as_lists sampleStart (by decide) (by decide) sampleCalls).1
  exact ⟨(hlists "s").trans (by decide +kernel), (hlists "t").trans (by decide +kernel),
    by decide +kernel⟩

end StateRuntime
end RenCrow.State
