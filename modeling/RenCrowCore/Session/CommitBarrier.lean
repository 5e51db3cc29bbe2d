import RenCrowCore.Session.CommitBarrierBasic

/-!
# The commit barrier: main results

What holds whatever the tasks of a session do between the two sections of a commit.

* `System.step_cases`: every step, and how it moves a commit forward;
* `System.Barrier`: at most one commit is in flight, the flag is latched while one is,
  and it stays latched once one was interrupted;
* `System.commit_barrier`: the history is replaced only after the whole batch was
  written and at the candidate's own snapshot; any other end leaves it as the other
  tasks made it, with the flag latched for good.
-/

namespace RenCrow

open Fallible Run List

/-- What the steps of other tasks make of the state. -/
def SessionState.followOthers (state : SessionState) : Event → SessionState
  | .other update => state.updated update
  | _ => state

/-- The state without the flag: the history and what else other tasks change. -/
def SessionState.unlatched (state : SessionState) : SessionState :=
  { state with rencrowCheckpointFailed := false }

@[simp] theorem SessionState.followOthers_failed (state : SessionState) (event : Event) :
    (state.followOthers event).rencrowCheckpointFailed = state.rencrowCheckpointFailed := by
  cases event <;> rfl

namespace System

variable [PayloadCodec] {system next initial : System} {event : Event} {task : Nat}
  {state : SessionState} {isCancelled : Token → Bool} {status : CommitTask} {commit : InFlight}

/-! ## What a step can do -/

/-- How a step moves the commit of one task forward. -/
inductive Advance (system next : System) (event : Event) (task : Nat) :
    CommitTask → CommitTask → Prop
  | began {candidate : CommitCandidate} {cancellation : Option Token}
      (hstate : next.state = system.state) :
      Advance system next event task .absent (.started candidate cancellation)
  | rejected {candidate : CommitCandidate} {cancellation : Option Token}
      {error : Option CodexErr} (hstate : next.state = system.state) :
      Advance system next event task (.started candidate cancellation) (.rejected error)
  | latched {candidate : CommitCandidate} {cancellation : Option Token} {commit : InFlight}
      (hfree : system.state.rencrowCheckpointFailed = false)
      (hstate : next.state = { system.state with rencrowCheckpointFailed := true }) :
      Advance system next event task (.started candidate cancellation) (.persisting commit)
  | wrote {commit : InFlight} (hrows : next.rollout = system.rollout ++ commit.prepared.batch)
      (hstate : next.state = system.state) :
      Advance system next event task (.persisting commit) (.persisted commit)
  | interrupted {status : CommitTask} {error : Option CodexErr}
      (hflight : status.inFlight.isSome = true) (hstate : next.state = system.state) :
      Advance system next event task status (.interrupted error)
  | published {commit : InFlight} (hevent : event = .secondSection task)
      (hcancelled : system.isCancelled commit.token = false)
      (hexpected : system.state.isExpected commit.candidate = true)
      (hstate : next.state = system.state.publish commit) :
      Advance system next event task (.persisted commit) .committed

theorem firstSection_eq_ok {cand : CommitCandidate} {cancellation : Option Token}
    {services : Services}
    (h : firstSection state cand cancellation isCancelled services = .ok commit) :
    state.rencrowCheckpointFailed = false := by
  obtain ⟨hfree, -⟩ := ensure_bind_eq_ok.mp h
  rw [Bool.and_eq_true, Bool.not_eq_true'] at hfree
  exact hfree.1

theorem secondSection_eq_ok {state' : SessionState}
    (h : secondSection state commit isCancelled = .ok state') :
    isCancelled commit.token = false ∧ state.isExpected commit.candidate = true ∧
      state' = state.publish commit := by
  obtain ⟨hsame, h⟩ := ensure_bind_eq_ok.mp h
  rw [Bool.and_eq_true, Bool.not_eq_true'] at hsame
  exact ⟨hsame.1, hsame.2, (Except.ok.inj h).symm⟩

/-- **Every step** adds rows, and either follows the other tasks or moves one commit
forward. -/
theorem step_cases (h : system.step event = some next) :
    system.rollout <+: next.rollout ∧
      (next.tasks = system.tasks ∧ next.state = system.state.followOthers event ∨
        system.state.followOthers event = system.state ∧ ∃ task status,
          next.tasks = (system.setTask task status).tasks ∧
            Advance system next event task (system.tasks task) status) := by
  cases event with
  | other update | turn active | cancel token =>
    cases h
    exact ⟨prefix_refl _, .inl ⟨rfl, rfl⟩⟩
  | append rows =>
    cases h
    exact ⟨prefix_append _ _, .inl ⟨rfl, rfl⟩⟩
  | start task cand =>
    simp only [step] at h
    split at h
    · rename_i htask
      cases h
      exact ⟨prefix_refl _, .inr ⟨rfl, task, _, rfl, htask ▸ .began rfl⟩⟩
    · cases h
  | firstSection task services =>
    simp only [step] at h
    split at h
    · rename_i htask
      split at h
      · cases h
        exact ⟨prefix_refl _, .inr ⟨rfl, task, _, rfl, htask ▸ .rejected rfl⟩⟩
      · rename_i hfirst
        cases h
        exact ⟨prefix_refl _, .inr ⟨rfl, task, _, rfl,
          htask ▸ .latched (firstSection_eq_ok hfirst) rfl⟩⟩
    · cases h
  | persist task outcome =>
    simp only [step] at h
    split at h
    · rename_i htask
      cases h
      exact ⟨prefix_append _ _, .inr ⟨rfl, task, _, rfl, htask ▸ .wrote rfl rfl⟩⟩
    · rename_i htask
      cases h
      exact ⟨prefix_append _ _, .inr ⟨rfl, task, _, rfl, htask ▸ .interrupted rfl rfl⟩⟩
    · rename_i htask
      split at h
      · cases h
        exact ⟨prefix_append _ _, .inr ⟨rfl, task, _, rfl, htask ▸ .interrupted rfl rfl⟩⟩
      · cases h
    · cases h
  | secondSection task =>
    simp only [step] at h
    split at h
    · rename_i htask
      split at h
      · cases h
        exact ⟨prefix_refl _, .inr ⟨rfl, task, _, rfl, htask ▸ .interrupted rfl rfl⟩⟩
      · rename_i hsnd
        cases h
        obtain ⟨hcancelled, hexp, hstate⟩ := secondSection_eq_ok hsnd
        exact ⟨prefix_refl _, .inr ⟨rfl, task, _, rfl,
          htask ▸ .published rfl hcancelled hexp hstate⟩⟩
    · cases h
  | drop task rows =>
    simp only [step] at h
    split at h
    · rename_i htask
      cases h
      exact ⟨prefix_refl _, .inr ⟨rfl, task, _, rfl, htask ▸ .rejected rfl⟩⟩
    · rename_i htask
      cases h
      exact ⟨prefix_append _ _, .inr ⟨rfl, task, _, rfl, htask ▸ .interrupted rfl rfl⟩⟩
    · rename_i htask
      cases h
      exact ⟨prefix_refl _, .inr ⟨rfl, task, _, rfl, htask ▸ .interrupted rfl rfl⟩⟩
    · cases h

/-! ## The invariant -/

/-- The task has passed its first section and not ended. -/
def Flies (system : System) (task : Nat) : Prop :=
  (system.tasks task).inFlight.isSome = true

/-- What holds between any two steps. -/
structure Barrier (system : System) : Prop where
  single : ∀ task other, system.Flies task → system.Flies other → task = other
  latched : ∀ task, system.Flies task → system.state.rencrowCheckpointFailed = true
  written : ∀ task commit, system.tasks task = .persisted commit →
    commit.prepared.batch <:+: system.rollout
  interrupted : ∀ task error, system.tasks task = .interrupted error →
    system.state.rencrowCheckpointFailed = true ∧ ∀ other, ¬ system.Flies other

omit [PayloadCodec] in
/-- A session starts without commits. -/
theorem Barrier.of_absent (h : ∀ task, system.tasks task = .absent) : system.Barrier := by
  constructor <;> simp [Flies, h, CommitTask.inFlight]

omit [PayloadCodec] in
theorem tasks_setTask_self (system : System) (task : Nat) (status : CommitTask) :
    (system.setTask task status).tasks task = status := if_pos rfl

omit [PayloadCodec] in
theorem tasks_setTask_of_ne (system : System) {task other : Nat} (h : other ≠ task)
    (status : CommitTask) : (system.setTask task status).tasks other = system.tasks other :=
  if_neg h

/-- The commit of a task flies or was interrupted. -/
def Holds (system : System) (task : Nat) : Prop :=
  system.Flies task ∨ ∃ error, system.tasks task = .interrupted error

section Kept

omit [PayloadCodec]

theorem holds_congr (h : next.tasks task = system.tasks task) :
    next.Holds task ↔ system.Holds task := by
  rw [Holds, Flies, h]
  rfl

theorem Barrier.failed (hbarrier : system.Barrier) (h : system.Holds task) :
    system.state.rencrowCheckpointFailed = true := by
  rcases h with hflies | ⟨error, herror⟩
  · exact hbarrier.latched task hflies
  · exact (hbarrier.interrupted task error herror).1

/-- A commit that flies is the only one that holds. -/
theorem Barrier.alone (hbarrier : system.Barrier) {other : Nat} (hflies : system.Flies task)
    (h : system.Holds other) : other = task := by
  rcases h with hother | ⟨error, herror⟩
  · exact hbarrier.single _ _ hother hflies
  · exact absurd hflies ((hbarrier.interrupted other error herror).2 task)

/-- The commits that hold did so before, and the flag is as it was. -/
theorem Barrier.of_kept (hbarrier : system.Barrier) (hrows : system.rollout <+: next.rollout)
    (hflag : next.state.rencrowCheckpointFailed = system.state.rencrowCheckpointFailed)
    (hkept : ∀ other, next.Holds other → next.tasks other = system.tasks other) :
    next.Barrier := by
  have hflies : ∀ other, next.Flies other → system.Flies other := by
    intro other hother
    rw [Flies, hkept other (.inl hother)] at hother
    exact hother
  refine ⟨fun first second hfirst hsnd => ?_, fun other h => ?_, fun other commit h => ?_,
    fun other error h => ?_⟩
  · exact hbarrier.single _ _ (hflies first hfirst) (hflies second hsnd)
  · rw [hflag]
    exact hbarrier.latched other (hflies other h)
  · rw [hkept other (.inl (by rw [Flies, h]; rfl))] at h
    exact (hbarrier.written other commit h).trans hrows.isInfix
  · rw [hkept other (.inr ⟨error, h⟩)] at h
    obtain ⟨hfail, hnone⟩ := hbarrier.interrupted other error h
    exact ⟨hflag.trans hfail, fun another hanother => hnone another (hflies another hanother)⟩

/-- One commit holds at most, and the flag is latched if it does. -/
theorem Barrier.of_single (honly : ∀ other, system.Holds other → other = task)
    (hfail : system.Holds task → system.state.rencrowCheckpointFailed = true)
    (hwritten : ∀ commit, system.tasks task = .persisted commit →
      commit.prepared.batch <:+: system.rollout) : system.Barrier := by
  refine ⟨fun first second hfirst hsnd => ?_, fun other h => ?_, fun other commit h => ?_,
    fun other error h => ?_⟩
  · rw [honly first (.inl hfirst), honly second (.inl hsnd)]
  · obtain rfl := honly other (.inl h)
    exact hfail (.inl h)
  · obtain rfl := honly other (.inl (by rw [Flies, h]; rfl))
    exact hwritten commit h
  · obtain rfl := honly other (.inr ⟨error, h⟩)
    refine ⟨hfail (.inr ⟨error, h⟩), fun another hanother => ?_⟩
    obtain rfl := honly another (.inl hanother)
    rw [Flies, h] at hanother
    cases hanother

end Kept

open SessionState

/-- **The invariant is kept by every step.** -/
theorem Barrier.step (hbarrier : system.Barrier) (h : system.step event = some next) :
    next.Barrier := by
  obtain ⟨hrows, ⟨htasks, hstate⟩ | ⟨-, task, status, htasks, hadv⟩⟩ := step_cases h
  · refine hbarrier.of_kept hrows ?_ fun other _ => by rw [htasks]
    rw [hstate, followOthers_failed]
  · have hself : next.tasks task = status := by rw [htasks, tasks_setTask_self]
    have hother : ∀ other, other ≠ task → next.tasks other = system.tasks other := by
      intro other hne
      rw [htasks, tasks_setTask_of_ne _ hne]
    -- the task is the only one that holds if no other did before
    have honly : (∀ other, system.Holds other → other = task) →
        ∀ other, next.Holds other → other = task := by
      intro hnone other hholds
      by_contra hne
      exact hne (hnone other ((holds_congr (hother other hne)).mp hholds))
    generalize hold : system.tasks task = old at hadv
    have hflying : old.inFlight.isSome = true → system.state.rencrowCheckpointFailed = true ∧
        ∀ other, system.Holds other → other = task := by
      subst hold
      intro hflies
      exact ⟨hbarrier.latched task hflies, fun other => hbarrier.alone hflies⟩
    cases hadv with
    | began hstate | rejected hstate =>
      refine hbarrier.of_kept hrows (by rw [hstate]) fun other hholds => hother other ?_
      rintro rfl
      simp [Holds, Flies, hself, CommitTask.inFlight] at hholds
    | latched hfree hstate =>
      refine .of_single (honly fun other hholds => ?_) (fun _ => by rw [hstate]) (by simp [hself])
      exact absurd (hbarrier.failed hholds) (Bool.eq_false_iff.mp hfree)
    | wrote hwritten hstate =>
      obtain ⟨hfail, halone⟩ := hflying rfl
      refine .of_single (honly halone) (fun _ => by rw [hstate, hfail]) ?_
      rw [hself, hwritten]
      rintro commit ⟨⟩
      exact (suffix_append _ _).isInfix
    | interrupted hflight hstate =>
      obtain ⟨hfail, halone⟩ := hflying hflight
      exact .of_single (honly halone) (fun _ => by rw [hstate, hfail]) (by simp [hself])
    | published hevent hcancelled hexp hstate =>
      obtain ⟨-, halone⟩ := hflying rfl
      exact .of_single (honly halone) (by simp [Holds, Flies, hself, CommitTask.inFlight])
        (by simp [hself])

theorem Barrier.run {events : List Event} {final : System} (hbarrier : system.Barrier)
    (hrun : run System.step system events = some final) : final.Barrier :=
  run_invariant (fun _ _ _ h hstep => h.step hstep) hrun hbarrier

/-! ## A commit that does not end in its second section -/

/-- While a commit flies, and once it was interrupted, only the other tasks change the
state, unless the commit replaces the history. -/
theorem Holds.step (hholds : system.Holds task) (hbarrier : system.Barrier)
    (h : system.step event = some next) :
    next.tasks task = .committed ∨
      next.Holds task ∧ next.state = system.state.followOthers event := by
  obtain ⟨-, ⟨htasks, hstate⟩ | ⟨hquiet, moved, status, htasks, hadv⟩⟩ := step_cases h
  · exact .inr ⟨(holds_congr (congrFun htasks task)).mpr hholds, hstate⟩
  · rw [hquiet]
    by_cases heq : moved = task
    · subst heq
      have hself : next.tasks moved = status := by rw [htasks, tasks_setTask_self]
      generalize hold : system.tasks moved = old at hadv
      unfold Holds Flies at hholds
      rw [hold] at hholds
      cases hadv with
      | began hstate | rejected hstate
      | latched hfree hstate => simp [CommitTask.inFlight] at hholds
      | wrote hrows hstate =>
        refine .inr ⟨.inl ?_, hstate⟩
        rw [Flies, hself]
        rfl
      | interrupted hflight hstate => exact .inr ⟨.inr ⟨_, hself⟩, hstate⟩
      | published hevent hcancelled hexp hstate => exact .inl hself
    · have hsame : next.tasks task = system.tasks task := by
        rw [htasks, tasks_setTask_of_ne _ (Ne.symm heq)]
      refine .inr ⟨(holds_congr hsame).mpr hholds, ?_⟩
      -- no other commit can be in flight, so the one that moves has not begun
      have hgrounded : ¬ system.Flies moved := fun hmoved => heq (hbarrier.alone hmoved hholds).symm
      generalize hold : system.tasks moved = old at hadv
      unfold Flies at hgrounded
      rw [hold] at hgrounded
      cases hadv with
      | began hstate | rejected hstate | interrupted hflight hstate => exact hstate
      | latched hfree hstate =>
        rw [hbarrier.failed hholds] at hfree
        cases hfree
      | wrote hrows hstate | published hevent hcancelled hexp hstate => exact absurd rfl hgrounded

/-- A commit that has ended stays as it ended. -/
theorem ended_step (hended : status = .committed ∨
      ∃ error, status = .interrupted error) (hstat : system.tasks task = status)
    (h : system.step event = some next) : next.tasks task = status := by
  obtain ⟨-, ⟨htasks, -⟩ | ⟨-, moved, moves, htasks, hadv⟩⟩ := step_cases h
  · rw [htasks]
    exact hstat
  · by_cases heq : moved = task
    · subst heq
      rw [hstat] at hadv
      rcases hended with rfl | ⟨error, rfl⟩ <;> cases hadv with
      | interrupted hflight hstate => cases hflight
    · rw [htasks, tasks_setTask_of_ne _ (Ne.symm heq)]
      exact hstat

/-- **A commit that was interrupted** has left the state to the other tasks. -/
theorem Holds.run {events : List Event} {final : System} (hholds : system.Holds task)
    (hbarrier : system.Barrier) (hrun : run System.step system events = some final)
    (hfinal : final.tasks task ≠ .committed) :
    final.Holds task ∧ final.state = events.foldl followOthers system.state := by
  induction events generalizing system with
  | nil =>
    obtain rfl := Option.some.inj hrun
    exact ⟨hholds, rfl⟩
  | cons event events ih =>
    obtain ⟨next, hnext, hrun⟩ := run_cons_eq_some.mp hrun
    rcases hholds.step hbarrier hnext with hcom | ⟨hholds, hstate⟩
    · exact absurd (run_invariant (fun _ _ _ h hstep => ended_step (.inl rfl) h hstep)
        hrun hcom) hfinal
    · rw [foldl_cons, ← hstate]
      exact ih hholds (hbarrier.step hnext) hrun

/-- **One commit flies at most** in every run, with the flag latched, and none does after an
interruption. -/
theorem barrier_run {events : List Event} (hfresh : ∀ task, initial.tasks task = .absent)
    (hrun : run System.step initial events = some system) : system.Barrier :=
  (Barrier.of_absent hfresh).run hrun

/-- **The commit barrier.**  In every state that the tasks of a session can reach:

* a step that does more to the state than the other tasks is the second section of a
  commit whose whole batch was written, at the snapshot that the candidate expects;
* a commit that passes its first section and ends in any other way leaves the state as
  the other tasks make it, with the flag latched: whatever happens later, every check
  and every commit fails. -/
theorem commit_barrier {events : List Event} (hfresh : ∀ task, initial.tasks task = .absent)
    (hrun : run System.step initial events = some system) :
    (∀ event next, system.step event = some next →
      next.state.unlatched = (system.state.followOthers event).unlatched ∨
      ∃ task commit, event = .secondSection task ∧ system.tasks task = .persisted commit ∧
        commit.prepared.batch <:+: system.rollout ∧ system.isCancelled commit.token = false ∧
        historyDigest system.state.items = commit.candidate.expectedHistoryHash ∧
        system.state.settings = commit.candidate.expectedSettings ∧
        system.state.baseInstructions = commit.candidate.expectedBaseText ∧
        system.state.worldStateCheckpoint = commit.candidate.expectedWorld ∧
        next.state = system.state.publish commit) ∧
    ∀ task services entered middle exited error later final,
      system.step (.firstSection task services) = some entered → entered.Flies task →
      run System.step entered middle = some exited →
      exited.tasks task = .interrupted error →
      run System.step exited later = some final →
      final.state = (middle ++ later).foldl SessionState.followOthers entered.state ∧
        final.state.rencrowCheckpointFailed = true ∧
        final.state.checkRencrowCheckpoint = .error (.fatal ("Compaction checkpoint " ++
          "persistence was uncertain; restart to recover the last readable owner checkpoint " ++
          "before continuing")) ∧
        ∀ candidate cancellation isCancelled services,
          firstSection final.state candidate cancellation isCancelled services =
            .error staleCandidate := by
  have hbarrier := (Barrier.of_absent hfresh).run hrun
  refine ⟨fun event next hnext => ?_, ?_⟩
  · obtain ⟨-, ⟨-, hstate⟩ | ⟨hquiet, task, status, -, hadv⟩⟩ := step_cases hnext
    · exact .inl (by rw [hstate])
    · rw [hquiet]
      generalize hold : system.tasks task = old at hadv
      cases hadv with
      | began hstate | rejected hstate
      | wrote hrows hstate | interrupted hflight hstate => exact .inl (by rw [hstate])
      | latched hfree hstate => exact .inl (by rw [hstate]; rfl)
      | published hevent hcancelled hexp hstate =>
        simp only [SessionState.isExpected, Bool.and_eq_true, decide_eq_true_eq] at hexp
        obtain ⟨⟨⟨hhist, hsettings⟩, hbase⟩, hworld⟩ := hexp
        exact .inr ⟨task, _, hevent, hold, hbarrier.written task _ hold, hcancelled, hhist,
          hsettings, hbase, hworld, hstate⟩
  · intro task services entered middle exited error later final hentered hflies hmid hexit hlater
    have hentry := hbarrier.step hentered
    have hfinal := (hentry.run hmid).run hlater
    have hended : ∀ (system : System) (event : Event) (next : System),
        system.tasks task = .interrupted error → system.step event = some next →
        next.tasks task = .interrupted error :=
      fun _ _ _ h hstep => ended_step (.inr ⟨error, rfl⟩) h hstep
    have hstays := run_invariant hended hlater hexit
    have hwhole : run System.step entered (middle ++ later) = some final :=
      run_append_eq_some.mpr ⟨exited, hmid, hlater⟩
    obtain ⟨-, hstate⟩ := Holds.run (.inl hflies) hentry hwhole (by rw [hstays]; simp)
    have hfail := (hfinal.interrupted task error hstays).1
    refine ⟨hstate, hfail, ?_, fun cand cancellation isCancelled services => ?_⟩
    · rw [checkRencrowCheckpoint, hfail]
      rfl
    · rw [firstSection, hfail]
      rfl

/-! ## A commit that cannot be written -/

/-- A session without history. -/
def sampleState : SessionState where
  rencrowCheckpointFailed := false
  items := []
  referenceContextItem := none
  worldStateBaseline := none
  historyVersion := 0
  settings := .object []
  baseInstructions := ""
  windowNumber := 0
  windowIds := ⟨"w1", none, "w1"⟩
  reasoningEffortPin := .unset
  pendingSessionStartSources := []

/-- The session in its first turn. -/
def sampleSystem : System := ⟨sampleState, [], some ("turn", 0), [], fun _ => .absent, none⟩

/-- The services of that turn. -/
def sampleServices : Services where
  uuids _ := "0190"
  mcpAttribution := none
  retainedContext := default
  guardianHistory := none
  mcpResourceOrigins := none
  newWindowId := "w2"
  latestTokenUsageRecord := none
  threadId := "thread"
  liveThread := true

/-- A candidate made from the sample state. -/
def sampleCommit : CommitCandidate where
  toRenCrowCheckpoint := sampleCandidate
  expectedHistoryHash := historyDigest []
  expectedSettings := .object []
  expectedTurn := "turn"
  expectedBaseText := ""
  expectedWorld := none

omit [PayloadCodec] in
/-- The sample commit passes its first section. -/
theorem firstSection_sample : ∃ commit, @firstSection .sample sampleState (@sampleCommit .sample)
    (some 0) sampleSystem.isCancelled sampleServices = .ok commit := by
  have hsome : (@firstSection .sample sampleState (@sampleCommit .sample) (some 0)
      sampleSystem.isCancelled sampleServices).toOption.isSome = true := by decide +kernel
  obtain ⟨commit, hcommit⟩ := Option.isSome_iff_exists.mp hsome
  exact ⟨commit, toOption_eq_some.mp hcommit⟩

omit [PayloadCodec] in
/-- Two commits of one candidate: the second is rejected while the first flies, and the batch
of the first is written. -/
theorem barrier_run_sample : ∃ system commit,
    run (@System.step .sample) sampleSystem [.start 0 (@sampleCommit .sample),
      .start 1 (@sampleCommit .sample), .firstSection 0 sampleServices,
      .firstSection 1 sampleServices, .persist 0 .written] = some system ∧
    system.tasks 0 = .persisted commit ∧ system.tasks 1 = .rejected (some staleCandidate) ∧
    system.Barrier := by
  obtain ⟨commit, hcommit⟩ := firstSection_sample
  let started := (sampleSystem.setTask 0 (.started (@sampleCommit .sample) (some 0))).setTask 1
    (.started (@sampleCommit .sample) (some 0))
  let latched := { started with
    state := { sampleState with rencrowCheckpointFailed := true } }.setTask 0 (.persisting commit)
  have hfirst : @System.step .sample started (.firstSection 0 sampleServices) = some latched := by
    have htask : started.tasks 0 = .started (@sampleCommit .sample) (some 0) := rfl
    have hstate : @firstSection .sample started.state (@sampleCommit .sample) (some 0)
        started.isCancelled sampleServices = .ok commit := hcommit
    simp only [System.step, htask, hstate]
    rfl
  have hrun : run (@System.step .sample) sampleSystem [.start 0 (@sampleCommit .sample),
      .start 1 (@sampleCommit .sample), .firstSection 0 sampleServices,
      .firstSection 1 sampleServices, .persist 0 .written] =
      some (((latched.setTask 1 (.rejected (some staleCandidate))).write
        commit.prepared.batch).setTask 0 (.persisted commit)) := by
    refine run_cons_eq_some.mpr ⟨_, rfl, run_cons_eq_some.mpr ⟨started, rfl, ?_⟩⟩
    exact run_cons_eq_some.mpr ⟨latched, hfirst, rfl⟩
  exact ⟨_, commit, hrun, rfl, rfl, @barrier_run .sample _ sampleSystem _ (fun _ => rfl) hrun⟩

omit [PayloadCodec] in
/-- The disk is full when the sample commit is written: the history stays, and the flag
with it. -/
theorem commit_barrier_sample : ∃ system entered exited,
    run (@System.step .sample) sampleSystem [.start 0 (@sampleCommit .sample)] = some system ∧
      @System.step .sample system (.firstSection 0 sampleServices) = some entered ∧
      run (@System.step .sample) entered [.persist 0 (.failed 1 "no space left")] =
        some exited ∧
      exited.state = { sampleState with rencrowCheckpointFailed := true } ∧
      ∀ candidate cancellation isCancelled services, @firstSection .sample exited.state candidate
        cancellation isCancelled services = .error staleCandidate := by
  obtain ⟨commit, hcommit⟩ := firstSection_sample
  let system := sampleSystem.setTask 0 (.started (@sampleCommit .sample) (some 0))
  have hfirst : @System.step .sample system (.firstSection 0 sampleServices) =
      some ({ system with state := { sampleState with rencrowCheckpointFailed := true } }.setTask 0
        (.persisting commit)) := by
    have htask : system.tasks 0 = .started (@sampleCommit .sample) (some 0) := rfl
    have hstate : @firstSection .sample system.state (@sampleCommit .sample) (some 0)
        system.isCancelled sampleServices = .ok commit := hcommit
    simp only [System.step, htask, hstate]
    rfl
  have hrun : run (@System.step .sample) sampleSystem [.start 0 (@sampleCommit .sample)] =
      some system := rfl
  obtain ⟨hstate, -, -, hfails⟩ := (@commit_barrier .sample _ _ _ (fun _ => rfl) hrun).2 0
    sampleServices _ [.persist 0 (.failed 1 "no space left")] _ _ [] _ hfirst rfl rfl rfl rfl
  exact ⟨system, _, _, hrun, hfirst, rfl, hstate, hfails⟩

end System

end RenCrow
