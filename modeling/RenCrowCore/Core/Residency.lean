import Mathlib.Data.List.Nodup
import RenCrowCore.Lib.Run

/-!
# Loaded agents

The places of loaded agents (`core/src/agent/control/residency.rs`).  A reservation that finds no
free place takes the least recently used resident out of the queue, asks whether it can be
unloaded, and puts it back if not.  It waits in between, and other reservations go on.

* `reserveSlot`, `scanNext`, `popWithin`: what a reservation does up to its next wait;
* `residencyStep`: one part of some reservation, or another call;
* `Orderly`: a candidate is put back only where there is room for it;
* `residency_bounded`: the places suffice in such runs;
* `residency_overfull`: a candidate that is put back finds its place taken, and one whose
  reservation is cancelled is lost.
-/

namespace RenCrow.Residency

open List

variable {T : Type} [DecidableEq T]

/-- What a reservation waits for while it holds a candidate. -/
inductive Stage where
  | getThread
  | isUnloadable
  | shutdownAndWait
  | removeThread
deriving DecidableEq, Repr

/-- A reservation that waits. -/
structure Scan (T : Type) where
  protectedThread : Option T
  remaining : Nat
  candidate : T
  stage : Stage
deriving DecidableEq, Repr

/-- The queue and the slots, with the reservations that wait, the threads that are loaded, and
those that were committed and not forgotten. -/
structure V2Residency (T : Type) where
  residents : List T := []
  pendingSlots : Nat := 0
  running : List (Scan T) := []
  loaded : List T := []
  tracked : List T := []

/-- The thread becomes the one used last. -/
def touchResident (residents : List T) (thread : T) : List T :=
  residents.filter (· != thread) ++ [thread]

/-- `pop_lru_candidate`: a protected thread goes to the end. -/
def popWithin (protectedThread : Option T) : Nat → List T → List T × Option T
  | 0, residents => (residents, none)
  | _ + 1, [] => ([], none)
  | scans + 1, thread :: residents =>
    if some thread = protectedThread then popWithin protectedThread scans (residents ++ [thread])
    else (residents, some thread)

namespace V2Residency

variable (state : V2Residency T)

/-- The thread becomes the one used last. -/
def touch (thread : T) : V2Residency T :=
  { state with residents := touchResident state.residents thread }

/-- The next round of `try_unload_one_resident`; without a candidate the reservation fails. -/
def scanNext (protectedThread : Option T) : Nat → V2Residency T
  | 0 => state
  | remaining + 1 =>
    match popWithin protectedThread state.residents.length state.residents with
    | (residents, none) => { state with residents := residents }
    | (residents, some candidate) => { state with
        residents := residents
        running := ⟨protectedThread, remaining, candidate, .getThread⟩ :: state.running }

/-- The head of the loop of `reserve_slot`. -/
def reserveSlot (capacity : Nat) (protectedThread : Option T) : V2Residency T :=
  if capacity ≤ state.residents.length + state.pendingSlots then
    state.scanNext protectedThread state.residents.length
  else { state with pendingSlots := state.pendingSlots + 1 }

/-- A reservation goes on with the answer that it has waited for. -/
def resume (capacity : Nat) (scan : Scan T) (answer : Bool) : V2Residency T :=
  match scan.stage with
  | .getThread =>
    if scan.candidate ∈ state.loaded then
      { state with running := { scan with stage := .isUnloadable } :: state.running }
    else state.scanNext scan.protectedThread scan.remaining
  | .isUnloadable =>
    if answer then { state with running := { scan with stage := .shutdownAndWait } ::
      state.running }
    else (state.touch scan.candidate).scanNext scan.protectedThread scan.remaining
  | .shutdownAndWait =>
    if answer then { state with running := { scan with stage := .removeThread } :: state.running }
    else (state.touch scan.candidate).scanNext scan.protectedThread scan.remaining
  | .removeThread =>
    { state with loaded := state.loaded.filter (· != scan.candidate) }.reserveSlot capacity
      scan.protectedThread

end V2Residency

/-- What happens to the residents. -/
inductive ResidencyEvent (T : Type) where
  | reserveSlot (protectedThread : Option T)
  | resume (scan : Scan T) (answer : Bool)
  | cancel (scan : Scan T)
  | commitSlot (thread : T)
  | dropSlot
  | forget (thread : T)
  | touchLoaded (thread : T)
  | leave (thread : T)
deriving DecidableEq

/-- One part of a reservation up to its next wait, or another call; `leave` is a thread that is
removed for another reason. -/
def residencyStep (capacity : Nat) (state : V2Residency T) :
    ResidencyEvent T → Option (V2Residency T)
  | .reserveSlot protectedThread => some (state.reserveSlot capacity protectedThread)
  | .resume scan answer =>
    if scan ∈ state.running then
      some ({ state with running := state.running.erase scan }.resume capacity scan answer)
    else none
  | .cancel scan =>
    if scan ∈ state.running then some { state with running := state.running.erase scan } else none
  | .commitSlot thread =>
    if state.pendingSlots = 0 then none
    else some { state.touch thread with
      pendingSlots := state.pendingSlots - 1, loaded := thread :: state.loaded, tracked := thread ::
        state.tracked }
  | .dropSlot =>
    if state.pendingSlots = 0 then none
      else some { state with pendingSlots := state.pendingSlots - 1 }
  | .forget thread => some { state with
      residents := state.residents.filter (· != thread),
        tracked := state.tracked.filter (· != thread) }
  | .touchLoaded thread => if thread ∈ state.loaded then some (state.touch thread) else none
  | .leave thread => some { state with loaded := state.loaded.filter (· != thread) }

/-! ## Places -/

/-- The threads that have a place: residents, and candidates that may be put back. -/
def V2Residency.places (state : V2Residency T) : List T :=
  state.residents ++ state.running.map Scan.candidate

/-- The reservation puts its candidate back: it may not be unloaded, or did not shut down. -/
def Scan.putsBack (scan : Scan T) (answer : Bool) : Bool :=
  !answer && (scan.stage = .isUnloadable || scan.stage = .shutdownAndWait)

/-- A candidate is put back only if there is room left, a waiting reservation is not cancelled
while its candidate is loaded, a thread is not committed while it is a candidate, and only
residents are touched. -/
def Orderly (capacity : Nat) (state : V2Residency T) : ResidencyEvent T → Prop
  | .resume scan answer => scan.putsBack answer = true →
      state.residents.length + state.pendingSlots < capacity
  | .cancel scan => scan.candidate ∉ state.loaded
  | .commitSlot thread => thread ∉ state.running.map Scan.candidate
  | .touchLoaded thread => thread ∈ state.residents
  | .reserveSlot _ | .dropSlot | .forget _ | .leave _ => True

instance (capacity : Nat) (state : V2Residency T) :
    ∀ event, Decidable (Orderly capacity state event)
  | .resume _ _ => inferInstanceAs (Decidable (_ → _))
  | .cancel scan => inferInstanceAs (Decidable (scan.candidate ∉ state.loaded))
  | .commitSlot thread => inferInstanceAs (Decidable (thread ∉ state.running.map Scan.candidate))
  | .touchLoaded thread => inferInstanceAs (Decidable (thread ∈ state.residents))
  | .reserveSlot _ | .dropSlot | .forget _ | .leave _ => inferInstanceAs (Decidable True)

/-- Every thread has one place, the residents and slots fit, and all threads that count have a
place. -/
structure Bounded (capacity : Nat) (state : V2Residency T) : Prop where
  /-- No thread has two places. -/
  nodup : state.places.Nodup
  /-- The limit. -/
  fits : state.residents.length + state.pendingSlots ≤ capacity
  /-- A loaded thread that was committed and not forgotten has a place. -/
  kept : ∀ thread ∈ state.loaded, thread ∈ state.tracked → thread ∈ state.places
  /-- No reservation takes the thread that it protects. -/
  spared : ∀ scan ∈ state.running, some scan.candidate ≠ scan.protectedThread

variable {capacity : Nat} {state next : V2Residency T} {scan : Scan T} {thread : T}
  {protectedThread : Option T}

theorem popWithin_perm (protectedThread : Option T) (scans : Nat) (residents : List T) :
    let popped := popWithin protectedThread scans residents
    (popped.2.toList ++ popped.1).Perm residents ∧ ∀ thread ∈ popped.2, some thread ≠
      protectedThread := by
  fun_induction popWithin protectedThread scans residents with
  | case1 residents => simp
  | case2 scans => simp
  | case3 scans thread residents hprotected ih =>
    exact ⟨ih.1.trans (perm_append_singleton thread residents), ih.2⟩
  | case4 scans thread residents hprotected => simpa using hprotected

omit [DecidableEq T] in
/-- The threads that have a place stay the same. -/
theorem Bounded.of_perm (h : Bounded capacity state) (hplaces : next.places.Perm state.places)
    (hfits : next.residents.length + next.pendingSlots ≤ capacity)
    (hloaded : next.loaded ⊆ state.loaded) (htracked : next.tracked ⊆ state.tracked)
    (hspared : ∀ scan ∈ next.running, some scan.candidate ≠ scan.protectedThread) :
    Bounded capacity next where
  nodup := hplaces.nodup_iff.mpr h.nodup
  fits := hfits
  kept thread hmem hthread := hplaces.mem_iff.mpr (h.kept thread (hloaded hmem) (htracked hthread))
  spared := hspared

theorem Bounded.scanNext (h : Bounded capacity state) (protectedThread : Option T)
    (remaining : Nat) : Bounded capacity (state.scanNext protectedThread remaining) := by
  cases remaining with
  | zero => exact h
  | succ remaining =>
    have hpop := popWithin_perm protectedThread state.residents.length state.residents
    have hfits := h.fits
    rw [V2Residency.scanNext]
    split
    · rename_i residents hnone
      rw [hnone] at hpop
      refine h.of_perm (hpop.1.append_right _) ?_ (fun _ => id) (fun _ => id) h.spared
      exact (hpop.1.length_eq ▸ hfits :)
    · rename_i residents candidate hsome
      rw [hsome] at hpop
      refine h.of_perm ?_ ?_ (fun _ => id) (fun _ => id)
        (forall_mem_cons.mpr ⟨hpop.2 candidate rfl, h.spared⟩)
      · exact perm_middle.trans (hpop.1.append_right _)
      · have hlength : residents.length + 1 = state.residents.length := hpop.1.length_eq
        dsimp only
        omega

theorem Bounded.reserveSlot (h : Bounded capacity state) (protectedThread : Option T) :
    Bounded capacity (state.reserveSlot capacity protectedThread) := by
  unfold V2Residency.reserveSlot
  split
  · exact h.scanNext _ _
  · rename_i hfree
    exact ⟨h.nodup, Nat.lt_of_not_le hfree, h.kept, h.spared⟩

/-- A waiting reservation and its candidate apart from the others. -/
theorem places_erase (hscan : scan ∈ state.running) :
    (scan.candidate :: { state with running := state.running.erase scan }.places).Perm
      state.places :=
  perm_middle.symm.trans (((perm_cons_erase hscan).symm.map Scan.candidate).append_left _)

/-- A candidate that is not loaded any more can be left. -/
theorem Bounded.leaveCandidate {loaded : List T} (h : Bounded capacity state)
    (hscan : scan ∈ state.running) (hloaded : loaded ⊆ state.loaded)
    (hgone : scan.candidate ∉ loaded) :
    Bounded capacity { state with running := state.running.erase scan, loaded := loaded } := by
  have hperm := places_erase hscan
  refine ⟨(hperm.nodup_iff.mpr h.nodup).of_cons, h.fits, fun thread hmem htracked => ?_,
    fun other hother => h.spared other (mem_of_mem_erase hother)⟩
  rcases mem_cons.mp (hperm.mem_iff.mpr (h.kept thread (hloaded hmem) htracked)) with rfl | hplace
  · exact absurd hmem hgone
  · exact hplace

/-- A touched thread adds at most one resident. -/
theorem length_touchResident_le (residents : List T) (thread : T) :
    (touchResident residents thread).length ≤ residents.length + 1 := by
  rw [touchResident, length_append, length_singleton]
  exact Nat.succ_le_succ (length_filter_le _ _)

/-- A touched thread that is no candidate has one place. -/
theorem places_touch (hnodup : state.places.Nodup)
    (hfree : thread ∉ state.running.map Scan.candidate) :
    (state.touch thread).places.Perm (thread :: state.places.erase thread) := by
  have hqueue : touchResident state.residents thread = state.residents.erase thread ++
      [thread] := by
    rw [touchResident, hnodup.of_append_left.erase_eq_filter]
  have herase : state.places.erase thread =
      state.residents.erase thread ++ state.running.map Scan.candidate := by
    by_cases hmem : thread ∈ state.residents
    · exact erase_append_left _ hmem
    · rw [V2Residency.places, erase_append_right _ hmem, erase_of_not_mem hfree,
        erase_of_not_mem hmem]
  rw [herase, V2Residency.places, V2Residency.touch, hqueue, append_assoc]
  exact perm_middle

/-- A candidate that is put back was not in the queue. -/
theorem Bounded.putBack (h : Bounded capacity state) (hscan : scan ∈ state.running)
    (hroom : state.residents.length + state.pendingSlots < capacity) :
    Bounded capacity ({ state with running := state.running.erase scan }.touch scan.candidate) := by
  have hperm := places_erase hscan
  obtain ⟨hfresh, hnodup⟩ := nodup_cons.mp (hperm.nodup_iff.mpr h.nodup)
  have htouch := places_touch hnodup fun hmem => hfresh (mem_append_right _ hmem)
  rw [erase_of_not_mem hfresh] at htouch
  refine h.of_perm (htouch.trans hperm) ?_ (fun _ => id) (fun _ => id)
    fun other hother => h.spared other (mem_of_mem_erase hother)
  have hlength := length_touchResident_le state.residents scan.candidate
  change (touchResident state.residents scan.candidate).length + state.pendingSlots ≤ capacity
  omega

theorem Bounded.commitSlot (h : Bounded capacity state) (hpending : state.pendingSlots ≠ 0)
    (hfree : thread ∉ state.running.map Scan.candidate) :
    Bounded capacity { state.touch thread with
      pendingSlots := state.pendingSlots - 1
      loaded := thread :: state.loaded
      tracked := thread :: state.tracked } := by
  have hperm := places_touch h.nodup hfree
  have hfits := h.fits
  have hlength := length_touchResident_le state.residents thread
  refine ⟨hperm.nodup_iff.mpr (nodup_cons.mpr ⟨h.nodup.not_mem_erase, h.nodup.erase _⟩), ?_,
    fun other hloaded htracked => hperm.mem_iff.mpr ?_, h.spared⟩
  · change (touchResident state.residents thread).length + (state.pendingSlots - 1) ≤ capacity
    omega
  · by_cases hother : other = thread
    · exact hother ▸ mem_cons_self
    · exact mem_cons_of_mem _ ((mem_erase_of_ne hother).mpr
        (h.kept other (mem_of_ne_of_mem hother hloaded) (mem_of_ne_of_mem hother htracked)))

theorem Bounded.forget (h : Bounded capacity state) (thread : T) :
    Bounded capacity { state with
      residents := state.residents.filter (· != thread)
      tracked := state.tracked.filter (· != thread) } := by
  have hsub : (state.residents.filter (· != thread) ++
      state.running.map Scan.candidate).Sublist state.places :=
    filter_sublist.append_right _
  refine ⟨hsub.nodup h.nodup, ?_, fun other hloaded htracked => ?_, h.spared⟩
  · exact Nat.le_trans (Nat.add_le_add_right (length_filter_le _ _) _) h.fits
  · obtain ⟨htracked, hother⟩ := mem_filter.mp htracked
    rcases mem_append.mp (h.kept other hloaded htracked) with hmem | hmem
    · exact mem_append_left _ (mem_filter.mpr ⟨hmem, hother⟩)
    · exact mem_append_right _ hmem

theorem Bounded.resume (h : Bounded capacity state) (hscan : scan ∈ state.running) (answer : Bool)
    (hroom : scan.putsBack answer = true →
      state.residents.length + state.pendingSlots < capacity) :
    Bounded capacity
      ({ state with running := state.running.erase scan }.resume capacity scan answer) := by
  -- a reservation that waits for something else keeps its candidate
  have hwait (stage : Stage) : Bounded capacity
      { state with running := { scan with stage := stage } :: state.running.erase scan } :=
    h.of_perm (perm_middle.trans (places_erase hscan)) h.fits (fun _ => id) (fun _ => id)
      (forall_mem_cons.mpr ⟨h.spared scan hscan,
        fun other hother => h.spared other (mem_of_mem_erase hother)⟩)
  unfold V2Residency.resume
  cases hstage : scan.stage with
  | getThread =>
    dsimp only
    split
    · exact hwait .isUnloadable
    · rename_i hgone
      exact (h.leaveCandidate hscan (fun _ => id) hgone).scanNext _ _
  | isUnloadable =>
    cases answer with
    | true => exact hwait .shutdownAndWait
    | false => exact (h.putBack hscan (hroom (by simp [Scan.putsBack, hstage]))).scanNext _ _
  | shutdownAndWait =>
    cases answer with
    | true => exact hwait .removeThread
    | false => exact (h.putBack hscan (hroom (by simp [Scan.putsBack, hstage]))).scanNext _ _
  | removeThread =>
    have hgone : scan.candidate ∉ state.loaded.filter (· != scan.candidate) := by simp
    exact (h.leaveCandidate hscan (filter_subset_self state.loaded) hgone).reserveSlot _

/-- **One step** of an orderly run keeps the bound. -/
theorem Bounded.step {event : ResidencyEvent T} (h : Bounded capacity state)
    (horderly : Orderly capacity state event)
    (hstep : residencyStep capacity state event = some next) :
    Bounded capacity next := by
  cases event with
  | reserveSlot protectedThread =>
    cases hstep
    exact h.reserveSlot _
  | resume scan answer =>
    obtain ⟨hscan, hstep⟩ := Option.ite_none_right_eq_some.mp hstep
    cases hstep
    exact h.resume hscan answer horderly
  | cancel scan =>
    obtain ⟨hscan, hstep⟩ := Option.ite_none_right_eq_some.mp hstep
    cases hstep
    exact h.leaveCandidate hscan (fun _ => id) horderly
  | commitSlot thread =>
    obtain ⟨hpending, hstep⟩ := Option.ite_none_left_eq_some.mp hstep
    cases hstep
    exact h.commitSlot hpending horderly
  | dropSlot =>
    obtain ⟨-, hstep⟩ := Option.ite_none_left_eq_some.mp hstep
    cases hstep
    refine h.of_perm (.refl _) ?_ (fun _ => id) (fun _ => id) h.spared
    exact Nat.le_trans (Nat.add_le_add_left (Nat.sub_le _ _) _) h.fits
  | forget thread =>
    cases hstep
    exact h.forget thread
  | touchLoaded thread =>
    obtain ⟨-, hstep⟩ := Option.ite_none_right_eq_some.mp hstep
    cases hstep
    have hmem : thread ∈ state.places := mem_append_left _ horderly
    have hfree : thread ∉ state.running.map Scan.candidate := fun hcandidate =>
      disjoint_of_nodup_append h.nodup horderly hcandidate
    have hplaces := (places_touch h.nodup hfree).trans (perm_cons_erase hmem).symm
    have hlength : (touchResident state.residents thread).length = state.residents.length := by
      have hall := hplaces.length_eq
      simp only [V2Residency.places, V2Residency.touch, length_append] at hall
      omega
    refine h.of_perm hplaces ?_ (fun _ => id) (fun _ => id) h.spared
    exact (hlength ▸ h.fits :)
  | leave thread =>
    cases hstep
    exact h.of_perm (.refl _) h.fits (filter_subset_self _) (fun _ => id) h.spared

/-- **The limit holds in orderly runs**: places and slots fit, every loaded thread that was
committed has one place, and no reservation takes the thread that it protects. -/
theorem residency_bounded {events : List (ResidencyEvent T)} {final : V2Residency T}
    (hrun : Run.run (residencyStep capacity) {} events = some final)
    (horderly : Run.Every (residencyStep capacity) (Orderly capacity) {} events) :
    final.residents.length + final.pendingSlots ≤ capacity ∧ final.residents.Nodup ∧
    (∀ thread ∈ final.loaded, thread ∈ final.tracked →
      thread ∈ final.residents ∨ (final.running.map Scan.candidate).count thread = 1) ∧
    ∀ scan ∈ final.running, scan.protectedThread ≠ some scan.candidate := by
  have hempty : Bounded capacity ({} : V2Residency T) :=
    ⟨nodup_nil, Nat.zero_le _, forall_mem_nil _, forall_mem_nil _⟩
  have hfinal := Run.run_invariant_of_every (fun _ _ _ h => Bounded.step h) hrun horderly hempty
  refine ⟨hfinal.fits, hfinal.nodup.of_append_left, fun thread hloaded htracked => ?_,
    fun scan hscan => (hfinal.spared scan hscan).symm⟩
  rcases mem_append.mp (hfinal.kept thread hloaded htracked) with hmem | hmem
  · exact .inl hmem
  · exact .inr (count_eq_one_of_mem hfinal.nodup.of_append_right hmem)

/-- Two reservations wait at once: the candidate of one is unloaded, that of the other is busy
and put back, while a slot is given and committed in between. -/
def overlappingReservations : List (ResidencyEvent Nat) :=
  [.reserveSlot none, .commitSlot 0, .reserveSlot none, .commitSlot 1, .reserveSlot none,
    .reserveSlot (some 1), .reserveSlot none, .resume ⟨none, 1, 0, .getThread⟩ true,
    .resume ⟨none, 0, 1, .getThread⟩ true, .resume ⟨none, 1, 0, .isUnloadable⟩ true,
    .commitSlot 2, .resume ⟨none, 1, 0, .shutdownAndWait⟩ true,
    .resume ⟨none, 0, 1, .isUnloadable⟩ false, .touchLoaded 2,
    .resume ⟨none, 1, 0, .removeThread⟩ true]

theorem residency_bounded_sample :
    Run.Every (residencyStep 2) (Orderly 2) {} overlappingReservations ∧
      (Run.run (residencyStep 2) {} (overlappingReservations.take 10)).map
        (fun state => state.running.map Scan.candidate) = some [0, 1] ∧
      ∃ final, Run.run (residencyStep 2) {} overlappingReservations = some final ∧
        final.residents.length + final.pendingSlots ≤ 2 ∧ final.residents.Nodup ∧
        ∀ thread ∈ final.loaded, thread ∈ final.tracked →
          thread ∈ final.residents ∨ (final.running.map Scan.candidate).count thread = 1 := by
  have horderly : Run.Every (residencyStep 2) (Orderly 2) {} overlappingReservations := by decide
  have hsome : (Run.run (residencyStep 2) {} overlappingReservations).isSome = true := by decide
  obtain ⟨final, hrun⟩ := Option.isSome_iff_exists.mp hsome
  obtain ⟨hfits, hnodup, hkept, -⟩ := residency_bounded hrun horderly
  exact ⟨horderly, by decide, final, hrun, hfits, hnodup, hkept⟩

/-- One reservation takes the only resident, which turns out to be busy, while another gets its
place; and one that is cancelled loses the resident that it has taken. -/
theorem residency_overfull :
    (∃ final, Run.run (residencyStep 1) {} [.reserveSlot none, .commitSlot 0, .reserveSlot none,
        .reserveSlot none, .resume ⟨none, 0, 0, .getThread⟩ true,
          .resume ⟨none, 0, 0, .isUnloadable⟩ false] =
          some final ∧ final.residents.length + final.pendingSlots = 2) ∧
    ∃ final, Run.run (residencyStep 1) {} [.reserveSlot none, .commitSlot 0, .reserveSlot none,
        .cancel ⟨none, 0, 0, .getThread⟩] = some final ∧ 0 ∈ final.loaded ∧ 0 ∈ final.tracked ∧
      final.residents = [] ∧ final.running = [] := by
  exact ⟨⟨_, rfl, rfl⟩, _, rfl, by decide, by decide, rfl, rfl⟩

end RenCrow.Residency
