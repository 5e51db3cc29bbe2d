import Mathlib.Data.List.AList
import Mathlib.Logic.Function.Basic
import RenCrowCore.Lib.Run

/-!
# The agent registry

The registry of a session's agents (`core/src/agent/registry.rs`): a tree of agents and reserved
paths and an index by thread under a lock, and a counter outside of it.  An operation changes the
counter before it takes the lock or after it has left it, so other operations come in between.

* `registerSpawnedThread`, `releaseSpawnedThread`, `registerRootThread`: the steps under the lock;
* `registryStep`: one step of some operation;
* `Unregistered`: no registration is replaced;
* `Accounted`: how the counter and the index stand to the tree in every run;
* `accounting_exact`: the counter is never too low, and exact while no registration is replaced;
* `accounting_leaks`: a thread that is registered twice is counted twice.
-/

namespace RenCrow.Agents

open Function (update update_apply update_eq_self_iff)
open List Run

/-- The key of an agent in the tree: its path, or `thread:<id>` for an agent without one.  Agent
paths begin with `/root`, so the two do not meet. -/
inductive AgentKey (T : Type) where
  | path (path : String)
  | thread (id : T)
deriving DecidableEq

/-- What is kept about an agent: its thread and its path.  An entry without a thread stands for a
path that is only reserved. -/
structure AgentMetadata (T : Type) where
  agentId : Option T
  agentPath : Option String
deriving DecidableEq

/-- `AgentPath::ROOT`. -/
def rootPath : String := "/root"

variable {T : Type}

/-- The agent path is that of the session's own thread, which is not counted. -/
def AgentMetadata.isRoot (metadata : AgentMetadata T) : Bool := metadata.agentPath = some rootPath

/-- The agents that `live_agents` lists. -/
def AgentMetadata.isLive (metadata : AgentMetadata T) : Bool :=
  metadata.agentId.isSome && !metadata.isRoot

/-- The agents by key. -/
abbrev AgentTree (T : Type) := AList fun _ : AgentKey T => AgentMetadata T

/-- The thread that is registered under a key. -/
def threadAt [DecidableEq T] (tree : AgentTree T) (key : AgentKey T) : Option T :=
  (tree.lookup key).bind AgentMetadata.agentId

/-- The registry with the reservations that are neither committed nor dropped, each as the path
that it has reserved. -/
structure AgentRegistry (T : Type) where
  agentTree : AgentTree T := ∅
  threadPaths : T → Option (AgentKey T) := fun _ => none
  totalCount : Nat := 0
  outstanding : List (Option String) := []
  /-- Operations that have left the lock and still have to count down. -/
  releasing : Nat := 0

variable [DecidableEq T]

namespace AgentRegistry

variable (registry : AgentRegistry T)

/-- The agents other than the root. -/
def liveAgents : List (AgentMetadata T) :=
  (registry.agentTree.entries.map Sigma.snd).filter AgentMetadata.isLive

/-- `try_increment_spawned` compares and exchanges in one step, and the error is
`AgentLimitReached` with the limit. -/
def reserveSpawnSlot (maxThreads : Option Nat) : Except Nat (AgentRegistry T) :=
  let reserved := { registry with
    totalCount := registry.totalCount + 1
    outstanding := none :: registry.outstanding }
  match maxThreads with
  | some maxThreads => if maxThreads ≤ registry.totalCount then .error maxThreads else .ok reserved
  | none => .ok reserved

/-- `SpawnReservation::reserve_agent_path`; a path reserved before is forgotten. -/
def reserveAgentPath (reservation : Option String) (path : String) :
    Except String (AgentRegistry T) :=
  match registry.agentTree.lookup (.path path) with
  | some _ => .error ("agent path `" ++ path ++ "` already exists")
  | none => .ok { registry with
      agentTree := registry.agentTree.insert (.path path) ⟨none, some path⟩
      outstanding := some path :: registry.outstanding.erase reservation }

/-- The thread leaves the entry that it had under another key, and a thread that had the key leaves
the index. -/
def registerSpawnedThread (id : T) (path : Option String) : AgentRegistry T :=
  let key := path.elim (.thread id) .path
  let tree :=
    match registry.threadPaths id with
    | some previous =>
      if previous ≠ key then registry.agentTree.erase previous else registry.agentTree
    | none => registry.agentTree
  let paths := Function.update registry.threadPaths id (some key)
  { registry with
    agentTree := tree.insert key ⟨some id, path⟩
    threadPaths :=
      match threadAt tree key with
      | some previous => if previous ≠ id then Function.update paths previous none else paths
      | none => paths }

/-- `SpawnReservation::commit`: the count of the reservation is kept for the agent. -/
def commit (reservation : Option String) (id : T) (path : Option String) : AgentRegistry T :=
  { registry.registerSpawnedThread id path with
    outstanding := registry.outstanding.erase reservation }

/-- The tree without a path that is only reserved. -/
def releaseReservedAgentPath (path : String) : AgentTree T :=
  match registry.agentTree.lookup (.path path) with
  | some ⟨none, _⟩ => registry.agentTree.erase (.path path)
  | _ => registry.agentTree

/-- The part of `drop` under the lock. -/
def dropReservation (reservation : Option String) : AgentRegistry T :=
  { registry with
    agentTree := reservation.elim registry.agentTree registry.releaseReservedAgentPath
    outstanding := registry.outstanding.erase reservation
    releasing := registry.releasing + 1 }

/-- The first thread that is registered is the root, and a later call only indexes it again. -/
def registerRootThread (id : T) : AgentRegistry T :=
  match registry.agentTree.lookup (.path rootPath) with
  | none => { registry with
      agentTree := registry.agentTree.insert (.path rootPath) ⟨some id, some rootPath⟩
      threadPaths := Function.update registry.threadPaths id (some (.path rootPath)) }
  | some metadata =>
    match metadata.agentId with
    | some root =>
      { registry with
        threadPaths := Function.update registry.threadPaths root (some (.path rootPath)) }
    | none => registry

/-- The part of `release_spawned_thread` under the lock. -/
def releaseSpawnedThread (id : T) : AgentRegistry T :=
  match registry.threadPaths id with
  | none => registry
  | some key =>
    let counted := (registry.agentTree.lookup key).any fun metadata => !metadata.isRoot
    { registry with
      agentTree := registry.agentTree.erase key
      threadPaths := Function.update registry.threadPaths id none
      releasing := if counted then registry.releasing + 1 else registry.releasing }

end AgentRegistry

/-- The steps of operations; reservations are given by the path that they have reserved. -/
inductive RegistryEvent (T : Type) where
  | reserveSpawnSlot (maxThreads : Option Nat)
  | reserveAgentPath (reservation : Option String) (path : String)
  | commit (reservation : Option String) (id : T) (path : Option String)
  | drop (reservation : Option String)
  | registerRootThread (id : T)
  | releaseSpawnedThread (id : T)
  | fetchSub
deriving DecidableEq

/-- A call that fails changes nothing and is no step. -/
def registryStep (registry : AgentRegistry T) : RegistryEvent T → Option (AgentRegistry T)
  | .reserveSpawnSlot maxThreads => (registry.reserveSpawnSlot maxThreads).toOption
  | .reserveAgentPath reservation path =>
    if reservation ∈ registry.outstanding then
      (registry.reserveAgentPath reservation path).toOption
    else none
  | .commit reservation id path =>
    if reservation ∈ registry.outstanding then some (registry.commit reservation id path) else none
  | .drop reservation =>
    if reservation ∈ registry.outstanding then some (registry.dropReservation reservation) else none
  | .registerRootThread id => some (registry.registerRootThread id)
  | .releaseSpawnedThread id => some (registry.releaseSpawnedThread id)
  | .fetchSub =>
    if registry.releasing = 0 then none
    else some { registry with
      totalCount := registry.totalCount - 1, releasing := registry.releasing - 1 }

/-! ## Conditions -/

/-- A step replaces no registration: the thread of a commit and its path are free and the path is
not the root's, and the root's thread is not registered under another path. -/
def Unregistered (registry : AgentRegistry T) : RegistryEvent T → Prop
  | .commit _ id path => registry.threadPaths id = none ∧ path ≠ some rootPath ∧
      threadAt registry.agentTree (path.elim (.thread id) .path) = none
  | .registerRootThread id =>
    registry.agentTree.lookup (.path rootPath) = none → registry.threadPaths id = none
  | _ => True

/-- A reservation reserves one path and is committed with it. -/
def UsesReserved (_ : AgentRegistry T) : RegistryEvent T → Prop
  | .reserveAgentPath reservation _ => reservation = none
  | .commit reservation _ path => reservation ≠ none → path = reservation
  | _ => True

/-- Every reservation has the same limit. -/
def UsesLimit (limit : Nat) (_ : AgentRegistry T) : RegistryEvent T → Prop
  | .reserveSpawnSlot maxThreads => maxThreads = some limit
  | _ => True

instance decidableUnregistered (registry : AgentRegistry T) (event : RegistryEvent T) :
    Decidable (Unregistered registry event) :=
  match event with
  | .commit _ id path => inferInstanceAs (Decidable (registry.threadPaths id = none ∧
      path ≠ some rootPath ∧ threadAt registry.agentTree (path.elim (.thread id) .path) = none))
  | .registerRootThread id => inferInstanceAs (Decidable
      (registry.agentTree.lookup (.path rootPath) = none → registry.threadPaths id = none))
  | .reserveSpawnSlot _ | .reserveAgentPath .. | .drop _ | .releaseSpawnedThread _ | .fetchSub =>
    isTrue trivial

instance decidableUsesReserved (registry : AgentRegistry T) (event : RegistryEvent T) :
    Decidable (UsesReserved registry event) :=
  match event with
  | .reserveAgentPath reservation _ => inferInstanceAs (Decidable (reservation = none))
  | .commit reservation _ path =>
    inferInstanceAs (Decidable (reservation ≠ none → path = reservation))
  | .reserveSpawnSlot _ | .drop _ | .registerRootThread _ | .releaseSpawnedThread _ | .fetchSub =>
    isTrue trivial

instance decidableUsesLimit (limit : Nat) (registry : AgentRegistry T) (event : RegistryEvent T) :
    Decidable (UsesLimit limit registry event) :=
  match event with
  | .reserveSpawnSlot maxThreads => inferInstanceAs (Decidable (maxThreads = some limit))
  | .reserveAgentPath .. | .commit .. | .drop _ | .registerRootThread _ | .releaseSpawnedThread _
  | .fetchSub => isTrue trivial

/-! ## Indices -/

section Follows

variable {A B : Type} [DecidableEq A] [DecidableEq B] {f : A → Option B} {g : B → Option A}
  {a : A} {b : B}

/-- What the first index has, the second has the other way round. -/
def Follows (f : A → Option B) (g : B → Option A) : Prop :=
  ∀ a b, f a = some b → g b = some a

variable (h : Follows f g)
include h

theorem Follows.add (hb : g b = none) :
    Follows (update f a (some b)) (update g b (some a)) := by
  intro x y hxy
  have hx := h x y
  simp only [update_apply] at hxy ⊢
  grind

omit [DecidableEq B] in
theorem Follows.set (hb : g b = some a) : Follows (update f a (some b)) g := by
  intro x y hxy
  have hx := h x y
  simp only [update_apply] at hxy
  grind

theorem Follows.remove (hab : f a = some b) : Follows (update f a none) (update g b none) := by
  intro x y hxy
  have hx := h x y
  have ha := h a b hab
  simp only [update_apply] at hxy ⊢
  grind

omit h in
/-- An element is put in the place of another, which leaves. -/
theorem Follows.replace (hothers : ∀ x y, x ≠ a → f x = some y → g y = some x) :
    Follows (match g b with
      | some previous =>
        if previous ≠ a then update (update f a (some b)) previous none else update f a (some b)
      | none => update f a (some b)) (update g b (some a)) := by
  intro x y hxy
  have hx := hothers x y
  simp only [update_apply]
  cases hplace : g b with
  | none =>
    simp only [hplace, update_apply] at hxy
    grind
  | some previous =>
    simp only [hplace] at hxy
    split at hxy <;> simp only [update_apply] at hxy <;> grind

end Follows

/-! ## Entries of the tree -/

variable {tree : AgentTree T} {key : AgentKey T} {metadata : AgentMetadata T}
  {registry next : AgentRegistry T} {id : T} {reservation path : Option String}

/-- The entry of a key stands for a path that is only reserved. -/
def reservedAt (tree : AgentTree T) (key : AgentKey T) : Bool :=
  (tree.lookup key).any fun metadata => metadata.agentId.isNone

theorem threadAt_of_vacant (hvacant : tree.lookup key = none) : threadAt tree key = none := by
  rw [threadAt, hvacant]
  rfl

theorem threadAt_insert : threadAt (tree.insert key metadata) =
    update (threadAt tree) key metadata.agentId := by
  funext other
  by_cases hother : other = key
  · subst hother
    simp [threadAt]
  · simp [threadAt, hother]

theorem threadAt_erase : threadAt (tree.erase key) = update (threadAt tree) key none := by
  funext other
  by_cases hother : other = key
  · subst hother
    simp [threadAt]
  · simp [threadAt, hother]

theorem reservedAt_insert : reservedAt (tree.insert key metadata) =
    update (reservedAt tree) key metadata.agentId.isNone := by
  funext other
  by_cases hother : other = key
  · subst hother
    simp [reservedAt]
  · simp [reservedAt, hother]

theorem reservedAt_erase : reservedAt (tree.erase key) = update (reservedAt tree) key false := by
  funext other
  by_cases hother : other = key
  · subst hother
    simp [reservedAt]
  · simp [reservedAt, hother]

/-- The agents of a tree that are counted. -/
def liveCount (tree : AgentTree T) : Nat :=
  ((tree.entries.map Sigma.snd).filter AgentMetadata.isLive).length

theorem liveCount_erase (tree : AgentTree T) (key : AgentKey T) : liveCount tree =
    liveCount (tree.erase key) + ((tree.lookup key).any AgentMetadata.isLive).toNat := by
  by_cases hkey : key ∈ tree.entries.keys
  · obtain ⟨metadata, before, after, -, hsplit, herase⟩ := exists_of_kerase hkey
    have hlookup : tree.lookup key = some metadata :=
      AList.mem_lookup_iff.mpr (by rw [hsplit]; simp)
    have herased : (tree.erase key).entries = before ++ after := herase
    rw [liveCount, liveCount, herased, hsplit, hlookup]
    cases hlive : metadata.isLive <;> simp [hlive]
    omega
  · have hlookup : tree.lookup key = none := AList.lookup_eq_none.mpr hkey
    have herased : (tree.erase key).entries = tree.entries := kerase_of_notMem_keys hkey
    rw [hlookup, liveCount, liveCount, herased]
    rfl

theorem liveCount_insert_erase (tree : AgentTree T) (key : AgentKey T)
    (metadata : AgentMetadata T) :
    liveCount (tree.insert key metadata) =
      liveCount (tree.erase key) + metadata.isLive.toNat := by
  have hentries : (tree.insert key metadata).entries =
    ⟨key, metadata⟩ :: (tree.erase key).entries := rfl
  rw [liveCount, hentries, liveCount]
  cases hlive : metadata.isLive <;> simp [hlive]

theorem liveCount_erase_le (tree : AgentTree T) (key : AgentKey T) :
    liveCount (tree.erase key) ≤ liveCount tree := by
  have herase := liveCount_erase tree key
  omega

/-- An entry takes the place of one that is not counted. -/
theorem liveCount_insert (hfree : threadAt tree key = none) :
    liveCount (tree.insert key metadata) = liveCount tree + metadata.isLive.toNat := by
  have hnone : (tree.lookup key).any AgentMetadata.isLive = false := by
    cases hlookup : tree.lookup key with
    | none => rfl
    | some metadata =>
      rw [threadAt, hlookup, Option.bind_some] at hfree
      simp [AgentMetadata.isLive, hfree]
  have herase := liveCount_erase tree key
  rw [hnone, Bool.toNat_false, Nat.add_zero] at herase
  rw [liveCount_insert_erase, herase]

/-! ## Invariants -/

/-- The index points into the tree, and what is counted is reserved, live, about to be released
or leaked. -/
structure Accounted (leaked : Nat) (registry : AgentRegistry T) : Prop where
  follows : Follows registry.threadPaths (threadAt registry.agentTree)
  count : registry.totalCount =
    registry.outstanding.length + liveCount registry.agentTree + registry.releasing + leaked

/-- Nothing is leaked, and every agent of the tree is in the index. -/
structure Exact (registry : AgentRegistry T) : Prop extends Accounted 0 registry where
  indexed : Follows (threadAt registry.agentTree) registry.threadPaths

/-- A step that leaves the threads and their index alone and counts what it changes. -/
structure Balanced (registry next : AgentRegistry T) : Prop where
  paths : next.threadPaths = registry.threadPaths
  threads : threadAt next.agentTree = threadAt registry.agentTree
  count : ∀ leaked, registry.totalCount = registry.outstanding.length +
      liveCount registry.agentTree + registry.releasing + leaked →
    next.totalCount =
      next.outstanding.length + liveCount next.agentTree + next.releasing + leaked

theorem Accounted.of_balanced {leaked : Nat} (h : Accounted leaked registry)
    (hbalanced : Balanced registry next) : Accounted leaked next := by
  refine ⟨?_, hbalanced.count leaked h.count⟩
  rw [hbalanced.paths, hbalanced.threads]
  exact h.follows

theorem Exact.of_balanced (h : Exact registry) (hbalanced : Balanced registry next) :
    Exact next := by
  refine ⟨h.toAccounted.of_balanced hbalanced, ?_⟩
  rw [hbalanced.paths, hbalanced.threads]
  exact h.indexed

/-- An entry without a thread is the path of an outstanding reservation. -/
def Reserved (registry : AgentRegistry T) : Prop :=
  ∀ key, reservedAt registry.agentTree key = true →
    ∃ path, key = .path path ∧ some path ∈ registry.outstanding

/-- The entries without a thread were there before, and their reservations still are. -/
theorem Reserved.of_kept (h : Reserved registry)
    (hkept : ∀ key, reservedAt next.agentTree key = true →
      reservedAt registry.agentTree key = true ∧
        ∀ path, key = .path path → some path ∈ registry.outstanding →
          some path ∈ next.outstanding) :
    Reserved next := by
  intro key hkey
  obtain ⟨hbefore, hstays⟩ := hkept key hkey
  obtain ⟨path, hpath, hmem⟩ := h key hbefore
  exact ⟨path, hpath, hstays path hpath hmem⟩

/-! ## Steps on reservations -/

omit [DecidableEq T] in
theorem reserveSpawnSlot_eq_ok {maxThreads : Option Nat}
    (hok : (registry.reserveSpawnSlot maxThreads).toOption = some next) :
    next = { registry with
      totalCount := registry.totalCount + 1, outstanding := none :: registry.outstanding } ∧
    ∀ limit, maxThreads = some limit → registry.totalCount < limit := by
  unfold AgentRegistry.reserveSpawnSlot at hok
  split at hok
  · split at hok
    · cases hok
    · rename_i hfree
      cases hok
      exact ⟨rfl, fun limit hlimit => Option.some.inj hlimit ▸ Nat.lt_of_not_le hfree⟩
  · cases hok
    exact ⟨rfl, fun limit hlimit => by cases hlimit⟩

theorem reserveSpawnSlot_balanced {maxThreads : Option Nat}
    (hok : (registry.reserveSpawnSlot maxThreads).toOption = some next) :
    Balanced registry next := by
  obtain ⟨rfl, -⟩ := reserveSpawnSlot_eq_ok hok
  refine ⟨rfl, rfl, fun leaked hcount => ?_⟩
  simp only [length_cons]
  omega

theorem reserveAgentPath_eq_ok {path : String}
    (hok : (registry.reserveAgentPath reservation path).toOption = some next) :
    registry.agentTree.lookup (.path path) = none ∧
    next = { registry with
      agentTree := registry.agentTree.insert (.path path) ⟨none, some path⟩
      outstanding := some path :: registry.outstanding.erase reservation } := by
  unfold AgentRegistry.reserveAgentPath at hok
  split at hok
  · cases hok
  · rename_i hvacant
    cases hok
    exact ⟨hvacant, rfl⟩

theorem reserveAgentPath_balanced {path : String} (hmem : reservation ∈ registry.outstanding)
    (hok : (registry.reserveAgentPath reservation path).toOption = some next) :
    Balanced registry next := by
  obtain ⟨hvacant, rfl⟩ := reserveAgentPath_eq_ok hok
  have hfree := threadAt_of_vacant hvacant
  have hlength := length_erase_add_one hmem
  have hlive : AgentMetadata.isLive (⟨none, some path⟩ : AgentMetadata T) = false := rfl
  refine ⟨rfl, ?_, fun leaked hcount => ?_⟩
  · rw [threadAt_insert, update_eq_self_iff.mpr hfree.symm]
  · simp only [liveCount_insert hfree, hlive, length_cons, Bool.toNat_false]
    omega

theorem Reserved.reserveAgentPath {path : String} (h : Reserved registry)
    (hok : (registry.reserveAgentPath none path).toOption = some next) : Reserved next := by
  obtain ⟨-, rfl⟩ := reserveAgentPath_eq_ok hok
  intro key hkey
  simp only [reservedAt_insert, update_apply] at hkey
  split at hkey
  · rename_i hpath
    exact ⟨path, hpath, mem_cons_self⟩
  · obtain ⟨other, hother, hmem⟩ := h key hkey
    exact ⟨other, hother, mem_cons_of_mem _ ((mem_erase_of_ne (by simp)).mpr hmem)⟩

/-- A path that is only reserved is no thread's and is not counted. -/
theorem releaseReservedAgentPath_eq (registry : AgentRegistry T) (path : String) :
    let tree := registry.releaseReservedAgentPath path
    threadAt tree = threadAt registry.agentTree ∧ liveCount tree = liveCount registry.agentTree ∧
      reservedAt tree = update (reservedAt registry.agentTree) (.path path) false := by
  unfold AgentRegistry.releaseReservedAgentPath
  split
  · rename_i hlookup
    refine ⟨?_, ?_, reservedAt_erase⟩
    · rw [threadAt_erase]
      exact update_eq_self_iff.mpr (by rw [threadAt, hlookup]; rfl)
    · have herase := liveCount_erase registry.agentTree (.path path)
      rw [hlookup] at herase
      exact herase.symm
  · rename_i hthread
    refine ⟨rfl, rfl, (update_eq_self_iff.mpr ?_).symm⟩
    cases hlookup : registry.agentTree.lookup (.path path) with
    | none => simp [reservedAt, hlookup]
    | some metadata =>
      obtain ⟨_ | id, path⟩ := metadata
      · exact absurd hlookup (hthread path)
      · simp [reservedAt, hlookup]

theorem dropReservation_balanced (hmem : reservation ∈ registry.outstanding) :
    Balanced registry (registry.dropReservation reservation) := by
  have hlength := length_erase_add_one hmem
  cases reservation with
  | none =>
    refine ⟨rfl, rfl, fun leaked hcount => ?_⟩
    simp only [AgentRegistry.dropReservation, Option.elim_none]
    omega
  | some dropped =>
    obtain ⟨hthreads, hlive, -⟩ := releaseReservedAgentPath_eq registry dropped
    refine ⟨rfl, hthreads, fun leaked hcount => ?_⟩
    simp only [AgentRegistry.dropReservation, Option.elim_some, hlive]
    omega

theorem Reserved.dropReservation (h : Reserved registry) :
    Reserved (registry.dropReservation reservation) := by
  cases reservation with
  | none =>
    refine h.of_kept fun key hkey => ⟨hkey, fun path _ hmem => ?_⟩
    exact (mem_erase_of_ne (by simp)).mpr hmem
  | some dropped =>
    refine h.of_kept fun key hkey => ?_
    obtain ⟨-, -, hreserved⟩ := releaseReservedAgentPath_eq registry dropped
    simp only [AgentRegistry.dropReservation, Option.elim_some, hreserved, update_apply] at hkey
    split at hkey
    · cases hkey
    · rename_i hother
      refine ⟨hkey, fun path hpath hmem => (mem_erase_of_ne ?_).mpr hmem⟩
      rintro ⟨⟩
      exact hother hpath

/-! ## Steps on agents -/

theorem Exact.commit (h : Exact registry) (hmem : reservation ∈ registry.outstanding)
    (hnew : Unregistered registry (.commit reservation id path)) :
    Exact (registry.commit reservation id path) := by
  obtain ⟨hid, hroot, hkey⟩ := hnew
  have hcount := h.count
  have hlength := length_erase_add_one hmem
  have hlive : AgentMetadata.isLive ⟨some id, path⟩ = true := by
    simp [AgentMetadata.isLive, AgentMetadata.isRoot, hroot]
  unfold AgentRegistry.commit AgentRegistry.registerSpawnedThread
  simp only [hid, hkey]
  refine ⟨⟨?_, ?_⟩, ?_⟩
  · rw [threadAt_insert]
    exact h.follows.add hkey
  · simp only [liveCount_insert hkey, hlive, Bool.toNat_true]
    omega
  · rw [threadAt_insert]
    exact h.indexed.add hid

/-- The tree after a registration: whatever it replaces, at most one agent is added. -/
theorem registerSpawnedThread_live (registry : AgentRegistry T) (id : T) (path : Option String) :
    liveCount (registry.registerSpawnedThread id path).agentTree ≤
      liveCount registry.agentTree + 1 := by
  unfold AgentRegistry.registerSpawnedThread
  extract_lets key tree paths
  have htree : liveCount tree ≤ liveCount registry.agentTree := by
    unfold tree
    split
    · split
      · exact liveCount_erase_le _ _
      · exact le_rfl
    · exact le_rfl
  have hlive := Bool.toNat_le (AgentMetadata.isLive ⟨some id, path⟩)
  have herase := liveCount_erase_le tree key
  rw [liveCount_insert_erase]
  omega

theorem registerSpawnedThread_follows
    (h : Follows registry.threadPaths (threadAt registry.agentTree)) (id : T)
    (path : Option String) :
    Follows (registry.registerSpawnedThread id path).threadPaths
      (threadAt (registry.registerSpawnedThread id path).agentTree) := by
  unfold AgentRegistry.registerSpawnedThread
  extract_lets key tree paths
  rw [threadAt_insert]
  refine Follows.replace fun other place hother hplace => ?_
  have hsame := h other place hplace
  unfold tree
  split
  · rename_i previous hprevious
    split
    · -- the entry that is erased is that of the thread itself
      have hown := h id previous hprevious
      rw [threadAt_erase, update_apply]
      grind
    · exact hsame
  · exact hsame

/-- A commit leaks the counts of the agents that it replaces. -/
theorem Accounted.commit {leaked : Nat} (h : Accounted leaked registry)
    (hmem : reservation ∈ registry.outstanding) :
    ∃ more, Accounted (leaked + more) (registry.commit reservation id path) := by
  have hcount := h.count
  have hlength := length_erase_add_one hmem
  have hlive := registerSpawnedThread_live registry id path
  have htotal : (registry.registerSpawnedThread id path).totalCount = registry.totalCount := rfl
  have hreleasing : (registry.registerSpawnedThread id path).releasing = registry.releasing := rfl
  refine ⟨liveCount registry.agentTree + 1 -
    liveCount (registry.registerSpawnedThread id path).agentTree,
    registerSpawnedThread_follows h.follows id path, ?_⟩
  simp only [AgentRegistry.commit]
  omega

theorem Reserved.commit (h : Reserved registry) (huses : reservation ≠ none → path = reservation) :
    Reserved (registry.commit reservation id path) := by
  refine h.of_kept fun key hkey => ?_
  simp only [AgentRegistry.commit, AgentRegistry.registerSpawnedThread, reservedAt_insert,
    update_apply] at hkey
  split at hkey
  · cases hkey
  rename_i hother
  constructor
  · split at hkey
    · split at hkey
      · simp only [reservedAt_erase, update_apply] at hkey
        split at hkey
        · cases hkey
        · exact hkey
      · exact hkey
    · exact hkey
  · rintro reserved rfl hmem
    refine (mem_erase_of_ne fun hsame => ?_).mpr hmem
    rw [huses (by simp [← hsame]), ← hsame] at hother
    exact hother rfl

/-- A thread becomes the root, or the root is indexed again. -/
theorem Accounted.registerRootThread {leaked : Nat} (h : Accounted leaked registry) :
    Accounted leaked (registry.registerRootThread id) := by
  unfold AgentRegistry.registerRootThread
  split
  · rename_i hvacant
    have hfree := threadAt_of_vacant hvacant
    have hlive : AgentMetadata.isLive (⟨some id, some rootPath⟩ : AgentMetadata T) = false := by
      simp [AgentMetadata.isLive, AgentMetadata.isRoot]
    constructor
    · rw [threadAt_insert]
      exact h.follows.add hfree
    · simp only [liveCount_insert hfree, hlive, h.count, Bool.toNat_false, Nat.add_zero]
  · rename_i metadata hlookup
    split
    · rename_i root hroot
      refine ⟨h.follows.set ?_, h.count⟩
      rw [threadAt, hlookup]
      exact hroot
    · exact h

theorem Exact.registerRootThread (h : Exact registry)
    (hnew : Unregistered registry (.registerRootThread id)) :
    Exact (registry.registerRootThread id) := by
  refine ⟨h.toAccounted.registerRootThread, ?_⟩
  unfold AgentRegistry.registerRootThread
  split
  · rename_i hvacant
    rw [threadAt_insert]
    exact h.indexed.add (hnew hvacant)
  · rename_i metadata hlookup
    split
    · rename_i root hroot
      have hagent : threadAt registry.agentTree (.path rootPath) = some root := by
        rw [threadAt, hlookup]
        exact hroot
      rw [update_eq_self_iff.mpr (h.indexed _ _ hagent).symm]
      exact h.indexed
    · exact h.indexed

theorem Reserved.registerRootThread (h : Reserved registry) :
    Reserved (registry.registerRootThread id) := by
  unfold AgentRegistry.registerRootThread
  split
  · refine h.of_kept fun key hkey => ?_
    simp only [reservedAt_insert, update_apply] at hkey
    split at hkey
    · cases hkey
    · exact ⟨hkey, fun _ _ hmem => hmem⟩
  · split
    · exact h
    · exact h

theorem releaseSpawnedThread_of_none (hkey : registry.threadPaths id = none) :
    registry.releaseSpawnedThread id = registry := by
  rw [AgentRegistry.releaseSpawnedThread, hkey]

/-- The agent that the index names is in the tree, so it is counted unless it is the root. -/
theorem Accounted.releaseSpawnedThread {leaked : Nat} (h : Accounted leaked registry) :
    Accounted leaked (registry.releaseSpawnedThread id) := by
  cases hkey : registry.threadPaths id with
  | none => rwa [releaseSpawnedThread_of_none hkey]
  | some key =>
    have hcount := h.count
    have herase := liveCount_erase registry.agentTree key
    obtain ⟨metadata, hlookup, hagent⟩ := Option.bind_eq_some_iff.mp (h.follows id key hkey)
    simp only [hlookup, Option.any_some, AgentMetadata.isLive, hagent, Option.isSome_some,
      Bool.true_and] at herase
    simp only [AgentRegistry.releaseSpawnedThread, hkey, hlookup, Option.any_some]
    constructor
    · rw [threadAt_erase]
      exact h.follows.remove hkey
    · cases hroot : metadata.isRoot <;> simp [hroot] at herase ⊢ <;> omega

theorem Exact.releaseSpawnedThread (h : Exact registry) :
    Exact (registry.releaseSpawnedThread id) := by
  refine ⟨h.toAccounted.releaseSpawnedThread, ?_⟩
  cases hkey : registry.threadPaths id with
  | none =>
    rw [releaseSpawnedThread_of_none hkey]
    exact h.indexed
  | some key =>
    simp only [AgentRegistry.releaseSpawnedThread, hkey, threadAt_erase]
    exact h.indexed.remove (h.follows id key hkey)

theorem Reserved.releaseSpawnedThread (h : Reserved registry) :
    Reserved (registry.releaseSpawnedThread id) := by
  cases hkey : registry.threadPaths id with
  | none => rwa [releaseSpawnedThread_of_none hkey]
  | some key =>
    simp only [AgentRegistry.releaseSpawnedThread, hkey]
    refine h.of_kept fun other hother => ?_
    simp only [reservedAt_erase, update_apply] at hother
    split at hother
    · cases hother
    · exact ⟨hother, fun _ _ hmem => hmem⟩

theorem releaseSpawnedThread_totalCount :
    (registry.releaseSpawnedThread id).totalCount = registry.totalCount := by
  unfold AgentRegistry.releaseSpawnedThread
  split <;> rfl

theorem registerRootThread_totalCount :
    (registry.registerRootThread id).totalCount = registry.totalCount := by
  unfold AgentRegistry.registerRootThread
  split
  · rfl
  · split <;> rfl

/-! ## Steps -/

section Steps

variable {event : RegistryEvent T} (hstep : registryStep registry event = some next)
include hstep

/-- What a step does: it is balanced, or one on agents. -/
theorem step_cases : Balanced registry next ∨
    (∃ reservation id path, event = .commit reservation id path ∧
      reservation ∈ registry.outstanding ∧ next = registry.commit reservation id path) ∨
    (∃ id, event = .registerRootThread id ∧ next = registry.registerRootThread id) ∨
    ∃ id, event = .releaseSpawnedThread id ∧ next = registry.releaseSpawnedThread id := by
  cases event with
  | reserveSpawnSlot maxThreads => exact .inl (reserveSpawnSlot_balanced hstep)
  | reserveAgentPath reservation path =>
    obtain ⟨hmem, hstep⟩ := Option.ite_none_right_eq_some.mp hstep
    exact .inl (reserveAgentPath_balanced hmem hstep)
  | commit reservation id path =>
    obtain ⟨hmem, hstep⟩ := Option.ite_none_right_eq_some.mp hstep
    exact .inr (.inl ⟨reservation, id, path, rfl, hmem, (Option.some.inj hstep).symm⟩)
  | drop reservation =>
    obtain ⟨hmem, hstep⟩ := Option.ite_none_right_eq_some.mp hstep
    cases hstep
    exact .inl (dropReservation_balanced hmem)
  | registerRootThread id => exact .inr (.inr (.inl ⟨id, rfl, (Option.some.inj hstep).symm⟩))
  | releaseSpawnedThread id => exact .inr (.inr (.inr ⟨id, rfl, (Option.some.inj hstep).symm⟩))
  | fetchSub =>
    obtain ⟨hpending, hstep⟩ := Option.ite_none_left_eq_some.mp hstep
    cases hstep
    refine .inl ⟨rfl, rfl, fun leaked hcount => ?_⟩
    dsimp only
    omega

theorem step_accounted (h : ∃ leaked, Accounted leaked registry) :
    ∃ leaked, Accounted leaked next := by
  obtain ⟨leaked, h⟩ := h
  obtain hbalanced | ⟨_, _, _, -, hmem, rfl⟩ | ⟨_, -, rfl⟩ | ⟨_, -, rfl⟩ := step_cases hstep
  · exact ⟨leaked, h.of_balanced hbalanced⟩
  · obtain ⟨more, h⟩ := h.commit hmem
    exact ⟨leaked + more, h⟩
  · exact ⟨leaked, h.registerRootThread⟩
  · exact ⟨leaked, h.releaseSpawnedThread⟩

theorem step_exact (h : Exact registry) (hnew : Unregistered registry event) : Exact next := by
  obtain hbalanced | ⟨_, _, _, rfl, hmem, rfl⟩ | ⟨_, rfl, rfl⟩ | ⟨_, -, rfl⟩ := step_cases hstep
  · exact h.of_balanced hbalanced
  · exact h.commit hmem hnew
  · exact h.registerRootThread hnew
  · exact h.releaseSpawnedThread

theorem step_reserved (h : Reserved registry) (huses : UsesReserved registry event) :
    Reserved next := by
  cases event with
  | reserveSpawnSlot maxThreads =>
    obtain ⟨rfl, -⟩ := reserveSpawnSlot_eq_ok hstep
    exact h.of_kept fun key hkey => ⟨hkey, fun path _ hmem => mem_cons_of_mem _ hmem⟩
  | reserveAgentPath reservation path =>
    obtain ⟨-, hstep⟩ := Option.ite_none_right_eq_some.mp hstep
    cases huses
    exact h.reserveAgentPath hstep
  | commit reservation id path =>
    obtain ⟨-, hstep⟩ := Option.ite_none_right_eq_some.mp hstep
    cases hstep
    exact h.commit huses
  | drop reservation =>
    obtain ⟨-, hstep⟩ := Option.ite_none_right_eq_some.mp hstep
    cases hstep
    exact h.dropReservation
  | registerRootThread id =>
    cases hstep
    exact h.registerRootThread
  | releaseSpawnedThread id =>
    cases hstep
    exact h.releaseSpawnedThread
  | fetchSub =>
    obtain ⟨-, hstep⟩ := Option.ite_none_left_eq_some.mp hstep
    cases hstep
    exact h

/-- Only a reservation counts up, and it compares with the limit. -/
theorem step_limit {limit : Nat} (h : registry.totalCount ≤ limit)
    (huses : UsesLimit limit registry event) : next.totalCount ≤ limit := by
  cases event with
  | reserveSpawnSlot maxThreads =>
    obtain ⟨rfl, hless⟩ := reserveSpawnSlot_eq_ok hstep
    exact hless limit huses
  | reserveAgentPath reservation path =>
    obtain ⟨-, hstep⟩ := Option.ite_none_right_eq_some.mp hstep
    obtain ⟨-, rfl⟩ := reserveAgentPath_eq_ok hstep
    exact h
  | commit reservation id path =>
    obtain ⟨-, hstep⟩ := Option.ite_none_right_eq_some.mp hstep
    cases hstep
    exact h
  | drop reservation =>
    obtain ⟨-, hstep⟩ := Option.ite_none_right_eq_some.mp hstep
    cases hstep
    exact h
  | registerRootThread id =>
    cases hstep
    rwa [registerRootThread_totalCount]
  | releaseSpawnedThread id =>
    cases hstep
    rwa [releaseSpawnedThread_totalCount]
  | fetchSub =>
    obtain ⟨-, hstep⟩ := Option.ite_none_left_eq_some.mp hstep
    cases hstep
    exact Nat.le_trans (Nat.sub_le _ _) h

end Steps

/-! ## Runs -/

/-- In every run, the counter is at least the reservations and agents there are, so a common limit
is never exceeded, and an entry without a thread has its reservation if each reservation is
committed with its path.  **Accounting is exact** if no registration is replaced: then a limit is
reached only if there are that many, and the tree and its index are inverse to each other. -/
theorem accounting_exact {events : List (RegistryEvent T)} {final : AgentRegistry T}
    (hrun : run registryStep {} events = some final) :
    final.outstanding.length + final.liveAgents.length ≤ final.totalCount ∧
    (∀ limit, Every registryStep (UsesLimit limit) {} events →
      final.outstanding.length + final.liveAgents.length ≤ limit) ∧
    (Every registryStep UsesReserved {} events →
      ∀ key metadata, final.agentTree.lookup key = some metadata → metadata.agentId = none →
        ∃ path, key = .path path ∧ some path ∈ final.outstanding) ∧
    (Every registryStep Unregistered {} events →
      (final.releasing = 0 →
        final.totalCount = final.outstanding.length + final.liveAgents.length ∧
        ∀ limit, final.reserveSpawnSlot (some limit) = .error limit →
          limit ≤ final.outstanding.length + final.liveAgents.length) ∧
      ∀ id key, final.threadPaths id = some key ↔
        ∃ metadata, final.agentTree.lookup key = some metadata ∧ metadata.agentId = some id) := by
  have hempty : Exact ({} : AgentRegistry T) := by
    refine ⟨⟨fun id key h => ?_, rfl⟩, fun key id h => ?_⟩
    · cases h
    · simp [threadAt] at h
  have hcovered : final.outstanding.length + final.liveAgents.length ≤ final.totalCount := by
    obtain ⟨leaked, hfinal⟩ := run_invariant
      (fun _ _ _ h hstep => step_accounted hstep h) hrun ⟨0, hempty.toAccounted⟩
    have hcount : final.totalCount = final.outstanding.length + final.liveAgents.length +
      final.releasing + leaked := hfinal.count
    omega
  refine ⟨hcovered, fun limit huses => ?_, fun huses key metadata hlookup hnone => ?_,
    fun hnew => ?_⟩
  · have hlimit := run_invariant_of_every
      (fun registry _ _ (h : registry.totalCount ≤ limit) huses hstep => step_limit hstep h huses)
      hrun huses (Nat.zero_le _)
    exact Nat.le_trans hcovered hlimit
  · have hreserved := run_invariant_of_every
      (fun _ _ _ h huses hstep => step_reserved hstep h huses) hrun huses
      (fun key h => by simp [reservedAt] at h)
    exact hreserved key (by simp [reservedAt, hlookup, hnone])
  · have hfinal := run_invariant_of_every
      (fun _ _ _ h hnew hstep => step_exact hstep h hnew) hrun hnew hempty
    have hcount : final.totalCount =
      final.outstanding.length + final.liveAgents.length + final.releasing := hfinal.count
    refine ⟨fun hquiet => ⟨by omega, fun limit hfull => ?_⟩, fun id key => ?_⟩
    · by_cases hless : limit ≤ final.totalCount
      · omega
      · simp [AgentRegistry.reserveSpawnSlot, hless] at hfull
    · exact (Iff.intro (hfinal.follows id key) (hfinal.indexed key id)).trans
        Option.bind_eq_some_iff

/-- A root, an agent with a reserved path, a reservation that is dropped, an agent without a path
and the release of the first agent, with room for two agents at a time. -/
def sampleEvents : List (RegistryEvent Nat) :=
  [.registerRootThread 0, .reserveSpawnSlot (some 2), .reserveAgentPath none "/root/a",
    .reserveSpawnSlot (some 2), .commit (some "/root/a") 1 (some "/root/a"), .drop none, .fetchSub,
    .reserveSpawnSlot (some 2), .commit none 2 none, .releaseSpawnedThread 1, .fetchSub,
    .reserveSpawnSlot (some 2), .reserveAgentPath none "/root/b"]

/-- One agent and one reservation are left: the limit is reached, the index has the root and the
second agent, and the path without a thread is that of the reservation. -/
theorem accounting_exact_sample :
    ∃ final, run registryStep {} sampleEvents = some final ∧
      final.outstanding = [some "/root/b"] ∧ final.liveAgents = [⟨some 2, none⟩] ∧
      final.threadPaths 0 = some (.path "/root") ∧ final.threadPaths 1 = none ∧
      (final.reserveSpawnSlot (some 2)).toOption.isNone ∧
      final.totalCount = final.outstanding.length + final.liveAgents.length ∧
      final.outstanding.length + final.liveAgents.length ≤ 2 ∧
      final.threadPaths 2 = some (.thread 2) ∧
      ∃ path, AgentKey.path (T := Nat) "/root/b" = .path path ∧ some path ∈ final.outstanding := by
  have hnew : Every registryStep Unregistered {} sampleEvents := by decide
  have huses : Every registryStep UsesReserved {} sampleEvents := by decide
  have hlimit : Every registryStep (UsesLimit 2) {} sampleEvents := by decide
  obtain ⟨-, hbound, hreserved, hexact⟩ := @accounting_exact Nat _ sampleEvents _ rfl
  obtain ⟨hcount, hindex⟩ := hexact hnew
  exact ⟨_, rfl, rfl, rfl, rfl, rfl, rfl, (hcount rfl).1, hbound 2 hlimit,
    (hindex 2 _).mpr ⟨⟨some 2, none⟩, rfl, rfl⟩, hreserved huses _ ⟨none, some "/root/b"⟩ rfl rfl⟩

/-- A thread that is resumed while it is registered is counted twice, and no release gives the
second count back. -/
theorem accounting_leaks :
    let events : List (RegistryEvent Nat) := [.reserveSpawnSlot (some 2), .commit none 1 none,
      .reserveSpawnSlot (some 2), .commit none 1 none, .releaseSpawnedThread 1, .fetchSub]
    ∃ final, run registryStep {} events = some final ∧ final.releasing = 0 ∧
      final.totalCount = 1 ∧ final.outstanding = [] ∧ final.liveAgents = [] := by
  exact ⟨_, rfl, rfl, rfl, rfl, rfl⟩

end RenCrow.Agents
