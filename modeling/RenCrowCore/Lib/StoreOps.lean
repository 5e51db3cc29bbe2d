import Mathlib.Data.List.Induction
import RenCrowCore.Lib.Run

/-!
# Operations on a store

Operations on a store are predicted each against the store as it was, and then run one
after another.

* `run`, `runAll`: the operations one after another;
* `Effect`, `CarriedOut`: what was predicted, and that it happened and nothing else;
* `putAll`: the operations without their removals;
* `carriedOut_iff`: the predictions come true exactly if nothing that is written is removed
  and the writes alone leave what was predicted;
* `putAll_iff_fits`: they do exactly if every operation fits to what it finds.
-/

namespace StoreOps

open Run List

/-- A store: some keys have a value. -/
abbrev Store (κ τ : Type) : Type := κ → Option τ

/-- The operations on a store. -/
inductive Op (κ τ : Type) : Type where
  | write (key : κ) (value : τ)
  | remove (key : κ)
  | rewrite (key : κ) (change : τ → Option τ)
  | move (source dest : κ) (change : τ → Option τ)

variable {κ τ : Type}

namespace Op

/-- The key that the operation is about. -/
def source : Op κ τ → κ
  | write key _ | remove key | rewrite key _ | move key _ _ => key

/-- The key that is written. -/
def target : Op κ τ → Option κ
  | write key _ | rewrite key _ | move _ key _ => some key
  | remove _ => none

/-- The key that is gone afterwards. -/
def removed : Op κ τ → Option κ
  | remove key | move key _ _ => some key
  | write _ _ | rewrite _ _ => none

variable [DecidableEq κ]

/-- One operation; it fails if its key is not there or cannot be changed. -/
def run (store : Store κ τ) : Op κ τ → Option (Store κ τ)
  | write key value => some (Function.update store key (some value))
  | remove key => (store key).map fun _ => Function.update store key none
  | rewrite key change =>
    ((store key).bind change).map fun value => Function.update store key (some value)
  | move source dest change =>
    ((store source).bind change).map fun value =>
      Function.update (Function.update store dest (some value)) source none

/-- One operation without its removal. -/
def put (store : Store κ τ) : Op κ τ → Option (Store κ τ)
  | write key value => some (Function.update store key (some value))
  | remove _ => some store
  | rewrite key change =>
    ((store key).bind change).map fun value => Function.update store key (some value)
  | move source dest change =>
    ((store source).bind change).map fun value => Function.update store dest (some value)

omit [DecidableEq κ] in
/-- The value that is written, from the store as it is. -/
def value (store : Store κ τ) : Op κ τ → Option τ
  | write _ value => some value
  | remove _ => none
  | rewrite key change | move key _ change => (store key).bind change

end Op

/-- Nothing that is written is removed. -/
def Separate (ops : List (Op κ τ)) : Prop :=
  ∀ op ∈ ops, ∀ other ∈ ops, ∀ target ∈ op.target, other.removed ≠ some target

theorem Separate.of_subset {ops part : List (Op κ τ)} (h : Separate ops) (hsub : part ⊆ ops) :
    Separate part := fun op hop other hother => h op (hsub hop) other (hsub hother)

section Run

variable [DecidableEq κ]

/-- Runs operations, each of which may fail. -/
def runAll (store : Store κ τ) (ops : List (Op κ τ)) : Option (Store κ τ) := run Op.run store ops

/-- Runs operations without their removals. -/
def putAll (store : Store κ τ) (ops : List (Op κ τ)) : Option (Store κ τ) := run Op.put store ops

/-- The store without some keys. -/
def erase (store : Store κ τ) (gone : List κ) : Store κ τ := fun key =>
  if key ∈ gone then none else store key

open Function (update update_self update_of_ne)

variable {store after : Store κ τ} {op : Op κ τ} {ops : List (Op κ τ)} {gone : List κ} {key : κ}

theorem erase_of_notMem (h : key ∉ gone) : erase store gone key = store key := if_neg h

theorem erase_update (h : key ∉ gone) (value : Option τ) :
    update (erase store gone) key value = erase (update store key value) gone := by
  funext other
  by_cases hother : other = key
  · subst hother
    rw [update_self, erase_of_notMem h, update_self]
  · rw [update_of_ne hother]
    unfold erase
    rw [update_of_ne hother]

theorem update_erase_none (store : Store κ τ) (gone : List κ) (key : κ) :
    update (erase store gone) key none = erase store (key :: gone) := by
  funext other
  by_cases hother : other = key
  · subst hother
    simp [erase]
  · rw [update_of_ne hother]
    simp [erase, hother]

/-- The value is written to the target. -/
theorem put_eq (store : Store κ τ) (op : Op κ τ) : op.put store = match op.target with
    | some target => (op.value store).map fun value => update store target (some value)
    | none => some store := by
  cases op <;> rfl

theorem put_eq_some_iff {target : κ} (htgt : op.target = some target) : op.put store = some after ↔
    ∃ value, op.value store = some value ∧ update store target (some value) = after := by
  rw [put_eq, htgt]
  exact Option.map_eq_some_iff

/-- Only the target of an operation is written. -/
theorem put_of_ne_target (h : op.put store = some after) (hkey : op.target ≠ some key) :
    after key = store key := by
  cases htgt : op.target with
  | none =>
    rw [put_eq, htgt] at h
    cases h
    rfl
  | some target =>
    obtain ⟨value, -, rfl⟩ := (put_eq_some_iff htgt).mp h
    exact update_of_ne (fun heq : key = target => hkey (heq ▸ htgt)) _ _

theorem putAll_of_notMem (h : putAll store ops = some after)
    (hkey : ∀ op ∈ ops, op.target ≠ some key) : after key = store key := by
  induction ops generalizing store with
  | nil =>
    cases h
    rfl
  | cons op ops ih =>
    obtain ⟨next, hnext, hrest⟩ := run_cons_eq_some.mp h
    obtain ⟨hop, hops⟩ := forall_mem_cons.mp hkey
    rw [ih hrest hops, put_of_ne_target hnext hop]

omit [DecidableEq κ] in
theorem value_congr {other : Store κ τ} (h : store op.source = other op.source) :
    op.value store = op.value other := by
  cases op with
  | write key value => rfl
  | remove key => rfl
  | rewrite key change | move source dest change => exact congrArg (Option.bind · change) h

omit [DecidableEq κ] in
/-- An operation writes its own key or removes it. -/
theorem target_or_removed (op : Op κ τ) :
    op.target = some op.source ∨ op.removed = some op.source := by
  cases op with
  | write key value | rewrite key change => exact .inl rfl
  | remove key | move source dest change => exact .inr rfl

theorem erase_congr {other : List κ} (h : ∀ key, key ∈ gone ↔ key ∈ other) :
    erase store gone = erase store other := by
  funext key
  simp only [erase, h]

/-- One operation on a store without some other keys. -/
theorem run_erase (hsrc : op.source ∉ gone) (htgt : ∀ target ∈ op.target, target ∉ gone)
    (hpres : ∀ key, op = .remove key → (store key).isSome) :
    op.run (erase store gone) =
      (op.put store).map fun after => erase after (op.removed.toList ++ gone) := by
  cases op with
  | write key value =>
    have hkey : key ∉ gone := hsrc
    rw [Op.run, erase_update hkey]
    rfl
  | remove key =>
    have hkey : key ∉ gone := hsrc
    obtain ⟨value, hvalue⟩ := Option.isSome_iff_exists.mp (hpres key rfl)
    rw [Op.run, erase_of_notMem hkey, hvalue, Option.map_some, update_erase_none]
    rfl
  | rewrite key change =>
    have hkey : key ∉ gone := hsrc
    rw [Op.run, Op.put, erase_of_notMem hkey, Option.map_map]
    exact congrArg (fun f => Option.map f _) (funext fun value => erase_update hkey _)
  | move source dest change =>
    have hkey : source ∉ gone := hsrc
    have hdest : dest ∉ gone := htgt dest rfl
    rw [Op.run, Op.put, erase_of_notMem hkey, Option.map_map]
    refine congrArg (fun f => Option.map f _) (funext fun value => ?_)
    rw [erase_update hdest, update_erase_none]
    rfl

/-- **Running separate operations** writes what they write and then removes what they
remove. -/
theorem runAll_erase (hnodup : (ops.map Op.source).Nodup) (hsrc : ∀ op ∈ ops, op.source ∉ gone)
    (htgt : ∀ op ∈ ops, ∀ target ∈ op.target, target ∉ gone) (hsep : Separate ops)
    (hpres : ∀ key, .remove key ∈ ops → (store key).isSome) :
    runAll (erase store gone) ops =
      (putAll store ops).map fun after => erase after (ops.filterMap Op.removed ++ gone) := by
  induction ops generalizing store gone with
  | nil => rfl
  | cons op ops ih =>
    obtain ⟨hfresh, hnodup⟩ := nodup_cons.mp hnodup
    obtain ⟨hopSource, hopsSource⟩ := forall_mem_cons.mp hsrc
    obtain ⟨hopTarget, hopsTarget⟩ := forall_mem_cons.mp htgt
    have hrun := run_erase hopSource hopTarget fun key hkey => hpres key (hkey ▸ mem_cons_self)
    -- what this operation removes is neither the key nor the target of a later one
    have hrem : ∀ key ∈ op.removed.toList, key = op.source := by
      intro key hkey
      cases op <;> simp_all [Op.removed, Op.source]
    have hlater : ∀ other ∈ ops, other.source ∉ op.removed.toList ++ gone := by
      intro other hother hmem
      rcases mem_append.mp hmem with hmem | hmem
      · exact hfresh (hrem _ hmem ▸ mem_map_of_mem hother)
      · exact hopsSource other hother hmem
    have hlaterTarget : ∀ other ∈ ops, ∀ target ∈ other.target,
        target ∉ op.removed.toList ++ gone := by
      intro other hother target htgt hmem
      rcases mem_append.mp hmem with hmem | hmem
      · exact hsep other (mem_cons_of_mem _ hother) op mem_cons_self target htgt
          (Option.mem_toList.mp hmem)
      · exact hopsTarget other hother target htgt hmem
    have hrest : Separate ops := hsep.of_subset (subset_cons_self _ _)
    change (op.run (erase store gone)).bind (fun next => runAll next ops) =
      ((op.put store).bind fun next => putAll next ops).map fun after =>
        erase after ((op :: ops).filterMap Op.removed ++ gone)
    rw [hrun]
    cases hput : op.put store with
    | none => rfl
    | some next =>
      have hstill : ∀ key, .remove key ∈ ops → (next key).isSome := fun key hkey => by
        rw [put_of_ne_target hput fun htgt => hsep op mem_cons_self _
          (mem_cons_of_mem _ hkey) key htgt rfl]
        exact hpres key (mem_cons_of_mem _ hkey)
      refine (ih hnodup hlater hlaterTarget hrest hstill).trans ?_
      refine congrArg (fun f => Option.map f _) (funext fun after => erase_congr fun key => ?_)
      cases hop : op.removed with
      | none => simp [hop]
      | some gone => simp [hop, or_left_comm]

end Run

/-! ## Predictions -/

/-- What an operation was predicted to do. -/
structure Effect (κ τ : Type) : Type where
  written : Option (κ × τ)
  removed : Option κ

/-- The effect writes and removes the keys that the operation writes and removes. -/
structure Effect.Of (op : Op κ τ) (effect : Effect κ τ) : Prop where
  target : op.target = effect.written.map Prod.fst
  removed : op.removed = effect.removed

/-- The effects happened, and nothing else. -/
structure CarriedOut (store : Store κ τ) (effects : List (Effect κ τ)) (after : Store κ τ) :
    Prop where
  written : ∀ effect ∈ effects, ∀ entry ∈ effect.written, after entry.1 = some entry.2
  removed : ∀ effect ∈ effects, ∀ key ∈ effect.removed, after key = none
  others : ∀ key, (∀ effect ∈ effects, effect.written.map Prod.fst ≠ some key ∧
    effect.removed ≠ some key) → after key = store key

section Predictions

variable {store now : Store κ τ} {ops before later : List (Op κ τ)} {effects : List (Effect κ τ)}

theorem exists_of_mem_forall₂ {α β : Type} {R : α → β → Prop} {as : List α} {bs : List β} {a : α}
    (h : List.Forall₂ R as bs) (ha : a ∈ as) : ∃ b ∈ bs, R a b := by
  induction h with
  | nil => cases ha
  | cons hof _ ih =>
    rcases mem_cons.mp ha with rfl | ha
    · exact ⟨_, mem_cons_self, hof⟩
    · obtain ⟨b, hb, hof⟩ := ih ha
      exact ⟨b, mem_cons_of_mem _ hb, hof⟩

theorem exists_op (h : List.Forall₂ Effect.Of ops effects) {effect : Effect κ τ}
    (heff : effect ∈ effects) : ∃ op ∈ ops, Effect.Of op effect :=
  exists_of_mem_forall₂ h.flip heff

/-- Separate operations, by what was predicted for them. -/
theorem separate_iff (hshape : List.Forall₂ Effect.Of ops effects) :
    Separate ops ↔ ∀ effect ∈ effects, ∀ other ∈ effects, ∀ entry ∈ effect.written,
      other.removed ≠ some entry.1 := by
  constructor
  · intro h effect heff other hother entry hentry hrem
    obtain ⟨op, hop, hof⟩ := exists_op hshape heff
    obtain ⟨otherOp, hotherOp, hotherOf⟩ := exists_op hshape hother
    exact h op hop otherOp hotherOp entry.1 (by rw [hof.target, hentry]; rfl)
      (hotherOf.removed.trans hrem)
  · intro h op hop other hother target htgt hrem
    obtain ⟨effect, heff, hof⟩ := exists_of_mem_forall₂ hshape hop
    obtain ⟨otherEffect, hotherEffect, hotherOf⟩ := exists_of_mem_forall₂ hshape hother
    obtain ⟨entry, hentry, rfl⟩ := Option.map_eq_some_iff.mp (hof.target ▸ htgt)
    exact h effect heff otherEffect hotherEffect entry hentry (hotherOf.removed ▸ hrem)

/-- What is carried out writes nothing that it removes. -/
theorem CarriedOut.separate {after : Store κ τ} (hshape : List.Forall₂ Effect.Of ops effects)
    (h : CarriedOut store effects after) : Separate ops := by
  refine (separate_iff hshape).mpr fun effect heff other hother entry hentry hrem => ?_
  have hwritten := h.written effect heff entry hentry
  rw [h.removed other hother entry.1 hrem] at hwritten
  cases hwritten

variable [DecidableEq κ]

/-- **When predictions come true.**  Operations with distinct keys do what was predicted for
them exactly if nothing that is written is removed and the writes alone leave the values
that were predicted. -/
theorem carriedOut_iff (hshape : List.Forall₂ Effect.Of ops effects)
    (hnodup : (ops.map Op.source).Nodup) (hpres : ∀ key, .remove key ∈ ops → (store key).isSome) :
    (∃ after, runAll store ops = some after ∧ CarriedOut store effects after) ↔
      Separate ops ∧ ∃ after, putAll store ops = some after ∧
        ∀ effect ∈ effects, ∀ entry ∈ effect.written, after entry.1 = some entry.2 := by
  have hrun : Separate ops → runAll store ops =
      (putAll store ops).map fun after => erase after (ops.filterMap Op.removed) := fun hsep => by
    have herase : runAll (erase store []) ops = _ :=
      runAll_erase hnodup (by simp) (by simp) hsep hpres
    have hnil : erase store [] = store := funext fun key => erase_of_notMem (by simp)
    rwa [hnil, append_nil] at herase
  have hmem : ∀ key, key ∈ ops.filterMap Op.removed ↔ ∃ op ∈ ops, op.removed = some key :=
    fun key =>
    mem_filterMap
  constructor
  · rintro ⟨after, hafter, hcarried⟩
    have hsep := hcarried.separate hshape
    rw [hrun hsep] at hafter
    obtain ⟨put, hput, rfl⟩ := Option.map_eq_some_iff.mp hafter
    refine ⟨hsep, put, hput, fun effect heff entry hentry => ?_⟩
    have hwritten := hcarried.written effect heff entry hentry
    unfold erase at hwritten
    split at hwritten
    · cases hwritten
    · exact hwritten
  · rintro ⟨hsep, put, hput, hvals⟩
    refine ⟨erase put (ops.filterMap Op.removed), by rw [hrun hsep, hput]; rfl, ?_, ?_, ?_⟩
    · intro effect heff entry hentry
      obtain ⟨op, hop, hof⟩ := exists_op hshape heff
      have hkept : entry.1 ∉ ops.filterMap Op.removed := fun hgone => by
        obtain ⟨other, hother, hrem⟩ := (hmem entry.1).mp hgone
        exact hsep op hop other hother entry.1 (by rw [hof.target, hentry]; rfl) hrem
      rw [erase_of_notMem hkept, hvals effect heff entry hentry]
    · intro effect heff key hkey
      obtain ⟨op, hop, hof⟩ := exists_op hshape heff
      exact if_pos ((hmem key).mpr ⟨op, hop, hof.removed.trans hkey⟩)
    · intro key hothers
      have hnone : ∀ op ∈ ops, op.target ≠ some key ∧ op.removed ≠ some key := fun op hop => by
        obtain ⟨effect, heff, hof⟩ := exists_of_mem_forall₂ hshape hop
        rw [hof.target, hof.removed]
        exact hothers effect heff
      have hkept : key ∉ ops.filterMap Op.removed := fun hgone => by
        obtain ⟨op, hop, hrem⟩ := (hmem key).mp hgone
        exact (hnone op hop).2 hrem
      rw [erase_of_notMem hkept, putAll_of_notMem hput fun op hop => (hnone op hop).1]

/-! ## Predictions, operation by operation -/

/-- What is found at a key: what the last earlier operation that writes the key makes of the
store, or what the store has there. -/
def found (store : Store κ τ) (before : List (Op κ τ)) (key : κ) : Option τ :=
  match before.reverse.find? fun op => op.target = some key with
  | some op => op.value store
  | none => store key

/-- Every operation can be run on what it finds, and the last one that writes a key writes
what was predicted for the key. -/
def Fits (store : Store κ τ) (ops : List (Op κ τ)) (effects : List (Effect κ τ)) : Prop :=
  ∀ before op later, ops = before ++ op :: later → ∀ target ∈ op.target,
    ∃ value, op.value (found store before) = some value ∧
      ((∀ other ∈ later, other.target ≠ some target) →
        ∀ effect ∈ effects, ∀ entry ∈ effect.written, entry.1 = target → entry.2 = value)

theorem found_concat (before : List (Op κ τ)) (op : Op κ τ) (key : κ) :
    found store (before ++ [op]) key =
      if op.target = some key then op.value store else found store before key := by
  unfold found
  by_cases htgt : op.target = some key
  · simp [htgt]
  · simp [htgt]

/-- What is found before an operation is there when it is run. -/
theorem putAll_found {key : κ} (hsep : Separate before) (h : putAll store before = some now)
    (hkey : key ∉ before.map Op.source) : now key = found store before key := by
  induction before using List.reverseRecOn generalizing now with
  | nil =>
    cases h
    rfl
  | append_singleton before op ih =>
    obtain ⟨middle, hmid, hlast⟩ := run_append_eq_some.mp h
    obtain ⟨next, hput, ⟨⟩⟩ := run_cons_eq_some.mp hlast
    rw [map_append, mem_append, not_or] at hkey
    have hbefore : Separate before := hsep.of_subset (subset_append_left _ _)
    rw [found_concat]
    split
    · rename_i htgt
      -- an operation that writes another key than its own removes its own, so that no
      -- operation has written it
      have hrem : op.removed = some op.source := by
        rcases target_or_removed op with hown | hrem
        · exact absurd (Option.some.inj (hown.symm.trans htgt)).symm (by simpa using hkey.2)
        · exact hrem
      have hsrc : middle op.source = store op.source :=
        putAll_of_notMem hmid fun other hother hwritten =>
          hsep other (mem_append_left _ hother) op (mem_append_right _
            mem_cons_self) op.source hwritten hrem
      obtain ⟨value, hvalue, rfl⟩ := (put_eq_some_iff htgt).mp hput
      rw [Function.update_self, ← hvalue, value_congr hsrc]
    · rename_i htgt
      rw [put_of_ne_target hput htgt, ih hbefore hmid hkey.1]

/-- The value that an operation writes where it stands. -/
theorem value_found {op : Op κ τ} (hnodup : ((before ++ op :: later).map Op.source).Nodup)
    (hsep : Separate (before ++ op :: later)) (h : putAll store before = some now) :
    op.value now = op.value (found store before) := by
  refine value_congr (putAll_found (hsep.of_subset (subset_append_left _ _)) h ?_)
  rw [map_append, map_cons] at hnodup
  exact fun hmem => (nodup_append.mp hnodup).2.2 _ hmem _ mem_cons_self rfl

/-- The last operation that writes a key. -/
theorem exists_last {op : Op κ τ} {target : κ} (hop : op ∈ ops) (htgt : op.target = some target) :
    ∃ before last later, ops = before ++ last :: later ∧ last.target = some target ∧
      ∀ other ∈ later, other.target ≠ some target := by
  cases hlast : ops.reverse.find? fun op => op.target = some target with
  | none =>
    have hnone := find?_eq_none.mp hlast op (mem_reverse.mpr hop)
    exact absurd (decide_eq_true htgt) hnone
  | some last =>
    obtain ⟨hwrites, later, before, hops, hlater⟩ := find?_eq_some_iff_append.mp hlast
    refine ⟨before.reverse, last, later.reverse, ?_, of_decide_eq_true hwrites,
      fun other hother => ?_⟩
    · rw [← reverse_reverse ops, hops]
      simp
    · simpa using hlater other (mem_reverse.mp hother)

/-- The operations can be run as far as they can be run on what they find. -/
theorem exists_putAll_of_fits (hops : ops = before ++ later) (hnodup : (ops.map Op.source).Nodup)
    (hsep : Separate ops) (h : Fits store ops effects) : ∃ now, putAll store before = some now := by
  induction before using List.reverseRecOn generalizing later with
  | nil => exact ⟨store, rfl⟩
  | append_singleton before op ih =>
    rw [append_assoc, singleton_append] at hops
    obtain ⟨now, hnow⟩ := ih hops
    have hput : ∃ next, op.put now = some next := by
      cases htgt : op.target with
      | none => exact ⟨now, by rw [put_eq, htgt]⟩
      | some target =>
        obtain ⟨value, hvalue, -⟩ := h before op later hops target htgt
        rw [← value_found (hops ▸ hnodup) (hops ▸ hsep) hnow] at hvalue
        exact ⟨_, (put_eq_some_iff htgt).mpr ⟨value, hvalue, rfl⟩⟩
    obtain ⟨next, hput⟩ := hput
    exact ⟨next, run_append_eq_some.mpr ⟨now, hnow, run_cons_eq_some.mpr ⟨next, hput, rfl⟩⟩⟩

/-- **The predictions come true** exactly if every operation fits to what it finds. -/
theorem putAll_iff_fits (hshape : List.Forall₂ Effect.Of ops effects)
    (hnodup : (ops.map Op.source).Nodup) (hsep : Separate ops) :
    (∃ after, putAll store ops = some after ∧
      ∀ effect ∈ effects, ∀ entry ∈ effect.written, after entry.1 = some entry.2) ↔
      Fits store ops effects := by
  -- the value of the operation at a split of the list, and the key after the run
  have hsplit : ∀ {before op later after}, ops = before ++ op :: later →
      putAll store ops = some after → ∀ {target}, op.target = some target →
        ∃ value, op.value (found store before) = some value ∧
          ((∀ other ∈ later, other.target ≠ some target) → after target = some value) := by
    intro before op later after hops hafter target htgt
    rw [hops] at hafter
    obtain ⟨now, hnow, hrest⟩ := run_append_eq_some.mp hafter
    obtain ⟨next, hput, hlater⟩ := run_cons_eq_some.mp hrest
    obtain ⟨value, hvalue, rfl⟩ := (put_eq_some_iff htgt).mp hput
    rw [value_found (hops ▸ hnodup) (hops ▸ hsep) hnow] at hvalue
    refine ⟨value, hvalue, fun hlast => ?_⟩
    rw [putAll_of_notMem hlater hlast, Function.update_self]
  constructor
  · rintro ⟨after, hafter, hvals⟩ before op later hops target htgt
    obtain ⟨value, hvalue, hfinal⟩ := hsplit hops hafter htgt
    refine ⟨value, hvalue, fun hlast effect heff entry hentry hkey => ?_⟩
    have hwritten := hvals effect heff entry hentry
    rw [hkey, hfinal hlast] at hwritten
    exact (Option.some.inj hwritten).symm
  · intro h
    obtain ⟨after, hafter⟩ := exists_putAll_of_fits (append_nil ops).symm hnodup hsep h
    refine ⟨after, hafter, fun effect heff entry hentry => ?_⟩
    obtain ⟨op, hop, hof⟩ := exists_op hshape heff
    have htgt : op.target = some entry.1 := by
      rw [hof.target, hentry]
      rfl
    obtain ⟨before, last, later, hops, hwrites, hlast⟩ := exists_last hop htgt
    obtain ⟨value, hvalue, hpredicted⟩ := h before last later hops entry.1 hwrites
    obtain ⟨same, hsame, hfinal⟩ := hsplit hops hafter hwrites
    cases hvalue.symm.trans hsame
    rw [hfinal hlast, hpredicted hlast effect heff entry hentry rfl]

end Predictions

end StoreOps
