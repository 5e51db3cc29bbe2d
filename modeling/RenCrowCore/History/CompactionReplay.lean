import RenCrowCore.History.CompactionTransactionBasic

/-!
# Compaction transactions: successful replays

The replay loop of `CompactionTransactionBasic` jumps over rows by counting; its
successful runs are described here by a relation, `Replays`, with one constructor
per way of leaving an iteration: a commit marker, an ordinary row, a committed
transaction, and a prepared prefix that is discarded.  A prefix is discarded
exactly when the rest does not *continue* it (`Continues`).

The two are equivalent, `replayCommittedItems_eq_ok_iff`, and everything else
about replay is proved by induction on `Replays`.
-/

namespace RenCrow

open Fallible Scan List

/-! ## Companions -/

/-- A list the reader accepts whole as the companions of a checkpoint. -/
def Companions (rows : List RolloutItem) : Prop := Scan.Accepts acceptCompanion {} rows

variable {row : RolloutItem} {flags flags' : CompanionFlags}

theorem count_acceptCompanion (h : acceptCompanion flags row = some flags') :
    flags'.count = flags.count + 1 := by
  unfold acceptCompanion at h
  split at h
  iterate 3
    · split at h <;> cases h
      simp_all [CompanionFlags.count]
  · cases h

theorem count_companionLoop (flags : CompanionFlags) (rows : List RolloutItem) :
    (companionLoop flags rows).count =
      flags.count + (acceptedPrefix acceptCompanion flags rows).length := by
  induction rows generalizing flags with
  | nil => rfl
  | cons row rest ih =>
    cases h : acceptCompanion flags row with
    | none => rw [companionLoop, h, acceptedPrefix_cons_none h]; rfl
    | some flags' =>
      rw [companionLoop, h, acceptedPrefix_cons_some h]
      rw [ih flags', count_acceptCompanion h, length_cons]
      omega

/-- The reader's count is the length of the longest prefix it accepts. -/
theorem companionPrefixLen_eq (rows : List RolloutItem) :
    companionPrefixLen rows = (acceptedPrefix acceptCompanion {} rows).length := by
  rw [companionPrefixLen, count_companionLoop]
  exact Nat.zero_add _

theorem companions_iff (rows : List RolloutItem) :
    Companions rows ↔ companionPrefixLen rows = rows.length := by
  rw [companionPrefixLen_eq]
  exact ⟨congrArg List.length, ( acceptedPrefix_prefix _ rows).eq_of_length⟩

instance (rows : List RolloutItem) : Decidable (Companions rows) :=
  decidable_of_iff _ (companions_iff rows).symm

theorem Companions.of_append {xs ys : List RolloutItem} (h : Companions (xs ++ ys)) :
    Companions xs := Scan.Accepts.of_append h

/-- Companion rows in the order the reader expects them, each at most once. -/
def companionRows (worldState : Option WorldStateItem) (turnContext : Option TurnContextItem)
    (settings : Option ThreadSettingsAppliedEvent) : List RolloutItem :=
  worldState.toList.map .worldState ++ (turnContext.toList.map .turnContext ++
    settings.toList.map fun event => .eventMsg (.threadSettingsApplied event))

theorem companions_companionRows (worldState : Option WorldStateItem)
    (turnContext : Option TurnContextItem) (settings : Option ThreadSettingsAppliedEvent) :
    Companions (companionRows worldState turnContext settings) := by
  cases worldState <;> cases turnContext <;> cases settings <;> rfl

/-- A row that can be a companion. -/
def isCompanionRow : RolloutItem → Bool
  | .worldState _ | .turnContext _ | .eventMsg (.threadSettingsApplied _) => true
  | _ => false

theorem isCompanionRow_of_accept (h : acceptCompanion flags row = some flags') :
    isCompanionRow row = true := by
  unfold acceptCompanion at h
  split at h <;> first | rfl | cases h

variable {rows : List RolloutItem} {k : Nat}

theorem isCompanionRow_of_accepts (h : Scan.Accepts acceptCompanion flags rows) :
    ∀ row ∈ rows, isCompanionRow row = true := by
  induction rows generalizing flags with
  | nil => simp
  | cons r rest ih =>
    obtain ⟨flags', hr, hrest⟩ := accepts_cons_iff.mp h
    exact forall_mem_cons.mpr ⟨isCompanionRow_of_accept hr, ih hrest⟩

theorem Companions.isCompanionRow (h : Companions rows) :
    ∀ row ∈ rows, isCompanionRow row = true := isCompanionRow_of_accepts h

/-- What the reader accepts after `flags` is an ordered list of companions without
the kinds met before. -/
theorem accepts_eq_companionRows (h : Scan.Accepts acceptCompanion flags rows) :
    ∃ w c s, rows = companionRows w c s ∧
      (flags.worldState || flags.turnContext || flags.settings → w = none) ∧
      (flags.turnContext || flags.settings → c = none) ∧ (flags.settings → s = none) := by
  induction rows generalizing flags with
  | nil => exact ⟨none, none, none, rfl, fun _ => rfl, fun _ => rfl, fun _ => rfl⟩
  | cons row rest ih =>
    obtain ⟨flags', hrow, hrest⟩ := accepts_cons_iff.mp h
    obtain ⟨w, c, s, rfl, hw, hc, hs⟩ := ih hrest
    unfold acceptCompanion at hrow
    split at hrow
    · rename_i p
      split at hrow <;> cases hrow
      obtain rfl : w = none := hw (by simp)
      exact ⟨some p, c, s, rfl, by simp_all, by simp_all, by simp_all⟩
    · rename_i p
      split at hrow <;> cases hrow
      obtain rfl : w = none := hw (by simp)
      obtain rfl : c = none := hc (by simp)
      exact ⟨none, some p, s, rfl, fun _ => rfl, by simp_all, by simp_all⟩
    · rename_i event
      split at hrow <;> cases hrow
      obtain rfl : w = none := hw (by simp)
      obtain rfl : c = none := hc (by simp)
      obtain rfl : s = none := hs (by simp)
      exact ⟨none, none, some event, rfl, fun _ => rfl, fun _ => rfl, by simp_all⟩
    · cases hrow

/-- Accepted companions stand in order, each at most once. -/
theorem Companions.exists_companionRows (h : Companions rows) :
    ∃ w c s, rows = companionRows w c s := by
  obtain ⟨w, c, s, hrows, -⟩ := accepts_eq_companionRows h
  exact ⟨w, c, s, hrows⟩

theorem transactionFollowingItems_companion (h : isCompanionRow row = true) :
    transactionFollowingItems row = .ok none := by
  cases row with
  | compacted p => cases h
  | _ => rfl

theorem commitHash_companion (h : isCompanionRow row = true) : commitHash row = none := by
  cases row with
  | renCrowCompactionCommit c => cases h
  | _ => rfl

/-- A prepared checkpoint is a `Compacted` row. -/
theorem isCompanionRow_of_prepared (h : transactionFollowingItems row = .ok (some k)) :
    isCompanionRow row = false := by
  cases hrow : isCompanionRow row with
  | false => rfl
  | true =>
    rw [transactionFollowingItems_companion hrow] at h
    cases h

theorem commitHash_of_prepared (h : transactionFollowingItems row = .ok (some k)) :
    commitHash row = none := by
  cases row with
  | renCrowCompactionCommit c => cases h
  | _ => rfl

/-- Rows begin with up to `k` companions, which a refused row or the count ends. -/
theorem exists_companions (rest : List RolloutItem) (k : Nat) :
    ∃ companions later, rest = companions ++ later ∧ Companions companions ∧
      companions.length ≤ k ∧ (companions.length < k → ∀ row tail, later = row :: tail →
        ¬ Companions (companions ++ [row])) := by
  set pre := acceptedPrefix acceptCompanion {} rest
  obtain ⟨after, hafter⟩ : pre <+: rest := acceptedPrefix_prefix _ _
  have hcomps : Companions pre := acceptedPrefix_idem _ _
  refine ⟨pre.take k, pre.drop k ++ after, ?_, ?_, length_take_le _ _, ?_⟩
  · rw [← append_assoc, take_append_drop, hafter]
  · rw [← take_append_drop k pre] at hcomps
    exact hcomps.of_append
  · intro hlt row tail hrow
    rw [length_take] at hlt
    have hle : pre.length ≤ k := by omega
    rw [drop_of_length_le hle, nil_append] at hrow
    rw [take_of_length_le hle]
    exact acceptedPrefix_stop (hrow ▸ hafter.symm)

/-- The reader counts exactly the companions at hand when the next row is none. -/
theorem companionPrefixLen_take_append {comps rest : List RolloutItem}
    (hcomps : Companions comps) (hle : comps.length ≤ k)
    (hstop : comps.length < k → ∀ row tail, rest = row :: tail → ¬ Companions (comps ++ [row])) :
    companionPrefixLen ((comps ++ rest).take k) = comps.length := by
  rw [take_append, take_of_length_le hle, companionPrefixLen_eq]
  rcases Nat.eq_or_lt_of_le hle with heq | hlt
  · rw [heq, Nat.sub_self, take_zero, append_nil]
    exact heq ▸ congrArg List.length hcomps
  · cases rest with
    | nil =>
      rw [take_nil, append_nil]
      exact congrArg List.length hcomps
    | cons row tail =>
      rw [show k - comps.length = (k - comps.length - 1) + 1 by omega, take_succ_cons]
      exact congrArg List.length
        (acceptedPrefix_append_cons_of_not_accepts hcomps (hstop hlt row tail rfl) _)

/-! ## Successful replays -/

theorem validateCommitHash_eq_ok {hash : String} :
    validateCommitHash hash = .ok () ↔ isCommitHash hash = true := by
  simp [validateCommitHash]

section Replay

variable [PayloadCodec] {out items rest : List RolloutItem} {item : RolloutItem} {hash : String}

/-- The rest of a rollout continues an open transaction: it begins with the next
companion, or, when all declared companions are there, with a marker whose hash
agrees. -/
def Continues (checkpoint : RolloutItem) (followingItems : Nat) (companions : List RolloutItem)
    (rest : List RolloutItem) : Prop :=
  (companions.length < followingItems ∧
    ∃ row tail, rest = row :: tail ∧ Companions (companions ++ [row])) ∨
  (companions.length = followingItems ∧
    ∃ hash tail, rest = .renCrowCompactionCommit hash :: tail ∧
      eqIgnoreAsciiCase hash (transactionHash (checkpoint :: companions)) = true)

/-- The successful runs of the replay loop: rows read, rows kept. -/
inductive Replays : List RolloutItem → List RolloutItem → Prop
  | nil : Replays [] []
  | marker {hash : String} {rest out : List RolloutItem} (hvalid : isCommitHash hash = true)
      (hrest : Replays rest out) : Replays (.renCrowCompactionCommit hash :: rest) out
  | row {item : RolloutItem} {rest out : List RolloutItem} (hmarker : commitHash item = none)
      (hplain : transactionFollowingItems item = .ok none)
      (hrest : Replays rest out) : Replays (item :: rest) (item :: out)
  | committed {item checkpoint : RolloutItem} {companions rest out : List RolloutItem}
      {hash : String}
      (hprepared : transactionFollowingItems item = .ok (some companions.length))
      (hcompanions : Companions companions) (hvalid : isCommitHash hash = true)
      (hhash : eqIgnoreAsciiCase hash (transactionHash (item :: companions)) = true)
      (hcheckpoint : committedCheckpoint item (transactionHash (item :: companions)) =
        .ok checkpoint)
      (hrest : Replays rest out) :
      Replays (item :: (companions ++ .renCrowCompactionCommit hash :: rest))
        (checkpoint :: (companions ++ out))
  | discarded {item : RolloutItem} {companions rest out : List RolloutItem} {k : Nat}
      (hprepared : transactionFollowingItems item = .ok (some k))
      (hcompanions : Companions companions) (hle : companions.length ≤ k)
      (hstop : ¬ Continues item k companions rest)
      (hrest : Replays rest out) : Replays (item :: (companions ++ rest)) out

theorem replayLoop_eq_drop (items : List RolloutItem) (skip : Nat) :
    replayLoop items skip = replayCommittedItems (items.drop skip) := by
  induction items generalizing skip with
  | nil => rw [drop_nil]; rfl
  | cons item rest ih =>
    cases skip with
    | zero => rfl
    | succ n =>
      rw [drop_succ_cons, ← ih n]
      rfl

/-- One iteration on a row that is not a marker. -/
theorem replayCommittedItems_cons (h : commitHash item = none) (rest : List RolloutItem) :
    replayCommittedItems (item :: rest) = (do
      match ← transactionFollowingItems item with
      | none => return item :: (← replayCommittedItems rest)
      | some k =>
        match (if companionPrefixLen (rest.take k) = k then (rest[k]?).bind commitHash
          else none) with
        | some hash => do
          validateCommitHash hash
          let expected := transactionHash (item :: rest.take k)
          if eqIgnoreAsciiCase hash expected then do
            let cp ← committedCheckpoint item expected
            let out ← replayCommittedItems (rest.drop (k + 1))
            return cp :: (rest.take k ++ out)
          else replayCommittedItems (rest.drop k)
        | none => replayCommittedItems (rest.drop (companionPrefixLen (rest.take k)))) := by
  simp only [← replayLoop_eq_drop]
  cases item with
  | renCrowCompactionCommit c => cases h
  | _ => rfl

omit [PayloadCodec] in
theorem drop_eq_marker (h : (rest[k]?).bind commitHash = some hash) :
    rest.drop k = .renCrowCompactionCommit hash :: rest.drop (k + 1) := by
  obtain ⟨row, hrow, hrowHash⟩ := Option.bind_eq_some_iff.mp h
  obtain ⟨hlt, hget⟩ := List.getElem?_eq_some_iff.mp hrow
  cases row with
  | renCrowCompactionCommit c =>
    cases hrowHash
    rw [drop_eq_getElem_cons hlt, hget]
  | _ => cases hrowHash

variable {companions : List RolloutItem}

/-- An iteration on a prepared checkpoint whose transaction is committed. -/
theorem replayCommittedItems_committed
    (hprep : transactionFollowingItems item = .ok (some companions.length))
    (hcomps : Companions companions)
    (hhash : eqIgnoreAsciiCase hash (transactionHash (item :: companions)) = true) :
    replayCommittedItems (item :: (companions ++ .renCrowCompactionCommit hash :: rest)) = (do
      validateCommitHash hash
      let cp ← committedCheckpoint item (transactionHash (item :: companions))
      let out ← replayCommittedItems rest
      return cp :: (companions ++ out)) := by
  have htake : (companions ++ .renCrowCompactionCommit hash :: rest).take companions.length =
      companions := take_left
  have hget : (companions ++ .renCrowCompactionCommit hash :: rest)[companions.length]? =
      some (.renCrowCompactionCommit hash) := by
    rw [getElem?_append_right (le_refl _), Nat.sub_self]
    rfl
  have hdrop : (companions ++ .renCrowCompactionCommit hash :: rest).drop
      (companions.length + 1) = rest := by
    rw [← drop_drop, drop_left]
    rfl
  rw [replayCommittedItems_cons (commitHash_of_prepared hprep), hprep]
  simp only [bind, Except.bind, htake, (companions_iff _).mp hcomps, if_true, hget,
    Option.bind_some,
    commitHash, hhash, hdrop]

/-- An iteration on a prepared checkpoint that the rest does not continue. -/
theorem replayCommittedItems_discarded
    (hprep : transactionFollowingItems item = .ok (some k)) (hcomps : Companions companions)
    (hle : companions.length ≤ k) (hstop : ¬ Continues item k companions rest) :
    replayCommittedItems (item :: (companions ++ rest)) = replayCommittedItems rest := by
  have hcount : companionPrefixLen ((companions ++ rest).take k) = companions.length := by
    refine companionPrefixLen_take_append hcomps hle ?_
    intro hlt row tail htail hrow
    exact hstop (.inl ⟨hlt, row, tail, htail, hrow⟩)
  rw [replayCommittedItems_cons (commitHash_of_prepared hprep), hprep]
  simp only [bind, Except.bind, hcount]
  split
  · rename_i hash hhash
    obtain ⟨rfl, hhash⟩ := Option.ite_none_right_eq_some.mp hhash
    have hmark := drop_eq_marker hhash
    rw [drop_left] at hmark
    have hne : ¬ eqIgnoreAsciiCase hash (transactionHash (item :: companions)) = true :=
      fun heq => hstop (.inr ⟨rfl, hash, _, hmark, heq⟩)
    -- the next iteration checks the marker once more
    have hnext : replayCommittedItems rest = validateCommitHash hash >>= fun _ =>
        replayCommittedItems ((companions ++ rest).drop (companions.length + 1)) :=
      (congrArg replayCommittedItems hmark).trans rfl
    rw [take_left, drop_left, if_neg hne, hnext]
    cases validateCommitHash hash <;> rfl
  · rw [drop_left]

/-- Every successful run of the loop is a replay. -/
theorem Replays.of_eq_ok (h : replayCommittedItems items = .ok out) : Replays items out := by
  -- the loop jumps, so the induction is on the number of rows left
  induction hn : items.length using Nat.strong_induction_on generalizing items out with
  | _ n ih =>
  cases items with
  | nil =>
    cases h
    exact .nil
  | cons item rest =>
    have ih' : ∀ {later out'}, later.length ≤ rest.length →
        replayCommittedItems later = .ok out' → Replays later out' :=
      fun hle hout => ih _ (by rw [← hn]; exact Nat.lt_succ_of_le hle) hout rfl
    cases hmark : commitHash item with
    | some hash =>
      cases item with
      | renCrowCompactionCommit c =>
        obtain ⟨_, hvalid, hrest⟩ := bind_eq_ok.mp h
        exact .marker (validateCommitHash_eq_ok.mp hvalid) (ih' le_rfl hrest)
      | _ => cases hmark
    | none =>
      have hcons := h
      rw [replayCommittedItems_cons hmark] at hcons
      obtain ⟨following, hprep, hcons⟩ := bind_eq_ok.mp hcons
      cases following with
      | none =>
        obtain ⟨out', hrest, hout⟩ := bind_eq_ok.mp hcons
        cases hout
        exact .row hmark hprep (ih' le_rfl hrest)
      | some k =>
        obtain ⟨companions, later, rfl, hcomps, hle, hnext⟩ := exists_companions rest k
        by_cases hstop : Continues item k companions later
        · rcases hstop with ⟨hlt, row, tail, htail, hrow⟩ | ⟨rfl, hash, tail, rfl, hhash⟩
          · exact absurd hrow (hnext hlt row tail htail)
          · rw [replayCommittedItems_committed hprep hcomps hhash] at h
            simp only [bind_eq_ok] at h
            obtain ⟨_, hvalid, cp, hcp, out', hrest, ⟨⟩⟩ := h
            exact .committed hprep hcomps (validateCommitHash_eq_ok.mp hvalid) hhash hcp
              (ih' (by simp; omega) hrest)
        · rw [replayCommittedItems_discarded hprep hcomps hle hstop] at h
          exact .discarded hprep hcomps hle hstop (ih' (by simp) h)

/-- Every replay is a successful run of the loop. -/
theorem Replays.eq_ok (h : Replays items out) : replayCommittedItems items = .ok out := by
  induction h with
  | nil => rfl
  | marker hvalid _ ih => exact bind_eq_ok.mpr ⟨⟨⟩, validateCommitHash_eq_ok.mpr hvalid, ih⟩
  | row hmark hplain _ ih =>
    rw [replayCommittedItems_cons hmark, hplain]
    exact bind_eq_ok.mpr ⟨_, rfl, bind_eq_ok.mpr ⟨_, ih, rfl⟩⟩
  | committed hprep hcomps hvalid hhash hcp _ ih =>
    rw [replayCommittedItems_committed hprep hcomps hhash]
    exact bind_eq_ok.mpr ⟨_, validateCommitHash_eq_ok.mpr hvalid,
      bind_eq_ok.mpr ⟨_, hcp, bind_eq_ok.mpr ⟨_, ih, rfl⟩⟩⟩
  | discarded hprep hcomps hle hstop _ ih =>
    rw [replayCommittedItems_discarded hprep hcomps hle hstop, ih]

/-- **The loop and the relation agree.** -/
theorem replayCommittedItems_eq_ok_iff : replayCommittedItems items = .ok out ↔ Replays items out :=
  ⟨Replays.of_eq_ok, Replays.eq_ok⟩

theorem committedItems_eq_ok_iff : committedItems items = .ok out ↔ Replays items out := by
  rw [← replayCommittedItems_eq_ok_iff, committedItems, mapError_eq_ok]

end Replay

end RenCrow
