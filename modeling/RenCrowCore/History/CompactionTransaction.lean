import RenCrowCore.History.CompactionReplay

/-!
# Compaction transactions: main results

What `committedItems` guarantees, for arbitrary lists of rows with any number of
complete and interrupted transactions in them.

* `committedItems_sound`: no marker and no prepared checkpoint is left, replay is
  idempotent, the rows that are kept come from the input in order, and a
  rewritten checkpoint stems from a complete transaction;
* `Replays.append`: replay is a homomorphism on lists as long as the second list
  does not continue a transaction left open by the first;
* `committedItems_interrupted_iff`: an interrupted append is discarded without
  touching the rows that come later *exactly when* these do not look like the
  rows the append still owed (`ContinuesOpen`);
* `transactionHash_reload`: the hash of a transaction survives any number of
  save and reload cycles.
-/

namespace RenCrow

open Serde Codec List

section Transaction

variable [PayloadCodec] {items out pre : List RolloutItem} {row item : RolloutItem} {k : Nat}

/-! ## Continuation -/

theorem not_continues_nil (item : RolloutItem) (k : Nat) (comps : List RolloutItem) :
    ¬ Continues item k comps [] := by
  rintro (⟨-, row, tail, h, -⟩ | ⟨-, hash, tail, h, -⟩) <;> cases h

/-- Whether a rest continues a transaction depends on its first row only. -/
theorem continues_append_iff {comps xs : List RolloutItem} (hne : xs ≠ []) (ys : List RolloutItem) :
    Continues item k comps (xs ++ ys) ↔ Continues item k comps xs := by
  obtain ⟨x, xs', rfl⟩ := exists_cons_of_ne_nil hne
  have hfirst : ∀ as bs, Continues item k comps (x :: as) → Continues item k comps (x :: bs) := by
    rintro as bs (⟨hlt, row, tail, h, hrow⟩ | ⟨heq, hash, tail, h, hhash⟩)
    · cases h
      exact .inl ⟨hlt, _, _, rfl, hrow⟩
    · cases h
      exact .inr ⟨heq, _, _, rfl, hhash⟩
  exact ⟨hfirst _ _, hfirst _ _⟩

/-- A list of rows ends in a transaction that is still open, and the rows after
it continue that transaction. -/
def ContinuesOpen (rows later : List RolloutItem) : Prop :=
  ∃ front item k companions, rows = front ++ item :: companions ∧
    transactionFollowingItems item = .ok (some k) ∧ Companions companions ∧
    companions.length ≤ k ∧ Continues item k companions later

theorem ContinuesOpen.append_left {rows later : List RolloutItem} (front : List RolloutItem)
    (h : ContinuesOpen rows later) : ContinuesOpen (front ++ rows) later := by
  obtain ⟨front', item, k, comps, rfl, hrest⟩ := h
  exact ⟨front ++ front', item, k, comps, by rw [append_assoc], hrest⟩

/-- A row that can neither be a companion nor a marker, such as a checkpoint. -/
def IsBoundary (row : RolloutItem) : Prop := isCompanionRow row = false ∧ commitHash row = none

omit [PayloadCodec] in
theorem isBoundary_of_prepared (h : transactionFollowingItems row = .ok (some k)) :
    IsBoundary row :=
  ⟨isCompanionRow_of_prepared h, commitHash_of_prepared h⟩

/-- No transaction is continued by a boundary row. -/
theorem IsBoundary.not_continues (h : IsBoundary row) (item : RolloutItem) (k : Nat)
    (comps tail : List RolloutItem) : ¬ Continues item k comps (row :: tail) := by
  rintro (⟨-, row', tail', heq, hrow⟩ | ⟨-, hash, tail', heq, -⟩)
  · cases heq
    have := hrow.isCompanionRow row (mem_append_right _ (mem_singleton_self _))
    rw [h.1] at this
    cases this
  · cases heq
    exact absurd h.2 (by simp [commitHash])

theorem IsBoundary.not_continuesOpen (h : IsBoundary row) (rows tail : List RolloutItem) :
    ¬ ContinuesOpen rows (row :: tail) := by
  rintro ⟨front, item, k, comps, -, -, -, -, hcont⟩
  exact h.not_continues item k comps tail hcont

/-! ## Replay and concatenation -/

/-- **Replay is a homomorphism** where the second list does not continue a
transaction the first left open. -/
theorem Replays.append {xs a ys b : List RolloutItem} (hxs : Replays xs a) (hys : Replays ys b)
    (hopen : ¬ ContinuesOpen xs ys) : Replays (xs ++ ys) (a ++ b) := by
  induction hxs with
  | nil => exact hys
  | marker hvalid _ ih =>
    exact .marker hvalid (ih fun h => hopen (h.append_left [_]))
  | row hmark hplain _ ih =>
    exact .row hmark hplain (ih fun h => hopen (h.append_left [_]))
  | @committed item cp comps rest out hash hprep hcomps hvalid hhash hcp _ ih =>
      have hrest := ih fun h => hopen (by
        have := h.append_left (item :: (comps ++ [.renCrowCompactionCommit hash]))
        simpa using this)
      have hmain := Replays.committed hprep hcomps hvalid hhash hcp hrest
      simpa using hmain
  | @discarded item comps rest out k hprep hcomps hle hstop _ ih =>
    have hrest := ih fun h => hopen (by
      have := h.append_left (item :: comps)
      simpa using this)
    have hstop' : ¬ Continues item k comps (rest ++ ys) := by
      by_cases hnil : rest = []
      · subst hnil
        intro hcont
        exact hopen ⟨[], item, k, comps, by simp, hprep, hcomps, hle, hcont⟩
      · rw [continues_append_iff hnil]
        exact hstop
    have hmain := Replays.discarded hprep hcomps hle hstop' hrest
    simpa using hmain

/-- Replay is a function. -/
theorem Replays.unique {a b : List RolloutItem} (ha : Replays items a) (hb : Replays items b) :
    a = b :=
  Except.ok.inj (ha.eq_ok.symm.trans hb.eq_ok)

omit [PayloadCodec] in
/-- A row that is no companion stands behind the companions. -/
theorem cut_companions {comps rest front tail : List RolloutItem} (hcomps : Companions comps)
    (hrow : isCompanionRow row = false) (h : comps ++ rest = front ++ row :: tail) :
    ∃ as, front = comps ++ as ∧ rest = as ++ row :: tail := by
  rcases append_eq_append_iff.mp h with ⟨as, rfl, has⟩ | ⟨bs, rfl, hbs⟩
  · exact ⟨as, rfl, has⟩
  · cases bs with
    | nil => exact ⟨[], by simp, by simpa using hbs.symm⟩
    | cons y bs =>
      obtain ⟨rfl, -⟩ := List.cons.inj hbs
      rw [hcomps.isCompanionRow row (by simp)] at hrow
      cases hrow

/-- Where a list is cut in front of a boundary row, so is its replay. -/
theorem Replays.split (h : Replays items out) :
    ∀ {front : List RolloutItem} {row : RolloutItem} {tail : List RolloutItem},
      IsBoundary row → items = front ++ row :: tail →
      ∃ a c, Replays front a ∧ Replays (row :: tail) c ∧ out = a ++ c := by
  have hhere : ∀ {items out row tail}, Replays items out → items = row :: tail →
      ∃ a c, Replays [] a ∧ Replays (row :: tail) c ∧ out = a ++ c :=
    fun h heq => ⟨[], _, .nil, heq ▸ h, rfl⟩
  -- a segment of the replay never straddles the cut: all its rows but the first
  -- are companions or markers
  induction h with
  | nil =>
    intro front row tail _ heq
    cases front <;> cases heq
  | @marker hash rest out hvalid hrest ih =>
    intro front row tail hb heq
    cases front with
    | nil => exact hhere (.marker hvalid hrest) heq
    | cons x front' =>
      obtain ⟨rfl, rfl⟩ := List.cons.inj heq
      obtain ⟨a, c, ha, hc, rfl⟩ := ih hb rfl
      exact ⟨a, c, .marker hvalid ha, hc, rfl⟩
  | @row item rest out hmark hplain hrest ih =>
    intro front row tail hb heq
    cases front with
    | nil => exact hhere (.row hmark hplain hrest) heq
    | cons x front' =>
      obtain ⟨rfl, rfl⟩ := List.cons.inj heq
      obtain ⟨a, c, ha, hc, rfl⟩ := ih hb rfl
      exact ⟨item :: a, c, .row hmark hplain ha, hc, rfl⟩
  | @committed item cp comps rest out hash hprep hcomps hvalid hhash hcp hrest ih =>
      intro front row tail hb heq
      cases front with
      | nil => exact hhere (.committed hprep hcomps hvalid hhash hcp hrest) heq
      | cons x front' =>
        obtain ⟨rfl, hcut⟩ := List.cons.inj heq
        obtain ⟨as, rfl, has⟩ := cut_companions hcomps hb.1 hcut
        cases as with
        | nil =>
          cases has
          exact absurd hb.2 (by simp [commitHash])
        | cons y as' =>
          obtain ⟨rfl, rfl⟩ := List.cons.inj has
          obtain ⟨a, c, ha, hc, rfl⟩ := ih hb rfl
          have hmain := Replays.committed hprep hcomps hvalid hhash hcp ha
          exact ⟨_, c, hmain, hc, by simp⟩
  | @discarded item comps rest out k hprep hcomps hle hstop hrest ih =>
    intro front row tail hb heq
    cases front with
    | nil => exact hhere (.discarded hprep hcomps hle hstop hrest) heq
    | cons x front' =>
      obtain ⟨rfl, hcut⟩ := List.cons.inj heq
      obtain ⟨as, rfl, rfl⟩ := cut_companions hcomps hb.1 hcut
      obtain ⟨a, c, ha, hc, rfl⟩ := ih hb rfl
      have hstop' : ¬ Continues item k comps as := by
        by_cases hnil : as = []
        · subst hnil
          exact not_continues_nil item k comps
        · rwa [continues_append_iff hnil] at hstop
      exact ⟨a, c, .discarded hprep hcomps hle hstop' ha, hc, rfl⟩

/-- **A checkpoint cuts the replay**: the rows in front of it and those from it on are
replayed on their own. -/
theorem committedItems_checkpoint_iff (front tail : List RolloutItem) (checkpoint : CompactedItem) :
    committedItems (front ++ .compacted checkpoint :: tail) = .ok out ↔
      ∃ a c, committedItems front = .ok a ∧ committedItems (.compacted checkpoint :: tail) = .ok c ∧
        out = a ++ c := by
  have hrow : IsBoundary (.compacted checkpoint) := ⟨rfl, rfl⟩
  simp only [committedItems_eq_ok_iff]
  constructor
  · intro h
    exact h.split hrow rfl
  · rintro ⟨a, c, ha, hc, rfl⟩
    exact ha.append hc (hrow.not_continuesOpen front tail)

/-- Companions that are not read as such are ordinary rows. -/
theorem Replays.of_companionRows_append {rows rest : List RolloutItem}
    (hrows : ∀ row ∈ rows, isCompanionRow row = true) (h : Replays (rows ++ rest) out) :
    ∃ out', Replays rest out' ∧ out = rows ++ out' := by
  induction rows generalizing out with
  | nil => exact ⟨out, h, rfl⟩
  | cons row rows ih =>
    have hrow := hrows row (mem_cons_self ..)
    have hplain := transactionFollowingItems_companion hrow
    rw [cons_append] at h
    generalize hl : row :: (rows ++ rest) = items at h
    cases h with
    | nil => cases hl
    | marker hvalid hrest =>
      cases hl
      cases hrow
    | row hmark _ hrest =>
      obtain ⟨rfl, rfl⟩ := List.cons.inj hl
      obtain ⟨out', hout', rfl⟩ := ih (fun r hr => hrows r (mem_cons_of_mem _ hr)) hrest
      exact ⟨out', hout', rfl⟩
    | committed hprep _ _ _ _ _ | discarded hprep _ _ _ _ =>
      obtain ⟨rfl, -⟩ := List.cons.inj hl
      rw [hplain] at hprep
      cases hprep

/-- A rest that continues an open transaction is not replayed as it would be on
its own. -/
theorem Replays.ne_of_continues {comps ys b c : List RolloutItem}
    (hprep : transactionFollowingItems item = .ok (some k)) (hcomps : Companions comps)
    (hle : comps.length ≤ k) (hcont : Continues item k comps ys) (hys : Replays ys b)
    (h : Replays (item :: (comps ++ ys)) c) : c ≠ b := by
  generalize hl : item :: (comps ++ ys) = items at h
  cases h with
  | nil => cases hl
  | marker hvalid hrest =>
    obtain ⟨rfl, -⟩ := List.cons.inj hl
    cases hprep
  | row hmark hplain hrest =>
    obtain ⟨rfl, -⟩ := List.cons.inj hl
    rw [hprep] at hplain
    cases hplain
  | @committed item' cp comps' rest out hash _ hcomps' hvalid hhash hck hrest =>
    obtain ⟨rfl, hcut⟩ := List.cons.inj hl
    -- the checkpoint and the companions are kept on top of what `ys` alone gives
    obtain ⟨ds, rfl, rfl⟩ := cut_companions hcomps rfl hcut
    obtain ⟨out', hout', rfl⟩ := Replays.of_companionRows_append
      (fun row hrow => hcomps'.isCompanionRow row (mem_append_right _ hrow)) hys
    obtain rfl : out' = out := hout'.unique (.marker hvalid hrest)
    intro heq
    have := congrArg List.length heq
    simp only [length_cons, length_append] at this
    omega
  | @discarded item' comps' rest out k' hprep' hcomps' hle' hstop hrest =>
    obtain ⟨rfl, hcut⟩ := List.cons.inj hl
    obtain rfl : k' = k := Option.some.inj (Except.ok.inj (hprep'.symm.trans hprep))
    -- the reader went on to at least one row of `ys`, which is dropped
    have hds : ∃ ds, ds ≠ [] ∧ comps' = comps ++ ds ∧ ys = ds ++ rest := by
      rcases append_eq_append_iff.mp hcut with ⟨ds, rfl, rfl⟩ | ⟨bs, rfl, rfl⟩
      · refine ⟨ds, ?_, rfl, rfl⟩
        rintro rfl
        exact hstop (by simpa using hcont)
      · cases bs with
        | nil => exact absurd (by simpa using hcont) hstop
        | cons y bs' =>
          refine absurd (Or.inl ⟨?_, y, bs' ++ ys, rfl, ?_⟩) hstop
          · rw [length_append, length_cons] at hle
            omega
          · have hpre : Companions ((comps' ++ [y]) ++ bs') := by simpa using hcomps
            exact hpre.of_append
    obtain ⟨ds, hne, rfl, rfl⟩ := hds
    obtain ⟨out', hout', rfl⟩ := Replays.of_companionRows_append
      (fun row hrow => hcomps'.isCompanionRow row (mem_append_right _ hrow)) hys
    obtain rfl : out' = c := hout'.unique hrest
    intro heq
    exact hne (append_left_eq_self.mp heq.symm)

/-! ## Soundness -/

omit [PayloadCodec] in
/-- A committed checkpoint is no longer prepared: the rewrite removes the field
that makes it so. -/
theorem transactionFollowingItems_committedCheckpoint {hash : String}
    (h : committedCheckpoint item hash = .ok row) :
    commitHash row = none ∧ transactionFollowingItems row = .ok none := by
  have hget : ∀ fields, SortedMap.get transactionFollowingItemsKey (commitFields hash fields) =
      none := by
    intro fields
    rw [commitFields, SortedMap.get_insert_of_ne (by decide), SortedMap.get_remove_self]
  unfold committedCheckpoint at h
  repeat' split at h
  all_goals cases h
  exact ⟨rfl, by simp [transactionFollowingItems, compactionMetadata, hget]⟩

/-- A row is the checkpoint `item` as a commit leaves it: in the provenance of its last item
the boundary is gone and the hash of the transaction recorded, and all the rest is the same. -/
def CommittedForm (hash : String) (item : CompactedItem) (row : RolloutItem) : Prop :=
  ∃ front envelope metadata fields committed,
    item.replacementHistory = some (front ++ [envelope]) ∧
    envelope.metadata = some metadata ∧
    metadata.rencrowCompaction = some (.object fields) ∧
    row = .compacted { item with replacementHistory := some (front ++ [{ envelope with
      metadata := some { metadata with rencrowCompaction := some (.object committed) } }]) } ∧
    SortedMap.get "transaction_following_items" committed = none ∧
    SortedMap.get "committed_transaction_hash" committed = some (.string hash) ∧
    ∀ key, key ≠ "transaction_following_items" → key ≠ "committed_transaction_hash" →
      SortedMap.get key committed = SortedMap.get key fields

omit [PayloadCodec] in
theorem committedForm_of_committedCheckpoint {compacted : CompactedItem} {hash : String}
    (h : committedCheckpoint (.compacted compacted) hash = .ok row) :
    CommittedForm hash compacted row := by
  unfold committedCheckpoint at h
  dsimp only at h
  split at h
  · cases h
  split at h
  · cases h
  split at h
  · cases h
  split at h
  · cases h
  · rename_i history hhist _ envelope hlast _ metadata hmeta _ fields hfields
    cases h
    refine ⟨history.dropLast, envelope, metadata, fields, commitFields hash fields, ?_, hmeta,
      hfields, rfl, ?_, ?_, fun key hboundary hhash => ?_⟩
    · rw [hhist, dropLast_append_getLast? envelope hlast]
    · rw [commitFields, SortedMap.get_insert_of_ne (by decide)]
      exact SortedMap.get_remove_self ..
    · exact SortedMap.get_insert_self ..
    · rw [commitFields, SortedMap.get_insert_of_ne hhash]
      exact SortedMap.get_remove_of_ne hboundary fields
  · cases h

/-- Every row that replay keeps is an ordinary row. -/
theorem Replays.plain (h : Replays items out) :
    ∀ row ∈ out, commitHash row = none ∧ transactionFollowingItems row = .ok none := by
  induction h with
  | nil => simp
  | marker _ _ ih => exact ih
  | row hmark hplain _ ih => exact forall_mem_cons.mpr ⟨⟨hmark, hplain⟩, ih⟩
  | committed _ hcomps _ _ hcp _ ih =>
    refine forall_mem_cons.mpr ⟨transactionFollowingItems_committedCheckpoint hcp,
      forall_mem_append.mpr ⟨fun row hrow => ?_, ih⟩⟩
    have hc := hcomps.isCompanionRow row hrow
    exact ⟨commitHash_companion hc, transactionFollowingItems_companion hc⟩
  | discarded _ _ _ _ _ ih => exact ih

/-- Ordinary rows are replayed unchanged. -/
theorem Replays.of_plain {rows : List RolloutItem}
    (h : ∀ row ∈ rows, commitHash row = none ∧ transactionFollowingItems row = .ok none) :
    Replays rows rows := by
  induction rows with
  | nil => exact .nil
  | cons row rest ih =>
    have hrow := h row (mem_cons_self ..)
    exact .row hrow.1 hrow.2 (ih fun r hr => h r (mem_cons_of_mem _ hr))

/-- A row is the committed form of a prepared checkpoint that stands in the
rollout in front of its companions, in order, and of the marker that binds them. -/
def CommittedFrom (items : List RolloutItem) (source row : RolloutItem) : Prop :=
  ∃ front rest worldState turnContext settings hash,
    items = front ++ source :: (companionRows worldState turnContext settings ++
      .renCrowCompactionCommit hash :: rest) ∧
    transactionFollowingItems source =
      .ok (some (companionRows worldState turnContext settings).length) ∧
    eqIgnoreAsciiCase hash
      (transactionHash (source :: companionRows worldState turnContext settings)) = true ∧
    committedCheckpoint source
      (transactionHash (source :: companionRows worldState turnContext settings)) = .ok row

/-- A kept row is a row of the input or the committed form of one. -/
def KeptFrom (items : List RolloutItem) (source row : RolloutItem) : Prop :=
  row = source ∨ CommittedFrom items source row

theorem KeptFrom.append_left {source : RolloutItem} (h : KeptFrom items source row)
    (front : List RolloutItem) : KeptFrom (front ++ items) source row := by
  rcases h with h | ⟨front', rest, w, c, s, hash, rfl, hrest⟩
  · exact .inl h
  · exact .inr ⟨front ++ front', rest, w, c, s, hash, by rw [append_assoc], hrest⟩

/-- Replay keeps a subsequence of its input, row by row. -/
theorem Replays.kept (h : Replays items out) :
    ∃ sources, sources.Sublist items ∧ List.Forall₂ (KeptFrom items) sources out := by
  induction h with
  | nil => exact ⟨[], List.Sublist.slnil, .nil⟩
  | marker _ _ ih =>
    obtain ⟨sources, hsub, hkept⟩ := ih
    exact ⟨sources, hsub.cons _, hkept.imp fun _ _ hk => hk.append_left [_]⟩
  | row _ _ _ ih =>
    obtain ⟨sources, hsub, hkept⟩ := ih
    exact ⟨_ :: sources, hsub.cons_cons _,
      .cons (.inl rfl) (hkept.imp fun _ _ hk => hk.append_left [_])⟩
  | @committed item cp comps rest out hash hprep hcomps _ hhash hcp _ ih =>
      obtain ⟨sources, hsub, hkept⟩ := ih
      obtain ⟨w, c, s, rfl⟩ := hcomps.exists_companionRows
      set comps := companionRows w c s
      refine ⟨item :: (comps ++ sources), ?_, .cons ?_ ?_⟩
      · exact ((List.Sublist.refl comps).append (hsub.cons _)).cons_cons item
      · exact .inr ⟨[], rest, w, c, s, hash, rfl, hprep, hhash, hcp⟩
      · refine rel_append (forall₂_same.mpr fun _ _ => .inl rfl) ?_
        have hfront : item :: (comps ++ RolloutItem.renCrowCompactionCommit hash :: rest) =
            (item :: (comps ++ [.renCrowCompactionCommit hash])) ++ rest := by simp
        rw [hfront]
        exact hkept.imp fun _ _ hk => hk.append_left _
  | @discarded item comps rest out k _ _ _ _ _ ih =>
    obtain ⟨sources, hsub, hkept⟩ := ih
    refine ⟨sources, ((sublist_append_of_sublist_right hsub)).cons _, ?_⟩
    have hfront : item :: (comps ++ rest) = (item :: comps) ++ rest := rfl
    rw [hfront]
    exact hkept.imp fun _ _ hk => hk.append_left _

/-- **Replay is sound and idempotent.**  What it returns contains neither markers
nor prepared checkpoints and replays to itself; row by row it is a subsequence of
the input in which some checkpoints are rewritten, each of them the head of a
complete transaction. -/
theorem committedItems_sound {items out : List RolloutItem} (h : committedItems items = .ok out) :
    (∀ row ∈ out, commitHash row = none ∧ isPreparedCheckpoint row = false) ∧
    committedItems out = .ok out ∧
    ∃ sources, sources.Sublist items ∧ List.Forall₂ (KeptFrom items) sources out := by
  rw [committedItems_eq_ok_iff] at h
  refine ⟨?_, committedItems_eq_ok_iff.mpr (Replays.of_plain h.plain), h.kept⟩
  intro row hrow
  obtain ⟨hmark, hplain⟩ := h.plain row hrow
  exact ⟨hmark, by rw [isPreparedCheckpoint, hplain]⟩

/-! ## Interrupted appends -/

/-- The rows of one compaction: a prepared checkpoint, the companions it
declares, and the marker with the hash of the rows before it. -/
structure TransactionBatch where
  checkpoint : RolloutItem
  worldState : Option WorldStateItem
  turnContext : Option TurnContextItem
  settings : ThreadSettingsAppliedEvent
  declared : transactionFollowingItems checkpoint =
    .ok (some (companionRows worldState turnContext (some settings)).length)

/-- The rows after the checkpoint. -/
def TransactionBatch.companions (batch : TransactionBatch) : List RolloutItem :=
  companionRows batch.worldState batch.turnContext (some batch.settings)

/-- The rows of a transaction, with its commit. -/
def TransactionBatch.rows (batch : TransactionBatch) : List RolloutItem :=
  batch.checkpoint :: (batch.companions ++
    [.renCrowCompactionCommit (transactionHash (batch.checkpoint :: batch.companions))])

omit [PayloadCodec] in
/-- A prepared checkpoint can always be committed. -/
theorem committedCheckpoint_of_prepared (h : transactionFollowingItems item = .ok (some k))
    (hash : String) : ∃ row, committedCheckpoint item hash = .ok row := by
  cases item with
  | compacted compacted =>
    obtain ⟨fields, hfields⟩ : ∃ fields, compactionMetadata compacted = some (.object fields) := by
      unfold transactionFollowingItems at h
      dsimp only at h
      split at h
      · cases h
      · rename_i value hvalue
        cases value with
        | object fields => exact ⟨fields, hvalue⟩
        | _ => cases h
    obtain ⟨history, hhist, h⟩ := Option.bind_eq_some_iff.mp hfields
    obtain ⟨envelope, hlast, h⟩ := Option.bind_eq_some_iff.mp h
    obtain ⟨metadata, hmeta, hcomp⟩ := Option.bind_eq_some_iff.mp h
    simp only [committedCheckpoint, hhist, hlast, hmeta, hcomp]
    exact ⟨_, rfl⟩
  | _ => cases h

theorem isCommitHash_transactionHash (items : List RolloutItem) :
    isCommitHash (transactionHash items) = true := by
  rw [isCommitHash, transactionHash, digest, Sha256.sha256Hex_length, Bool.and_eq_true, all_eq_true]
  exact ⟨rfl, Sha256.sha256Hex_isHexDigit _⟩

/-- **A complete transaction is replayed whole**, whatever comes before and after
it. -/
theorem Replays.append_batch (batch : TransactionBatch) {post a b : List RolloutItem}
    (hpre : Replays pre a) (hpost : Replays post b) :
    ∃ row, committedCheckpoint batch.checkpoint
        (transactionHash (batch.checkpoint :: batch.companions)) = .ok row ∧
      Replays (pre ++ batch.rows ++ post) (a ++ row :: (batch.companions ++ b)) := by
  obtain ⟨row, hrow⟩ := committedCheckpoint_of_prepared batch.declared
    (transactionHash (batch.checkpoint :: batch.companions))
  refine ⟨row, hrow, ?_⟩
  have hbatch := Replays.committed batch.declared (companions_companionRows _ _ _)
    (isCommitHash_transactionHash (batch.checkpoint :: batch.companions))
    (by simp [eqIgnoreAsciiCase, TransactionBatch.companions]) hrow hpost
  have hmain := hpre.append hbatch ((isBoundary_of_prepared batch.declared).not_continuesOpen pre _)
  simpa [TransactionBatch.rows, TransactionBatch.companions] using hmain

/-- Where an append was interrupted, replay keeps none of its rows. -/
theorem Replays.append_interrupted (batch : TransactionBatch) {cut a : List RolloutItem}
    (hpre : Replays pre a) (hcut : cut <+: batch.rows) (hproper : cut ≠ batch.rows) :
    Replays (pre ++ cut) a := by
  cases cut with
  | nil => rwa [append_nil]
  | cons row cs =>
    obtain ⟨rfl, hcs⟩ := cons_prefix_cons.mp hcut
    obtain ⟨ds, hds⟩ : cs <+: batch.companions := by
      rcases prefix_concat_iff.mp hcs with rfl | hcs
      · exact absurd rfl hproper
      · exact hcs
    have hcomps : Companions cs := by
      have hall : Companions batch.companions := companions_companionRows _ _ _
      rw [← hds] at hall
      exact hall.of_append
    have hle : cs.length ≤ batch.companions.length := List.IsPrefix.length_le ⟨ds, hds⟩
    have hrow : Replays (batch.checkpoint :: (cs ++ [])) [] :=
      .discarded batch.declared hcomps hle (not_continues_nil _ _ _) .nil
    rw [append_nil] at hrow
    have hmain := hpre.append hrow
      ((isBoundary_of_prepared batch.declared).not_continuesOpen pre cs)
    rwa [append_nil] at hmain

/-- **Interrupted appends, exactly.**  An append that was cut short is discarded
without dropping or altering a later row precisely when the later rows do not
continue a transaction that is open where the append stopped. -/
theorem committedItems_interrupted_iff (batch : TransactionBatch)
    {pre cut later a b : List RolloutItem} (hcut : cut <+: batch.rows)
    (hproper : cut ≠ batch.rows) (hpre : committedItems pre = .ok a)
    (hlater : committedItems later = .ok b) :
    committedItems (pre ++ cut ++ later) = .ok (a ++ b) ↔ ¬ ContinuesOpen (pre ++ cut) later := by
  rw [committedItems_eq_ok_iff] at hpre hlater ⊢
  have hopen := hpre.append_interrupted batch hcut hproper
  constructor
  · rintro h ⟨front, item, k, companions, hrows, hprep, hcomps, hle, hcont⟩
    rw [hrows] at h hopen
    have hb := isBoundary_of_prepared hprep
    have hassoc : front ++ item :: companions ++ later = front ++ item :: (companions ++ later) :=
      by simp
    obtain ⟨a', c, ha', hc, hac⟩ := h.split hb hassoc
    obtain ⟨a'', c', ha'', hc', rfl⟩ := hopen.split hb rfl
    -- the open transaction alone is discarded
    have hnil : c' = [] := by
      refine hc'.unique ?_
      have := Replays.discarded hprep hcomps hle (not_continues_nil _ _ _) Replays.nil
      rwa [append_nil] at this
    rw [hnil, append_nil, ha'.unique ha''] at hac
    exact Replays.ne_of_continues hprep hcomps hle hcont hlater hc (append_cancel_left hac).symm
  · intro h
    exact hopen.append hlater h

/-! ## Reloads -/

/-- **Checkpoints are stable under persistence.**  A checkpoint whose payloads
survive their serializers reads back as its normal form, which is written like
the checkpoint itself; so the hash of a transaction is the same after any number
of save and reload cycles of its rows. -/
theorem transactionHash_reload :
    (∀ item : CompactedItem, (CompactedItemWire.ofItem item).PayloadsRoundTrip →
      decodeCompacted (encodeCompacted item) = .ok item.normalize ∧
      encodeCompacted item.normalize = encodeCompacted item) ∧
    (∀ rows : List RolloutItem, (∀ row ∈ rows, row.PayloadsRoundTrip) → ∀ n, ∃ rows',
      reloads n rows = .ok rows' ∧ transactionHash rows' = transactionHash rows) := by
  refine ⟨?_, ?_⟩
  · intro item h
    exact ⟨decodeCompacted_encodeCompacted h, encodeCompacted_normalize item⟩
  · intro rows h n
    obtain ⟨rows', hreloads, henc⟩ := reloads_encode n h
    exact ⟨rows', hreloads, by rw [transactionHash, transactionHash, henc]⟩

end Transaction

/-- The provenance of a checkpoint that declares its companions. -/
def sampleProvenance (companions : Nat) : Json :=
  .object [("transaction_following_items", .ofNat companions), ("version", .ofNat 2)]

/-- A prepared checkpoint that declares one companion. -/
def sampleCheckpoint : RolloutItem :=
  .compacted
    { message := "summary",
      replacementHistory := some
        [⟨.message (some "msg_1") "user" [.inputText "summary"] none none,
          some { rencrowCompaction := some (sampleProvenance 1) }⟩] }

/-- The settings that a sample transaction applies. -/
def sampleSettings : ThreadSettingsAppliedEvent := ⟨some "thread", .object []⟩

/-- A payload codec to run the row functions with: it knows the payloads of the samples. -/
@[reducible] def PayloadCodec.sample : PayloadCodec where
  sessionMetaLine := .among [default]
  responseItem := .among [.message (some "msg_1") "user" [.inputText "summary"] none none,
    .message (some "msg_2") "user" [.inputText "fix the build"] none none,
    .message (some "msg_0190") "user" [.inputText "summary"] none none, .other]
  harnessMetadata := .among [.default, { rencrowCompaction := some (sampleProvenance 1) },
    { rencrowCompaction := some (sampleProvenance 2) }]
  interAgentCommunication := .among [default]
  turnContextItem := .among [default]
  tokenUsageRecord := .among [default]
  worldStateItem := .among [⟨true, [("cwd", .string "/work")]⟩]
  retainedContextEvent := .among [default]
  securityRiskScore := .among [default]
  eventMsg := .among [.threadSettingsApplied sampleSettings]
  realtimeItem := .among [default]
  guardianHistoryCheckpoint := .among [default]
  retainedContext := .among [default]
  mcpResourceOriginCheckpoint := .among [default]

/-- The transaction of `sampleCheckpoint`. -/
def sampleBatch : TransactionBatch := ⟨sampleCheckpoint, none, none, sampleSettings, by decide⟩

/-- A settings row that a restarted session appends is **not** kept: after a crash
between the checkpoint and its companion the reader takes it for that companion. -/
theorem committedItems_drops_later_settings :
    [sampleCheckpoint] <+: @TransactionBatch.rows .sample sampleBatch ∧
    [sampleCheckpoint] ≠ @TransactionBatch.rows .sample sampleBatch ∧
    @committedItems .sample [] = .ok [] ∧
    @committedItems .sample [.eventMsg (.threadSettingsApplied sampleSettings)] =
      .ok [.eventMsg (.threadSettingsApplied sampleSettings)] ∧
    @committedItems .sample
      ([] ++ [sampleCheckpoint] ++ [.eventMsg (.threadSettingsApplied sampleSettings)]) = .ok [] ∧
    @committedItems .sample
      ([] ++ [sampleCheckpoint] ++ [.eventMsg (.threadSettingsApplied sampleSettings)]) ≠
      .ok ([] ++ [.eventMsg (.threadSettingsApplied sampleSettings)]) := by
  refine ⟨⟨_, rfl⟩, fun h => ?_, rfl, rfl, rfl, fun h => ?_⟩
  · exact absurd (congrArg List.length h) (by decide)
  · exact absurd (Except.ok.inj h) (by decide)

/-- A later response item survives the same crash. -/
theorem committedItems_keeps_later_response :
    @committedItems .sample ([] ++ [sampleCheckpoint] ++ [.responseItem ⟨.other, none⟩]) =
      .ok ([] ++ [.responseItem ⟨.other, none⟩]) := by
  have hproper : [sampleCheckpoint] ≠ @TransactionBatch.rows .sample sampleBatch := fun h =>
    absurd (congrArg List.length h) (by decide)
  refine (@committedItems_interrupted_iff .sample sampleBatch _ _ _ _ _ ⟨_, rfl⟩ hproper
    rfl rfl).mpr ?_
  exact @IsBoundary.not_continuesOpen .sample _ ⟨rfl, rfl⟩ _ _

/-- Soundness at an interrupted append: the rollout replays to its last row. -/
theorem committedItems_sound_interrupted :
    @committedItems .sample [sampleCheckpoint, .responseItem ⟨.other, none⟩] =
      .ok [.responseItem ⟨.other, none⟩] ∧
    @committedItems .sample [.responseItem ⟨.other, none⟩] =
      .ok [.responseItem ⟨.other, none⟩] :=
  ⟨rfl, (@committedItems_sound .sample [sampleCheckpoint, .responseItem ⟨.other, none⟩] _
    rfl).2.1⟩

/-- A checkpoint with one envelope that has metadata and one that has none. -/
def sampleMixedCheckpoint : CompactedItem :=
  { message := "summary",
    replacementHistory := some
      [⟨.message (some "msg_2") "user" [.inputText "fix the build"] none none, none⟩,
        ⟨.message (some "msg_1") "user" [.inputText "summary"] none none,
          some { rencrowCompaction := some (sampleProvenance 1) }⟩] }

/-- The absent metadata comes back as the default one, and the hash is unchanged. -/
theorem transactionHash_reload_mixed :
    @decodeCompacted .sample (@encodeCompacted .sample sampleMixedCheckpoint) =
      .ok { sampleMixedCheckpoint with
        replacementHistory := some
          [⟨.message (some "msg_2") "user" [.inputText "fix the build"] none none, some .default⟩,
            ⟨.message (some "msg_1") "user" [.inputText "summary"] none none,
              some { rencrowCompaction := some (sampleProvenance 1) }⟩] } ∧
    ∃ rows', @reloads .sample 2 [.compacted sampleMixedCheckpoint] = .ok rows' ∧
      @transactionHash .sample rows' =
        @transactionHash .sample [.compacted sampleMixedCheckpoint] := by
  have hpays : @CompactedItemWire.PayloadsRoundTrip .sample
      (CompactedItemWire.ofItem sampleMixedCheckpoint) := by
    refine @CompactedItemWire.PayloadsRoundTrip.mk .sample _ ?_ ?_ ?_ ?_ ?_ ?_
    · rintro items ⟨⟩ item hitem
      rcases mem_pair.mp hitem with rfl | rfl <;>
        exact among_roundTrips (by decide) (by decide)
    · rintro metadata ⟨⟩ m hm
      rcases mem_pair.mp hm with rfl | rfl <;>
        exact among_roundTrips (by decide) (by decide)
    all_goals rintro x ⟨⟩
  refine ⟨((@transactionHash_reload .sample).1 _ hpays).1, ?_⟩
  refine (@transactionHash_reload .sample).2 _ ?_ 2
  intro row hrow
  rw [mem_singleton.mp hrow]
  exact hpays

end RenCrow
