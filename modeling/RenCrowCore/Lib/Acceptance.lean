import Mathlib.Data.List.Induction
import Mathlib.Data.List.Perm.Basic
import RenCrowCore.Lib.Newest

/-!
# Accepting records one at a time

A bounded family that is filled record by record, in whatever order the records arrive:
each acceptance replaces the record of the same source, sorts the family and drops its
oldest records until the rest fits.

* `accept_cases`: what one acceptance can do;
* `join`, `filter_join`: acceptance without a limit, and what it does to a part of the records;
* `Stable`: the records that belong to the newest are not disputed, and none of the others
  fits beside them;
* `acceptAll_eq_newest_iff`: exactly then, every order of arrival leaves the newest records.
-/

namespace Newest

open List

variable {α κ : Type*} [LinearOrder κ]

/-- A limit that fewer records do not break. -/
structure Limit (fits : List α → Bool) : Prop where
  nil : fits [] = true
  mono : ∀ {part items : List α}, part.Sublist items → fits items = true → fits part = true

/-- A record has the source of another, and is not a change to it. -/
structure Sources (same unchanged : α → α → Bool) : Prop where
  symm : ∀ a b, same a b = same b a
  refl : ∀ a, unchanged a a = true
  unchanged_symm : ∀ a b, unchanged a b = unchanged b a

section Accept

variable (key : α → κ) (fits : List α → Bool) (same unchanged : α → α → Bool)

/-- One record comes in. -/
def accept (family : List α) (item : α) : List α :=
  match family.findIdx? (same item) with
  | none => newest fits (sortByKey key (family ++ [item]))
  | some index =>
    if (family[index]?).any (unchanged item) then family
    else newest fits (sortByKey key (family.eraseIdx index ++ [item]))

/-- Records come in one after the other. -/
def acceptAll (items : List α) : List α := items.foldl (accept key fits same unchanged) []

/-- What all records would leave, had they come at once. -/
def newestOf (items : List α) : List α := newest fits (sortByKey key items)

/-- No record has the source of one of the newest, and no other fits beside them. -/
structure Stable (items : List α) : Prop where
  undisputed : ∀ item ∈ newestOf key fits items, ∀ other ∈ items, same item other = true →
    other = item
  maximal : ∀ item ∈ items, item ∉ newestOf key fits items →
    fits (item :: newestOf key fits items) = false

end Accept

section

variable {key : α → κ} {fits : List α → Bool} {same unchanged : α → α → Bool}
variable {family items arrivals : List α} {item : α}

theorem eq_of_not_mem_eraseIdx {index : Nat} (hindex : index < family.length) (h : item ∈ family)
    (hgone : item ∉ family.eraseIdx index) : item = family[index] := by
  obtain ⟨i, hi, rfl⟩ := getElem_of_mem h
  obtain rfl : i = index := by
    by_contra hne
    exact hgone (mem_eraseIdx_iff_getElem.mpr ⟨i, hi, hne, rfl⟩)
  rfl

/-- **What one acceptance can do.** The family stays when it holds the record unchanged; else
the record joins what is left of the family. -/
theorem accept_cases {after : List α} (h : accept key fits same unchanged family item = after) :
    (∃ held ∈ family, same item held = true ∧ unchanged item held = true ∧ after = family) ∨
      ∃ kept : List α, kept.Sublist family ∧
        (∀ held ∈ family, held ∉ kept → same item held = true ∧ unchanged item held = false) ∧
        after = newestOf key fits (kept ++ [item]) := by
  subst h
  unfold accept
  cases h : family.findIdx? (same item) with
  | none => exact .inr ⟨family, .refl _, fun held hmem hnot => absurd hmem hnot, rfl⟩
  | some index =>
    obtain ⟨hindex, hsame, -⟩ := findIdx?_eq_some_iff_getElem.mp h
    simp only [getElem?_eq_getElem hindex, Option.any_some]
    split
    · next hunchanged =>
        exact .inl ⟨_, getElem_mem hindex, hsame, hunchanged, rfl⟩
    · next hchanged =>
        refine .inr ⟨family.eraseIdx index, eraseIdx_sublist _ _, ?_, rfl⟩
        intro held hmem hnot
        rw [eq_of_not_mem_eraseIdx hindex hmem hnot]
        exact ⟨hsame, Bool.eq_false_iff.mpr hchanged⟩

theorem acceptAll_append_singleton (arrived : List α) (item : α) :
    acceptAll key fits same unchanged (arrived ++ [item]) =
      accept key fits same unchanged (acceptAll key fits same unchanged arrived) item := by
  rw [acceptAll, foldl_append]
  rfl

theorem newestOf_subset (items : List α) : newestOf key fits items ⊆ items :=
  fun _ h => mem_sortByKey.mp ((newest_sublist _ _).subset h)

/-- Only the record comes in. -/
theorem accept_subset (family : List α) (item : α) :
    accept key fits same unchanged family item ⊆ item :: family := by
  intro member hin
  rcases accept_cases (rfl : accept key fits same unchanged family item = _) with
    ⟨held, -, -, -, heq⟩ | ⟨kept, hkept, -, heq⟩
  · exact mem_cons_of_mem _ (heq ▸ hin)
  · have hin := newestOf_subset _ (heq ▸ hin)
    rcases mem_append.mp hin with hin | hin
    · exact mem_cons_of_mem _ (hkept.subset hin)
    · rw [mem_singleton.mp hin]
      exact mem_cons_self

theorem foldl_accept_subset (family arrivals : List α) :
    arrivals.foldl (accept key fits same unchanged) family ⊆ arrivals ++ family := by
  induction arrivals generalizing family with
  | nil => exact fun _ h => h
  | cons item arrivals ih =>
    intro member hin
    rcases mem_append.mp (ih _ hin) with hin | hin
    · exact mem_append_left _ (mem_cons_of_mem _ hin)
    · rcases mem_cons.mp (accept_subset family item hin) with rfl | hin
      · exact mem_append_left _ mem_cons_self
      · exact mem_append_right _ hin

/-! ## Acceptance without a limit -/

variable (key same unchanged) in
/-- One record comes in, and none is dropped. -/
def join (family : List α) (item : α) : List α :=
  accept key (fun _ => true) same unchanged family item

theorem newest_true (items : List α) : newest (fun _ => true) items = items := newest_eq_self rfl

/-- While all records fit, the limit plays no part. -/
theorem accept_eq_join (h : fits (join key same unchanged family item) = true) :
    accept key fits same unchanged family item = join key same unchanged family item := by
  unfold join accept at h ⊢
  cases hfound : family.findIdx? (same item) with
  | none =>
    simp only [hfound, newest_true] at h ⊢
    exact newest_eq_self h
  | some index =>
    simp only [hfound, newest_true] at h ⊢
    split
    · rfl
    · rename_i hchanged
      rw [if_neg hchanged] at h
      exact newest_eq_self h

theorem pairwise_join (h : family.Pairwise fun a b => key a ≤ key b) :
    (join key same unchanged family item).Pairwise fun a b => key a ≤ key b := by
  rcases accept_cases (rfl : join key same unchanged family item = _) with
    ⟨-, -, -, -, heq⟩ | ⟨kept, -, -, heq⟩
  · rw [heq]
    exact h
  · rw [heq, newestOf, newest_true]
    exact pairwise_sortByKey _

theorem join_of_none (h : ∀ held ∈ family, same item held = false) :
    join key same unchanged family item = sortByKey key (family ++ [item]) := by
  rw [join, accept, findIdx?_eq_none_iff.mpr h, newest_true]

/-- The first record of the same source is the one that counts. -/
theorem join_of_split {front rest : List α} {held : α}
    (hfront : ∀ other ∈ front, same item other = false) (hsame : same item held = true) :
    join key same unchanged (front ++ held :: rest) item =
      if unchanged item held then front ++ held :: rest
      else sortByKey key (front ++ rest ++ [item]) := by
  have hfound : (front ++ held :: rest).findIdx? (same item) = some front.length := by
    rw [findIdx?_append, findIdx?_eq_none_iff.mpr hfront, findIdx?_cons, hsame]
    simp
  rw [join, accept, hfound]
  simp [newest_true, eraseIdx_append_of_length_le]

variable (same) in
theorem split_of_same (family : List α) (item : α) :
    (∀ held ∈ family, same item held = false) ∨
      ∃ front held rest, family = front ++ held :: rest ∧ same item held = true ∧
        ∀ other ∈ front, same item other = false := by
  cases hfound : family.find? (same item) with
  | none => exact .inl fun held hheld => by simpa using find?_eq_none.mp hfound held hheld
  | some held =>
    obtain ⟨hsame, front, rest, heq, hfront⟩ := find?_eq_some_iff_append.mp hfound
    exact .inr ⟨front, held, rest, heq, hsame, fun other hother => by
      simpa using hfront other hother⟩

variable {p : α → Bool}

/-- A record outside of a part that replaces nothing in it leaves the part alone. -/
theorem filter_join_of_not (hitem : p item = false)
    (hsorted : family.Pairwise fun a b => key a ≤ key b)
    (hkept : ∀ held ∈ family, p held = true → same item held = true →
      unchanged item held = true) :
    (join key same unchanged family item).filter p = family.filter p := by
  have hpart : sortByKey key (family.filter p) = family.filter p :=
    sortByKey_eq_self (hsorted.sublist filter_sublist)
  have hlast : [item].filter p = [] := by simp [hitem]
  rcases split_of_same same family item with hnone | ⟨front, held, rest, rfl, hsame, hfront⟩
  · rw [join_of_none hnone, filter_sortByKey, filter_append, hlast, append_nil, hpart]
  · rw [join_of_split hfront hsame]
    split
    · rfl
    · rename_i hchanged
      have hheld : p held = false := by
        by_contra hin
        exact hchanged (hkept held (by simp) (by simpa using hin) hsame)
      rw [filter_sortByKey, filter_append, hlast, append_nil, ← hpart]
      simp [hheld]

/-- A record of a part that meets nothing outside of it joins the part. -/
theorem filter_join (hitem : p item = true)
    (hmeets : ∀ held ∈ family, p held = false → same item held = false) :
    (join key same unchanged family item).filter p =
      join key same unchanged (family.filter p) item := by
  have hlast : [item].filter p = [item] := by simp [hitem]
  rcases split_of_same same family item with hnone | ⟨front, held, rest, rfl, hsame, hfront⟩
  · rw [join_of_none hnone, join_of_none fun held hheld => hnone held (mem_filter.mp hheld).1,
      filter_sortByKey, filter_append, hlast]
  · have hheld : p held = true := by
      by_contra hout
      rw [hmeets held (by simp) (by simpa using hout)] at hsame
      cases hsame
    have hsplit : (front ++ held :: rest).filter p = front.filter p ++ held :: rest.filter p := by
      simp [hheld]
    rw [hsplit, join_of_split hfront hsame,
      join_of_split (fun other hother => hfront other (mem_filter.mp hother).1) hsame]
    split
    · exact hsplit
    · rw [filter_sortByKey, filter_append, filter_append, hlast]

/-! ## What a family keeps -/

/-- The family after some records came in. -/
structure Family (key : α → κ) (fits : List α → Bool) (arrived family : List α) : Prop where
  subset : family ⊆ arrived
  sorted : family.Pairwise fun a b => key a < key b
  within : fits family = true

theorem family_nil (hlimit : Limit fits) : Family key fits [] [] := ⟨nil_subset _, .nil, hlimit.nil⟩

/-- What every acceptance of a fresh record keeps holds of the whole run. -/
theorem acceptAll_rule {motive : List α → List α → Prop} (hnil : motive [] [])
    (hstep : ∀ arrived family item, arrived ++ [item] ⊆ items → item ∉ arrived →
      motive arrived family →
      motive (arrived ++ [item]) (accept key fits same unchanged family item))
    (hnodup : arrivals.Nodup) (hsub : arrivals ⊆ items) :
    motive arrivals (acceptAll key fits same unchanged arrivals) := by
  induction arrivals using List.reverseRecOn with
  | nil => exact hnil
  | append_singleton arrived item ih =>
    obtain ⟨hnodup, -, hdisj⟩ := nodup_append.mp hnodup
    rw [acceptAll_append_singleton]
    refine hstep arrived _ item hsub ?_ (ih hnodup fun _ hmem =>
      hsub (mem_append_left _ hmem))
    exact fun harrived => hdisj item harrived item mem_cons_self rfl

section Limited

variable {arrived kept : List α}

/-- The record that comes in has a key of its own. -/
theorem Family.keys_nodup (h : Family key fits arrived family) (hkeys : (items.map key).Nodup)
    (hsub : arrived ++ [item] ⊆ items) (hfresh : item ∉ arrived) (hkept : kept.Sublist family) :
    ((kept ++ [item]).map key).Nodup := by
  rw [map_append, map_singleton]
  refine nodup_append.mpr ⟨pairwise_map.mpr ((h.sorted.sublist hkept).imp fun h => h.ne),
    nodup_singleton _, ?_⟩
  rintro _ hin _ hitem rfl
  obtain ⟨member, hin, hkey⟩ := mem_map.mp hin
  have harrived := h.subset (hkept.subset hin)
  rw [inj_on_of_nodup_map hkeys (hsub (mem_append_left _ harrived))
    (hsub (mem_append_right _ mem_cons_self))
    (hkey.trans (mem_singleton.mp hitem))] at harrived
  exact hfresh harrived

/-- Records in order split into older ones and some of the newest. -/
theorem exists_split_newestOf (fits : List α → Bool) {part : List α} (hkeys : (items.map key).Nodup)
    (hpart : part.Pairwise fun a b => key a < key b) (hsub : part ⊆ items) :
    ∃ old new, part = old ++ new ∧ new.Sublist (newestOf key fits items) ∧
      ∀ member ∈ old, member ∉ newestOf key fits items := by
  have hsort := pairwise_lt_sortByKey hkeys
  have hsublist := sublist_of_pairwise_lt hpart hsort fun _ h => mem_sortByKey.mpr (hsub h)
  have hnodup := nodup_of_pairwise_lt hsort
  obtain ⟨before, hwhole⟩ := newest_suffix fits (sortByKey key items)
  rw [← hwhole] at hsublist hnodup
  obtain ⟨old, new, hsplit, hold, hnew⟩ := sublist_append_iff.mp hsublist
  exact ⟨old, new, hsplit, hnew, fun member hmem hin =>
    (nodup_append.mp hnodup).2.2 member (hold.subset hmem) member hin rfl⟩

variable (hlimit : Limit fits) (hkeys : (items.map key).Nodup)
include hlimit hkeys

/-- A part keeps its records that are among the newest of all. -/
theorem mem_newestOf_part {part : List α} (hpart : part ⊆ items)
    (hpartKeys : (part.map key).Nodup) (hnewest : item ∈ newestOf key fits items)
    (hitem : item ∈ part) : item ∈ newestOf key fits part := by
  obtain ⟨old, new, hsplit, hnew, hold⟩ := exists_split_newestOf fits hkeys
    (pairwise_lt_sortByKey hpartKeys) fun _ h => hpart (mem_sortByKey.mp h)
  have hitem : item ∈ old ++ new := hsplit ▸ mem_sortByKey.mpr hitem
  have hin := (mem_append.mp hitem).resolve_left fun hmem => hold item hmem hnewest
  have hfits := hlimit.mono hnew (fits_newest hlimit.nil _)
  rw [newestOf, hsplit]
  exact (suffix_newest (suffix_append _ _) hfits).subset hin

theorem Family.accept (hsub : arrived ++ [item] ⊆ items) (hfresh : item ∉ arrived)
    (h : Family key fits arrived family) :
    Family key fits (arrived ++ [item]) (Newest.accept key fits same unchanged family item) := by
  rcases accept_cases (rfl : Newest.accept key fits same unchanged family item = _) with
    ⟨held, -, -, -, heq⟩ | ⟨kept, hkept, -, heq⟩ <;> rw [heq]
  · exact ⟨fun _ hmem => mem_append_left _ (h.subset hmem), h.sorted, h.within⟩
  · refine ⟨fun member hmem => ?_, ?_, fits_newest hlimit.nil _⟩
    · rcases mem_append.mp (newestOf_subset _ hmem) with hmem | hmem
      · exact mem_append_left _ (h.subset (hkept.subset hmem))
      · exact mem_append_right _ hmem
    · exact (pairwise_lt_sortByKey (h.keys_nodup hkeys hsub hfresh hkept)).sublist
        (newest_sublist _ _)

/-- **One more record.** The family keeps what belongs to the newest of all. -/
theorem Family.mem_accept (hsrcs : Sources same unchanged) (hstable : Stable key fits same items)
    (hsub : arrived ++ [item] ⊆ items) (hfresh : item ∉ arrived)
    (h : Family key fits arrived family)
    (hheld : ∀ member ∈ newestOf key fits items, member ∈ arrived → member ∈ family) :
    ∀ member ∈ newestOf key fits items, member ∈ arrived ++ [item] →
      member ∈ Newest.accept key fits same unchanged family item := by
  have hitem : item ∈ items := hsub (mem_append_right _ mem_cons_self)
  have hfam : family ⊆ items := fun _ hmem => hsub (mem_append_left _ (h.subset hmem))
  intro member hin harrived
  rcases accept_cases (rfl : Newest.accept key fits same unchanged family item = _) with
    ⟨held, hmem, hsame, -, heq⟩ | ⟨kept, hkept, hgone, heq⟩ <;> rw [heq]
  · rcases mem_append.mp harrived with harrived | harrived
    · exact hheld member hin harrived
    · -- the family holds the source of the record, so it holds the record
      rw [mem_singleton.mp harrived] at hin ⊢
      rwa [← hstable.undisputed item hin held (hfam hmem) hsame]
  · have hkeptSubset : kept ++ [item] ⊆ items :=
      append_subset.mpr ⟨fun _ hmem => hfam (hkept.subset hmem),
        cons_subset.mpr ⟨hitem, nil_subset _⟩⟩
    refine mem_newestOf_part hlimit hkeys hkeptSubset (h.keys_nodup hkeys hsub hfresh hkept) hin ?_
    rcases mem_append.mp harrived with harrived | harrived
    · have hmem := hheld member hin harrived
      by_contra hnot
      -- a record of the newest is only replaced by itself, and that is no change
      obtain ⟨hsame, hchanged⟩ := hgone member hmem fun hk => hnot (mem_append_left _ hk)
      rw [hsrcs.symm] at hsame
      rw [hstable.undisputed member hin item hitem hsame, hsrcs.refl] at hchanged
      cases hchanged
    · exact mem_append_right _ harrived

theorem family_acceptAll (hnodup : arrivals.Nodup) (hsub : arrivals ⊆ items) :
    Family key fits arrivals (acceptAll key fits same unchanged arrivals) :=
  acceptAll_rule (family_nil hlimit)
    (fun _ _ _ hsub hfresh h => h.accept hlimit hkeys hsub hfresh) hnodup hsub

theorem mem_acceptAll (hsrcs : Sources same unchanged) (hstable : Stable key fits same items)
    (hnodup : arrivals.Nodup) (hsub : arrivals ⊆ items) :
    ∀ member ∈ newestOf key fits items, member ∈ arrivals →
      member ∈ acceptAll key fits same unchanged arrivals := by
  refine (acceptAll_rule (motive := fun arrived family => Family key fits arrived family ∧
    ∀ member ∈ newestOf key fits items, member ∈ arrived → member ∈ family)
    ⟨family_nil hlimit, by simp⟩ ?_ hnodup hsub).2
  intro arrived family item hsub hfresh h
  exact ⟨h.1.accept hlimit hkeys hsub hfresh,
    h.1.mem_accept hlimit hkeys hsrcs hstable hsub hfresh h.2⟩

/-! ## Every order of arrival -/

/-- A family that holds the newest records and fits is those records. -/
theorem Family.eq_newestOf (hmaximal : ∀ item ∈ items, item ∉ newestOf key fits items →
      fits (item :: newestOf key fits items) = false)
    (hsub : arrivals ⊆ items) (h : Family key fits arrivals family)
    (hheld : newestOf key fits items ⊆ family) : family = newestOf key fits items := by
  obtain ⟨old, new, rfl, hnew, hold⟩ := exists_split_newestOf fits hkeys h.sorted
    fun _ hmem => hsub (h.subset hmem)
  have hnewest : newestOf key fits items ⊆ new := fun member hin =>
    (mem_append.mp (hheld hin)).resolve_left fun hmem => hold member hmem hin
  have hnew : new = newestOf key fits items := by
    refine hnew.antisymm (sublist_of_pairwise_lt
      ((pairwise_lt_sortByKey hkeys).sublist (newest_sublist _ _))
      (h.sorted.sublist (sublist_append_right _ _)) hnewest)
  subst hnew
  cases old with
  | nil => rfl
  | cons member old =>
    -- an older record that is still there would fit beside the newest
    have hfits : fits (member :: newestOf key fits items) = true :=
      hlimit.mono ((sublist_append_right old _).cons_cons member) h.within
    rw [hmaximal member (hsub (h.subset mem_cons_self)) (hold member mem_cons_self)] at hfits
    cases hfits

theorem acceptAll_eq_newest (hsrcs : Sources same unchanged)
    (hstable : Stable key fits same items) (hperm : arrivals.Perm items) :
    acceptAll key fits same unchanged arrivals = newestOf key fits items := by
  have hnodup : arrivals.Nodup := hperm.nodup_iff.mpr hkeys.of_map
  have hheld := mem_acceptAll hlimit hkeys hsrcs hstable hnodup hperm.subset
  exact (family_acceptAll hlimit hkeys hnodup hperm.subset).eq_newestOf hlimit hkeys hstable.maximal
    hperm.subset fun member hin =>
      hheld member hin (hperm.symm.subset (newestOf_subset _ hin))

end Limited

/-! ## Orders of arrival that differ -/

/-- A record whose source is not there joins the family. -/
theorem accept_fresh (h : ∀ held ∈ family, same item held = false) :
    accept key fits same unchanged family item = newestOf key fits (family ++ [item]) := by
  have hnone : family.findIdx? (same item) = none := findIdx?_eq_none_iff.mpr h
  rw [accept, hnone]
  rfl

/-- Records that come in order and fit all stay. -/
theorem acceptAll_eq_self (hlimit : Limit fits) (hsort : arrivals.Pairwise fun a b => key a ≤ key b)
    (hfresh : arrivals.Pairwise fun a b => same b a = false) (hfits : fits arrivals = true) :
    acceptAll key fits same unchanged arrivals = arrivals := by
  induction arrivals using List.reverseRecOn with
  | nil => rfl
  | append_singleton arrivals item ih =>
    obtain ⟨hfreshInit, -, hfreshItem⟩ := pairwise_append.mp hfresh
    rw [acceptAll_append_singleton, ih (pairwise_append.mp hsort).1 hfreshInit
      (hlimit.mono (sublist_append_left _ _) hfits), accept_fresh fun held hheld =>
        hfreshItem held hheld item mem_cons_self, newestOf, sortByKey_eq_self hsort,
      newest_eq_self hfits]

theorem newestOf_singleton (h : fits [item] = true) : newestOf key fits [item] = [item] :=
  newest_eq_self h

theorem accept_nil (h : fits [item] = true) : accept key fits same unchanged [] item = [item] :=
  newestOf_singleton h

/-- The source of the only record comes again. -/
theorem accept_singleton {held : α} (h : same item held = true) :
    accept key fits same unchanged [held] item =
      if unchanged item held then [held] else newestOf key fits [item] := by
  simp [accept, newestOf, findIdx?_cons, h]

/-- When two records have one source, one of them can come so that the first of them is lost. -/
theorem undisputed_of_acceptAll (hsrcs : Sources same unchanged) (hitems : items.Nodup)
    (hsingle : ∀ item ∈ items, fits [item] = true)
    (hall : ∀ arrivals : List α, arrivals.Perm items →
      acceptAll key fits same unchanged arrivals = newestOf key fits items)
    (hnewest : item ∈ newestOf key fits items) {other : α} (hother : other ∈ items)
    (hsame : same item other = true) : other = item := by
  classical
  by_contra hne
  have hitem : item ∈ items := newestOf_subset _ hnewest
  obtain ⟨rest, hrest⟩ : ∃ rest : List α, items.Perm (item :: other :: rest) :=
    ⟨(items.erase item).erase other, (perm_cons_erase hitem).trans
      ((perm_cons_erase ((mem_erase_of_ne hne).mpr hother)).cons item)⟩
  have hfresh : item ∉ rest := fun hmem =>
    (nodup_cons.mp (hrest.nodup_iff.mp hitems)).1 (mem_cons_of_mem _ hmem)
  -- the family after the two records is only the other one
  have hlost : ∀ arrivals : List α, arrivals.Perm items →
      acceptAll key fits same unchanged arrivals =
        rest.foldl (accept key fits same unchanged) [other] → False := by
    intro arrivals hperm heq
    rw [← hall arrivals hperm, heq] at hnewest
    rcases mem_append.mp (foldl_accept_subset [other] rest hnewest) with hmem | hmem
    · exact hfresh hmem
    · exact hne (mem_singleton.mp hmem).symm
  cases hunchanged : unchanged item other with
  | true =>
    refine hlost (other :: item :: rest) ((List.Perm.swap _ _ _).trans hrest.symm) ?_
    rw [acceptAll, foldl_cons, foldl_cons, accept_nil (hsingle other hother),
      accept_singleton hsame, if_pos hunchanged]
  | false =>
    refine hlost (item :: other :: rest) hrest.symm ?_
    rw [hsrcs.unchanged_symm] at hunchanged
    rw [hsrcs.symm] at hsame
    rw [acceptAll, foldl_cons, foldl_cons, accept_nil (hsingle item hitem),
      accept_singleton hsame, hunchanged, if_neg (by decide),
        newestOf_singleton (hsingle other hother)]

/-- A record that fits beside the newest is not dropped when it comes last. -/
theorem accept_ne_of_fits {arrived newer : List α} (hkeys : (items.map key).Nodup)
    (hlimit : Limit fits) (hsub : arrived ++ [item] ⊆ items) (hfresh : item ∉ arrived)
    (h : Family key fits arrived family)
    (hundisputed : ∀ member ∈ newer, same member item = true → item = member)
    (hsrcs : Sources same unchanged) (hnot : item ∉ newer) (hfits : fits (item :: newer) = true) :
    accept key fits same unchanged family item ≠ newer := by
  intro haccept
  rcases accept_cases haccept with ⟨held, hheld, hsame, -, rfl⟩ | ⟨kept, hkept, -, heq⟩
  · rw [hsrcs.symm] at hsame
    exact hnot (hundisputed held hheld hsame ▸ hheld)
  · have hkeptKeys := h.keys_nodup hkeys hsub hfresh hkept
    have hsort := pairwise_lt_sortByKey hkeptKeys
    obtain ⟨old, hwhole⟩ := newest_suffix fits (sortByKey key (kept ++ [item]))
    have hnewer : newest fits (sortByKey key (kept ++ [item])) = newer := heq.symm
    rw [hnewer] at hwhole
    have hitem : item ∈ old ++ newer := by
      rw [hwhole]
      exact mem_sortByKey.mpr (mem_append_right _ mem_cons_self)
    -- the record just older than the newest fits beside them, whichever it is
    obtain ⟨older, last, rfl⟩ : ∃ older last, old = older ++ [last] := by
      refine (eq_nil_or_concat' old).resolve_left fun hnil => ?_
      rw [hnil] at hitem
      exact hnot hitem
    have hsuf : last :: newer <:+ sortByKey key (kept ++ [item]) :=
      ⟨older, by rw [← hwhole, append_assoc, singleton_append]⟩
    have hlast : fits (last :: newer) = true := by
      by_cases hlast : last = item
      · rwa [hlast]
      · have hkeptSubset : last :: newer ⊆ kept := by
          intro member hin
          rcases mem_append.mp (mem_sortByKey.mp (hsuf.subset hin)) with hmem | hmem
          · exact hmem
          · rw [mem_singleton.mp hmem] at hin
            rcases mem_cons.mp hin with heq | hin
            · exact absurd heq.symm hlast
            · exact absurd hin hnot
        have hsublist : (last :: newer).Sublist kept :=
          sublist_of_pairwise_lt (hsort.sublist hsuf.sublist) (h.sorted.sublist hkept) hkeptSubset
        exact hlimit.mono (hsublist.trans hkept) h.within
    have hlen := (suffix_newest hsuf hlast).length_le
    rw [hnewer, length_cons] at hlen
    omega

/-- **Every order of arrival leaves the newest records** exactly when they are not disputed
and no other record fits beside them. -/
theorem acceptAll_eq_newest_iff (hlimit : Limit fits) (hsrcs : Sources same unchanged)
    (hkeys : (items.map key).Nodup) (hsingle : ∀ item ∈ items, fits [item] = true) :
    (∀ arrivals : List α, arrivals.Perm items →
      acceptAll key fits same unchanged arrivals = newestOf key fits items) ↔
      Stable key fits same items := by
  classical
  constructor
  · intro hall
    have hundisputed : ∀ item ∈ newestOf key fits items, ∀ other ∈ items,
        same item other = true → other = item := fun item hitem other hother hsame =>
      undisputed_of_acceptAll hsrcs hkeys.of_map hsingle hall hitem hother hsame
    refine ⟨hundisputed, fun item hitem hnot => Bool.eq_false_iff.mpr fun hfits => ?_⟩
    have hperm : (items.erase item ++ [item]).Perm items :=
      (perm_append_singleton _ _).trans (perm_cons_erase hitem).symm
    have hnodup := nodup_append.mp (hperm.nodup_iff.mpr hkeys.of_map)
    have hfam : Family key fits (items.erase item)
        (acceptAll key fits same unchanged (items.erase item)) :=
      family_acceptAll hlimit hkeys hnodup.1 erase_subset
    refine accept_ne_of_fits hkeys hlimit hperm.subset (fun hmem =>
      hnodup.2.2 item hmem item mem_cons_self rfl) hfam (fun member hin hsame =>
        hundisputed member hin item hitem hsame) hsrcs hnot hfits ?_
    rw [← hall _ hperm]
    exact (acceptAll_append_singleton _ _).symm
  · intro hstable arrivals hperm
    exact acceptAll_eq_newest hlimit hkeys hsrcs hstable hperm

end

end Newest
