import Mathlib.Order.MinMax
import RenCrowCore.Utils.AbsolutePath

/-!
# Execution policies

The rules that decide whether a command may run, how the rules for it are found,
and what becomes of a managed policy that is laid over the rules of the user.

* `Policy.matchesForCommandWithOptions`: rules for the program as it is written
  come first; only if none matches, rules for the base name of its path;
* `Policy.exactMatches_mergeOverlay`, `Policy.matchHost_mergeOverlay`: the rules that
  are found in a merged policy;
* `Policy.mergeOverlay_decides_iff`: when a merged policy is at least as strict as
  the managed one.
-/

namespace RenCrow

open List

/-! ## Rules -/

/-- What a rule decides; later ones are stricter. -/
inductive Decision where
  | allow
  | prompt
  | forbidden
deriving DecidableEq, Repr

namespace Decision

/-- The position of a decision in the order of strictness. -/
def rank : Decision → Nat
  | .allow => 0
  | .prompt => 1
  | .forbidden => 2

theorem rank_injective : Function.Injective rank := by
  intro a b h
  cases a <;> cases b <;> first | rfl | cases h

instance : LinearOrder Decision := LinearOrder.lift' rank rank_injective

instance : Std.LawfulOrderMax Decision where
  max_eq_or := max_choice
  max_le_iff _ _ _ := max_le_iff

theorem allow_le (decision : Decision) : .allow ≤ decision := Nat.zero_le _

end Decision

/-- A word of a pattern, or a choice of words. -/
inductive PatternToken where
  | single (expected : String)
  | alts (alternatives : List String)
deriving DecidableEq, Repr

/-- `PatternToken::matches`. -/
def PatternToken.accepts : PatternToken → String → Bool
  | .single expected, token => decide (expected = token)
  | .alts alternatives, token => alternatives.any fun alt => decide (alt = token)

/-- The words that a command has to start with. -/
structure PrefixPattern where
  first : String
  rest : List PatternToken
deriving DecidableEq, Repr

/-- `PrefixPattern::matches_prefix`. -/
def PrefixPattern.matchesPrefix (pattern : PrefixPattern) (cmd : List String) :
    Option (List String) :=
  let patternLength := pattern.rest.length + 1
  if cmd.length < patternLength ∨ cmd.head? ≠ some pattern.first then none
  else if (pattern.rest.zip ((cmd.take patternLength).drop 1)).all fun entry =>
      entry.1.accepts entry.2 then
    some (cmd.take patternLength)
  else none

/-- A rule that matched a command, or what the heuristics say of it. -/
inductive RuleMatch where
  | prefixRuleMatch (matchedPrefix : List String) (decision : Decision)
      (resolvedProgram : Option AbsolutePathBuf) (justification : Option String)
  | heuristicsRuleMatch (command : List String) (decision : Decision)
deriving DecidableEq, Repr

namespace RuleMatch

/-- What a match decides. -/
def decision : RuleMatch → Decision
  | .prefixRuleMatch _ decision _ _ => decision
  | .heuristicsRuleMatch _ decision => decision

/-- A match that was found through the path of its program. -/
def withResolvedProgram (resolvedProgram : AbsolutePathBuf) : RuleMatch → RuleMatch
  | .prefixRuleMatch matchedPrefix decision _ justification =>
    .prefixRuleMatch matchedPrefix decision (some resolvedProgram) justification
  | other => other

@[simp] theorem decision_withResolvedProgram (program : AbsolutePathBuf) (found : RuleMatch) :
    (found.withResolvedProgram program).decision = found.decision := by
  cases found <;> rfl

end RuleMatch

/-- A rule about commands that start in a certain way. -/
structure PrefixRule where
  pattern : PrefixPattern
  decision : Decision
  justification : Option String
deriving DecidableEq, Repr

/-- `Rule::matches` of a prefix rule. -/
def PrefixRule.matchCommand (rule : PrefixRule) (cmd : List String) : Option RuleMatch :=
  (rule.pattern.matchesPrefix cmd).map fun matchedPrefix =>
    .prefixRuleMatch matchedPrefix rule.decision none rule.justification

/-- The protocols that a network rule can be about. -/
inductive NetworkRuleProtocol where
  | http
  | https
  | socks5Tcp
  | socks5Udp
deriving DecidableEq, Repr

/-- A rule about a host. -/
structure NetworkRule where
  host : String
  protocol : NetworkRuleProtocol
  decision : Decision
  justification : Option String
deriving DecidableEq, Repr

/-! ## Policies -/

/-- A set of rules. -/
structure Policy where
  /-- The rules in the order they were added, each under a program. -/
  rulesByProgram : List (String × PrefixRule)
  networkRules : List NetworkRule
  /-- The paths that a base name may stand for, where they are restricted. -/
  hostExecutablesByName : String → Option (List AbsolutePathBuf)

/-- How rules are looked for. -/
structure MatchOptions where
  resolveHostExecutables : Bool

/-- The decision for a command that no rule matches. -/
abbrev HeuristicsFallback := List String → Decision

/-- What a policy says of a command. -/
structure Evaluation where
  decision : Decision
  matchedRules : List RuleMatch

/-- The strictest decision of the rules that matched. -/
def strictest (matchedRules : List RuleMatch) : Option Decision :=
  (matchedRules.map RuleMatch.decision).max?

/-- `Evaluation::from_matches`, which panics if nothing matched. -/
def Evaluation.fromMatches (matchedRules : List RuleMatch) : Option Evaluation :=
  (strictest matchedRules).map fun decision => ⟨decision, matchedRules⟩

/-- `executable_path_lookup_key`. -/
def executablePathLookupKey (path : AbsolutePathBuf) : Option String := path.fileName

namespace Policy

/-- `MultiMap::get_vec`, with no rules for an unknown program. -/
def getVec (policy : Policy) (program : String) : List PrefixRule :=
  (policy.rulesByProgram.filter fun entry => decide (entry.1 = program)).map Prod.snd

/-- The rules of both policies; restrictions of the overlay replace those of the base. -/
def mergeOverlay (policy overlay : Policy) : Policy where
  rulesByProgram := policy.rulesByProgram ++ overlay.rulesByProgram
  networkRules := policy.networkRules ++ overlay.networkRules
  hostExecutablesByName name :=
    (overlay.hostExecutablesByName name).or (policy.hostExecutablesByName name)

/-- The rules under the first word of a command. -/
def matchExactRules (policy : Policy) (cmd : List String) : Option (List RuleMatch) :=
  cmd.head?.map fun first => (policy.getVec first).filterMap fun rule => rule.matchCommand cmd

/-- The path and the base name that a program stands for. -/
def hostProgram (env : ProcessEnv) (cmd : List String) : Option (AbsolutePathBuf × String) := do
  let first ← cmd.head?
  let program ← AbsolutePathBuf.fromAbsolutePath env first
  let basename ← executablePathLookupKey program
  return (program, basename)

/-- The paths of a base name are restricted, to others. -/
def excludes (policy : Policy) (program : AbsolutePathBuf) (basename : String) : Bool :=
  (policy.hostExecutablesByName basename).any fun paths => !paths.contains program

/-- The rules under the base name of a program that is given by its path. -/
def matchHostExecutableRules (env : ProcessEnv) (policy : Policy) (cmd : List String) :
    List RuleMatch :=
  match hostProgram env cmd with
  | none => []
  | some (program, basename) =>
    if policy.excludes program basename then []
    else ((policy.getVec basename).filterMap fun rule =>
      rule.matchCommand (basename :: cmd.drop 1)).map (RuleMatch.withResolvedProgram program)

/-- The matches of a command: exact ones, else those by base name, else the heuristics. -/
def matchesForCommandWithOptions (env : ProcessEnv) (policy : Policy) (cmd : List String)
    (heuristicsFallback : Option HeuristicsFallback) (options : MatchOptions) : List RuleMatch :=
  let matchedRules :=
    (((policy.matchExactRules cmd).filter fun found => !found.isEmpty).or
      (if options.resolveHostExecutables then
        (some (policy.matchHostExecutableRules env cmd)).filter fun found => !found.isEmpty
      else none)).getD []
  match matchedRules, heuristicsFallback with
  | [], some heuristicsFallback => [.heuristicsRuleMatch cmd (heuristicsFallback cmd)]
  | _, _ => matchedRules

/-- `check_with_options`; `none` stands for a panic. -/
def checkWithOptions (env : ProcessEnv) (policy : Policy) (cmd : List String)
    (heuristicsFallback : HeuristicsFallback) (options : MatchOptions) : Option Evaluation :=
  Evaluation.fromMatches
    (policy.matchesForCommandWithOptions env cmd (some heuristicsFallback) options)

/-! ## The rules that are found -/

/-- The rules for the program as it is written. -/
def exactMatches (policy : Policy) (cmd : List String) : List RuleMatch :=
  (policy.matchExactRules cmd).getD []

theorem getVec_mergeOverlay (policy overlay : Policy) (program : String) :
    (policy.mergeOverlay overlay).getVec program =
      policy.getVec program ++ overlay.getVec program := by
  simp [getVec, mergeOverlay]

theorem exactMatches_mergeOverlay (policy overlay : Policy) (cmd : List String) :
    (policy.mergeOverlay overlay).exactMatches cmd =
      policy.exactMatches cmd ++ overlay.exactMatches cmd := by
  cases cmd with
  | nil => rfl
  | cons first rest =>
    simp [exactMatches, matchExactRules, getVec_mergeOverlay]

/-- **Two stages.**  Base names are looked up only if no rule for the program as it
is written matched, and the fallback decides only if neither did. -/
theorem matchesForCommand_eq (env : ProcessEnv) (policy : Policy) (cmd : List String)
    (heuristicsFallback : Option HeuristicsFallback) :
    policy.matchesForCommandWithOptions env cmd heuristicsFallback ⟨true⟩ =
      if policy.exactMatches cmd ≠ [] then policy.exactMatches cmd
      else if policy.matchHostExecutableRules env cmd ≠ [] then
        policy.matchHostExecutableRules env cmd
      else heuristicsFallback.elim [] fun fallback =>
        [.heuristicsRuleMatch cmd (fallback cmd)] := by
  have hexact : ((policy.matchExactRules cmd).filter fun found => !found.isEmpty) =
      if policy.exactMatches cmd ≠ [] then some (policy.exactMatches cmd) else none := by
    unfold exactMatches
    cases policy.matchExactRules cmd with
    | none => rfl
    | some found => cases found <;> simp
  unfold matchesForCommandWithOptions
  rw [hexact]
  by_cases hexact : policy.exactMatches cmd = []
  · cases hhost : policy.matchHostExecutableRules env cmd with
    | nil => cases heuristicsFallback <;> simp [hexact, Option.filter]
    | cons found rest => simp [hexact, Option.filter]
  · cases hfound : policy.exactMatches cmd with
    | nil => exact absurd hfound hexact
    | cons found rest => simp

variable {cmd : List String} {env : ProcessEnv} {policy : Policy}

theorem matchHostExecutableRules_of_hostProgram {program : AbsolutePathBuf} {basename : String}
    (h : hostProgram env cmd = some (program, basename)) :
    policy.matchHostExecutableRules env cmd = if policy.excludes program basename then []
      else ((policy.getVec basename).filterMap fun rule =>
        rule.matchCommand (basename :: cmd.drop 1)).map
          (RuleMatch.withResolvedProgram program) := by
  rw [matchHostExecutableRules, h]

/-- A managed policy that found a rule by its base name does not exclude the path. -/
theorem hostProgram_of_matchHost (h : policy.matchHostExecutableRules env cmd ≠ []) :
    ∃ program basename, hostProgram env cmd = some (program, basename) ∧
      policy.excludes program basename = false := by
  cases hprog : hostProgram env cmd with
  | none =>
    rw [matchHostExecutableRules, hprog] at h
    exact absurd rfl h
  | some found =>
    obtain ⟨program, basename⟩ := found
    refine ⟨program, basename, rfl, ?_⟩
    rw [matchHostExecutableRules_of_hostProgram hprog] at h
    by_contra hexcl
    rw [Bool.not_eq_false] at hexcl
    rw [if_pos hexcl] at h
    exact h rfl

/-! ## Strictness -/

variable {matchedRules : List RuleMatch} {decision : Decision}

/-- A strictest decision is that of one of the rules, and of no rule a stricter one. -/
theorem strictest_eq_some_iff :
    strictest matchedRules = some decision ↔ (∃ found ∈ matchedRules, found.decision = decision) ∧
        ∀ found ∈ matchedRules, found.decision ≤ decision := by
  rw [strictest, max?_eq_some_iff]
  simp only [mem_map, forall_exists_index, and_imp, forall_apply_eq_imp_iff₂]

theorem exists_strictest (h : matchedRules ≠ []) :
    ∃ decision, strictest matchedRules = some decision := by
  cases hmax : (matchedRules.map RuleMatch.decision).max? with
  | none =>
    rw [max?_eq_none_iff, map_eq_nil_iff] at hmax
    exact absurd hmax h
  | some decision => exact ⟨decision, hmax⟩

/-- An evaluation decides at least what one of its rules does. -/
theorem fromMatches_le_iff :
    (∃ evaluation, Evaluation.fromMatches matchedRules = some evaluation ∧
        decision ≤ evaluation.decision) ↔
      ∃ found ∈ matchedRules, decision ≤ found.decision := by
  constructor
  · rintro ⟨evaluation, heval, hle⟩
    obtain ⟨strict, hstrict, rfl⟩ := Option.map_eq_some_iff.mp heval
    obtain ⟨⟨found, hfound, rfl⟩, -⟩ := strictest_eq_some_iff.mp hstrict
    exact ⟨found, hfound, hle⟩
  · rintro ⟨found, hfound, hle⟩
    obtain ⟨strict, hstrict⟩ := exists_strictest (ne_nil_of_mem hfound)
    refine ⟨⟨strict, matchedRules⟩, Option.map_eq_some_iff.mpr ⟨strict, hstrict, rfl⟩, ?_⟩
    exact hle.trans ((strictest_eq_some_iff.mp hstrict).2 found hfound)

/-! ## Managed rules over the rules of the user -/

/-- The paths that the rules of the user give for the base name of a program leave its
path out, and the managed policy gives none. -/
def shadowsHost (env : ProcessEnv) (base requirements : Policy) (cmd : List String) : Bool :=
  (hostProgram env cmd).any fun (program, basename) =>
    (requirements.hostExecutablesByName basename).isNone && base.excludes program basename

theorem excludes_mergeOverlay (base reqs : Policy) (program : AbsolutePathBuf) (basename : String) :
    (base.mergeOverlay reqs).excludes program basename = (reqs.excludes program basename ||
        (reqs.hostExecutablesByName basename).isNone && base.excludes program basename) := by
  unfold excludes mergeOverlay
  cases hreq : reqs.hostExecutablesByName basename <;> simp [hreq]

/-- Base-name rules of a merged policy, where the managed policy found some. -/
theorem matchHost_mergeOverlay (base : Policy) {reqs : Policy}
    (h : reqs.matchHostExecutableRules env cmd ≠ []) :
    (base.shadowsHost env reqs cmd = true →
        (base.mergeOverlay reqs).matchHostExecutableRules env cmd = []) ∧
      (base.shadowsHost env reqs cmd = false → reqs.matchHostExecutableRules env cmd ⊆
          (base.mergeOverlay reqs).matchHostExecutableRules env cmd) := by
  obtain ⟨program, basename, hprog, hincl⟩ := hostProgram_of_matchHost h
  have hshadows : base.shadowsHost env reqs cmd =
      (base.mergeOverlay reqs).excludes program basename := by
    rw [shadowsHost, hprog, excludes_mergeOverlay, hincl, Bool.false_or]
    rfl
  rw [hshadows, matchHostExecutableRules_of_hostProgram hprog,
    matchHostExecutableRules_of_hostProgram hprog, hincl]
  constructor
  · intro hexcl
    rw [if_pos hexcl]
  · intro hexcl found hfound
    rw [hexcl, getVec_mergeOverlay, filterMap_append, map_append]
    exact mem_append_right _ hfound

/-- What keeps a decision of the managed policy in force: a managed rule for the
program as it is written; or a rule of the user for it that is as strict; or no such rule
at all, and a base name that the user's paths do not take away. -/
def Unhidden (env : ProcessEnv) (base requirements : Policy) (cmd : List String)
    (decision : Decision) : Prop :=
  requirements.exactMatches cmd ≠ [] ∨
    (∃ found ∈ base.exactMatches cmd, decision ≤ found.decision) ∨
    base.exactMatches cmd = [] ∧
      (base.shadowsHost env requirements cmd = false ∨ decision = .allow)

/-- **Managed rules over the rules of the user.**  The merged policy is at least as
strict as the managed one, whatever the fallback, exactly if the user's rules do not
hide the managed rules. -/
theorem mergeOverlay_decides_iff (env : ProcessEnv) (base requirements : Policy)
    (cmd : List String) (decision : Decision)
    (hmatches : strictest (requirements.matchesForCommandWithOptions env cmd none ⟨true⟩) =
      some decision) :
    (∀ fallback, ∃ evaluation,
        (base.mergeOverlay requirements).checkWithOptions env cmd fallback ⟨true⟩ =
          some evaluation ∧ decision ≤ evaluation.decision) ↔
      Unhidden env base requirements cmd decision := by
  obtain ⟨⟨found, hfound, rfl⟩, hstrict⟩ := strictest_eq_some_iff.mp hmatches
  simp only [checkWithOptions, fromMatches_le_iff, matchesForCommand_eq,
    exactMatches_mergeOverlay, Unhidden]
  rw [matchesForCommand_eq] at hfound
  by_cases hexact : requirements.exactMatches cmd = []
  · rw [if_neg (not_not.mpr hexact)] at hfound
    have hhost : requirements.matchHostExecutableRules env cmd ≠ [] := by
      intro hhost
      rw [if_neg (not_not.mpr hhost)] at hfound
      cases hfound
    rw [if_pos hhost] at hfound
    obtain ⟨hshadowed, hvis⟩ := matchHost_mergeOverlay base hhost
    simp only [hexact, append_nil, ne_eq, not_true_eq_false, false_or]
    by_cases hbase : base.exactMatches cmd = []
    · cases hshadows : base.shadowsHost env requirements cmd with
      | true =>
        -- the fallback decides, so only the weakest decision is kept
        simp only [hbase, hshadowed hshadows, not_true_eq_false, if_false, Option.elim_some,
          mem_singleton, exists_eq_left, RuleMatch.decision, not_mem_nil, false_and,
          exists_false, false_or, true_and, reduceCtorEq]
        exact ⟨fun hle => le_antisymm (hle fun _ => .allow) (Decision.allow_le _),
          fun hallow fallback => hallow ▸ Decision.allow_le _⟩
      | false =>
        have hmem := hvis hshadows hfound
        simp only [hbase, not_true_eq_false, if_false, ne_nil_of_mem hmem,
          not_false_eq_true, if_true, true_or, and_self, or_true, iff_true]
        exact fun _ => ⟨found, hmem, le_rfl⟩
    · simp only [hbase, not_false_eq_true, if_true, false_and, or_false]
      exact ⟨fun hle => hle fun _ => .allow, fun hle _ => hle⟩
  · have hne : base.exactMatches cmd ++ requirements.exactMatches cmd ≠ [] := by
      simp [hexact]
    rw [if_pos hexact] at hfound
    simp only [if_pos hne, hexact, ne_eq, not_false_eq_true, true_or, iff_true]
    exact fun _ => ⟨found, mem_append_right _ hfound, le_rfl⟩

/-- A rule of the user for one path of `git`. -/
def userGit : Policy :=
  ⟨[("/usr/bin/git", ⟨⟨"/usr/bin/git", []⟩, .allow, none⟩)], [], fun _ => none⟩

/-- A managed rule that forbids `git push`. -/
def managedGit : Policy :=
  ⟨[("git", ⟨⟨"git", [.single "push"]⟩, .forbidden, some "use review"⟩)], [], fun _ => none⟩

/-- A rule of the user for another command of `git`. -/
def userStatus : Policy :=
  ⟨[("git", ⟨⟨"git", [.single "status"]⟩, .allow, none⟩)], [], fun _ => none⟩

/-- Both sides fail for a rule of the user that hides the managed one, and hold for one that does
not. -/
theorem mergeOverlay_decides_iff_git :
    strictest (managedGit.matchesForCommandWithOptions ⟨none, none⟩ ["/usr/bin/git", "push"] none
        ⟨true⟩) = some .forbidden ∧
      ((∀ fallback, ∃ evaluation, (userGit.mergeOverlay managedGit).checkWithOptions ⟨none, none⟩
          ["/usr/bin/git", "push"] fallback ⟨true⟩ = some evaluation ∧
            .forbidden ≤ evaluation.decision) ↔
        Unhidden ⟨none, none⟩ userGit managedGit ["/usr/bin/git", "push"] .forbidden) ∧
      Unhidden ⟨none, none⟩ userStatus managedGit ["/usr/bin/git", "push"] .forbidden ∧
      ∀ fallback, ∃ evaluation, (userStatus.mergeOverlay managedGit).checkWithOptions ⟨none, none⟩
        ["/usr/bin/git", "push"] fallback ⟨true⟩ = some evaluation ∧
          .forbidden ≤ evaluation.decision := by
  have hforbidden : strictest (managedGit.matchesForCommandWithOptions ⟨none, none⟩
      ["/usr/bin/git", "push"] none ⟨true⟩) = some .forbidden := by decide
  have hunhidden : Unhidden ⟨none, none⟩ userStatus managedGit ["/usr/bin/git", "push"]
      .forbidden := by
    unfold Unhidden
    decide +kernel
  exact ⟨hforbidden, mergeOverlay_decides_iff _ _ _ _ _ hforbidden, hunhidden,
    (mergeOverlay_decides_iff _ _ _ _ _ hforbidden).mpr hunhidden⟩

/-- The rule of the user for the path hides the managed rule for the base name. -/
theorem mergeOverlay_allows_forbidden :
    strictest (managedGit.matchesForCommandWithOptions ⟨none, none⟩ ["/usr/bin/git", "push"] none
        ⟨true⟩) = some .forbidden ∧
      ((userGit.mergeOverlay managedGit).checkWithOptions ⟨none, none⟩ ["/usr/bin/git", "push"]
        (fun _ => .forbidden) ⟨true⟩).map Evaluation.decision = some .allow :=
  ⟨by decide, rfl⟩

end Policy

end RenCrow
