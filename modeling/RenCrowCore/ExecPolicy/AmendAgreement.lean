import RenCrowCore.ExecPolicy.Amend

/-!
# The rules file and the running policy

Which updates leave a rules file whose policy decides as the policy of the running
process does.

* `Policy.Agree`: the two policies decide every command and every host alike;
* `Policy.agree_addAllow`: a rule for a command that a rule for the program as it is
  written matches already adds nothing;
* `ExecPolicyManager.inStep`: the updates that are safe in a state;
* `ExecPolicyManager.update_agrees`: safe updates keep the agreement.
-/

namespace RenCrow

open Fallible Run Evaluation List

namespace Policy

/-! ## What a policy decides -/

variable {matchedRules : List RuleMatch}

theorem strictest_eq_none_iff : strictest matchedRules = none ↔ matchedRules = [] := by
  rw [strictest, max?_eq_none_iff, map_eq_nil_iff]

/-- The decision on a command: by the strictest rule for the program as it is written,
else by the strictest rule for its base name, else by the fallback. -/
theorem decision_checkWithOptions (env : ProcessEnv) (policy : Policy) (cmd : List String)
    (fallback : HeuristicsFallback) :
    (policy.checkWithOptions env cmd fallback ⟨true⟩).map decision =
      ((strictest (policy.exactMatches cmd)).or
        (strictest (policy.matchHostExecutableRules env cmd))).or (some (fallback cmd)) := by
  have hdec (found : List RuleMatch) : (fromMatches found).map decision = strictest found := by
    simp [fromMatches, Function.comp_def]
  rw [checkWithOptions, hdec, matchesForCommand_eq]
  by_cases hexact : policy.exactMatches cmd = []
  · have hnone := strictest_eq_none_iff.mpr hexact
    by_cases hhost : policy.matchHostExecutableRules env cmd = []
    · rw [if_neg (not_not.mpr hexact), if_neg (not_not.mpr hhost), hnone,
        strictest_eq_none_iff.mpr hhost]
      rfl
    · obtain ⟨decision, hsome⟩ := exists_strictest hhost
      rw [if_neg (not_not.mpr hexact), if_pos hhost, hnone, hsome]
      rfl
  · obtain ⟨decision, hsome⟩ := exists_strictest hexact
    rw [if_pos hexact, hsome]
    rfl

theorem exactMatches_cons (policy : Policy) (first : String) (rest : List String) :
    policy.exactMatches (first :: rest) =
      (policy.getVec first).filterMap fun rule => rule.matchCommand (first :: rest) := rfl

/-- The rules for a base name are the rules for the command that begins with it. -/
theorem strictest_matchHostExecutableRules (env : ProcessEnv) (policy : Policy)
    (cmd : List String) :
    strictest (policy.matchHostExecutableRules env cmd) =
      (hostProgram env cmd).bind fun found => if policy.excludes found.1 found.2 then none
        else strictest (policy.exactMatches (found.2 :: cmd.drop 1)) := by
  unfold matchHostExecutableRules
  cases hostProgram env cmd with
  | none => rfl
  | some found =>
    obtain ⟨program, basename⟩ := found
    simp only [Option.bind_some]
    split_ifs with hexcl
    · rfl
    · rw [exactMatches_cons, strictest, strictest, map_map]
      congr 2
      funext found
      exact RuleMatch.decision_withResolvedProgram program found

/-- **Agreement** of two policies: on the strictest rule for every command, on the paths
of every base name, and on every host. -/
structure Agree (a b : Policy) : Prop where
  rules : ∀ cmd, strictest (a.exactMatches cmd) = strictest (b.exactMatches cmd)
  paths : a.hostExecutablesByName = b.hostExecutablesByName
  hosts : ∀ host, hostDecision a.networkRules host = hostDecision b.networkRules host

namespace Agree

variable {a b c : Policy}

theorem refl (a : Policy) : a.Agree a := ⟨fun _ => rfl, rfl, fun _ => rfl⟩

theorem symm (h : a.Agree b) : b.Agree a :=
  ⟨fun cmd => (h.rules cmd).symm, h.paths.symm, fun host => (h.hosts host).symm⟩

theorem trans (h : a.Agree b) (h' : b.Agree c) : a.Agree c :=
  ⟨fun cmd => (h.rules cmd).trans (h'.rules cmd), h.paths.trans h'.paths,
    fun host => (h.hosts host).trans (h'.hosts host)⟩

theorem exactMatches_eq_nil_iff (h : a.Agree b) (cmd : List String) :
    a.exactMatches cmd = [] ↔ b.exactMatches cmd = [] := by
  rw [← strictest_eq_none_iff, h.rules, strictest_eq_none_iff]

theorem decision_eq (h : a.Agree b) (env : ProcessEnv) (cmd : List String)
    (fallback : HeuristicsFallback) :
    (a.checkWithOptions env cmd fallback ⟨true⟩).map decision =
      (b.checkWithOptions env cmd fallback ⟨true⟩).map decision := by
  have hexcl (program : AbsolutePathBuf) (basename : String) :
      a.excludes program basename = b.excludes program basename := by
    rw [excludes, excludes, h.paths]
  simp only [decision_checkWithOptions, strictest_matchHostExecutableRules, h.rules, hexcl]

theorem mem_domains_iff (h : a.Agree b) (host : String) :
    (host ∈ a.compiledNetworkDomains.1 ↔ host ∈ b.compiledNetworkDomains.1) ∧
      (host ∈ a.compiledNetworkDomains.2 ↔ host ∈ b.compiledNetworkDomains.2) := by
  obtain ⟨hallowed, hdenied⟩ := mem_compiledNetworkDomains a.networkRules host
  obtain ⟨hallowed', hdenied'⟩ := mem_compiledNetworkDomains b.networkRules host
  unfold compiledNetworkDomains
  rw [hallowed, hdenied, hallowed', hdenied', h.hosts]
  exact ⟨Iff.rfl, Iff.rfl⟩

end Agree

/-! ## A further rule -/

variable {found : RuleMatch}

/-- A rule that matches a command matches every command that begins with it. -/
theorem matchCommand_of_isPrefix {rule : PrefixRule} {command cmd : List String}
    (hbegins : command <+: cmd) (h : rule.matchCommand command = some found) :
    rule.matchCommand cmd = some found := by
  obtain ⟨later, rfl⟩ := hbegins
  obtain ⟨matchedPrefix, hmatched, rfl⟩ := Option.map_eq_some_iff.mp h
  refine Option.map_eq_some_iff.mpr ⟨matchedPrefix, ?_, rfl⟩
  unfold PrefixPattern.matchesPrefix at hmatched ⊢
  dsimp only at hmatched ⊢
  split_ifs at hmatched with hshort haccepts
  obtain ⟨hlen, hhead⟩ := not_or.mp hshort
  have htake : (command ++ later).take (rule.pattern.rest.length + 1) =
      command.take (rule.pattern.rest.length + 1) :=
    take_append_of_le_length (Nat.le_of_not_lt hlen)
  have hhead' : (command ++ later).head? = some rule.pattern.first := by
    rw [head?_append, not_not.mp hhead]
    rfl
  rw [if_neg, htake, if_pos haccepts]
  · exact hmatched
  · rw [not_or, not_not]
    exact ⟨by rw [length_append]; omega, hhead'⟩

variable {policy : Policy}

theorem exactMatches_ne_nil_of_isPrefix {command cmd : List String} (hbegins : command <+: cmd)
    (h : policy.exactMatches command ≠ []) : policy.exactMatches cmd ≠ [] := by
  obtain ⟨later, rfl⟩ := hbegins
  cases command with
  | nil => exact absurd rfl h
  | cons first rest =>
    obtain ⟨found, hfound⟩ := exists_mem_of_ne_nil _ h
    obtain ⟨rule, hrule, hmatch⟩ := mem_filterMap.mp hfound
    refine ne_nil_of_mem (a := found) ?_
    exact mem_filterMap.mpr ⟨rule, hrule,
      matchCommand_of_isPrefix (prefix_append (first :: rest) later) hmatch⟩

theorem all_accepts_singles_iff {rest cmd : List String} (h : rest.length ≤ cmd.length) :
    (((rest.map PatternToken.single).zip (cmd.take rest.length)).all fun entry =>
        entry.1.accepts entry.2) = true ↔ rest <+: cmd := by
  induction rest generalizing cmd with
  | nil => simp
  | cons token rest ih =>
    cases cmd with
    | nil => simp at h
    | cons word cmd =>
      have hrest := ih (Nat.le_of_succ_le_succ h)
      simp only [map_cons, length_cons, take_succ_cons, zip_cons_cons,
        all_cons, Bool.and_eq_true, hrest, cons_prefix_cons]
      simp [PatternToken.accepts]

/-- A rule of single tokens matches the commands that begin with them. -/
theorem matchCommand_singlesRule (first : String) (rest cmd : List String) (decision : Decision) :
    (singlesRule first rest decision).matchCommand cmd =
      if (first :: rest) <+: cmd then some (.prefixRuleMatch (first :: rest) decision none none)
      else none := by
  unfold singlesRule PrefixRule.matchCommand PrefixPattern.matchesPrefix
  cases cmd with
  | nil => simp
  | cons word cmd =>
    simp only [length_map, length_cons, head?_cons, take_succ_cons,
      drop_one, tail_cons, cons_prefix_cons]
    by_cases hword : word = first
    · subst hword
      by_cases hlen : rest.length ≤ cmd.length
      · rw [if_neg (by simp; omega)]
        by_cases hrest : rest <+: cmd
        · rw [if_pos ((all_accepts_singles_iff hlen).mpr hrest), if_pos ⟨rfl, hrest⟩,
            prefix_iff_eq_take.mp hrest]
          simp
        · rw [if_neg fun hall => hrest ((all_accepts_singles_iff hlen).mp hall),
            if_neg fun hboth => hrest hboth.2]
          rfl
      · rw [if_pos (Or.inl (by omega)), if_neg fun hboth => hlen hboth.2.length_le]
        rfl
    · rw [if_pos (Or.inr (by simpa using hword)), if_neg fun hboth => hword hboth.1.symm]
      rfl

/-- The policy with a rule that allows a command. -/
def addAllow (policy : Policy) (first : String) (rest : List String) : Policy :=
  policy.addItem (WrittenRule.allowPrefix first rest).item

/-- A rule that allows a command is found for the commands that begin with it. -/
theorem exactMatches_addAllow (policy : Policy) (first : String) (rest cmd : List String) :
    (policy.addAllow first rest).exactMatches cmd = policy.exactMatches cmd ++
      if (first :: rest) <+: cmd then [.prefixRuleMatch (first :: rest) .allow none none]
      else [] := by
  cases cmd with
  | nil => simp [exactMatches, matchExactRules]
  | cons word words =>
    rw [exactMatches_cons, exactMatches_cons]
    by_cases hword : first = word
    · subst hword
      simp only [addAllow, WrittenRule.item, addItem, getVec, filter_append, map_append,
        filterMap_append]
      simp only [decide_true, filter_cons_of_pos, filter_nil, map_cons,
        map_nil, filterMap_cons, matchCommand_singlesRule, filterMap_nil]
      split_ifs <;> rfl
    · have hapart : ¬(first :: rest) <+: word :: words := fun h =>
        hword (cons_prefix_cons.mp h).1
      simp [addAllow, WrittenRule.item, addItem, getVec, hword, hapart]

theorem strictest_concat_allow (h : found.decision = .allow) :
    strictest (matchedRules ++ [found]) = some ((strictest matchedRules).getD .allow) := by
  rw [strictest_eq_some_iff]
  cases hstrict : strictest matchedRules with
  | none =>
    obtain rfl := strictest_eq_none_iff.mp hstrict
    simp [h]
  | some decision =>
    obtain ⟨⟨strict, hmem, hdec⟩, hle⟩ := strictest_eq_some_iff.mp hstrict
    refine ⟨⟨strict, mem_append_left _ hmem, hdec⟩, ?_⟩
    intro other hother
    rcases mem_append.mp hother with hother | hother
    · exact hle other hother
    · rw [mem_singleton.mp hother, h]
      exact Decision.allow_le decision

/-- The decision of the rules for a command, with a rule more that allows it. -/
theorem strictest_addAllow (policy : Policy) (first : String) (rest cmd : List String) :
    strictest ((policy.addAllow first rest).exactMatches cmd) =
      if (first :: rest) <+: cmd then some ((strictest (policy.exactMatches cmd)).getD .allow)
      else strictest (policy.exactMatches cmd) := by
  rw [exactMatches_addAllow]
  split_ifs with hbegins
  · exact strictest_concat_allow rfl
  · rw [append_nil]

theorem Agree.addAllow {a b : Policy} (h : a.Agree b) (first : String) (rest : List String) :
    (a.addAllow first rest).Agree (b.addAllow first rest) where
  rules cmd := by rw [strictest_addAllow, strictest_addAllow, h.rules]
  paths := h.paths
  hosts := h.hosts

/-- **A rule that adds nothing.**  If some rule for the program as it is written matches
a command, to allow the command by a rule of its own changes no decision. -/
theorem agree_addAllow {first : String} {rest : List String}
    (h : policy.exactMatches (first :: rest) ≠ []) : (policy.addAllow first rest).Agree policy where
  rules cmd := by
    rw [strictest_addAllow]
    split_ifs with hbegins
    · obtain ⟨decision, hdec⟩ := exists_strictest (exactMatches_ne_nil_of_isPrefix hbegins h)
      rw [hdec]
      rfl
    · rfl
  paths := rfl
  hosts _ := rfl

/-- The policy with a rule for a host. -/
def withNetworkRule (policy : Policy) (rule : NetworkRule) : Policy :=
  policy.addItem (WrittenRule.network rule).item

theorem Agree.withNetworkRule {a b : Policy} (h : a.Agree b) (rule : NetworkRule) :
    (a.withNetworkRule rule).Agree (b.withNetworkRule rule) where
  rules := h.rules
  paths := h.paths
  hosts host := by
    have hadd (policy : Policy) :
        (policy.withNetworkRule rule).networkRules = policy.networkRules ++ [rule] := rfl
    rw [hadd, hadd, hostDecision_concat, hostDecision_concat, h.hosts]

/-- The host of a rule is on the list the rule would put it on. -/
def complies (policy : Policy) (rule : NetworkRule) : Bool :=
  match rule.decision with
  | .allow => decide (rule.host ∈ policy.compiledNetworkDomains.1)
  | .forbidden => decide (rule.host ∈ policy.compiledNetworkDomains.2)
  | .prompt => true

/-- A rule that a policy complies with changes no domain. -/
theorem agree_withNetworkRule {rule : NetworkRule} (h : policy.complies rule = true) :
    (policy.withNetworkRule rule).Agree policy where
  rules _ := rfl
  paths := rfl
  hosts host := by
    have hadd : (policy.withNetworkRule rule).networkRules = policy.networkRules ++ [rule] := rfl
    rw [hadd, hostDecision_concat]
    by_cases hhost : rule.host = host
    · subst hhost
      obtain ⟨hallowed, hdenied⟩ := mem_compiledNetworkDomains policy.networkRules rule.host
      unfold complies at h
      cases hdec : rule.decision with
      | allow =>
        rw [hdec] at h
        rw [hallowed.mp (of_decide_eq_true h)]
        simp [ruleDecision, hdec]
      | forbidden =>
        rw [hdec] at h
        rw [hdenied.mp (of_decide_eq_true h)]
        simp [ruleDecision, hdec]
      | prompt => simp [ruleDecision, hdec]
    · simp [ruleDecision, hhost]

end Policy

namespace ExecPolicyManager

open Policy

/-! ## What an update does -/

/-- The file has the line of a rule. -/
def hasLine (file : List FileLine) (rule : WrittenRule) : Bool :=
  file.any fun existing => decide (existing.text = rule.line)

theorem parse_appendLockedLine (file : List FileLine) (rule : WrittenRule) :
    parse (appendLockedLine file rule) =
      if hasLine file rule then parse file else (parse file).addItem rule.item := by
  unfold appendLockedLine hasLine
  split_ifs with hline
  · rfl
  · simp [parse, FileLine.ofRule]

/-- The prefix rule of an item, under its program. -/
def programRule : PolicyItem → Option (String × PrefixRule)
  | .prefixRule program rule => some (program, rule)
  | _ => none

theorem rulesByProgram_foldl_addItem (items : List PolicyItem) (policy : Policy) :
    (items.foldl addItem policy).rulesByProgram =
      policy.rulesByProgram ++ items.filterMap programRule := by
  induction items generalizing policy with
  | nil => simp
  | cons item items ih =>
    rw [foldl_cons, ih]
    cases item with
    | prefixRule program rule => simp [addItem, programRule]
    | networkRule rule => rfl
    | hostExecutable name paths => rfl

/-- The rule of a line that the file has is in the policy of the file. -/
theorem exactMatches_parse_ne_nil {file : List FileLine} {first : String} {rest : List String}
    (h : hasLine file (.allowPrefix first rest) = true) :
    (parse file).exactMatches (first :: rest) ≠ [] := by
  obtain ⟨line, hline, htext⟩ := any_eq_true.mp h
  have hread := line.reads _ (of_decide_eq_true htext)
  have hitem : (WrittenRule.allowPrefix first rest).item ∈ file.flatMap FileLine.items := by
    refine mem_flatMap.mpr ⟨line, hline, ?_⟩
    rw [hread]
    exact mem_singleton_self _
  have hrule : (first, singlesRule first rest .allow) ∈ (parse file).rulesByProgram := by
    rw [parse, rulesByProgram_foldl_addItem]
    exact mem_append_right _ (mem_filterMap.mpr ⟨_, hitem, rfl⟩)
  have hvec : singlesRule first rest .allow ∈ (parse file).getVec first :=
    mem_map.mpr ⟨_, mem_filter.mpr ⟨hrule, decide_eq_true rfl⟩, rfl⟩
  have hmatch := matchCommand_singlesRule first rest (first :: rest) .allow
  rw [if_pos (prefix_refl _)] at hmatch
  exact ne_nil_of_mem (mem_filterMap.mpr ⟨_, hvec, hmatch⟩)

variable {manager next : ExecPolicyManager} {env : ProcessEnv} {command : List String}

/-- What an amendment does that succeeds. -/
theorem appendAmendmentAndUpdate_eq_ok
    (h : appendAmendmentAndUpdate env manager command = .ok next) :
    ∃ first rest, command = first :: rest ∧
      next.file = appendLockedLine manager.file (.allowPrefix first rest) ∧
      next.policy = if alreadyAllowed env manager.policy command then manager.policy
        else manager.policy.addAllow first rest := by
  cases command with
  | nil => cases h
  | cons first rest =>
    refine ⟨first, rest, rfl, ?_⟩
    obtain ⟨file, hfile, h⟩ := bind_eq_ok.mp h
    obtain rfl := Except.ok.inj (mapError_eq_ok.mp hfile)
    split_ifs at h ⊢ with hallowed
    · obtain rfl := Except.ok.inj h
      exact ⟨rfl, rfl⟩
    · obtain ⟨updated, hupdated, h⟩ := bind_eq_ok.mp h
      obtain rfl := Except.ok.inj (mapError_eq_ok.mp hupdated)
      obtain rfl := Except.ok.inj h
      exact ⟨rfl, rfl⟩

variable {protocol : NetworkRuleProtocol} {justification : Option String} {decision : Decision}

/-- What a network rule does that is accepted. -/
theorem appendNetworkRuleAndUpdate_eq_ok {host : String}
    (h : appendNetworkRuleAndUpdate manager host protocol decision justification = .ok next) :
    ∃ rule, networkRuleOf host protocol decision justification = .ok rule ∧
      next.file = appendLockedLine manager.file (.network rule) ∧
      next.policy = manager.policy.withNetworkRule rule := by
  obtain ⟨file, hfile, h⟩ := bind_eq_ok.mp h
  obtain ⟨updated, hupdated, h⟩ := bind_eq_ok.mp h
  obtain rfl := Except.ok.inj h
  -- the file and the policy make the same checks
  obtain ⟨normalized, hnorm, hfile⟩ := bind_eq_ok.mp (mapError_eq_ok.mp hfile)
  replace hnorm := mapError_eq_ok.mp hnorm
  by_cases hblank : justification.any Text.isBlank = true
  · rw [if_pos hblank] at hfile
    cases hfile
  · have hrule : networkRuleOf host protocol decision justification =
        .ok ⟨normalized, protocol, decision, justification⟩ := by
      unfold networkRuleOf
      rw [hnorm]
      exact if_neg hblank
    rw [if_neg hblank] at hfile
    refine ⟨_, hrule, (Except.ok.inj hfile).symm, ?_⟩
    rw [addNetworkRule, hrule] at hupdated
    exact (Except.ok.inj hupdated).symm

/-! ## Updates that are safe -/

/-- An update that is safe in a state.  A command that is allowed already is so by a rule
for the program as it is written, not by one for its base name; and a network rule whose
line the file has already is one that the policy still complies with. -/
def inStep (env : ProcessEnv) (manager : ExecPolicyManager) : PolicyUpdate → Bool
  | .amendment command =>
    !alreadyAllowed env manager.policy command || !(manager.policy.exactMatches command).isEmpty
  | .networkRule host protocol decision justification =>
    match networkRuleOf host protocol decision justification with
    | .ok rule => !hasLine manager.file (.network rule) || manager.policy.complies rule
    | .error _ => true

/-- The file of a manager agrees with its policy. -/
def InAgreement (manager : ExecPolicyManager) : Prop :=
  (parse manager.file).Agree manager.policy

variable {update : PolicyUpdate}

/-- **One update.** -/
theorem agree_update (hagree : manager.InAgreement) (hsafe : inStep env manager update = true)
    (h : manager.update env update = .ok next) : next.InAgreement := by
  unfold InAgreement at hagree ⊢
  cases update with
  | amendment command =>
    obtain ⟨first, rest, rfl, hfile, hpol⟩ := appendAmendmentAndUpdate_eq_ok h
    rw [hfile, hpol, parse_appendLockedLine]
    by_cases hline : hasLine manager.file (.allowPrefix first rest) = true
    · -- the rule is in the file, and what decides for it there decides in memory
      have hfound := exactMatches_parse_ne_nil hline
      rw [ne_eq, hagree.exactMatches_eq_nil_iff] at hfound
      split_ifs with hallowed
      · exact hagree
      · exact hagree.trans (agree_addAllow hfound).symm
    · rw [if_neg hline]
      split_ifs with hallowed
      · exact (hagree.addAllow first rest).trans (agree_addAllow
          (by simpa [inStep, hallowed] using hsafe))
      · exact hagree.addAllow first rest
  | networkRule host protocol decision justification =>
    obtain ⟨rule, hrule, hfile, hpol⟩ := appendNetworkRuleAndUpdate_eq_ok h
    rw [hfile, hpol, parse_appendLockedLine]
    split_ifs with hline
    · exact hagree.trans (agree_withNetworkRule (by simpa [inStep, hrule, hline] using hsafe)).symm
    · exact hagree.withNetworkRule rule

/-- A process that has read its rules file. -/
def load (file : List FileLine) : ExecPolicyManager := ⟨file, parse file⟩

/-- An update as a step, possible if it succeeds. -/
def step (env : ProcessEnv) (manager : ExecPolicyManager) (update : PolicyUpdate) :
    Option ExecPolicyManager :=
  (manager.update env update).toOption

/-- **The rules file and the running policy.**  After any updates that are safe in the
states they come in, the policy that is read from the file decides every command as the
running policy does, and allows and denies the same hosts. -/
theorem update_agrees (env : ProcessEnv) (file : List FileLine) (updates : List PolicyUpdate)
    (final : ExecPolicyManager) (hrun : run (step env) (load file) updates = some final)
    (hsafe : Run.Every (step env) (fun manager update => inStep env manager update = true)
      (load file) updates) :
    (∀ cmd fallback,
        ((parse final.file).checkWithOptions env cmd fallback ⟨true⟩).map Evaluation.decision =
          (final.policy.checkWithOptions env cmd fallback ⟨true⟩).map Evaluation.decision) ∧
      ∀ host,
        (host ∈ (parse final.file).compiledNetworkDomains.1 ↔
            host ∈ final.policy.compiledNetworkDomains.1) ∧
          (host ∈ (parse final.file).compiledNetworkDomains.2 ↔
            host ∈ final.policy.compiledNetworkDomains.2) := by
  have hagree : final.InAgreement := by
    refine run_invariant_of_every ?_ hrun hsafe (Agree.refl (parse file))
    intro manager update next hmanager hinStep hstep
    exact agree_update hmanager hinStep (toOption_eq_some.mp hstep)
  exact ⟨fun cmd fallback => hagree.decision_eq env cmd fallback, hagree.mem_domains_iff⟩

/-- A process that looks up no directories. -/
def noEnv : ProcessEnv := ⟨none, none⟩

theorem update_agrees_sample :
    ∃ final, run (step noEnv) (load []) [.amendment ["cargo", "build"],
        .networkRule "Example.com:443" .https .allow none,
        .networkRule "example.com" .http .forbidden (some "not in CI"),
        .amendment ["cargo", "build", "--release"]] = some final ∧
      (∀ cmd fallback,
        ((parse final.file).checkWithOptions noEnv cmd fallback ⟨true⟩).map Evaluation.decision =
          (final.policy.checkWithOptions noEnv cmd fallback ⟨true⟩).map Evaluation.decision) ∧
      ∀ host,
        (host ∈ (parse final.file).compiledNetworkDomains.1 ↔
            host ∈ final.policy.compiledNetworkDomains.1) ∧
          (host ∈ (parse final.file).compiledNetworkDomains.2 ↔
            host ∈ final.policy.compiledNetworkDomains.2) := by
  obtain ⟨final, hfinal⟩ := Option.isSome_iff_exists.mp (show (run (step noEnv) (load [])
    [.amendment ["cargo", "build"], .networkRule "Example.com:443" .https .allow none,
      .networkRule "example.com" .http .forbidden (some "not in CI"),
      .amendment ["cargo", "build", "--release"]]).isSome = true by decide +kernel)
  exact ⟨final, hfinal, update_agrees _ _ _ _ hfinal (by decide +kernel)⟩

/-- A line that forbids `git push --force`. -/
def forbidForce : FileLine where
  text := "prefix_rule(decision=\"forbidden\", pattern=[\"git\", \"push\", \"--force\"])".toList
  items := [.prefixRule "git" (singlesRule "git" ["push", "--force"] .forbidden)]
  reads rule h := by
    have hbegin (lead tail : List Char) : (lead ++ tail).take lead.length = lead := take_left' rfl
    cases rule with
    | allowPrefix first rest =>
      rw [WrittenRule.line] at h
      exact absurd (h ▸ hbegin RuleText.prefixRule _) (by decide +kernel)
    | network rule =>
      rw [WrittenRule.line] at h
      exact absurd (h ▸ hbegin RuleText.networkRule _) (by decide +kernel)

/-- A host that is allowed, denied and allowed again is denied in the file, which has the
third line already; and a command that is allowed by its base name gets a rule in the file
only, which hides there what is forbidden by the base name. -/
theorem update_disagrees :
    (run (step noEnv) (load []) [.networkRule "example.com" .https .allow none,
        .networkRule "example.com" .https .forbidden none,
        .networkRule "example.com" .https .allow none]).map (fun final =>
          ((parse final.file).compiledNetworkDomains, final.policy.compiledNetworkDomains)) =
        some (([], ["example.com"]), (["example.com"], [])) ∧
      (run (step noEnv) (load [.ofRule (.allowPrefix "git" []), forbidForce])
        [.amendment ["/usr/bin/git", "push"]]).map (fun final =>
          (((parse final.file).checkWithOptions noEnv ["/usr/bin/git", "push", "--force"]
              (fun _ => .prompt) ⟨true⟩).map Evaluation.decision,
            (final.policy.checkWithOptions noEnv ["/usr/bin/git", "push", "--force"]
              (fun _ => .prompt) ⟨true⟩).map Evaluation.decision)) =
        some (some .allow, some .forbidden) := by
  decide +kernel

end ExecPolicyManager

end RenCrow
