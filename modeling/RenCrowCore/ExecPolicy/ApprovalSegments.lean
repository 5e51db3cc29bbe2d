import RenCrowCore.ExecPolicy.AmendAgreement
import RenCrowCore.ExecPolicy.Approval

/-!
# More segments ask for more

Segments that are added to a command can only make what is required for it stricter, but
for one setting: prompts of rules are shown and prompts of the sandbox are not.

* `rank_create`: the rank of a requirement, from the rules that matched;
* `Overruled`: a prompt of a rule that stands in for one that would be rejected;
* `approvalSegments`: what more segments, an unfamiliar shell and a bypass of the sandbox
  mean for the requirement.
-/

namespace RenCrow.ExecApproval

open Safety ShellCommand Policy List

/-! ## The rank of a requirement -/

/-- From running outside the sandbox without a question to not running at all. -/
def ExecApprovalRequirement.rank : ExecApprovalRequirement → Nat
  | .skip true _ => 0
  | .skip false _ => 1
  | .needsApproval .. => 2
  | .forbidden _ => 3

/-- The rank that a decision leads to. -/
def requiredRank (approvalPolicy : AskForApproval) (promptIsRule bypass : Bool) : Decision → Nat
  | .forbidden => 3
  | .prompt => if (promptIsRejectedByPolicy approvalPolicy promptIsRule).isSome then 3 else 2
  | .allow => if bypass then 0 else 1

variable {U : Type} [LexicalPath U] [DecidableEq U]

section Request

variable (host : ApprovalHost) (policy : Policy) (req : ExecApprovalRequest U)
  (platform : DangerousCommandPlatform)

/-- The policy that decides on a request. -/
def execPolicyOf : Policy :=
  currentForEnvironment policy req.environmentPolicy req.allowPrefixRules

/-- The rules and heuristics that match the segments. -/
def matchedRulesOf (parsed : ExecPolicyCommands) : List RuleMatch :=
  parsed.commands.flatMap fun command =>
    (execPolicyOf policy req).matchesForCommandWithOptions host.env command
      (some (renderDecisionForUnmatchedCommandForPlatform host req parsed.commandOrigin platform))
      ⟨true⟩

/-- **The rank of a requirement** depends on the strictest decision, on whether a rule
prompts, and on whether rules allow every segment. -/
theorem rank_create (parsed : ExecPolicyCommands) :
    (createExecApprovalRequirementForParsedCommands host policy req parsed platform).map
        ExecApprovalRequirement.rank =
      (strictest (matchedRulesOf host policy req platform parsed)).map
        (requiredRank req.approvalPolicy
          ((matchedRulesOf host policy req platform parsed).any isPromptRule)
          (bypassSandbox host.env (execPolicyOf policy req) parsed.commands)) := by
  have hcheck : (execPolicyOf policy req).checkMultipleWithOptions host.env parsed.commands
      (renderDecisionForUnmatchedCommandForPlatform host req parsed.commandOrigin platform) ⟨true⟩ =
        Evaluation.fromMatches (matchedRulesOf host policy req platform parsed) := rfl
  unfold createExecApprovalRequirementForParsedCommands
  rw [show currentForEnvironment policy req.environmentPolicy req.allowPrefixRules =
    execPolicyOf policy req from rfl]
  simp only [hcheck, Evaluation.fromMatches]
  cases hstrict : strictest (matchedRulesOf host policy req platform parsed) with
  | none => rfl
  | some decision =>
    cases decision with
    | forbidden => rfl
    | allow =>
      cases bypassSandbox host.env (execPolicyOf policy req) parsed.commands <;> rfl
    | prompt =>
      simp only [Option.map_some, Option.bind_eq_bind, Option.bind_some, requiredRank]
      cases promptIsRejectedByPolicy req.approvalPolicy
        ((matchedRulesOf host policy req platform parsed).any isPromptRule) with
      | none => rfl
      | some reason =>
        cases (matchedRulesOf host policy req platform parsed).any isPromptRule <;> rfl

end Request

/-! ## One more list of matches -/

/-- A rule prompts in the place of heuristics whose prompt would be rejected: prompts of
rules are shown, those of the sandbox are not. -/
structure Overruled (approvalPolicy : AskForApproval) (matched more : List RuleMatch) : Prop where
  rules : promptIsRejectedByPolicy approvalPolicy true = none
  sandbox : promptIsRejectedByPolicy approvalPolicy false ≠ none
  before : strictest matched = some .prompt
  heuristic : matched.any isPromptRule = false
  after : strictest more = some .prompt
  rule : more.any isPromptRule = true

variable {approvalPolicy : AskForApproval} {matched more : List RuleMatch}
  {decision decision' : Decision}

theorem strictest_le_of_subset
    (hsub : matched ⊆ more) (h : strictest matched = some decision)
    (h' : strictest more = some decision') : decision ≤ decision' := by
  obtain ⟨⟨found, hfound, rfl⟩, -⟩ := strictest_eq_some_iff.mp h
  exact (strictest_eq_some_iff.mp h').2 found (hsub hfound)

theorem any_of_subset (hsub : matched ⊆ more)
    (h : matched.any isPromptRule = true) : more.any isPromptRule = true := by
  obtain ⟨found, hfound, hprompt⟩ := any_eq_true.mp h
  exact any_eq_true.mpr ⟨found, hsub hfound, hprompt⟩

/-- A stricter decision with no more bypass leads to a higher rank, if prompts do. -/
theorem requiredRank_mono {rule rule' bypass bypass' : Bool}
    (h : decision ≤ decision') (hbypass : bypass' = true → bypass = true)
    (hprompt : decision = .prompt → decision' = .prompt →
      requiredRank approvalPolicy rule bypass .prompt ≤
        requiredRank approvalPolicy rule' bypass' .prompt) :
    requiredRank approvalPolicy rule bypass decision ≤
      requiredRank approvalPolicy rule' bypass' decision' := by
  cases decision with
  | allow =>
    cases decision' with
    | allow =>
      cases bypass' with
      | false => cases bypass <;> simp [requiredRank]
      | true => simp [requiredRank, hbypass rfl]
    | prompt | forbidden => simp only [requiredRank]; split_ifs <;> omega
  | prompt =>
    cases decision' with
    | allow => exact absurd h (by decide)
    | prompt => exact hprompt rfl rfl
    | forbidden => simp only [requiredRank]; split_ifs <;> omega
  | forbidden =>
    cases decision' with
    | allow | prompt => exact absurd h (by decide)
    | forbidden => exact le_rfl

/-- A stricter decision, with at most one more kind of prompt and no more bypass, leads to
a higher rank unless a rule overrules the heuristics. -/
theorem requiredRank_le_iff
    {bypass bypass' : Bool} (hsub : matched ⊆ more)
    (hbypass : bypass' = true → bypass = true) (h : strictest matched = some decision)
    (h' : strictest more = some decision') :
    requiredRank approvalPolicy (matched.any isPromptRule) bypass decision ≤
        requiredRank approvalPolicy (more.any isPromptRule) bypass' decision' ↔
      ¬Overruled approvalPolicy matched more := by
  constructor
  · rintro hrank ⟨hrules, hsandbox, hbefore, hheuristic, hafter, hrule⟩
    obtain rfl := Option.some.inj (h.symm.trans hbefore)
    obtain rfl := Option.some.inj (h'.symm.trans hafter)
    rw [hheuristic, hrule] at hrank
    simp only [requiredRank, hrules, Option.isSome_none, Bool.false_eq_true, if_false] at hrank
    rw [if_pos (Option.isSome_iff_ne_none.mpr hsandbox)] at hrank
    omega
  · intro hkept
    refine requiredRank_mono (strictest_le_of_subset hsub h h') hbypass ?_
    rintro rfl rfl
    simp only [requiredRank]
    cases hheuristic : matched.any isPromptRule with
    | true => rw [any_of_subset hsub hheuristic]
    | false =>
      cases hrule : more.any isPromptRule with
      | false => exact le_rfl
      | true =>
        by_cases hrules : promptIsRejectedByPolicy approvalPolicy true = none
        · have hsandbox : promptIsRejectedByPolicy approvalPolicy false = none := by
            by_contra hsandbox
            exact hkept ⟨hrules, hsandbox, h, hheuristic, h', hrule⟩
          simp [hrules, hsandbox]
        · rw [if_pos (Option.isSome_iff_ne_none.mpr hrules)]
          split_ifs <;> omega

/-! ## Segments -/

section Request

variable (host : ApprovalHost) (policy : Policy) (req : ExecApprovalRequest U)
  (platform : DangerousCommandPlatform) {segments more : List (List String)}
  {identity : ShellIdentity}
  {command : List String}

/-- Every segment is matched, by a rule or by the heuristics. -/
theorem matchesForCommand_ne_nil (env : ProcessEnv) (command : List String)
    (fallback : HeuristicsFallback) :
    policy.matchesForCommandWithOptions env command (some fallback) ⟨true⟩ ≠ [] := by
  rw [matchesForCommand_eq]
  split_ifs with hexact hhost
  · exact hexact
  · exact hhost
  · simp

theorem matchedRulesOf_subset {origin : ExecPolicyCommandOrigin} (h : segments.Sublist more) :
    matchedRulesOf host policy req platform ⟨segments, origin⟩ ⊆
      matchedRulesOf host policy req platform ⟨more, origin⟩ := by
  intro found hfound
  obtain ⟨command, hcmd, hfound⟩ := mem_flatMap.mp hfound
  exact mem_flatMap.mpr ⟨command, h.subset hcmd, hfound⟩

theorem exists_strictest_matchedRulesOf (origin : ExecPolicyCommandOrigin) (h : segments ≠ []) :
    ∃ decision, strictest (matchedRulesOf host policy req platform ⟨segments, origin⟩) =
      some decision := by
  apply exists_strictest
  obtain ⟨command, hcmd⟩ := exists_mem_of_ne_nil _ h
  obtain ⟨found, hfound⟩ := exists_mem_of_ne_nil _ (matchesForCommand_ne_nil
    (execPolicyOf policy req) host.env command
      (renderDecisionForUnmatchedCommandForPlatform host req origin platform))
  exact ne_nil_of_mem (mem_flatMap.mpr ⟨command, hcmd, hfound⟩)

theorem bypassSandbox_of_sublist {env : ProcessEnv} {execPolicy : Policy}
    (h : segments.Sublist more)
    (hbypass : bypassSandbox env execPolicy more = true) :
    bypassSandbox env execPolicy segments = true := by
  rw [bypassSandbox, all_eq_true] at hbypass ⊢
  intro command hcmd
  exact hbypass command (h.subset hcmd)

/-- **More segments.** -/
theorem rank_le_iff_of_sublist (origin : ExecPolicyCommandOrigin) (hne : segments ≠ [])
    (h : segments.Sublist more) :
    ∃ requirement req',
      createExecApprovalRequirementForParsedCommands host policy req ⟨segments, origin⟩ platform =
          some requirement ∧
        createExecApprovalRequirementForParsedCommands host policy req ⟨more, origin⟩ platform =
          some req' ∧
        (requirement.rank ≤ req'.rank ↔
          ¬Overruled req.approvalPolicy (matchedRulesOf host policy req platform ⟨segments, origin⟩)
            (matchedRulesOf host policy req platform ⟨more, origin⟩)) := by
  have hmore : more ≠ [] := by
    rintro rfl
    exact hne (sublist_nil.mp h)
  obtain ⟨decision, hdec⟩ := exists_strictest_matchedRulesOf host policy req platform origin hne
  obtain ⟨decision', hdec'⟩ := exists_strictest_matchedRulesOf host policy req platform origin hmore
  have hrank := rank_create host policy req platform ⟨segments, origin⟩
  have hrank' := rank_create host policy req platform ⟨more, origin⟩
  rw [hdec] at hrank
  rw [hdec'] at hrank'
  obtain ⟨requirement, hreq, hrank⟩ := Option.map_eq_some_iff.mp hrank
  obtain ⟨req', hreq', hrank'⟩ := Option.map_eq_some_iff.mp hrank'
  refine ⟨requirement, req', hreq, hreq', ?_⟩
  rw [hrank, hrank']
  exact requiredRank_le_iff (matchedRulesOf_subset host policy req platform h)
    (bypassSandbox_of_sublist h) hdec hdec'

/-! ## An unfamiliar shell -/

omit [LexicalPath U] [DecidableEq U] in
theorem sandboxedDecision_le_prompt (req : ExecApprovalRequest U) :
    sandboxedDecision req ≤ .prompt := by
  unfold sandboxedDecision
  cases req.fileSystemSandboxPolicy.kind with
  | unrestricted | externalSandbox => exact Decision.allow_le _
  | restricted => cases req.sandboxPermissions.requestsSandboxOverride <;> decide

/-- A program without arguments is judged no stricter as a command than as PowerShell. -/
theorem renderDecision_generic_le (origin : ExecPolicyCommandOrigin) (program : String) :
    renderDecisionForUnmatchedCommandForPlatform host req .generic platform [program] ≤
      renderDecisionForUnmatchedCommandForPlatform host req origin platform [program] := by
  have hharmless :
      (dangerousCommandMatchForOrigin host.libraries [program] platform .generic).isSome =
      false := by
    rw [dangerousCommandMatchForOrigin, dangerousCommandMatchForPlatform_singleton]
    rfl
  unfold renderDecisionForUnmatchedCommandForPlatform
  rw [hharmless]
  by_cases hconf : host.windows = true ∧ req.windowsSandboxLevel = .disabled ∧
      profileHasManagedFilesystemRestrictions req = true
  · rw [if_pos (Or.inr hconf), if_pos (Or.inr hconf)]
  · rw [if_neg (by simp [hconf])]
    split_ifs with hguarded
    · cases req.approvalPolicy with
      | never => exact Decision.allow_le _
      | unlessTrusted => exact le_rfl
      | onRequest | granular config => exact sandboxedDecision_le_prompt req
    · exact le_rfl

/-- The requirement for a program without arguments, by the origin it is judged with. -/
theorem rank_generic_le (origin : ExecPolicyCommandOrigin) (program : String)
    {alone shell : ExecApprovalRequirement}
    (halone : createExecApprovalRequirementForParsedCommands host policy req
      ⟨[[program]], .generic⟩ platform = some alone)
    (hshell : createExecApprovalRequirementForParsedCommands host policy req
      ⟨[[program]], origin⟩ platform = some shell) : alone.rank ≤ shell.rank := by
  have hrank := rank_create host policy req platform ⟨[[program]], .generic⟩
  have hrank' := rank_create host policy req platform ⟨[[program]], origin⟩
  rw [halone] at hrank
  rw [hshell] at hrank'
  simp only [matchedRulesOf, flatMap_cons, flatMap_nil, append_nil,
    matchesForCommand_eq] at hrank hrank'
  split_ifs at hrank hrank' with hexact hhost
  · exact le_of_eq (Option.some.inj (hrank.trans hrank'.symm))
  · exact le_of_eq (Option.some.inj (hrank.trans hrank'.symm))
  · -- no rule matches, so the heuristics decide
    have hgeneric : alone.rank = requiredRank req.approvalPolicy false
        (bypassSandbox host.env (execPolicyOf policy req) [[program]])
        (renderDecisionForUnmatchedCommandForPlatform host req .generic platform [program]) :=
      Option.some.inj hrank
    have horigin : shell.rank = requiredRank req.approvalPolicy false
        (bypassSandbox host.env (execPolicyOf policy req) [[program]])
        (renderDecisionForUnmatchedCommandForPlatform host req origin platform [program]) :=
      Option.some.inj hrank'
    rw [hgeneric, horigin]
    exact requiredRank_mono (renderDecision_generic_le host req platform origin program) id
      fun _ _ => le_rfl

theorem commandsForExecPolicyForPlatform_singleton (libs : ShellLibraries) (program : String) :
    commandsForExecPolicyForPlatform libs [program] platform = ⟨[[program]], .generic⟩ := by
  have hpowershell : extractPowershellCommand [program] = none := by
    simp [extractPowershellCommand, powershellScript]
  simp [commandsForExecPolicyForPlatform, parseShellLcPlainCommands, extractBashCommand,
    parsePowershellCommandIntoPlainCommands, hpowershell]

theorem shellApprovalCommand_of_length_ne
    (h : (shellApprovalCommand identity command).length ≠ command.length) :
    ∃ exe, shellApprovalCommand identity command = [exe] := by
  cases command with
  | nil => exact absurd rfl h
  | cons exe rest =>
    unfold shellApprovalCommand at h ⊢
    dsimp only at h ⊢
    split_ifs at h ⊢ with hfamiliar
    · exact absurd rfl h
    · exact ⟨exe, rfl⟩

/-- **A program before other segments** is required as much as the program alone. -/
theorem rank_program (parsed : ExecPolicyCommands) (exe : String) :
    ∃ alone shell,
      createExecApprovalRequirementForParsedCommands host policy req ⟨[[exe]], .generic⟩ platform =
          some alone ∧
        createExecApprovalRequirementForParsedCommands host policy req
          ⟨[exe] :: parsed.commands, parsed.commandOrigin⟩ platform = some shell ∧
        (¬Overruled req.approvalPolicy
            (matchedRulesOf host policy req platform ⟨[[exe]], parsed.commandOrigin⟩)
            (matchedRulesOf host policy req platform
              ⟨[exe] :: parsed.commands, parsed.commandOrigin⟩) →
          alone.rank ≤ shell.rank) := by
  obtain ⟨alone, -, halone, -, -⟩ := rank_le_iff_of_sublist host policy req platform .generic
    (cons_ne_nil [exe] []) (List.Sublist.refl [[exe]])
  obtain ⟨single, shell, hsingle, hshell, hrank⟩ := rank_le_iff_of_sublist host policy req platform
    parsed.commandOrigin (cons_ne_nil [exe] []) ((nil_sublist parsed.commands).cons_cons [exe])
  refine ⟨alone, shell, halone, hshell, fun hkept => ?_⟩
  exact (rank_generic_le host policy req platform _ exe halone hsingle).trans (hrank.mpr hkept)

/-! ## Running outside the sandbox -/

/-- A sandbox is bypassed only for segments that rules allow, and nothing else matches. -/
theorem allowed_of_bypass {parsed : ExecPolicyCommands} {proposed : Option (List String)}
    (h : createExecApprovalRequirementForParsedCommands host policy req parsed platform =
      some (.skip true proposed)) (hcmd : command ∈ parsed.commands) :
    (∃ found ∈ (execPolicyOf policy req).matchesForCommandWithOptions host.env command none ⟨true⟩,
        found.isAllowRule = true) ∧
      ∀ found ∈ (execPolicyOf policy req).matchesForCommandWithOptions host.env command none ⟨true⟩,
        found.decision = .allow := by
  have hrank := rank_create host policy req platform parsed
  rw [h] at hrank
  obtain ⟨decision, hstrict, hzero⟩ := Option.map_eq_some_iff.mp hrank.symm
  -- only a bypass after an allow has rank zero
  have hallow : decision = .allow ∧
      bypassSandbox host.env (execPolicyOf policy req) parsed.commands = true := by
    cases decision with
    | allow =>
      by_cases hbypass : bypassSandbox host.env (execPolicyOf policy req) parsed.commands = true
      · exact ⟨rfl, hbypass⟩
      · rw [requiredRank, if_neg hbypass] at hzero
        cases hzero
    | prompt =>
      rw [requiredRank] at hzero
      split_ifs at hzero <;> cases hzero
    | forbidden => cases hzero
  obtain ⟨rfl, hbypass⟩ := hallow
  obtain ⟨found, hfound, hrule⟩ := any_eq_true.mp (all_eq_true.mp hbypass command hcmd)
  refine ⟨⟨found, hfound, hrule⟩, ?_⟩
  intro other hother
  have hmatched : other ∈ matchedRulesOf host policy req platform parsed := by
    refine mem_flatMap.mpr ⟨command, hcmd, ?_⟩
    rw [matchesForCommand_eq] at hother ⊢
    split_ifs at hother ⊢ with hexact hhost
    · exact hother
    · exact hother
    · cases hother
  have hle := (strictest_eq_some_iff.mp hstrict).2 other hmatched
  exact le_antisymm hle (Decision.allow_le _)

/-- **Segments and requirements.**  More segments never relax the requirement, unless a
rule overrules heuristics whose prompt would be rejected; with the same exception an
unfamiliar shell is required as much as its executable alone; and the sandbox is bypassed
only if every segment is allowed by a rule and matched by no stricter one. -/
theorem approvalSegments :
    (∀ origin (segments more : List (List String)), segments ≠ [] → segments.Sublist more →
      ∃ requirement requirement',
        createExecApprovalRequirementForParsedCommands host policy req ⟨segments, origin⟩ platform =
            some requirement ∧
          createExecApprovalRequirementForParsedCommands host policy req ⟨more, origin⟩ platform =
            some requirement' ∧
          (requirement.rank ≤ requirement'.rank ↔
            ¬Overruled req.approvalPolicy
              (matchedRulesOf host policy req platform ⟨segments, origin⟩)
              (matchedRulesOf host policy req platform ⟨more, origin⟩))) ∧
      (∀ identity : ShellIdentity,
        (shellApprovalCommand identity req.command).length ≠ req.command.length →
        ∃ alone shell,
          createExecApprovalRequirementForCommandPlatform host policy
              { req with command := shellApprovalCommand identity req.command } platform =
              some alone ∧
            createExecApprovalRequirementForShell host policy req identity platform = some shell ∧
            (¬Overruled req.approvalPolicy
                (matchedRulesOf host policy req platform
                  ⟨[shellApprovalCommand identity req.command],
                  (shellPolicyCommands host.libraries req.command platform).commandOrigin⟩)
                (matchedRulesOf host policy req platform
                  ⟨shellApprovalCommand identity req.command ::
                  (shellPolicyCommands host.libraries req.command platform).commands,
                  (shellPolicyCommands host.libraries req.command platform).commandOrigin⟩) →
              alone.rank ≤ shell.rank)) ∧
      ∀ parsed proposed,
        createExecApprovalRequirementForParsedCommands host policy req parsed platform =
            some (.skip true proposed) →
          ∀ command ∈ parsed.commands,
            (∃ found ∈ (execPolicyOf policy req).matchesForCommandWithOptions host.env command none
                ⟨true⟩, found.isAllowRule = true) ∧
              ∀ found ∈ (execPolicyOf policy req).matchesForCommandWithOptions host.env command none
                ⟨true⟩, found.decision = .allow := by
  refine ⟨?_, ?_, ?_⟩
  · intro origin segments more hne hsublist
    exact rank_le_iff_of_sublist host policy req platform origin hne hsublist
  · intro identity hunfamiliar
    obtain ⟨exe, hexe⟩ := shellApprovalCommand_of_length_ne hunfamiliar
    rw [hexe] at hunfamiliar ⊢
    unfold createExecApprovalRequirementForShell createExecApprovalRequirementForCommandPlatform
    rw [hexe, if_neg hunfamiliar, commandsForExecPolicyForPlatform_singleton]
    exact rank_program host policy { req with command := [exe] } platform _ exe
  · intro parsed proposed hskip command hcmd
    exact allowed_of_bypass host policy req platform hskip hcmd

end Request

/-! ## A prompt that is overruled -/

/-- A host whose libraries recognise nothing. -/
def plainHost : ApprovalHost where
  libraries := ⟨fun _ => none, fun _ => none, fun _ => none, fun _ => none, fun _ => none,
    fun _ => false⟩
  env := ⟨none, none⟩
  windows := false

/-- A rule that prompts for `deploy`. -/
def promptDeploy : Policy :=
  ⟨[("deploy", singlesRule "deploy" [] .prompt)], [], fun _ => none⟩

/-- A request to leave the sandbox, where only prompts of rules are shown. -/
def escalatedRequest (command : List String) : ExecApprovalRequest PosixPath where
  command := command
  approvalPolicy := .granular ⟨false, true⟩
  permissionProfile := .managed
  fileSystemSandboxPolicy := ⟨.restricted, []⟩
  environmentPolicy := none
  windowsSandboxLevel := .disabled
  sandboxPermissions := .requireEscalated
  prefixRule := none
  allowPrefixRules := .honor

/-- A host that reads every script as `deploy` and then `check`. -/
def scriptHost : ApprovalHost :=
  { plainHost with
    libraries :=
      { plainHost.libraries with plainCommands := fun _ => some [["deploy"], ["check"]] } }

/-- Rules that allow both commands of the script. -/
def allowScript : Policy :=
  ⟨[("deploy", singlesRule "deploy" [] .allow), ("check", singlesRule "check" [] .allow)], [],
    fun _ => none⟩

/-- A script for a shell outside the directories of the system. -/
def shellRequest : ExecApprovalRequest PosixPath :=
  { escalatedRequest ["./sh", "-c", "deploy; check"] with approvalPolicy := .onRequest }

/-- A second segment leaves a prompt; an unfamiliar shell is required as much as its executable
alone; and a script of two allowed commands runs without the sandbox. -/
theorem approvalSegments_deploy :
    (∃ requirement requirement',
      createExecApprovalRequirementForParsedCommands plainHost promptDeploy
          (escalatedRequest ["make"]) ⟨[["deploy"]], .generic⟩ .posix = some requirement ∧
        createExecApprovalRequirementForParsedCommands plainHost promptDeploy
          (escalatedRequest ["make"]) ⟨[["make"], ["deploy"]], .generic⟩ .posix =
            some requirement' ∧
        (requirement.rank ≤ requirement'.rank ↔
          ¬Overruled (.granular ⟨false, true⟩)
            (matchedRulesOf plainHost promptDeploy (escalatedRequest ["make"]) .posix
              ⟨[["deploy"]], .generic⟩)
            (matchedRulesOf plainHost promptDeploy (escalatedRequest ["make"]) .posix
              ⟨[["make"], ["deploy"]], .generic⟩))) ∧
      (∃ alone shell,
        createExecApprovalRequirementForCommandPlatform scriptHost promptDeploy
            { shellRequest with command := ["./sh"] } .posix = some alone ∧
          createExecApprovalRequirementForShell scriptHost promptDeploy shellRequest
            (.unix "/bin/zsh" false) .posix = some shell ∧ alone.rank ≤ shell.rank) ∧
      createExecApprovalRequirementForParsedCommands scriptHost allowScript shellRequest
          ⟨[["deploy"], ["check"]], .generic⟩ .posix = some (.skip true none) ∧
      ∀ command ∈ [["deploy"], ["check"]],
        ∃ found ∈ (execPolicyOf allowScript shellRequest).matchesForCommandWithOptions
          scriptHost.env command none ⟨true⟩, found.isAllowRule = true := by
  have hskip : createExecApprovalRequirementForParsedCommands scriptHost allowScript shellRequest
      ⟨[["deploy"], ["check"]], .generic⟩ .posix = some (.skip true none) := by
    decide +kernel
  refine ⟨?_, ?_, hskip, ?_⟩
  · exact (approvalSegments plainHost promptDeploy (escalatedRequest ["make"]) .posix).1 .generic
      [["deploy"]] [["make"], ["deploy"]] (by decide) (by decide)
  · have halone : shellApprovalCommand (.unix "/bin/zsh" false) shellRequest.command =
        ["./sh"] := by
      decide +kernel
    obtain ⟨alone, shell, hrequired, hshell, hrank⟩ :=
      (approvalSegments scriptHost promptDeploy shellRequest .posix).2.1 (.unix "/bin/zsh" false)
        (by rw [halone]; decide)
    rw [halone] at hrequired
    exact ⟨alone, shell, hrequired, hshell, hrank fun hoverruled => hoverruled.sandbox rfl⟩
  · intro command hcommand
    exact ((approvalSegments scriptHost allowScript shellRequest .posix).2.2 _ _ hskip command
      hcommand).1

/-- The heuristics prompt for `make`, and the prompt is rejected; with `deploy` after it, for
which a rule prompts, the user is asked about both. -/
theorem approvalSegments_relaxed :
    (createExecApprovalRequirementForParsedCommands plainHost promptDeploy
        (escalatedRequest ["make"]) ⟨[["make"]], .generic⟩ .posix).map
          ExecApprovalRequirement.rank =
        some 3 ∧
      (createExecApprovalRequirementForParsedCommands plainHost promptDeploy
        (escalatedRequest ["make"]) ⟨[["make"], ["deploy"]], .generic⟩ .posix).map
          ExecApprovalRequirement.rank = some 2 := by
  decide +kernel

end RenCrow.ExecApproval
