import RenCrowCore.ExecPolicy.Amend
import RenCrowCore.Core.Safety
import RenCrowCore.ShellCommand.DangerousCommand

/-!
# Approval of commands

What has to happen before a command runs: nothing, a question to the user, or a refusal
(`core/src/exec_policy.rs`).  A command is cut into segments; rules and heuristics decide
on each, and the strictest decision counts.

* `renderDecisionForUnmatchedCommandForPlatform`: the decision where no rule matches;
* `promptIsRejectedByPolicy`: questions that are not asked;
* `createExecApprovalRequirementForParsedCommands`: the requirement for the segments;
* `createExecApprovalRequirementForShell`: an unfamiliar shell is a segment of its own.
-/

namespace RenCrow.ExecApproval

open Permissions Safety ShellCommand

/-! ## Decisions without a rule -/

/-- How the words of a command were found. -/
inductive ExecPolicyCommandOrigin where
  | generic
  | powerShell
deriving DecidableEq, Repr

/-- What a call asks of the sandbox. -/
inductive SandboxPermissions where
  | useDefault
  | requireEscalated
  | withAdditionalPermissions
deriving DecidableEq, Repr

/-- The call asks for more than the sandbox gives. -/
def SandboxPermissions.requestsSandboxOverride : SandboxPermissions → Bool
  | useDefault => false
  | requireEscalated | withAdditionalPermissions => true

/-- Whether rules that allow a prefix count. -/
inductive AllowPrefixRules where
  | honor
  | ignoreForCyberModel
deriving DecidableEq, Repr

/-- What the process knows of its host. -/
structure ApprovalHost where
  libraries : ShellLibraries
  env : ProcessEnv
  /-- `cfg!(windows)`. -/
  windows : Bool

/-- The call that is to be approved. -/
structure ExecApprovalRequest (U : Type) where
  command : List String
  approvalPolicy : AskForApproval
  permissionProfile : PermissionProfile
  fileSystemSandboxPolicy : FileSystemSandboxPolicy U
  environmentPolicy : Option Policy
  windowsSandboxLevel : WindowsSandboxLevel
  sandboxPermissions : SandboxPermissions
  prefixRule : Option (List String)
  allowPrefixRules : AllowPrefixRules

variable {U : Type} [LexicalPath U] [DecidableEq U]

/-- The danger of a command, by how its words were found. -/
def dangerousCommandMatchForOrigin (libraries : ShellLibraries) (command : List String)
    (platform : DangerousCommandPlatform) : ExecPolicyCommandOrigin → Option DangerousCommandMatch
  | .generic => dangerousCommandMatchForPlatform libraries command platform
  | .powerShell => dangerousPowershellWordsMatch libraries command platform

/-- The profile restricts the file system. -/
def profileHasManagedFilesystemRestrictions (req : ExecApprovalRequest U) : Bool :=
  decide (req.permissionProfile = .managed) &&
    decide (req.fileSystemSandboxPolicy.kind = .restricted) &&
    !req.fileSystemSandboxPolicy.hasFullDiskWriteAccessForConvention (some .windows)

/-- The decision on a command that is dangerous, or that no sandbox would confine. -/
def guardedDecision : AskForApproval → Decision
  | .never => .forbidden
  | .onRequest | .unlessTrusted | .granular _ => .prompt

/-- The decision on a command that asks to leave its sandbox, or not. -/
def sandboxedDecision (req : ExecApprovalRequest U) : Decision :=
  match req.fileSystemSandboxPolicy.kind with
  | .unrestricted | .externalSandbox => .allow
  | .restricted => if req.sandboxPermissions.requestsSandboxOverride then .prompt else .allow

/-- `render_decision_for_unmatched_command_for_platform`. -/
def renderDecisionForUnmatchedCommandForPlatform (host : ApprovalHost) (req : ExecApprovalRequest U)
    (origin : ExecPolicyCommandOrigin) (platform : DangerousCommandPlatform)
    (command : List String) : Decision :=
  if (dangerousCommandMatchForOrigin host.libraries command platform origin).isSome ∨
      (host.windows = true ∧ req.windowsSandboxLevel = .disabled ∧
        profileHasManagedFilesystemRestrictions req = true) then
    guardedDecision req.approvalPolicy
  else
    match req.approvalPolicy with
    | .never => .allow
    | .unlessTrusted => .prompt
    | .onRequest | .granular _ => sandboxedDecision req

/-! ## Questions that are not asked -/

/-- `PROMPT_CONFLICT_REASON`. -/
def promptConflictReason : String :=
  "approval required by policy, but AskForApproval is set to Never"

/-- `REJECT_SANDBOX_APPROVAL_REASON`. -/
def rejectSandboxApprovalReason : String :=
  "approval required by policy, but AskForApproval::Granular.sandbox_approval is false"

/-- `REJECT_RULES_APPROVAL_REASON`. -/
def rejectRulesApprovalReason : String :=
  "approval required by policy rule, but AskForApproval::Granular.rules is false"

/-- Why a prompt may not be shown, if it may not. -/
def promptIsRejectedByPolicy (approvalPolicy : AskForApproval) (promptIsRule : Bool) :
    Option String :=
  match approvalPolicy with
  | .never => some promptConflictReason
  | .onRequest | .unlessTrusted => none
  | .granular config =>
    if promptIsRule then
      if config.rules then none else some rejectRulesApprovalReason
    else if config.sandboxApproval then none
    else some rejectSandboxApprovalReason

/-! ## Texts and proposals -/

/-- `Iterator::max_by_key`: of several largest elements the last one. -/
def maxByKey {α : Type} (key : α → Nat) (items : List α) : Option α :=
  items.foldl (fun best item =>
    match best with
    | none => some item
    | some found => if key item < key found then some found else some item) none

/-- A command as a shell would be given it. -/
def renderShlexCommand (libraries : ShellLibraries) (args : List String) : String :=
  (libraries.shlexJoin args).getD (" ".intercalate args)

/-- The rule matches of one decision: the prefix and the justification. -/
def ruleMatches (decision : Decision) (matchedRules : List RuleMatch) :
    List (List String × Option String) :=
  matchedRules.filterMap fun found =>
    match found with
    | .prefixRuleMatch matchedPrefix ruleDecision _ justification =>
      if ruleDecision = decision then some (matchedPrefix, justification) else none
    | .heuristicsRuleMatch .. => none

/-- `dangerous_command_match_for_heuristics`. -/
def dangerousCommandMatchForHeuristics (libraries : ShellLibraries) (evaluation : Evaluation)
    (decision : Decision) (origin : ExecPolicyCommandOrigin) (platform : DangerousCommandPlatform) :
    Option DangerousCommandMatch :=
  evaluation.matchedRules.findSome? fun found =>
    match found with
    | .heuristicsRuleMatch command matchedDecision =>
      if matchedDecision = decision then
        dangerousCommandMatchForOrigin libraries command platform origin
      else none
    | .prefixRuleMatch .. => none

/-- Why a dangerous command is rejected. -/
def dangerousCommandRejectionReason : DangerousCommandMatch → String
  | .forcedRm => "rm -f style commands are not permitted. Use a safer approach"
  | .other => "blocked by policy"

/-- The reason given by the longest rule that prompts. -/
def derivePromptReason (libraries : ShellLibraries) (commandArgs : List String)
    (evaluation : Evaluation) : Option String :=
  let command := renderShlexCommand libraries commandArgs
  (maxByKey (fun found => found.1.length) (ruleMatches .prompt evaluation.matchedRules)).map
    fun found =>
    match found.2 with
    | some justification => "`" ++ command ++ "` requires approval: " ++ justification
    | none => "`" ++ command ++ "` requires approval by policy"

/-- The reason given by the longest rule that forbids. -/
def deriveForbiddenReason (libraries : ShellLibraries) (commandArgs : List String)
    (evaluation : Evaluation) (dangerous : Option DangerousCommandMatch) : String :=
  let command := renderShlexCommand libraries commandArgs
  match maxByKey (fun found => found.1.length) (ruleMatches .forbidden evaluation.matchedRules) with
  | some (_, some justification) => "`" ++ command ++ "` rejected: " ++ justification
  | some (matchedPrefix, none) => "`" ++ command ++
      "` rejected: policy forbids commands starting with `" ++
        renderShlexCommand libraries matchedPrefix ++ "`"
  | none =>
    match dangerous with
    | some found => "`" ++ command ++ "` rejected: " ++ dangerousCommandRejectionReason found
    | none => "`" ++ command ++ "` rejected: blocked by policy"

/-- The reason for a prompt that may not be shown. -/
def deriveRejectedPromptReason (fallbackReason : String) : Option DangerousCommandMatch → String
  | some .forcedRm => dangerousCommandRejectionReason .forcedRm
  | some .other | none => fallbackReason

/-- A rule that prompts. -/
def isPromptRule (found : RuleMatch) : Bool :=
  found.isPolicyMatch && decide (found.decision = .prompt)

/-- The first command that the heuristics decide so. -/
def firstHeuristic (decision : Decision) (matchedRules : List RuleMatch) : Option (List String) :=
  matchedRules.findSome? fun found =>
    match found with
    | .heuristicsRuleMatch command matchedDecision =>
      if matchedDecision = decision then some command else none
    | .prefixRuleMatch .. => none

/-- The command that prompts for no rule, to be allowed from now on. -/
def tryDeriveExecpolicyAmendmentForPromptRules (matchedRules : List RuleMatch) :
    Option (List String) :=
  if matchedRules.any isPromptRule then none else firstHeuristic .prompt matchedRules

/-- The command that was allowed by no rule, to be allowed by one. -/
def tryDeriveExecpolicyAmendmentForAllowRules (matchedRules : List RuleMatch) :
    Option (List String) :=
  if matchedRules.any RuleMatch.isPolicyMatch then none else firstHeuristic .allow matchedRules

/-- `BANNED_PREFIX_SUGGESTIONS`. -/
def bannedPrefixSuggestions : List (List String) :=
  [["/bin/bash"], ["/bin/bash", "-c"], ["/bin/bash", "-lc"], ["/bin/sh"], ["/bin/sh", "-c"],
    ["/bin/sh", "-lc"], ["/bin/zsh"], ["/bin/zsh", "-c"], ["/bin/zsh", "-lc"], ["Rscript"],
    ["bash"], ["bash", "-c"], ["bash", "-lc"], ["bun"], ["bun", "-e"], ["bun", "run"], ["cmd"],
    ["cmd", "/c"], ["cmd", "/k"], ["cmd.exe"], ["cmd.exe", "/c"], ["cmd.exe", "/k"], ["dash"],
    ["dash", "-c"], ["deno"], ["deno", "eval"], ["env"], ["fish"], ["fish", "-c"], ["git"],
    ["julia"], ["julia", "-e"], ["ksh"], ["ksh", "-c"], ["lua"], ["lua", "-e"], ["node"],
    ["node", "-e"], ["nodejs"], ["nodejs", "-e"], ["npm", "run"], ["osascript"], ["perl"],
    ["perl", "-e"], ["php"], ["php", "-r"], ["pnpm", "run"], ["powershell"],
    ["powershell", "-Command"], ["powershell", "-EncodedCommand"], ["powershell", "-File"],
    ["powershell", "-c"], ["powershell.exe"], ["powershell.exe", "-Command"],
    ["powershell.exe", "-EncodedCommand"], ["powershell.exe", "-File"], ["powershell.exe", "-c"],
    ["pwsh"], ["pwsh", "-Command"], ["pwsh", "-EncodedCommand"], ["pwsh", "-File"],
    ["pwsh", "-c"], ["pwsh", "-e"], ["pwsh", "-ec"], ["pwsh", "-f"], ["py"], ["py", "-3"],
    ["pypy"], ["pypy3"], ["python"], ["python", "-"], ["python", "-c"], ["python3"],
    ["python3", "-"], ["python3", "-c"], ["pythonw"], ["pyw"], ["rm"], ["ruby"], ["ruby", "-e"],
    ["sh"], ["sh", "-c"], ["sh", "-lc"], ["sudo"], ["yarn", "run"], ["zsh"], ["zsh", "-c"],
    ["zsh", "-lc"]]

/-- With the rule added, every command is allowed. -/
def prefixRuleWouldApproveAllCommands (host : ApprovalHost) (execPolicy : Policy)
    (prefixRule : List String) (commands : List (List String)) (fallback : HeuristicsFallback)
    (options : MatchOptions) : Bool :=
  match execPolicy.addPrefixRule prefixRule .allow with
  | .error _ => false
  | .ok policyWithPrefixRule => commands.all fun command =>
    (policyWithPrefixRule.checkWithOptions host.env command fallback options).any fun evaluation =>
      decide (evaluation.decision = .allow)

/-- The rule that the call suggests, if it may be added and is enough. -/
def deriveRequestedExecpolicyAmendmentFromPrefixRule (host : ApprovalHost)
    (prefixRule : Option (List String)) (matchedRules : List RuleMatch) (execPolicy : Policy)
    (commands : List (List String)) (fallback : HeuristicsFallback) (options : MatchOptions) :
    Option (List String) := do
  let prefixRule ← prefixRule
  if prefixRule.isEmpty ∨ bannedPrefixSuggestions.contains prefixRule = true ∨
      matchedRules.any RuleMatch.isPolicyMatch = true then
    none
  else if prefixRuleWouldApproveAllCommands host execPolicy prefixRule commands fallback
    options then
    some prefixRule
  else none

/-! ## The policy in force -/

/-- `current_for_prefix_rules`: some models do not honor rules that allow a command. -/
def currentForPrefixRules (policy : Policy) : AllowPrefixRules → Policy
  | .honor => policy
  | .ignoreForCyberModel =>
    { policy with
      rulesByProgram := policy.rulesByProgram.filter fun entry => entry.2.decision ≠ .allow }

/-- The policy with the overlay of an environment. -/
def currentForEnvironment (policy : Policy) (environmentPolicy : Option Policy)
    (allowPrefixRules : AllowPrefixRules) : Policy :=
  match environmentPolicy with
  | some environmentPolicy =>
    (currentForPrefixRules policy allowPrefixRules).mergeOverlay environmentPolicy
  | none => currentForPrefixRules policy allowPrefixRules

/-! ## The requirement -/

/-- What a call needs before it runs. -/
inductive ExecApprovalRequirement where
  | skip (bypassSandbox : Bool) (proposedExecpolicyAmendment : Option (List String))
  | needsApproval (reason : Option String) (proposedExecpolicyAmendment : Option (List String))
  | forbidden (reason : String)
deriving DecidableEq, Repr

/-- The segments of a command and where they come from. -/
structure ExecPolicyCommands where
  commands : List (List String)
  commandOrigin : ExecPolicyCommandOrigin

/-- Every segment is allowed by a rule. -/
def bypassSandbox (env : ProcessEnv) (execPolicy : Policy) (commands : List (List String)) : Bool :=
  commands.all fun command =>
    (execPolicy.matchesForCommandWithOptions env command none ⟨true⟩).any RuleMatch.isAllowRule

/-- `create_exec_approval_requirement_for_parsed_commands`; it panics without a segment. -/
def createExecApprovalRequirementForParsedCommands (host : ApprovalHost) (policy : Policy)
    (req : ExecApprovalRequest U) (parsed : ExecPolicyCommands)
    (platform : DangerousCommandPlatform) : Option ExecApprovalRequirement := do
  let execPolicy := currentForEnvironment policy req.environmentPolicy req.allowPrefixRules
  let autoAmendmentAllowed := decide (req.allowPrefixRules = .honor)
  let fallback :=
    renderDecisionForUnmatchedCommandForPlatform host req parsed.commandOrigin platform
  let evaluation ← execPolicy.checkMultipleWithOptions host.env parsed.commands fallback ⟨true⟩
  let requestedAmendment :=
    if autoAmendmentAllowed then
      deriveRequestedExecpolicyAmendmentFromPrefixRule host req.prefixRule evaluation.matchedRules
        execPolicy parsed.commands fallback ⟨true⟩
    else none
  let dangerous := fun decision => dangerousCommandMatchForHeuristics host.libraries evaluation
    decision parsed.commandOrigin platform
  some <| match evaluation.decision with
    | .forbidden =>
      .forbidden (deriveForbiddenReason host.libraries req.command evaluation
        (dangerous .forbidden))
    | .prompt =>
      let promptIsRule := evaluation.matchedRules.any isPromptRule
      match promptIsRejectedByPolicy req.approvalPolicy promptIsRule with
      | some reason =>
        if promptIsRule then .forbidden reason
        else .forbidden (deriveRejectedPromptReason reason (dangerous .prompt))
      | none =>
        .needsApproval (derivePromptReason host.libraries req.command evaluation)
          (requestedAmendment.or
            (if autoAmendmentAllowed then
              tryDeriveExecpolicyAmendmentForPromptRules evaluation.matchedRules
            else none))
    | .allow =>
      .skip (bypassSandbox host.env execPolicy parsed.commands)
        (if autoAmendmentAllowed then
          tryDeriveExecpolicyAmendmentForAllowRules evaluation.matchedRules
        else none)

/-- `commands_for_exec_policy_for_platform`. -/
def commandsForExecPolicyForPlatform (libraries : ShellLibraries) (command : List String)
    (platform : DangerousCommandPlatform) : ExecPolicyCommands :=
  match (parseShellLcPlainCommands libraries command).filter fun commands => !commands.isEmpty with
  | some commands => ⟨commands, .generic⟩
  | none =>
    match (parsePowershellCommandIntoPlainCommands libraries command).filter fun commands =>
        decide (platform = .windows) && !commands.isEmpty with
    | some commands => ⟨commands, .powerShell⟩
    | none => ⟨[command], .generic⟩

/-- `create_exec_approval_requirement_for_command_platform`. -/
def createExecApprovalRequirementForCommandPlatform (host : ApprovalHost) (policy : Policy)
    (req : ExecApprovalRequest U) (platform : DangerousCommandPlatform) :
    Option ExecApprovalRequirement :=
  createExecApprovalRequirementForParsedCommands host policy req
    (commandsForExecPolicyForPlatform host.libraries req.command platform) platform

/-! ## Shells -/

/-- How an executable is told to be a shell of the system or the configured one. -/
structure ShellIdentity where
  isSystemShell : String → Bool
  isConfiguredShell : String → Bool
  /-- `UnifiedExecShellMode::ZshFork`. -/
  zshFork : Bool

/-- Directories that hold the shells of a Unix system. -/
def unixShellDirectories : List (Bool × List (List Char)) :=
  [pathComponents "/bin".toList, pathComponents "/usr/bin".toList]

/-- The identity of shells on Unix. -/
def ShellIdentity.unix (configuredShell : String) (zshFork : Bool) : ShellIdentity where
  isSystemShell executable :=
    let components := pathComponents executable.toList
    -- a path without a name has no parent
    !components.2.isEmpty && unixShellDirectories.contains (components.1, components.2.dropLast)
  isConfiguredShell executable :=
    decide (pathComponents executable.toList = pathComponents configuredShell.toList)
  zshFork := zshFork

/-- `shell_approval_command`: an unfamiliar executable may ignore its arguments. -/
def shellApprovalCommand (identity : ShellIdentity) (command : List String) : List String :=
  match command with
  | [] => []
  | executable :: rest =>
    if identity.isConfiguredShell executable || identity.isSystemShell executable ||
        identity.zshFork then
      executable :: rest
    else [executable]

/-- The segments of the apparent command of a shell. -/
def shellPolicyCommands (libraries : ShellLibraries) (command : List String)
    (platform : DangerousCommandPlatform) : ExecPolicyCommands :=
  match platform, extractPowershellCommand command with
  | .windows, some script => ⟨(libraries.powershellCommands script).getD [command], .powerShell⟩
  | _, _ => commandsForExecPolicyForPlatform libraries command platform

/-- The requirement of a command that a known shell runs. -/
def createExecApprovalRequirementForShell (host : ApprovalHost) (policy : Policy)
    (req : ExecApprovalRequest U) (identity : ShellIdentity) (platform : DangerousCommandPlatform) :
    Option ExecApprovalRequirement :=
  let executable := shellApprovalCommand identity req.command
  if executable.length = req.command.length then
    createExecApprovalRequirementForCommandPlatform host policy req platform
  else
    let parsed := shellPolicyCommands host.libraries req.command platform
    createExecApprovalRequirementForParsedCommands host policy { req with command := executable }
      { parsed with commands := executable :: parsed.commands } platform

end RenCrow.ExecApproval
