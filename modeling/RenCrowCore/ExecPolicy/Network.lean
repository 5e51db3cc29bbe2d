import Mathlib.Data.List.Induction
import RenCrowCore.Lib.Text
import RenCrowCore.ExecPolicy.Policy

/-!
# Network rules

The rules of a policy for hosts, how they are added, and the lists of allowed and
denied domains they compile to.

* `normalizeNetworkRuleHost`: a host name or address without its port, in lower case;
* `Policy.hostDecision`: the last rule for a host that allows or denies it;
* `Policy.mem_compiledNetworkDomains`: this rule decides which list the host is on.
-/

namespace RenCrow

open Text

/-- The errors of a policy that its updates can end with. -/
inductive PolicyError where
  | invalidPattern (text : String)
  | invalidRule (text : String)
deriving DecidableEq, Repr

/-- `Error::to_string`. -/
def PolicyError.message : PolicyError → String
  | .invalidPattern text => "invalid pattern element: " ++ text
  | .invalidRule text => "invalid rule: " ++ text

/-- A port: digits, and at least one. -/
def isPort (port : List Char) : Bool := !port.isEmpty && port.all Char.isDigit

/-- The host inside brackets or before a port. -/
def stripPort (raw : String) (host : List Char) : Except PolicyError (List Char) :=
  match stripPrefix ['['] host with
  | some stripped =>
    match splitOnce [']'] stripped with
    | none => .error (.invalidRule "network_rule host has an invalid bracketed IPv6 literal")
    | some (inside, rest) =>
      if !rest.isEmpty && !(stripPrefix [':'] rest).any isPort then
        .error (.invalidRule ("network_rule host contains an unsupported suffix: " ++ raw))
      else .ok inside
  | none =>
    -- with one colon, the text around the last one is the text around the first one
    match splitOnce [':'] host with
    | some (candidate, port) =>
      if host.count ':' = 1 ∧ candidate ≠ [] ∧ isPort port then .ok candidate else .ok host
    | none => .ok host

/-- `normalize_network_rule_host`. -/
def normalizeNetworkRuleHost (raw : String) : Except PolicyError String := do
  let host := trim raw.toList
  if host.isEmpty then
    throw (.invalidRule "network_rule host cannot be empty")
  -- a text with `://` holds a slash
  if host.contains '/' || host.contains '?' || host.contains '#' then
    throw (.invalidRule
      "network_rule host must be a hostname or IP literal (without scheme or path)")
  let host ← stripPort raw host
  let undotted := (host.reverse.dropWhile fun c => decide (c = '.')).reverse
  let normalized := (trim undotted).map toAsciiLower
  if normalized.isEmpty then
    throw (.invalidRule "network_rule host cannot be empty")
  if normalized.contains '*' then
    throw (.invalidRule "network_rule host must be a specific host; wildcards are not allowed")
  if normalized.any isWhitespace then
    throw (.invalidRule "network_rule host cannot contain whitespace")
  return String.ofList normalized

/-- `NetworkRuleProtocol::as_policy_string`. -/
def NetworkRuleProtocol.asPolicyString : NetworkRuleProtocol → String
  | .http => "http"
  | .https => "https"
  | .socks5Tcp => "socks5_tcp"
  | .socks5Udp => "socks5_udp"

theorem NetworkRuleProtocol.asPolicyString_injective :
    Function.Injective NetworkRuleProtocol.asPolicyString := by
  intro a b h
  cases a <;> cases b <;> first | rfl | exact absurd h (by decide)

/-- The checks of a network rule, and the rule. -/
def networkRuleOf (host : String) (protocol : NetworkRuleProtocol) (decision : Decision)
    (justification : Option String) : Except PolicyError NetworkRule := do
  let host ← normalizeNetworkRuleHost host
  if justification.any isBlank then
    throw (.invalidRule "justification cannot be empty")
  return ⟨host, protocol, decision, justification⟩

namespace Policy

/-- `Policy::add_network_rule`. -/
def addNetworkRule (policy : Policy) (host : String) (protocol : NetworkRuleProtocol)
    (decision : Decision) (justification : Option String) : Except PolicyError Policy :=
  (networkRuleOf host protocol decision justification).map fun rule =>
    { policy with networkRules := policy.networkRules ++ [rule] }

/-- The entries without a host, `Vec::retain`. -/
def retainOthers (host : String) (entries : List String) : List String :=
  entries.filter fun entry => decide (entry ≠ host)

/-- `upsert_domain`. -/
def upsertDomain (entries : List String) (host : String) : List String :=
  retainOthers host entries ++ [host]

/-- One rule of `compiled_network_domains`. -/
def compileNetworkRule (domains : List String × List String) (rule : NetworkRule) :
    List String × List String :=
  match rule.decision with
  | .allow => (upsertDomain domains.1 rule.host, retainOthers rule.host domains.2)
  | .forbidden => (retainOthers rule.host domains.1, upsertDomain domains.2 rule.host)
  | .prompt => domains

/-- `Policy::compiled_network_domains`: the allowed and the denied hosts. -/
def compiledNetworkDomains (policy : Policy) : List String × List String :=
  policy.networkRules.foldl compileNetworkRule ([], [])

/-! ## The last rule decides -/

variable {entries : List String}

@[simp] theorem mem_retainOthers {host entry : String} :
    entry ∈ retainOthers host entries ↔ entry ∈ entries ∧ entry ≠ host := by
  simp [retainOthers]

@[simp] theorem mem_upsertDomain {host entry : String} :
    entry ∈ upsertDomain entries host ↔ entry ∈ entries ∨ entry = host := by
  simp only [upsertDomain, List.mem_append, mem_retainOthers, List.mem_singleton]
  by_cases h : entry = host
  · simp [h]
  · simp [h]

/-- What a rule says of a host, if it says anything. -/
def ruleDecision (host : String) (rule : NetworkRule) : Option Decision :=
  if rule.host = host ∧ rule.decision ≠ .prompt then some rule.decision else none

/-- What the last rule for a host says that allows or denies it. -/
def hostDecision (rules : List NetworkRule) (host : String) : Option Decision :=
  (rules.filterMap (ruleDecision host)).getLast?

theorem hostDecision_concat (rules : List NetworkRule) (rule : NetworkRule) (host : String) :
    hostDecision (rules ++ [rule]) host =
      (ruleDecision host rule).or (hostDecision rules host) := by
  unfold hostDecision
  cases hrule : ruleDecision host rule with
  | none => simp [hrule]
  | some decision => simp [hrule]

/-- **The last rule decides.**  A host is allowed or denied as the last rule for it
says that is not a prompt. -/
theorem mem_compiledNetworkDomains (rules : List NetworkRule) (host : String) :
    (host ∈ (rules.foldl compileNetworkRule ([], [])).1 ↔ hostDecision rules host = some .allow) ∧
      (host ∈ (rules.foldl compileNetworkRule ([], [])).2 ↔
        hostDecision rules host = some .forbidden) := by
  induction rules using List.reverseRecOn with
  | nil => simp [hostDecision]
  | append_singleton rules rule ih =>
    rw [List.foldl_append, List.foldl_cons, List.foldl_nil, hostDecision_concat]
    generalize rules.foldl compileNetworkRule ([], []) = domains at ih ⊢
    unfold compileNetworkRule ruleDecision
    by_cases hhost : rule.host = host
    · subst hhost
      cases rule.decision with
      | allow => simp
      | forbidden => simp
      | prompt => simpa using ih
    · have hother : host ≠ rule.host := Ne.symm hhost
      cases rule.decision with
      | allow | forbidden => simpa [hhost, hother] using ih
      | prompt => simpa [hhost] using ih

/-- **Compiling a merged policy.**  The hosts of the overlay stay where it has them, those of
the policy under it unless the overlay says the opposite. -/
theorem compiledNetworkDomains_mergeOverlay (policy overlay : Policy) (host : String) :
    let (allowed, denied) := policy.compiledNetworkDomains
    let (allows, denies) := overlay.compiledNetworkDomains
    let merged := (policy.mergeOverlay overlay).compiledNetworkDomains
    (host ∈ merged.1 ↔ host ∈ allows ∨ host ∈ allowed ∧ host ∉ denies) ∧
      (host ∈ merged.2 ↔ host ∈ denies ∨ host ∈ denied ∧ host ∉ allows) := by
  have hmerged : hostDecision (policy.mergeOverlay overlay).networkRules host =
      (hostDecision overlay.networkRules host).or (hostDecision policy.networkRules host) := by
    simp [hostDecision, mergeOverlay]
  simp only [compiledNetworkDomains, mem_compiledNetworkDomains, hmerged]
  cases hlast : hostDecision overlay.networkRules host with
  | none => simp
  | some decision =>
    -- no rule that prompts is the last one
    obtain ⟨rule, -, hrule⟩ := List.mem_filterMap.mp (List.mem_of_getLast? hlast)
    obtain ⟨⟨-, hne⟩, heq⟩ := Option.ite_none_right_eq_some.mp hrule
    cases decision with
    | prompt => exact absurd (Option.some.inj heq) hne
    | allow | forbidden => simp

end Policy

end RenCrow
