import RenCrowCore.Lib.Text
import RenCrowCore.Utils.AbsolutePath

/-!
# Dangerous commands

The classifier of `shell-command`: which command words ask for an approval whatever the
policy says, on each platform, and how shell wrappers are opened.

* `dangerousCommandMatchForPlatform`: the classifier for command words of any origin;
* `dangerousPowershellWordsMatch`: the one for the words of a PowerShell script;
* `dangerousCommandMatchForPlatform_singleton`: a program without arguments is harmless.
-/

namespace RenCrow.ShellCommand

open Text

/-- The platform whose commands are judged. -/
inductive DangerousCommandPlatform where
  | posix
  | windows
deriving DecidableEq, Repr

/-- Why a command is dangerous. -/
inductive DangerousCommandMatch where
  | forcedRm
  | other
deriving DecidableEq, Repr

/-- What the libraries of the host compute: the shell grammars, `shlex`, and what a URL is. -/
structure ShellLibraries where
  /-- The plain commands of a shell script, if it holds nothing else. -/
  plainCommands : String → Option (List (List String))
  /-- The literal words of all commands of a shell script. -/
  literalCommands : String → Option (List (List String))
  /-- The plain commands of a PowerShell script, if it holds nothing else. -/
  powershellCommands : String → Option (List (List String))
  shlexSplit : String → Option (List String)
  shlexJoin : List String → Option String
  looksLikeUrl : String → Bool

/-! ## Names of programs -/

/-- `to_ascii_lowercase`. -/
def toAsciiLowercase (s : String) : String := String.ofList (s.toList.map toAsciiLower)

/-- `str::contains`. -/
def containsText (needle : String) (s : String) : Bool :=
  (splitOnce needle.toList s.toList).isSome

/-- The text after the last separator, if there is any. -/
def lastName (isSeparator : Char → Bool) (raw : List Char) : Option (List Char) :=
  let name := (raw.reverse.takeWhile fun c => !isSeparator c).reverse
  if name.isEmpty then none else some name

/-- The separators of a Windows path. -/
def isWindowsSeparator (c : Char) : Bool := c = '/' || c = '\\'

/-- A name without its drive. -/
def stripDrive : List Char → List Char
  | drive :: ':' :: name => if drive.isAlpha then name else drive :: ':' :: name
  | name => name

/-- `str::strip_suffix`. -/
def stripSuffix (suffix text : List Char) : Option (List Char) :=
  (stripPrefix suffix.reverse text.reverse).map List.reverse

/-- `executable_name_lookup_key`. -/
def executableNameLookupKey (raw : String) : DangerousCommandPlatform → Option String
  | .posix => (lastName (fun c => c = '/') raw.toList).map String.ofList
  | .windows => do
    let name := (stripDrive (← lastName isWindowsSeparator raw.toList)).map toAsciiLower
    match [".exe", ".cmd", ".bat", ".com"].findSome? fun suffix =>
      stripSuffix suffix.toList name with
    | some stripped => some (String.ofList stripped)
    | none => if name.isEmpty then none else some (String.ofList name)

/-- `executable_basename`. -/
def executableBasename (exe : String) : Option String := do
  let name := stripDrive (← lastName isWindowsSeparator exe.toList)
  if name.isEmpty then none else some (String.ofList (name.map toAsciiLower))

/-- The shells that are known. -/
inductive ShellType where
  | zsh
  | bash
  | powerShell
  | sh
  | cmd
deriving DecidableEq, Repr

/-- The names that a shell is known by. -/
def shellTypeOfName : List Char → Option ShellType
  | ['z', 's', 'h'] => some .zsh
  | ['s', 'h'] => some .sh
  | ['c', 'm', 'd'] => some .cmd
  | ['b', 'a', 's', 'h'] => some .bash
  | ['p', 'w', 's', 'h'] => some .powerShell
  | ['p', 'o', 'w', 'e', 'r', 's', 'h', 'e', 'l', 'l'] => some .powerShell
  | _ => none

/-- `Path::file_name`: the last component, unless it is `..`. -/
def pathFileName (path : List Char) : Option (List Char) :=
  ((path.splitOn '/').filter fun name => !name.isEmpty && name ≠ ['.']).getLast?.filter
    fun name => name ≠ ['.', '.']

/-- `Path::file_stem`: a name without its last extension; a leading dot begins none. -/
def pathFileStem (path : List Char) : Option (List Char) :=
  (pathFileName path).map fun name =>
    let stem := (name.reverse.dropWhile fun c => decide (c ≠ '.')).drop 1
    if stem.isEmpty then name else stem.reverse

/-- The components of a Unix path; a leading `.` of a relative path is one. -/
def pathComponents (path : List Char) : Bool × List (List Char) :=
  let names := path.splitOn '/'
  (isAbsolute path, (if names.head? = some ['.'] then [['.']] else []) ++
    (names.filter fun name => !name.isEmpty && name ≠ ['.']))

/-- `detect_shell_type`: extensions are taken off until a name is known.  Paths are compared by
their components. -/
def detectShellTypeFrom : Nat → List Char → Option ShellType
  | 0, path => shellTypeOfName path
  | fuel + 1, path =>
    (shellTypeOfName path).or
      ((pathFileStem path).bind fun stem =>
        if pathComponents stem = pathComponents path then none else detectShellTypeFrom fuel stem)

/-- A stem is shorter than its path, so no more steps than characters are taken. -/
def detectShellType (path : String) : Option ShellType :=
  detectShellTypeFrom path.toList.length path.toList

/-- `extract_bash_command`: the script of `sh -c`. -/
def extractBashCommand : List String → Option String
  | [shell, flag, script] =>
    if (flag = "-lc" ∨ flag = "-c") ∧
        detectShellType shell ∈ [some .zsh, some .bash, some .sh] then
      some script
    else none
  | _ => none

/-- The commands of a script that is given to a shell. -/
def parseShellLcPlainCommands (libraries : ShellLibraries) (command : List String) :
    Option (List (List String)) :=
  (extractBashCommand command).bind libraries.plainCommands

/-- The same where only the literal words are known. -/
def parseShellLcLiteralCommands (libraries : ShellLibraries) (command : List String) :
    Option (List (List String)) :=
  (extractBashCommand command).bind libraries.literalCommands

/-- The script of the first `-Command` among known flags, in the arguments of PowerShell. -/
def powershellScript : List String → Option String
  | flag :: script :: rest =>
    let lower := toAsciiLowercase flag
    if lower = "-command" ∨ lower = "-c" then some script
    else if lower = "-nologo" ∨ lower = "-noprofile" then powershellScript (script :: rest)
    else none
  | _ => none

/-- `extract_powershell_command`. -/
def extractPowershellCommand : List String → Option String
  | shell :: rest => if detectShellType shell =
      some .powerShell then powershellScript rest else none
  | [] => none

/-- The commands of a script that is given to PowerShell. -/
def parsePowershellCommandIntoPlainCommands (libraries : ShellLibraries) (command : List String) :
    Option (List (List String)) :=
  (extractPowershellCommand command).bind libraries.powershellCommands

/-! ## Windows -/

variable (libraries : ShellLibraries)

/-- An argument looks like a URL. -/
def argsHaveUrl (args : List String) : Bool := args.any libraries.looksLikeUrl

/-- `is_browser_executable`. -/
def isBrowserExecutable (name : String) : Bool :=
  ["chrome", "chrome.exe", "msedge", "msedge.exe", "firefox", "firefox.exe", "iexplore",
    "iexplore.exe"].contains name

/-- `str::trim_matches` of one character. -/
def trimMatches (c : Char) (text : List Char) : List Char :=
  ((text.dropWhile fun d => decide (d = c)).reverse.dropWhile fun d => decide (d = c)).reverse

/-- The words that stand together in one command: the finished commands, the current one
and the current word. -/
structure SegmentScan where
  segments : List (List (List Char))
  segment : List (List Char)
  current : List Char

namespace SegmentScan

/-- A word that is complete, unless it is blank. -/
def endWord (scan : SegmentScan) : SegmentScan :=
  let word := trim scan.current
  { scan with segment := if word.isEmpty then scan.segment
    else scan.segment ++ [word], current := [] }

/-- A character of a token: separators end a command. -/
def push (scan : SegmentScan) (c : Char) : SegmentScan :=
  if [';', '|', '&', '\n', '\r', '\t'].contains c then
    let ended := scan.endWord
    if ended.segment.isEmpty then ended
    else { ended with segments := ended.segments ++ [ended.segment], segment := [] }
  else { scan with current := scan.current ++ [c] }

end SegmentScan

/-- `has_force_delete_cmdlet`, of lower-case tokens. -/
def hasForceDeleteCmdlet (tokens : List String) : Bool :=
  let scan := tokens.foldl (fun scan token => (token.toList.foldl SegmentScan.push scan).endWord)
    (⟨[], [], []⟩ : SegmentScan)
  (scan.segments ++ [scan.segment]).any fun segment =>
    let atoms := ((segment.flatMap fun token => token.splitOnP fun c =>
      ['\x7b', '\x7d', '(', ')', '[', ']', ',', ';'].contains c).map trim).map fun atom =>
        atom.map toAsciiLower
    (atoms.any fun atom => ["remove-item", "ri", "rm", "del", "erase", "rd", "rmdir"].any
      fun cmdlet =>
        decide (atom = cmdlet.toList)) &&
      atoms.any fun atom => decide (atom = "-force".toList) || "-force:".toList.isPrefixOf atom

/-- `is_dangerous_powershell_words`. -/
def isDangerousPowershellWords (words : List String) : Bool :=
  let tokens := words.map fun word =>
    String.ofList ((trimMatches '"' (trimMatches '\'' word.toList)).map toAsciiLower)
  let hasUrl := argsHaveUrl libraries words
  hasUrl && (tokens.any fun token => ["start", "saps", "ii"].contains token ||
      containsText "start-process" token || containsText "invoke-item" token) ||
    hasUrl && (tokens.any fun token =>
      containsText "shellexecute" token || containsText "shell.application" token) ||
    (match tokens with
      | [] => false
      | first :: _ =>
        decide (first = "rundll32") &&
            tokens.any (containsText "url.dll,fileprotocolhandler") && hasUrl ||
          (decide (first = "mshta") || isBrowserExecutable first ||
            decide (first = "explorer") || decide (first = "explorer.exe")) && hasUrl) ||
    hasForceDeleteCmdlet tokens

/-- `parse_powershell_invocation`: the tokens of the script. -/
def parsePowershellInvocation : List String → Option (List String)
  | [] => none
  | arg :: rest =>
    let lower := toAsciiLowercase arg
    if lower = "-command" ∨ lower = "/command" ∨ lower = "-c" then
      match rest with
      | [script] => libraries.shlexSplit script
      | _ => none
    else if "-command:".toList.isPrefixOf lower.toList ∨
      "/command:".toList.isPrefixOf lower.toList then
      if rest.isEmpty then
        (splitOnce [':'] arg.toList).bind fun parts =>
          libraries.shlexSplit (String.ofList parts.2)
      else none
    else if ['-'].isPrefixOf lower.toList then parsePowershellInvocation rest
    else some (arg :: rest)

/-- The program is PowerShell. -/
def isPowershellExecutable (exe : String) : Bool :=
  [some "powershell", some "powershell.exe", some "pwsh", some "pwsh.exe"].contains
    (executableBasename exe)

/-- `is_dangerous_powershell`. -/
def isDangerousPowershell : List String → Bool
  | [] => false
  | exe :: rest => isPowershellExecutable exe &&
      (parsePowershellInvocation libraries rest).any (isDangerousPowershellWords libraries)

/-- `split_embedded_cmd_operators`, up to blanks. -/
def splitEmbeddedCmdOperators : List Char → List (List Char)
  | [] => []
  | c :: rest =>
    if c = '&' ∨ c = '|' then
      match rest with
      | d :: later => if d = c then [c, c] :: splitEmbeddedCmdOperators later
          else [c] :: splitEmbeddedCmdOperators (d :: later)
      | [] => [[c]]
    else
      match splitEmbeddedCmdOperators rest with
      | part :: parts => if part.any fun d => d = '&' || d = '|' then [c] :: part :: parts
          else (c :: part) :: parts
      | [] => [[c]]

/-- The body of `cmd /c`. -/
def cmdBody : List String → Option (List String)
  | [] => some []
  | arg :: rest =>
    let lower := toAsciiLowercase arg
    if lower = "/c" ∨ lower = "/r" ∨ lower = "-c" then some rest
    else if ['/'].isPrefixOf lower.toList then cmdBody rest
    else none

/-- One command of a `cmd` body. -/
def isDangerousCmdSegment (segment : List String) : Bool :=
  let lower := segment.map toAsciiLowercase
  match lower with
  | [] => false
  | cmd :: _ =>
    decide (cmd = "start") && argsHaveUrl libraries segment ||
      (decide (cmd = "del") || decide (cmd = "erase")) && lower.contains "/f" ||
      (decide (cmd = "rd") || decide (cmd = "rmdir")) && lower.contains "/s" && lower.contains "/q"

/-- `is_dangerous_cmd`. -/
def isDangerousCmd : List String → Bool
  | [] => false
  | exe :: rest =>
    if executableBasename exe = some "cmd" ∨ executableBasename exe = some "cmd.exe" then
      match cmdBody rest with
      | none | some [] => false
      | some body =>
        let cmdTokens := match body with
          | [only] => (libraries.shlexSplit only).getD [only]
          | _ => body
        let tokens := cmdTokens.flatMap fun token =>
          ((splitEmbeddedCmdOperators token.toList).filter fun part =>
            !part.all isWhitespace).map String.ofList
        (tokens.splitOnP fun token => ["&", "&&", "|", "||"].contains token).any
          (isDangerousCmdSegment libraries)
    else false

/-- `is_direct_gui_launch`. -/
def isDirectGuiLaunch : List String → Bool
  | [] => false
  | exe :: rest =>
    match executableBasename exe with
    | none => false
    | some base =>
      (["explorer", "explorer.exe", "mshta", "mshta.exe"].contains base ||
          isBrowserExecutable base) && argsHaveUrl libraries rest ||
        (decide (base = "rundll32") || decide (base = "rundll32.exe")) &&
          (rest.any fun arg => containsText "url.dll,fileprotocolhandler" (toAsciiLowercase arg)) &&
          argsHaveUrl libraries rest

/-- `is_dangerous_command_windows`. -/
def isDangerousCommandWindows (command : List String) : Bool :=
  isDangerousPowershell libraries command || isDangerousCmd libraries command ||
    isDirectGuiLaunch libraries command

/-! ## The classifier -/

/-- `rm_args_include_force_option`. -/
def rmArgsIncludeForceOption (args : List String) : Bool :=
  (args.takeWhile fun arg => decide (arg ≠ "--")).any fun arg =>
    decide (arg = "--force") ||
      match arg.toList with
      | '-' :: flags => flags.head? ≠ some '-' && flags.contains 'f'
      | _ => false

/-- The command after the options and assignments of `env`. -/
def envCommand : List String → List String
  | [] => []
  | argument :: rest =>
    if argument = "--" then rest
    else if argument = "-i" ∨ argument = "--ignore-environment" ∨
        ((splitOnce ['='] argument.toList).any fun parts =>
          !parts.1.isEmpty && parts.1.head? ≠ some '-') then
      envCommand rest
    else argument :: rest

/-- The action of `trap`. -/
def trapAction (args : List String) : Option String :=
  (if args.head? = some "--" then args.drop 1 else args).head?.filter fun action =>
    action.toList.head? ≠ some '-'

/-- `dangerous_command_match_for_exec`: wrappers are opened by the classifier itself. -/
def dangerousCommandMatchForExec (inner : List String → Option DangerousCommandMatch)
    (platform : DangerousCommandPlatform) : List String → Option DangerousCommandMatch
  | [] => none
  | program :: args =>
    match executableNameLookupKey program platform with
    | some "rm" => if rmArgsIncludeForceOption args then some .forcedRm else none
    | some "sudo" => inner args
    | some "env" => inner (envCommand args)
    | some "trap" => (trapAction args).bind fun action => inner ["sh", "-c", action]
    | _ => none

/-- `dangerous_command_match_with_depth`, for the wrappers that may still be opened. -/
def dangerousCommandMatchWithDepth (platform : DangerousCommandPlatform) :
    Nat → List String → Option DangerousCommandMatch
  | 0, _ => some .other
  | depth + 1, command =>
    let inner := dangerousCommandMatchWithDepth platform depth
    (dangerousCommandMatchForExec inner platform command).or
      (((parseShellLcLiteralCommands libraries command).bind fun commands =>
        commands.findSome? inner).or
        (if platform = .windows ∧ isDangerousCommandWindows libraries command =
          true then some .other
        else none))

/-- `MAX_DANGEROUS_COMMAND_WRAPPER_DEPTH`. -/
def maxDangerousCommandWrapperDepth : Nat := 8

/-- Looks for a dangerous command through a number of wrappers. -/
def dangerousCommandMatchForPlatform (command : List String) (platform : DangerousCommandPlatform) :
    Option DangerousCommandMatch :=
  dangerousCommandMatchWithDepth libraries platform (maxDangerousCommandWrapperDepth + 1) command

/-- The danger of words that PowerShell was given. -/
def dangerousPowershellWordsMatch (command : List String) (platform : DangerousCommandPlatform) :
    Option DangerousCommandMatch :=
  if platform = .windows ∧ isDangerousPowershellWords libraries command = true then some .other
  else none

/-! ## A program without arguments -/

theorem isDangerousCommandWindows_nil : isDangerousCommandWindows libraries [] = false := rfl

theorem isDangerousCommandWindows_singleton (program : String) :
    isDangerousCommandWindows libraries [program] = false := by
  have hpowershell : isDangerousPowershell libraries [program] = false := by
    simp [isDangerousPowershell, parsePowershellInvocation]
  have hcmd : isDangerousCmd libraries [program] = false := by
    simp [isDangerousCmd, cmdBody]
  have hgui : isDirectGuiLaunch libraries [program] = false := by
    unfold isDirectGuiLaunch argsHaveUrl
    dsimp only
    cases executableBasename program with
    | none => rfl
    | some base => simp
  rw [isDangerousCommandWindows, hpowershell, hcmd, hgui]
  rfl

theorem dangerousCommandMatchWithDepth_nil (platform : DangerousCommandPlatform) (depth : Nat) :
    dangerousCommandMatchWithDepth libraries platform (depth + 1) [] = none := by
  simp [dangerousCommandMatchWithDepth, dangerousCommandMatchForExec, parseShellLcLiteralCommands,
    extractBashCommand, isDangerousCommandWindows_nil]

/-- **A program without arguments is harmless**, whatever it is called. -/
theorem dangerousCommandMatchForPlatform_singleton (program : String)
    (platform : DangerousCommandPlatform) :
    dangerousCommandMatchForPlatform libraries [program] platform = none := by
  have hinner := dangerousCommandMatchWithDepth_nil libraries platform 7
  have hexec : dangerousCommandMatchForExec (dangerousCommandMatchWithDepth libraries platform 8)
      platform [program] = none := by
    unfold dangerousCommandMatchForExec
    dsimp only
    split
    · simp [rmArgsIncludeForceOption]
    · exact hinner
    · exact hinner
    · rfl
    · rfl
  rw [dangerousCommandMatchForPlatform, maxDangerousCommandWrapperDepth,
    dangerousCommandMatchWithDepth, hexec]
  simp [parseShellLcLiteralCommands, extractBashCommand, isDangerousCommandWindows_singleton]

end RenCrow.ShellCommand
