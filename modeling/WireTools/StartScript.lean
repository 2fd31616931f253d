import WireTools.Shell

/-! # Start scripts

* `toRelocatableToken`: a token under a relocated root becomes an expansion of the root's
  variable with the rest quoted, any other token is quoted whole;
* `removeRun` and `render` of the start-script renderer, with the preamble's guards;
* `evalBody`: the conditional block and the `exec` line as the shell reads them, given the
  truth of every condition's test.  The tests are text the renderer takes verbatim. -/

namespace WireTools.StartScript

open Shell

/-! ### Relocation -/

/-- The variables a script expands at run time. -/
inductive StartScriptVariable where
  | NODE_DIR
  | CLUSTER_DIR
  | WIRE_PREFIX_PATH
  | WIRE_ETH_PATH
  | WIRE_SOLANA_PATH
  deriving DecidableEq

def StartScriptVariable.name : StartScriptVariable → Text
  | NODE_DIR => text "NODE_DIR"
  | CLUSTER_DIR => text "CLUSTER_DIR"
  | WIRE_PREFIX_PATH => text "WIRE_PREFIX_PATH"
  | WIRE_ETH_PATH => text "WIRE_ETH_PATH"
  | WIRE_SOLANA_PATH => text "WIRE_SOLANA_PATH"

/-- A path root and the variable that replaces it; a root that is not set is empty. -/
structure StartScriptRelocation where
  pathPrefix : Text
  shellVar : StartScriptVariable
  deriving DecidableEq

/-- The usable entries, longest root first. -/
def orderRelocations (relocations : List StartScriptRelocation) : List StartScriptRelocation :=
  (relocations.filter fun r => r.pathPrefix ≠ []).mergeSort fun left right =>
    decide (right.pathPrefix.length ≤ left.pathPrefix.length)

def shellQuote (value : Text) : Text :=
  text "'" ++ replaceAll quote (text "'\\''") value ++ text "'"

/-- The path separator. -/
def sep : Text := text "/"

/-- The path is the root or lies beneath it. -/
def matchesPrefix (path pathPrefix : Text) : Bool :=
  decide (pathPrefix ≠ []) && (path == pathPrefix || (pathPrefix ++ sep).isPrefixOf path)

def toRelocatableToken (token : Text) (relocations : List StartScriptRelocation) : Text :=
  match relocations.find? fun r => matchesPrefix token r.pathPrefix with
  | none => shellQuote token
  | some r =>
      let remainder := token.drop r.pathPrefix.length
      if remainder = [] then text "\"$" ++ r.shellVar.name ++ text "\""
      else text "\"$" ++ r.shellVar.name ++ text "\"" ++ shellQuote remainder

def toRelocatableArgv (argv : List Text) (relocations : List StartScriptRelocation) : List Text :=
  argv.map fun token => toRelocatableToken token (orderRelocations relocations)

/-! ### Daemons -/

structure DaemonArgvCondition where
  test : Text
  tokens : List Text
  deriving DecidableEq

/-- The name of a command: units that need no quoting. -/
abbrev CommandName := { t : Text // ∀ c ∈ t, isPlain c = true }

/-- The name of an environment variable. -/
abbrev VariableName := { t : Text // ∀ c ∈ t, isWord c = true }

/-- What the renderer reads of a daemon. -/
structure DaemonConfig where
  exe : Text
  exeCommandName : Option CommandName
  exeEnvironmentVariable : Option VariableName
  argv : List Text
  env : Option (List (Text × Text))
  conditions : List DaemonArgvCondition
  relocations : List StartScriptRelocation

/-! ### The renderer -/

def Shebang : Text := text "#!/usr/bin/env bash"

def StrictMode : Text := text "set -euo pipefail"

def ConditionalArrayName : Text := text "CONDITIONAL_ARGS"

def HeaderComment : List Text :=
  [text "# Generated by wire-cluster-tool — starts this daemon with the same argv",
    text "# the harness uses for `wire-cluster-tool run`.",
    text "#",
    text "# NOTE: under a KEY-mode cluster this file contains an inline signing key.",
    text "#",
    text "# Invoke as:  ./start.sh"]

def environmentLines (daemon : DaemonConfig) : List Text :=
  let lines := (daemon.env.getD []).map fun entry =>
    text "[ -n \"$\x7b" ++ entry.1 ++ text ":-\x7d\" ] || export " ++ entry.1 ++ text "=" ++
      shellQuote entry.2
  if lines = [] then lines else lines ++ [[]]

/-- Some token of the daemon sits under the root that the variable stands for. -/
def referencesRoot (daemon : DaemonConfig) (relocations : List StartScriptRelocation)
    (shellVar : StartScriptVariable) : Bool :=
  let tokens := daemon.exe :: daemon.argv ++ daemon.conditions.flatMap fun c => c.tokens
  (relocations.filter fun r => r.shellVar = shellVar).any fun r =>
    tokens.any fun token => matchesPrefix token r.pathPrefix

def HostSuppliedRoots : List StartScriptVariable :=
  [.WIRE_ETH_PATH, .WIRE_SOLANA_PATH]

def RootDescriptions : StartScriptVariable → Text
  | .NODE_DIR => text "daemon directory"
  | .CLUSTER_DIR => text "cluster root"
  | .WIRE_PREFIX_PATH => text "wire-sysio install prefix"
  | .WIRE_ETH_PATH => text "wire-ethereum repository root"
  | .WIRE_SOLANA_PATH => text "wire-solana repository root"

/-- The guard of a root that the operator must export. -/
def rootAssertion (shellVar : StartScriptVariable) : Text :=
  text ": \"$\x7b" ++ shellVar.name ++ text ":?set to the " ++ RootDescriptions shellVar ++
    text "\x7d\""

def requiredRootAssertions (daemon : DaemonConfig) (relocations : List StartScriptRelocation) :
    List Text :=
  (HostSuppliedRoots.filter fun shellVar => referencesRoot daemon relocations shellVar).map
    rootAssertion

def PrefixProbeBinary : Text := text "nodeop"

/-- The lines that resolve the install prefix. -/
def prefixResolution : List Text :=
  let shellVar := StartScriptVariable.WIRE_PREFIX_PATH.name
  [text "if [ -z \"$\x7b" ++ shellVar ++ text ":-\x7d\" ]; then",
    text "  _wire_nodeop=\"$(command -v " ++ PrefixProbeBinary ++ text " || true)\"",
    text "  if [ -n \"$_wire_nodeop\" ]; then",
    text "    " ++ shellVar ++ text "=\"$(cd \"$(dirname \"$_wire_nodeop\")/..\" && pwd)\"",
    text "  elif [ -n \"$\x7bWIRE_BUILD_PATH:-\x7d\" ]; then",
    text "    " ++ shellVar ++ text "=\"$WIRE_BUILD_PATH\"",
    text "  fi",
    text "fi",
    text ": \"$\x7b" ++ shellVar ++ text ":?set to the " ++
      RootDescriptions .WIRE_PREFIX_PATH ++ text " (or put " ++ PrefixProbeBinary ++
      text " on PATH, or set WIRE_BUILD_PATH)\x7d\""]

def preamble (daemon : DaemonConfig) (relocations : List StartScriptRelocation) : List Text :=
  let nodeDir := StartScriptVariable.NODE_DIR.name
  let clusterDir := StartScriptVariable.CLUSTER_DIR.name
  [nodeDir ++ text "=\"$(cd \"$(dirname \"$\x7bBASH_SOURCE[0]\x7d\")\" && pwd)\"",
    clusterDir ++ text "=\"$\x7bWIRE_CLUSTER_DIR:-$(cd \"$" ++ nodeDir ++
      text "/../..\" && pwd)\x7d\"",
    text "[ -f \"$" ++ clusterDir ++ text "/cluster-config.json\" ] || \x7b",
    text "  echo \"start.sh: cluster root not found at $" ++ clusterDir ++
      text " — set WIRE_CLUSTER_DIR\" >&2",
    text "  exit 1",
    text "\x7d"] ++
  (if referencesRoot daemon relocations .WIRE_PREFIX_PATH then prefixResolution else []) ++
  requiredRootAssertions daemon relocations

/-- What the braces of an overridable `exec` target hold. -/
def exeOverride (shellVar : VariableName) (command : CommandName) : Text :=
  shellVar.val ++ text ":-$(command -v " ++ command.val ++ text ")"

def execTarget (daemon : DaemonConfig) (relocations : List StartScriptRelocation) : Text :=
  match daemon.exeCommandName, daemon.exeEnvironmentVariable with
  | some command, some shellVar =>
      text "\"$\x7b" ++ exeOverride shellVar command ++ text "\x7d\""
  | _, _ => toRelocatableToken daemon.exe relocations

/-- The run begins the tokens. -/
def runAt (tokens run : List Text) : Bool :=
  run.isPrefixOf tokens

/-- The tokens without the first contiguous occurrence of the run. -/
def removeRun (tokens run : List Text) : List Text :=
  if run = [] then tokens
  else
    match (List.range tokens.length).find? fun index => runAt (tokens.drop index) run with
    | none => tokens
    | some index => tokens.take index ++ tokens.drop (index + run.length)

def conditionLine (relocations : List StartScriptRelocation) (condition : DaemonArgvCondition) :
    Text :=
  condition.test ++ text " && " ++ ConditionalArrayName ++ text "+=(" ++
    join (text " ") (toRelocatableArgv condition.tokens relocations) ++ text ")"

def conditionLines (conditions : List DaemonArgvCondition)
    (relocations : List StartScriptRelocation) : List Text :=
  (ConditionalArrayName ++ text "=()") :: conditions.map (conditionLine relocations) ++ [[]]

def ConditionalArrayExpansion : Text :=
  text "\"$\x7b" ++ ConditionalArrayName ++ text "[@]\x7d\""

/-- The argv without the runs that conditions govern. -/
def unconditionalArgv (daemon : DaemonConfig) : List Text :=
  daemon.conditions.foldl (fun remaining condition => removeRun remaining condition.tokens)
    daemon.argv

def headLines (daemon : DaemonConfig) (relocations : List StartScriptRelocation) : List Text :=
  [Shebang, StrictMode, []] ++ HeaderComment ++ [[]] ++ preamble daemon relocations ++ [[]] ++
    environmentLines daemon

/-- The conditional block and the `exec` line. -/
def bodyLines (daemon : DaemonConfig) (relocations : List StartScriptRelocation) : List Text :=
  conditionLines daemon.conditions relocations ++
    [text "exec " ++ execTarget daemon relocations ++ text " \\"] ++
    (toRelocatableArgv (unconditionalArgv daemon) relocations).map
      (fun word => text "  " ++ word ++ text " \\") ++
    [text "  " ++ ConditionalArrayExpansion, []]

/-- The daemon's relocations ahead of the cluster's. -/
def relocationsOf (daemon : DaemonConfig) (clusterRelocations : List StartScriptRelocation) :
    List StartScriptRelocation :=
  orderRelocations (daemon.relocations ++ clusterRelocations)

def render (daemon : DaemonConfig) (clusterRelocations : List StartScriptRelocation) : Text :=
  let relocations := relocationsOf daemon clusterRelocations
  join (text "\n") (headLines daemon relocations ++ bodyLines daemon relocations)

/-! ### Evaluation -/

/-- What stands behind a text that a text begins with. -/
def behind (lead t : Text) : Option Text :=
  if lead.isPrefixOf t then some (t.drop lead.length) else none

/-- The lines of the conditions, each with its test and whether that is true: the words that
are appended to the array. -/
def evalConditions (env : Env) : List (Text × Bool) → Text → Option (List Text × Text)
  | [], t => some ([], t)
  | (test, holds) :: tests, t => do
      let t ← behind (test ++ text " && " ++ ConditionalArrayName ++ text "+=(") t
      let (words, t) ← read env closeParen (fresh []) t
      let t ← behind (text "\n") t
      let (more, t) ← evalConditions env tests t
      some ((if holds then words else []) ++ more, t)

/-- The shell while the array holds the given words. -/
def withArray (env : Env) (array : List Text) : Env :=
  { env with
    braces := fun n => if n = ConditionalArrayName ++ text "[@]" then some array else env.braces n }

/-- The words of the `exec` command, when nothing stands behind it. -/
def evalBody (env : Env) (tests : List (Text × Bool)) (t : Text) : Option (List Text) := do
  let t ← behind (ConditionalArrayName ++ text "=()\n") t
  let (array, t) ← evalConditions env tests t
  let t ← behind (text "\nexec ") t
  let (words, t) ← read (withArray env array) newline (fresh []) t
  if t = [] then some words else none

end WireTools.StartScript
