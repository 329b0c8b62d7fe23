import QueryTidy.Command.Outcome
import QueryTidy.Layout.Options

/-! What can be asked for on the command line. -/
namespace QueryTidy.Command
open Files (Path)

inductive FormatMode where
  | print
  | check
  | write
deriving DecidableEq, Repr

inductive Request where
  | format (mode : FormatMode) (options : Layout.Options) (paths : List Path)
  | check (json : Bool) (paths : List Path)
  | fix (write : Bool) (paths : List Path)
  | rules
deriving DecidableEq, Repr

structure Invocation where
  verbose : Bool
  request : Request
deriving DecidableEq, Repr

namespace Invocation

def programGrammar : Grammar where
  program := "supersql"
  usage := "usage: supersql [-h] [--version] [-v] [--progress]\n"
    ++ "                \x7bformat,check,fix,rules\x7d ...\n"
  manual := "\nFormat and migrate SuperSQL queries\n"
    ++ "\npositional arguments:\n"
    ++ "  \x7bformat,check,fix,rules\x7d\n"
    ++ "    format              Format files\n"
    ++ "    check               Report deprecated syntax\n"
    ++ "    fix                 Apply automatic migration fixes\n"
    ++ "    rules               List migration rules\n"
    ++ "\noptions:\n"
    ++ "  -h, --help            show this help message and exit\n"
    ++ "  --version             show program's version number and exit\n"
    ++ "  -v, --verbose         Enable debug logging\n"
    ++ "  --progress            Show a tqdm progress bar while processing files\n"
  version := "supersql 0.1.0\n"
  switches := [helpSwitch, ⟨["--version"], .version, []⟩, ⟨["-v", "--verbose"], .flag, []⟩,
    ⟨["--progress"], .flag, []⟩]
  operands := .command "command" ["format", "check", "fix", "rules"]

def refuseWidth (s : String) : Option String :=
  match Text.integer? s.toList with
  | none => some ("invalid _non_negative_int value: " ++ Text.quotedString s)
  | some n => if n < 0 then some ("expected a non-negative integer, got " ++ s) else none

def formatGrammar : Grammar where
  program := "supersql format"
  usage := "usage: supersql format [-h] [--write | --check] [--indent-width INDENT_WIDTH]\n"
    ++ "                       [--tabs] [--trim-trailing-whitespace] [--final-newline]\n"
    ++ "                       [--trim-final-newlines]\n"
    ++ "                       paths [paths ...]\n"
  manual := "\npositional arguments:\n"
    ++ "  paths\n"
    ++ "\noptions:\n"
    ++ "  -h, --help            show this help message and exit\n"
    ++ "  --write               Rewrite files in place\n"
    ++ "  --check               Exit with 1 if any file would change\n"
    ++ "  --indent-width INDENT_WIDTH\n"
    ++ "                        Spaces per indent level (default: 2)\n"
    ++ "  --tabs                Indent with tabs\n"
    ++ "  --trim-trailing-whitespace\n"
    ++ "  --final-newline       End output with one newline\n"
    ++ "  --trim-final-newlines\n"
  switches := [helpSwitch, ⟨["--write"], .flag, ["--check"]⟩, ⟨["--check"], .flag, ["--write"]⟩,
    ⟨["--indent-width"], .value refuseWidth, []⟩, ⟨["--tabs"], .flag, []⟩,
    ⟨["--trim-trailing-whitespace"], .flag, []⟩, ⟨["--final-newline"], .flag, []⟩,
    ⟨["--trim-final-newlines"], .flag, []⟩]
  operands := .many "paths"

def checkGrammar : Grammar where
  program := "supersql check"
  usage := "usage: supersql check [-h] [--json] paths [paths ...]\n"
  manual := "\npositional arguments:\n"
    ++ "  paths\n"
    ++ "\noptions:\n"
    ++ "  -h, --help  show this help message and exit\n"
    ++ "  --json      Print editor-protocol shaped JSON\n"
  switches := [helpSwitch, ⟨["--json"], .flag, []⟩]
  operands := .many "paths"

def fixGrammar : Grammar where
  program := "supersql fix"
  usage := "usage: supersql fix [-h] [--write] paths [paths ...]\n"
  manual := "\npositional arguments:\n"
    ++ "  paths\n"
    ++ "\noptions:\n"
    ++ "  -h, --help  show this help message and exit\n"
    ++ "  --write     Rewrite files in place\n"
  switches := [helpSwitch, ⟨["--write"], .flag, []⟩]
  operands := .many "paths"

def rulesGrammar : Grammar where
  program := "supersql rules"
  usage := "usage: supersql rules [-h]\n"
  manual := "\noptions:\n"
    ++ "  -h, --help  show this help message and exit\n"
  switches := [helpSwitch]
  operands := .nothing

def pathsOf (r : Reading) : List Path := r.operands.map Path.ofString

def formatRequest (r : Reading) : Except Fault Request := do
  let mode : FormatMode :=
    if r.has "--check" then .check else if r.has "--write" then .write else .print
  let width ← (r.setting "--indent-width").integer 2 .width
  return .format mode
    { indentWidth := width.toNat
      useSpaces := !r.has "--tabs"
      trimTrailingWhitespace := r.has "--trim-trailing-whitespace"
      insertFinalNewline := r.has "--final-newline"
      trimFinalNewlines := r.has "--trim-final-newlines" }
    (pathsOf r)

def commandOf (name : String) : Grammar × (Reading → Except Fault Request) :=
  if name = "format" then (formatGrammar, formatRequest)
  else if name = "check" then (checkGrammar, fun r => .ok (.check (r.has "--json") (pathsOf r)))
  else if name = "fix" then (fixGrammar, fun r => .ok (.fix (r.has "--write") (pathsOf r)))
  else (rulesGrammar, fun _ => .ok .rules)

/-- Reads a command line: the part of the program first, then the part of the command. -/
def ofArguments (arguments : List String) : Except Stop Invocation := do
  let outer ← (programGrammar.read arguments).mapError .halt
  let (grammar, request) := commandOf (outer.operands.headD "")
  let inner ← (grammar.read outer.operands.tail).mapError .halt
  (programGrammar.refuseExtras (outer.extras ++ inner.extras)).mapError .halt
  return ⟨outer.has "--verbose", ← (request inner).mapError .fault⟩

end Invocation
end QueryTidy.Command
