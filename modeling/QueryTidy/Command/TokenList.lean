import QueryTidy.Command.Outcome
import QueryTidy.Token.Dump
import QueryTidy.Token.Lexer

/-! Listing the tokens of a file. -/
namespace QueryTidy.Command
open Files (Path Tree)

def tokenListGrammar : Grammar where
  program := "dump_tokens.py"
  usage := "usage: dump_tokens.py [-h] [--output OUTPUT] [--skip-trivia] input\n"
  manual := "\nDump SuperSQL tokens\n"
    ++ "\npositional arguments:\n"
    ++ "  input            Query file to tokenize\n"
    ++ "\noptions:\n"
    ++ "  -h, --help       show this help message and exit\n"
    ++ "  --output OUTPUT  Write here instead of stdout\n"
    ++ "  --skip-trivia    Omit whitespace, newlines and comments\n"
  switches := [helpSwitch, ⟨["--output"], .value fun _ => none, []⟩, ⟨["--skip-trivia"], .flag, []⟩]
  operands := .one "input"

def listTokens (tree : Tree) (r : Reading) : Except Fault Outcome := do
  let t ← (tree.readText (.ofString (r.operands.headD ""))).mapError .file
  let all := tokenize t
  let tokens := if r.has "--skip-trivia" then all.filter (!·.kind.isTrivia) else all
  match r.setting "--output" with
  | .absent => return { exit := .status 0, stdout := Token.dump tokens, tree }
  | .blank => throw (.blank .output)
  | .text output =>
    let path := Path.ofString output
    let listing := String.join (tokens.mapIdx fun i token => Token.fileLine i token ++ "\n")
    let tree ← (tree.makeDirectories path.parent).mapError .file
    let tree ← (tree.writeText path listing.toList).mapError .file
    return { exit := .status 0, stdout := s!"Wrote {tokens.length} tokens to {path.text}\n", tree }

def tokenList (tree : Tree) (arguments : List String) : Except Fault Outcome :=
  match tokenListGrammar.read arguments with
  | .error halt => .ok (halt.outcome tree)
  | .ok r =>
    match tokenListGrammar.refuseExtras r.extras with
    | .error halt => .ok (halt.outcome tree)
    | .ok () => listTokens tree r

end QueryTidy.Command
