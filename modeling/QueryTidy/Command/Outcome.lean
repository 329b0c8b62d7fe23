import QueryTidy.Command.Arguments
import QueryTidy.Files.Glob
import QueryTidy.Wire.Decode

/-! How a program ends. -/
namespace QueryTidy.Command
open Files (Tree)

/-- A number, or a last word that is shown instead. -/
inductive Exit where
  | status (code : Nat)
  | message (text : String)
deriving DecidableEq, Repr

structure Outcome where
  exit : Exit
  stdout : String := ""
  stderr : String := ""
  tree : Tree

inductive Need where
  | width
  | count
  | output
deriving DecidableEq, Repr

def Need.message : Need → String
  | .width => "'<' not supported between instances of 'list' and 'int'"
  | .count => "'>' not supported between instances of 'int' and 'list'"
  | .output => "'list' object has no attribute 'parent'"

inductive Fault where
  | file (fault : Files.Fault)
  | pattern (fault : Files.PatternFault)
  | edit (fault : EditFault)
  | wire (fault : Wire.Fault)
  | blank (need : Need)
deriving DecidableEq

def Fault.message : Fault → String
  | .file fault => fault.message
  | .pattern fault => fault.message
  | .edit fault => fault.message
  | .wire fault => fault.message
  | .blank need => need.message

def Halt.outcome (tree : Tree) : Halt → Outcome
  | .shown text => { exit := .status 0, stdout := text, tree }
  | .refused program usage text =>
    { exit := .status 2, stderr := usage ++ program ++ ": error: " ++ text ++ "\n", tree }

inductive Stop where
  | halt (halt : Halt)
  | fault (fault : Fault)

def Stop.outcome (tree : Tree) : Stop → Except Fault Outcome
  | .halt h => .ok (h.outcome tree)
  | .fault f => .error f

def refuseInteger (kind : String) (s : String) : Option String :=
  if (Text.integer? s.toList).isSome then none
  else some ("invalid " ++ kind ++ " value: " ++ Text.quotedString s)

def Setting.integer (default : Int) (need : Need) : Setting → Except Fault Int
  | .absent => .ok default
  | .blank => .error (.blank need)
  | .text s => .ok ((Text.integer? s.toList).getD default)

def helpSwitch : Switch := ⟨["-h", "--help"], .help, []⟩

end QueryTidy.Command
