import QueryTidy.Diagnostic
import QueryTidy.Migration.Pattern

/-! Migration rules: a deprecated construct, what is said about it, and what replaces it. -/
namespace QueryTidy.Migration

inductive Substitution where
  | dashComment
  | grepThis
  | isThis
  | cast (type : Text)
  | wrap (left right : Text)
deriving DecidableEq, Repr

namespace Substitution

def slashBody? (argument : Text) : Option Text :=
  if 2 ≤ argument.length ∧ argument.head? = some '/' ∧ argument.getLast? = some '/' then
    some (argument.drop 1).dropLast
  else none

def newText (substitution : Substitution) (capture : Capture) : Text :=
  match substitution with
  | .dashComment => capture.matched.take (capture.matched.length - 2) ++ ['-', '-']
  | .grepThis =>
    match slashBody? capture.argument with
    | some body => "grep('".toList ++ body ++ "', this)".toList
    | none => "grep(".toList ++ capture.argument ++ ", this)".toList
  | .isThis => "is(this, ".toList ++ capture.argument ++ [')']
  | .cast type => capture.argument ++ "::".toList ++ type
  | .wrap left right => left ++ capture.matched ++ right

end Substitution

structure Rule where
  code : String
  message : String
  severity : Severity
  category : Option String
  pattern : Pattern
  oldForm : String
  newForm : Option String := none
  replacement : Option Text := none
  /-- A new text made from what was found; it goes before a fixed one. -/
  substitution : Option Substitution := none
  /-- Constructs that hold this text are left alone. -/
  exempt : Option Text := none
  reportedTail : Option Text := none
deriving DecidableEq, Repr

namespace Rule

def hasFix (rule : Rule) : Bool := rule.replacement.isSome || rule.substitution.isSome

def newText (rule : Rule) (capture : Capture) : Option Text :=
  match rule.substitution with
  | some substitution => some (substitution.newText capture)
  | none => rule.replacement

end Rule

inductive RuleFault where
  | duplicate (code : String)
  | twoFixes (code : String)
  | emptyHighlight (code : String)
deriving DecidableEq, Repr

def RuleFault.message : RuleFault → String
  | .duplicate code => "Migration rule `" ++ code ++ "` is registered more than once."
  | .twoFixes code =>
    "Migration rule `" ++ code
      ++ "` has both a replacement and a fix function; expected at most one."
  | .emptyHighlight code => "Migration rule `" ++ code ++ "` has an empty highlight suffix."

namespace Rule

def faultFrom? (seen : List String) : List Rule → Option RuleFault
  | [] => none
  | rule :: rules =>
    if seen.contains rule.code then some (.duplicate rule.code)
    else if rule.replacement.isSome && rule.substitution.isSome then some (.twoFixes rule.code)
    else if rule.reportedTail = some [] then some (.emptyHighlight rule.code)
    else faultFrom? (rule.code :: seen) rules

/-- Codes differ, no rule has two kinds of fix, and no highlighted tail is empty. -/
def validate (rules : List Rule) : Except RuleFault Unit :=
  match faultFrom? [] rules with
  | some fault => .error fault
  | none => .ok ()

end Rule
end QueryTidy.Migration
