import QueryTidy.Migration.Registry
import QueryTidy.Place.Edit

/-! Finding deprecated constructs, line by line. -/
namespace QueryTidy.Migration

structure Finding where
  diagnostic : Diagnostic
  fix : Option Edit
deriving DecidableEq

/-- Index of the first `--` of a line. What starts behind it is comment text; strings are not
told apart. -/
def commentStart : Text → Option Nat
  | '-' :: '-' :: _ => some 0
  | _ :: t => (commentStart t).map (· + 1)
  | [] => none

/-- Whether a match counts: it starts no later than the comment, and does not hold the text
that its rule skips. -/
def counts (rule : Rule) (comment : Option Nat) (found : Match) : Bool :=
  comment.all (found.start ≤ ·) &&
    !rule.exempt.any (Text.occursIn · found.capture.matched)

def unreported (suffix : Option Text) (matched : Text) : Text :=
  match suffix with
  | none => []
  | some suffix =>
    if suffix.length < matched.length ∧ suffix.isSuffixOf matched then
      matched.take (matched.length - suffix.length)
    else []

def finding (rule : Rule) (number : Nat) (line : Text) (found : Match) : Finding :=
  let matched := found.capture.matched
  let column := line.columnAt found.start
  let lead := (unreported rule.reportedTail matched).utf8Size
  let diagnostic : Diagnostic :=
    { code := rule.code, message := rule.message
      range := .onLine number (column + lead) (matched.utf8Size - lead)
      severity := rule.severity, category := rule.category }
  let fix := (rule.newText found.capture).map fun new =>
    ⟨.onLine number column matched.utf8Size, new⟩
  ⟨diagnostic, fix⟩

def findingsOn (rules : List Rule) (number : Nat) (line : Text) : List Finding :=
  let comment := commentStart line
  rules.flatMap fun rule =>
    ((rule.pattern.matchesIn line).filter (counts rule comment)).map (finding rule number line)

def findingsFrom (rules : List Rule) (number : Nat) : List Text → List Finding
  | [] => []
  | line :: lines => findingsOn rules number line ++ findingsFrom rules (number + 1) lines

/-- All findings, by line, then by rule, then from left to right. -/
def scan (rules : List Rule) (t : Text) : List Finding := findingsFrom rules 0 t.lines

end QueryTidy.Migration
