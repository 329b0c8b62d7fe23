import QueryTidy.Layout.Options
import QueryTidy.Token.Lexer

/-! One pass over the tokens. Blanks are laid out anew, every other token is kept, and a decision
looks only at the token, its neighbours and the bracket depth. -/
namespace QueryTidy.Layout

structure Cursor where
  depth : Nat := 0
  atLineStart : Bool := true
  owesSpace : Bool := false
  previous : Option Token := none
deriving DecidableEq, Repr

def joiners : List Text := [['.', '.', '.'], [':', ':'], ['-', '>']]

/-- Operators around which no space is made. A space before a slash could turn it into the
opening of a regular expression. -/
def isJoining (operator : Text) : Bool := joiners.contains operator || operator == ['/']

def isAttaching (mark : Text) : Bool :=
  Token.openers.contains mark || mark == ['.'] || mark == [':']

def setsOffValue : Option Token → Bool
  | none => false
  | some previous =>
    match previous.kind with
    | .whitespace | .newline | .pipe => false
    | .punctuation => !isAttaching previous.text
    | .operator => !isJoining previous.text
    | _ => true

namespace Cursor

def gap (cursor : Cursor) (unit : Text) (space : Bool) : Text :=
  if cursor.atLineStart then (List.replicate cursor.depth unit).flatten
  else if space || cursor.owesSpace then [' '] else []

def written (cursor : Cursor) : Cursor := { cursor with atLineStart := false, owesSpace := false }

def broken (cursor : Cursor) : Cursor := { cursor with atLineStart := true, owesSpace := false }

end Cursor

def write (unit : Text) (cursor : Cursor) (text : Text) (space : Bool) : Text × Cursor :=
  (cursor.gap unit space ++ text, cursor.written)

def punctuation (unit : Text) (cursor : Cursor) (mark : Text) : Text × Cursor :=
  if Token.openers.contains mark then
    let (out, cursor) := write unit cursor mark false
    (out, { cursor with depth := cursor.depth + 1 })
  else if Token.closers.contains mark then
    write unit { cursor with depth := cursor.depth - 1 } mark false
  else
    let (out, after) := write unit cursor mark false
    if mark = [','] then (out, { after with owesSpace := true })
    else if mark = [':'] then
      -- A colon after a name or a string belongs to a record field.
      let spaced := cursor.previous.any fun t => t.kind = .identifier || t.kind = .string
      (out, { after with owesSpace := spaced })
    else (out, after)

def operator (unit : Text) (cursor : Cursor) (text : Text) (following : Option Token) :
    Text × Cursor :=
  if isJoining text then write unit cursor text false
  else
    let afterOpening := cursor.previous.any (·.isPunctuation Token.openers)
    let (out, after) := write unit cursor text !afterOpening
    let closing := following.any (·.isPunctuation ([','] :: Token.closers))
    (out, { after with owesSpace := !closing })

def step (unit : Text) (cursor : Cursor) (token : Token) (following : Option Token) :
    Text × Cursor :=
  match token.kind with
  | .newline => (['\n'], cursor.broken)
  | .whitespace =>
    ([], if cursor.atLineStart then cursor else { cursor with owesSpace := true })
  | .lineComment | .blockComment => write unit cursor token.text false
  | .pipe =>
    let (out, after) := write unit cursor.broken token.text false
    (if cursor.atLineStart then out else '\n' :: out, { after with owesSpace := true })
  | .punctuation => punctuation unit cursor token.text
  | .operator => operator unit cursor token.text following
  | _ => write unit cursor token.text (setsOffValue cursor.previous)

def layoutFrom (unit : Text) (cursor : Cursor) : List Token → Text
  | [] => []
  | token :: tokens =>
    let (out, after) := step unit cursor token tokens.head?
    out ++ layoutFrom unit { after with previous := some token } tokens

/-- Output for a whole document, before its line ends are tidied. -/
def body (unit : Text) (tokens : List Token) : Text := layoutFrom unit {} tokens

end QueryTidy.Layout
