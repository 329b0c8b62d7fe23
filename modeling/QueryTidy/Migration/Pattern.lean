import QueryTidy.Token.Lexeme

/-! What deprecated constructs look like on a line. -/
namespace QueryTidy.Migration

def isSpace (c : Char) : Bool :=
  c == ' ' || c == '\t' || c == '\n' || c == '\r' || c == '\x0b' || c == '\x0c'

/-- An argument between two delimiters, the second of which does not occur inside. -/
structure Delimited where
  opening : Char
  closing : Char
  mayBeEmpty : Bool
deriving DecidableEq, Repr

namespace Delimited

def slashes : Delimited := ⟨'/', '/', true⟩
def singleQuotes : Delimited := ⟨'\x27', '\x27', true⟩
def doubleQuotes : Delimited := ⟨'\x22', '\x22', true⟩
def angles : Delimited := ⟨'<', '>', false⟩

def read? (d : Delimited) : Text → Option (Text × Text)
  | [] => none
  | c :: t =>
    let body := t.takeWhile (· != d.closing)
    match t.dropWhile (· != d.closing) with
    | [] => none
    | e :: rest =>
      if c = d.opening ∧ (d.mayBeEmpty ∨ body ≠ []) then some (c :: (body ++ [e]), rest) else none

end Delimited

inductive Pattern where
  | literal (text : Text)
  | word (name : Text)
  /-- Two slashes, with the character in front of them unless they start the line; that
  character is no colon. -/
  | slashComment
  | callOpening (name : Text)
  | emptyCall (name : Text)
  | call (name : Text) (arguments : List Delimited)
deriving DecidableEq, Repr

structure Capture where
  matched : Text
  argument : Text := []
deriving DecidableEq, Repr

namespace Pattern

def afterName? (name : Text) (previous : Option Char) (t : Text) : Option Text :=
  if previous.any Token.isWordChar then none else name.isPrefixOf? t

def afterOpening? (name : Text) (previous : Option Char) (t : Text) : Option (Text × Text) :=
  (afterName? name previous t).bind fun u =>
    match u.dropWhile isSpace with
    | '(' :: v => some (name ++ u.takeWhile isSpace ++ ['('], v)
    | _ => none

def closing? (t : Text) : Option Text :=
  match t.dropWhile isSpace with
  | ')' :: _ => some (t.takeWhile isSpace ++ [')'])
  | _ => none

/-- What the pattern finds at the head of `t`, where `previous` stands in front of it. -/
def matchAt (pattern : Pattern) (previous : Option Char) (t : Text) : Option Capture :=
  match pattern with
  | .literal text => if text.isPrefixOf t then some ⟨text, []⟩ else none
  | .word name =>
    (afterName? name previous t).bind fun u =>
      if u.head?.any Token.isWordChar then none else some ⟨name, []⟩
  | .slashComment =>
    if previous.isNone && ['/', '/'].isPrefixOf t then some ⟨['/', '/'], []⟩
    else match t with
      | c :: u => if c ≠ ':' ∧ ['/', '/'].isPrefixOf u then some ⟨[c, '/', '/'], []⟩ else none
      | [] => none
  | .callOpening name => (afterOpening? name previous t).map fun (opening, _) => ⟨opening, []⟩
  | .emptyCall name =>
    (afterOpening? name previous t).bind fun (opening, u) =>
      (closing? u).map fun closing => ⟨opening ++ closing, []⟩
  | .call name arguments =>
    (afterOpening? name previous t).bind fun (opening, u) =>
      (arguments.findSome? (·.read? (u.dropWhile isSpace))).bind fun (argument, v) =>
        (closing? v).map fun closing =>
          ⟨opening ++ u.takeWhile isSpace ++ argument ++ closing, argument⟩

end Pattern

structure Match where
  start : Nat
  capture : Capture
deriving DecidableEq, Repr

namespace Pattern

/-- Matches from left to right, none overlapping the one before. `index` characters were
passed, `previous` being the last of them, and the next `skip` belong to the last match. -/
def matchesFrom (pattern : Pattern) (index : Nat) (previous : Option Char) (skip : Nat) :
    Text → List Match
  | [] =>
    if skip = 0 then ((pattern.matchAt previous []).map (⟨index, ·⟩)).toList else []
  | c :: t =>
    match skip with
    | k + 1 => matchesFrom pattern (index + 1) (some c) k t
    | 0 =>
      match pattern.matchAt previous (c :: t) with
      | none => matchesFrom pattern (index + 1) (some c) 0 t
      | some capture =>
        ⟨index, capture⟩
          :: matchesFrom pattern (index + 1) (some c) (capture.matched.length - 1) t

def matchesIn (pattern : Pattern) (line : Text) : List Match := pattern.matchesFrom 0 none 0 line

end Pattern
end QueryTidy.Migration
