import QueryTidy.Text.Quoted

/-! Tokens of a query: a kind and the piece of source that was read. -/
namespace QueryTidy

namespace Token

inductive Kind where
  | whitespace | newline | lineComment | blockComment
  | string | regex | identifier | keyword | number
  | pipe | operator | punctuation
deriving DecidableEq, Repr

namespace Kind

def all : List Kind :=
  [.whitespace, .newline, .lineComment, .blockComment, .string, .regex, .identifier, .keyword,
   .number, .pipe, .operator, .punctuation]

def code : Kind → Nat
  | .whitespace => 10
  | .newline => 11
  | .lineComment => 12
  | .blockComment => 13
  | .string => 20
  | .regex => 21
  | .identifier => 22
  | .keyword => 23
  | .number => 24
  | .pipe => 30
  | .operator => 31
  | .punctuation => 32

def name : Kind → String
  | .whitespace => "WHITESPACE"
  | .newline => "NEWLINE"
  | .lineComment => "LINE_COMMENT"
  | .blockComment => "BLOCK_COMMENT"
  | .string => "STRING"
  | .regex => "REGEX"
  | .identifier => "IDENTIFIER"
  | .keyword => "KEYWORD"
  | .number => "NUMBER"
  | .pipe => "PIPE"
  | .operator => "OPERATOR"
  | .punctuation => "PUNCTUATION"

def ofName? (s : String) : Option Kind := all.find? (·.name = s)

def isComment : Kind → Bool
  | .lineComment | .blockComment => true
  | _ => false

def isTrivia : Kind → Bool
  | .whitespace | .newline | .lineComment | .blockComment => true
  | _ => false

/-- Kinds whose text the layout never looks into. -/
def isOpaque : Kind → Bool
  | .string | .regex | .lineComment | .blockComment => true
  | _ => false

end Kind
end Token

structure Token where
  kind : Token.Kind
  text : Text
deriving DecidableEq, Repr

namespace Token

def isPunctuation (token : Token) (marks : List Text) : Bool :=
  token.kind = .punctuation && marks.contains token.text

def isOperator (token : Token) (operators : List Text) : Bool :=
  token.kind = .operator && operators.contains token.text

def openers : List Text := [['('], ['['], ['\x7b']]
def closers : List Text := [[')'], [']'], ['\x7d']]

def describe (token : Token) : String :=
  "Token(" ++ token.kind.name ++ ", " ++ String.ofList token.text.quoted ++ ")"

end Token
end QueryTidy
