import QueryTidy.Text.Basic

/-! Words with a meaning of their own; case does not matter. -/
namespace QueryTidy.Token

def keywords : List String :=
  ["select", "from", "where", "group", "by", "having", "order", "limit", "offset", "with", "join",
   "inner", "left", "right", "outer", "full", "cross", "anti", "on", "using", "and", "or", "not",
   "in", "like", "is", "between", "case", "when", "then", "else", "end", "as", "distinct", "all",
   "union", "const", "fn", "op", "type", "let", "true", "false", "null", "asc", "desc"]

/-- Lower case of a character, as far as it can spell a keyword: ASCII letters, and the two
characters outside ASCII whose lower case holds an ASCII letter. -/
def lowerChar (c : Char) : Text :=
  if c = '\u212a' then ['k'] else if c = '\u0130' then ['i', '\u0307'] else [c.toLower]

def isKeyword (word : Text) : Bool :=
  keywords.contains (String.ofList (word.flatMap lowerChar))

end QueryTidy.Token
