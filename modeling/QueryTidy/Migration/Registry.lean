import QueryTidy.Migration.Rule

/-! The rules that are applied unless others are given. -/
namespace QueryTidy.Migration

def migration : Option String := some "migration"

def renamedWord (code message : String) (old new : String) : Rule where
  code := code
  message := message
  severity := .warning
  category := migration
  pattern := .word old.toList
  oldForm := old
  newForm := some new
  replacement := some new.toList

def functionCast (type : String) : Rule where
  code := "deprecated-cast-" ++ type
  message := "Function-style cast deprecated, use '::" ++ type ++ "'"
  severity := .warning
  category := migration
  pattern := .call type.toList [.singleQuotes, .doubleQuotes]
  oldForm := type ++ "('...')"
  newForm := some ("'...'::" ++ type)
  substitution := some (.cast type.toList)

def removedFunction (name : String) : Rule where
  code := "removed-" ++ name
  message := "'" ++ name ++ "()' was removed, use explicit casting"
  severity := .error
  category := migration
  pattern := .callOpening name.toList
  oldForm := name ++ "()"

def arrow : Rule where
  code := "deprecated-arrow"
  message := "'=>' is deprecated, use 'into'"
  severity := .warning
  category := migration
  pattern := .literal "=>".toList
  oldForm := "=>"
  newForm := some "into"
  replacement := some "into".toList

/-- Slashes after a colon belong to an address and are no comment. -/
def slashComment : Rule where
  code := "deprecated-comment-slash"
  message := "'//' comments are deprecated, use '--'"
  severity := .warning
  category := migration
  pattern := .slashComment
  oldForm := "//"
  newForm := some "--"
  substitution := some .dashComment
  exempt := some "://".toList
  reportedTail := some "//".toList

def parseZson : Rule where
  code := "deprecated-parse-zson"
  message := "'parse_zson' is deprecated, use 'parse_sup'"
  severity := .warning
  category := migration
  pattern := .callOpening "parse_zson".toList
  oldForm := "parse_zson"
  newForm := some "parse_sup"
  replacement := some "parse_sup(".toList

def implicitGrep : Rule where
  code := "implicit-this-grep"
  message := "grep() requires explicit 'this' argument"
  severity := .warning
  category := migration
  pattern := .call "grep".toList [.slashes, .singleQuotes, .doubleQuotes]
  oldForm := "grep(pattern)"
  newForm := some "grep(pattern, this)"
  substitution := some .grepThis

def implicitIs : Rule where
  code := "implicit-this-is"
  message := "is() requires explicit 'this' argument"
  severity := .warning
  category := migration
  pattern := .call "is".toList [.angles]
  oldForm := "is(<type>)"
  newForm := some "is(this, <type>)"
  substitution := some .isThis

def implicitNestDotted : Rule where
  code := "implicit-this-nest-dotted"
  message := "nest_dotted() requires explicit 'this' argument"
  severity := .warning
  category := migration
  pattern := .emptyCall "nest_dotted".toList
  oldForm := "nest_dotted()"
  newForm := some "nest_dotted(this)"
  replacement := some "nest_dotted(this)".toList

def registry : List Rule :=
  [renamedWord "deprecated-yield" "'yield' is deprecated, use 'values'" "yield" "values",
   renamedWord "deprecated-func" "'func' is deprecated, use 'fn'" "func" "fn",
   arrow, slashComment, parseZson, implicitGrep, implicitIs, implicitNestDotted,
   functionCast "time", functionCast "duration", functionCast "ip", functionCast "net",
   removedFunction "crop", removedFunction "fill", removedFunction "fit",
   removedFunction "order", removedFunction "shape"]

end QueryTidy.Migration
