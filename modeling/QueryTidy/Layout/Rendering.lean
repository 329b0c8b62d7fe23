import QueryTidy.Layout.Pass
import QueryTidy.Place.Edit

/-! Laying out whole documents. -/
namespace QueryTidy.Layout

def trimLines (t : Text) : Text := Text.unlines (t.lines.map (Text.trimEnd Token.isBlank))

def trimFinalBreaks (t : Text) : Text := Text.trimEnd (· == '\n') t

def endWithBreak (t : Text) : Text := if t.getLast? = some '\n' then t else t ++ ['\n']

/-- Tidies line ends, as far as the options ask for it: blanks at line ends first, then line
breaks at the end, then the final line break. -/
def tidyEnds (options : Options) (t : Text) : Text :=
  let t := if options.trimTrailingWhitespace then trimLines t else t
  let t := if options.trimFinalNewlines then trimFinalBreaks t else t
  if options.insertFinalNewline then endWithBreak t else t

def render (options : Options) (tokens : List Token) : Text :=
  tidyEnds options (body options.indent tokens)

def format (options : Options) (t : Text) : Text := render options (tokenize t)

def edits (options : Options) (t : Text) : List Edit := Edit.toMake (format options t) t

end QueryTidy.Layout
