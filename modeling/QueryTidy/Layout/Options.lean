import QueryTidy.Text.Basic

/-! How a document is laid out. An indentation may be of any width: texts have no greatest length
here. -/
namespace QueryTidy.Layout

structure Options where
  indentWidth : Nat := 2
  useSpaces : Bool := true
  trimTrailingWhitespace : Bool := false
  insertFinalNewline : Bool := false
  trimFinalNewlines : Bool := false
deriving DecidableEq, Repr

def Options.indent (options : Options) : Text :=
  if options.useSpaces then List.replicate options.indentWidth ' ' else ['\t']

inductive OptionsFault where
  | negativeWidth
deriving DecidableEq, Repr

def OptionsFault.message : OptionsFault → String
  | .negativeWidth => "indent_width cannot be negative"

def width? (width : Int) : Except OptionsFault Nat :=
  if width < 0 then .error .negativeWidth else .ok width.toNat

end QueryTidy.Layout
