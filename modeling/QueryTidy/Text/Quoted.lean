import QueryTidy.Text.Basic
import QueryTidy.Text.Printable

/-! Quoted form of a text, as it stands in reports. -/
namespace QueryTidy.Text

/-- A single quote, unless the text holds one and no double quote. -/
def quoteMark (t : Text) : Char :=
  if '\x27' ∈ t ∧ '\x22' ∉ t then '\x22' else '\x27'

def hexDigits (width n : Nat) : Text := (Nat.toDigits 16 n).leftpad width '0'

def escapeChar (mark c : Char) : Text :=
  if c = '\\' ∨ c = mark then ['\\', c]
  else if c = '\n' then ['\\', 'n']
  else if c = '\r' then ['\\', 'r']
  else if c = '\t' then ['\\', 't']
  else if isPrintable c then [c]
  else if c.toNat < 0x100 then '\\' :: 'x' :: hexDigits 2 c.toNat
  else if c.toNat < 0x10000 then '\\' :: 'u' :: hexDigits 4 c.toNat
  else '\\' :: 'U' :: hexDigits 8 c.toNat

def quoted (t : Text) : Text :=
  t.quoteMark :: (t.flatMap (escapeChar t.quoteMark) ++ [t.quoteMark])

def quotedString (s : String) : String := String.ofList (quoted s.toList)

end QueryTidy.Text
