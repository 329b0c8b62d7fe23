import QueryTidy.Number.Shortest
import QueryTidy.Text.Quoted
import QueryTidy.Wire.Value

/-! JSON text: two spaces of indentation a level, and ASCII only. -/
namespace QueryTidy.Wire

def escapeUnit (n : Nat) : Text := '\\' :: 'u' :: Text.hexDigits 4 n

def escapeChar (c : Char) : Text :=
  let n := c.toNat
  if c = '\x22' then ['\\', c]
  else if c = '\\' then ['\\', c]
  else if c = '\n' then ['\\', 'n']
  else if c = '\r' then ['\\', 'r']
  else if c = '\t' then ['\\', 't']
  else if c = '\x08' then ['\\', 'b']
  else if c = '\x0c' then ['\\', 'f']
  else if 0x20 ≤ n ∧ n < 0x7f then [c]
  else if n < 0x10000 then escapeUnit n
  else escapeUnit (0xd800 + (n - 0x10000) / 0x400) ++ escapeUnit (0xdc00 + (n - 0x10000) % 0x400)

def printString (s : String) : String :=
  String.ofList ('\x22' :: (s.toList.flatMap escapeChar ++ ['\x22']))

def lineBreak (level : Nat) : String :=
  String.ofList ('\n' :: List.replicate (2 * level) ' ')

def printBlock (opening closing : String) (level : Nat) (entries : List String) : String :=
  if entries.isEmpty then opening ++ closing
  else opening ++ lineBreak (level + 1)
    ++ String.intercalate ("," ++ lineBreak (level + 1)) entries ++ lineBreak level ++ closing

mutual

def print (level : Nat) : Value → String
  | .null => "null"
  | .bool b => if b then "true" else "false"
  | .int n => toString n
  | .real x => x.text
  | .str s => printString s
  | .arr items => printBlock "[" "]" level (printItems (level + 1) items)
  | .obj fields => printBlock "\x7b" "\x7d" level (printFields (level + 1) fields)

def printItems (level : Nat) : List Value → List String
  | [] => []
  | item :: items => print level item :: printItems level items

def printFields (level : Nat) : List (String × Value) → List String
  | [] => []
  | (key, value) :: fields =>
    (printString key ++ ": " ++ print level value) :: printFields level fields

end

end QueryTidy.Wire
