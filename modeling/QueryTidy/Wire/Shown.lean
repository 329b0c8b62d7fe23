import QueryTidy.Number.Shortest
import QueryTidy.Text.Quoted
import QueryTidy.Wire.Value

/-! Values as texts. -/
namespace QueryTidy.Wire

mutual

def Value.shown : Value → String
  | .null => "None"
  | .bool b => if b then "True" else "False"
  | .int n => toString n
  | .real x => x.text
  | .str s => Text.quotedString s
  | .arr items => "[" ++ String.intercalate ", " (shownItems items) ++ "]"
  | .obj fields => "\x7b" ++ String.intercalate ", " (shownFields fields) ++ "\x7d"

def shownItems : List Value → List String
  | [] => []
  | item :: items => item.shown :: shownItems items

def shownFields : List (String × Value) → List String
  | [] => []
  | (key, value) :: fields => (Text.quotedString key ++ ": " ++ value.shown) :: shownFields fields

end

def Value.toText : Value → String
  | .str s => s
  | other => other.shown

end QueryTidy.Wire
