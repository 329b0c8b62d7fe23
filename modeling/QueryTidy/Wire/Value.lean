import QueryTidy.Number.Double
import QueryTidy.Text.Integer

/-! JSON values, and how numbers, texts and truth are read off them. -/
namespace QueryTidy.Wire

inductive Value where
  | null
  | bool (b : Bool)
  | int (n : Int)
  | real (x : Double)
  | str (s : String)
  | arr (items : List Value)
  | obj (fields : List (String × Value))
deriving Inhabited

inductive Shape where
  | null | bool | int | real | str | arr | obj
deriving DecidableEq, Repr

def Shape.name : Shape → String
  | .null => "NoneType"
  | .bool => "bool"
  | .int => "int"
  | .real => "float"
  | .str => "str"
  | .arr => "list"
  | .obj => "dict"

namespace Value

def shape : Value → Shape
  | .null => .null
  | .bool _ => .bool
  | .int _ => .int
  | .real _ => .real
  | .str _ => .str
  | .arr _ => .arr
  | .obj _ => .obj

/-- Null, false, zero and what is empty count as false. -/
def truth : Value → Bool
  | .null => false
  | .bool b => b
  | .int n => n ≠ 0
  | .real x => !x.isZero
  | .str s => s ≠ ""
  | .arr items => !items.isEmpty
  | .obj fields => !fields.isEmpty

def isNumber (n : Int) : Value → Bool
  | .bool b => n = if b then 1 else 0
  | .int m => n = m
  | .real x => x.isInt n
  | _ => false

end Value
end QueryTidy.Wire
