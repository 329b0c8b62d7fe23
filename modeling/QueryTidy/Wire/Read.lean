import QueryTidy.Wire.Value

/-! Reading JSON text. -/
namespace QueryTidy.Wire

def skipBlanks (t : Text) : Text :=
  t.dropWhile fun c => c = ' ' || c = '\t' || c = '\n' || c = '\r'

def hexValue? (c : Char) : Option Nat :=
  if '0' ≤ c ∧ c ≤ '9' then some (c.toNat - '0'.toNat)
  else if 'a' ≤ c ∧ c ≤ 'f' then some (c.toNat - 'a'.toNat + 10)
  else if 'A' ≤ c ∧ c ≤ 'F' then some (c.toNat - 'A'.toNat + 10)
  else none

def unescape? (c : Char) : Option Char :=
  if c = '\x22' ∨ c = '\\' ∨ c = '/' then some c
  else if c = 'n' then some '\n'
  else if c = 'r' then some '\r'
  else if c = 't' then some '\t'
  else if c = 'b' then some '\x08'
  else if c = 'f' then some '\x0c'
  else none

inductive Inside where
  | plain
  | escaped
  | unit (left value : Nat)

def joinUnits (first unit : Nat) : Char :=
  if 0xdc00 ≤ unit ∧ unit < 0xe000 then
    Char.ofNat (0x10000 + (first - 0xd800) * 0x400 + (unit - 0xdc00))
  else Char.ofNat unit

/-- The text of a string and the text behind its closing quote, where `first` is the first unit
of a pair that is not complete, and `done` is read already, last character first. -/
def readString (inside : Inside) (first : Nat) (done : Text) : Text → Option (Text × Text)
  | [] => none
  | c :: t =>
    match inside with
    | .plain =>
      if c = '\x22' then some (done.reverse, t)
      else if c = '\\' then readString .escaped first done t
      else readString .plain 0 (c :: done) t
    | .escaped =>
      if c = 'u' then readString (.unit 4 0) first done t
      else match unescape? c with
        | some d => readString .plain 0 (d :: done) t
        | none => none
    | .unit left value =>
      match hexValue? c with
      | none => none
      | some d =>
        let value := 16 * value + d
        if 1 < left then readString (.unit (left - 1) value) first done t
        else if 0xd800 ≤ value ∧ value < 0xdc00 then readString .plain value done t
        else readString .plain 0 (joinUnits first value :: done) t

def isNumberChar (c : Char) : Bool :=
  c.isDigit || c = '-' || c = '+' || c = '.' || c = 'e' || c = 'E'

def readNumber? (t : Text) : Option Value :=
  let negative := t.head? = some '-'
  let t := if negative then t.drop 1 else t
  let whole := t.takeWhile Char.isDigit
  let t := t.drop whole.length
  let places := if t.head? = some '.' then (t.drop 1).takeWhile Char.isDigit else []
  let t := if t.head? = some '.' then t.drop (places.length + 1) else t
  let value (ds : Text) : Nat := ds.foldl (fun n c => 10 * n + (c.toNat - '0'.toNat)) 0
  if whole.isEmpty then none
  else match t with
    | [] =>
      if places.isEmpty then
        some (.int (if negative then -(value whole : Int) else (value whole : Int)))
      else some (.real (.ofDecimal negative (value (whole ++ places)) (-(places.length : Int))))
    | e :: t =>
      let ds := t.filter Char.isDigit
      let power := if t.head? = some '-' then -(value ds : Int) else (value ds : Int)
      if e = 'e' ∨ e = 'E' then
        some (.real (.ofDecimal negative (value (whole ++ places)) (power - places.length)))
      else none

def readWord? (t : Text) : Option (Value × Text) :=
  let words := [("null", Value.null), ("true", .bool true), ("false", .bool false)]
  words.findSome? fun (word, value) => (word.toList.isPrefixOf? t).map (value, ·)

/-- A field in the place of one with the same key, or behind all others. -/
def putField (key : String) (value : Value) : List (String × Value) → List (String × Value)
  | [] => [(key, value)]
  | (k, old) :: fields =>
    if k = key then (key, value) :: fields else (k, old) :: putField key value fields

mutual

/-- A value and the text behind it; `fuel` bounds how many values, items and fields are read. -/
def readValue : Nat → Text → Option (Value × Text)
  | 0, _ => none
  | fuel + 1, t =>
    match skipBlanks t with
    | [] => none
    | c :: t =>
      if c = '\x22' then (readString .plain 0 [] t).map fun (s, t) => (.str (String.ofList s), t)
      else if c = '[' then readItems fuel [] (skipBlanks t)
      else if c = '\x7b' then readFields fuel [] (skipBlanks t)
      else if c.isDigit || c = '-' then
        (readNumber? ((c :: t).takeWhile isNumberChar)).map (·, (c :: t).dropWhile isNumberChar)
      else readWord? (c :: t)

def readItems : Nat → List Value → Text → Option (Value × Text)
  | 0, _, _ => none
  | fuel + 1, done, t =>
    match t, done with
    | ']' :: t, [] => some (.arr [], t)
    | t, done =>
      match readValue fuel t with
      | none => none
      | some (item, t) =>
        match skipBlanks t with
        | ',' :: t => readItems fuel (item :: done) t
        | ']' :: t => some (.arr (item :: done).reverse, t)
        | _ => none

def readFields : Nat → List (String × Value) → Text → Option (Value × Text)
  | 0, _, _ => none
  | fuel + 1, done, t =>
    match t, done with
    | '\x7d' :: t, [] => some (.obj [], t)
    | '\x22' :: t, done =>
      match readString .plain 0 [] t with
      | none => none
      | some (key, t) =>
        match skipBlanks t with
        | ':' :: t =>
          match readValue fuel t with
          | none => none
          | some (value, t) =>
            let fields := putField (String.ofList key) value done
            match skipBlanks t with
            | ',' :: t => readFields fuel fields (skipBlanks t)
            | '\x7d' :: t => some (.obj fields, t)
            | _ => none
        | _ => none
    | _, _ => none

end

def read? (s : String) : Option Value :=
  match readValue (s.length + 1) s.toList with
  | some (value, rest) => if (skipBlanks rest).isEmpty then some value else none
  | none => none

end QueryTidy.Wire
