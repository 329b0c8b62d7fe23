import QueryTidy.Text.Integer
import QueryTidy.Text.Quoted

/-! Reading a command line: switches, their values, and operands. -/
namespace QueryTidy.Command

inductive Purpose where
  | flag
  | value (refusal : String → Option String)
  | help
  | version

structure Switch where
  names : List String
  purpose : Purpose
  conflicts : List String := []

namespace Switch

def title (s : Switch) : String := String.intercalate "/" s.names

def key (s : Switch) : String := s.names.getLast?.getD ""

def takesValue (s : Switch) : Bool :=
  match s.purpose with
  | .value _ => true
  | _ => false

end Switch

inductive Operands where
  | nothing
  | one (name : String)
  | many (name : String)
  | command (name : String) (choices : List String)

structure Grammar where
  program : String
  usage : String
  manual : String
  version : String := ""
  switches : List Switch
  operands : Operands

inductive Halt where
  | shown (text : String)
  | refused (program usage text : String)
deriving DecidableEq, Repr

inductive Setting where
  | absent
  /-- The switch stands there, but two dashes in place of its value. -/
  | blank
  | text (s : String)
deriving DecidableEq, Repr

structure Reading where
  switches : List (String × Option String) := []
  operands : List String := []
  extras : List String := []
deriving DecidableEq, Repr

namespace Reading

def has (r : Reading) (key : String) : Bool := r.switches.any (·.1 = key)

def setting (r : Reading) (key : String) : Setting :=
  match r.switches.reverse.lookup key with
  | none => .absent
  | some none => .blank
  | some (some s) => .text s

end Reading

structure Spotted where
  argument : String
  switch : Option Switch
  short : Bool := false
  attached : Option Text := none

inductive Piece where
  | dashes
  | operand (text : String)
  | switch (spotted : Spotted)

namespace Piece

def text : Piece → String
  | .dashes => "--"
  | .operand text => text
  | .switch spotted => spotted.argument

def isDashes : Piece → Bool
  | .dashes => true
  | _ => false

end Piece

namespace Grammar

def refuse (g : Grammar) (text : String) : Halt := .refused g.program g.usage text

def refuseArgument (g : Grammar) (argument text : String) : Halt :=
  g.refuse ("argument " ++ argument ++ ": " ++ text)

def spellings (g : Grammar) : List (String × Switch) :=
  g.switches.flatMap fun s => s.names.map (·, s)

def looksNegative (argument : Text) : Bool :=
  let isDigit (c : Char) : Bool := (Text.digitValue? c).isSome
  match argument with
  | '-' :: t =>
    let t := if t.getLast? = some '\n' then t.dropLast else t
    match t.dropWhile isDigit with
    | [] => !t.isEmpty
    | '.' :: places => !places.isEmpty && places.all isDigit
    | _ => false
  | _ => false

def splitAtEquals (argument : Text) : Text × Option Text :=
  (argument.takeWhile (· != '='),
   match argument.dropWhile (· != '=') with
   | [] => none
   | _ :: t => some t)

/-- The switches that an argument may stand for, with what is attached to it. A long name may be
cut short; a value may be attached to a short name. -/
def candidates (g : Grammar) (argument : Text) : List (String × Spotted) :=
  let whole := String.ofList argument
  match argument with
  | '-' :: '-' :: _ =>
    let (stem, attached) := splitAtEquals argument
    g.spellings.filterMap fun (name, s) =>
      if stem.isPrefixOf name.toList then
        some (name, { argument := whole, switch := some s, attached })
      else none
  | '-' :: c :: t =>
    g.spellings.filterMap fun (name, s) =>
      if name.toList = ['-', c] then
        some (name, { argument := whole, switch := some s, short := true
                      attached := some t })
      else none
  | _ => []

def spot (g : Grammar) (argument : String) : Except Halt Piece :=
  let t := argument.toList
  let isShort (name : Text) : Bool := name.drop 1 |>.head? |>.any (· != '-')
  if t.head? ≠ some '-' then .ok (.operand argument)
  else match g.spellings.lookup argument with
    | some s => .ok (.switch { argument, switch := some s, short := isShort t })
    | none =>
      if t.length = 1 then .ok (.operand argument)
      else
        let (stem, attached) := splitAtEquals t
        match g.spellings.lookup (String.ofList stem), attached with
        | some s, some text =>
          .ok (.switch { argument, switch := some s, short := isShort stem
                         attached := some text })
        | _, _ =>
          match g.candidates t with
          | [(_, spotted)] => .ok (.switch spotted)
          | [] =>
            if looksNegative t || t.contains ' ' then .ok (.operand argument)
            else .ok (.switch { argument, switch := none })
          | several =>
            .error (g.refuse ("ambiguous option: " ++ argument ++ " could match "
              ++ String.intercalate ", " (several.map (·.1))))

def spotAll (g : Grammar) : List String → Except Halt (List Piece)
  | [] => .ok []
  | argument :: arguments =>
    if argument = "--" then .ok (.dashes :: arguments.map .operand)
    else do
      let piece ← g.spot argument
      return piece :: (← g.spotAll arguments)

/-- Switches to act on, each with its value if it has one; an argument that is no switch; and
whether the next argument was taken for a value. -/
structure Uses where
  uses : List (Switch × Option String)
  extra : Option String := none
  tookNext : Bool := false

def useAlone (g : Grammar) (s : Switch) (next : Option String) : Except Halt Uses :=
  if s.takesValue then
    match next with
    | some value => .ok { uses := [(s, some value)], tookNext := true }
    | none => .error (g.refuseArgument s.title "expected one argument")
  else .ok { uses := [(s, none)] }

/-- An attached value. Two dashes only mark what follows them, and are none. -/
def attachedValue (text : Text) : Option String :=
  if text = ['-', '-'] then none else some (String.ofList text)

def ignored (g : Grammar) (s : Switch) (text : Text) : Halt :=
  g.refuseArgument s.title ("ignored explicit argument " ++ String.ofList text.quoted)

def useCluster (g : Grammar) (next : Option String) (s : Switch) : Text → Except Halt Uses
  | [] => g.useAlone s next
  | c :: t =>
    if s.takesValue then .ok { uses := [(s, attachedValue (c :: t))] }
    else match g.spellings.lookup (String.ofList ['-', c]) with
      | none => .error (g.ignored s (c :: t))
      | some s' => do
        let more ← g.useCluster next s' t
        return { more with uses := (s, none) :: more.uses }

def usesOf (g : Grammar) (spotted : Spotted) (next : Option String) : Except Halt Uses :=
  match spotted.switch with
  | none => .ok { uses := [], extra := some spotted.argument }
  | some s =>
    match spotted.attached with
    | none => g.useAlone s next
    | some text =>
      if s.takesValue then .ok { uses := [(s, attachedValue text)] }
      else if spotted.short && !text.isEmpty then g.useCluster next s text
      else .error (g.ignored s text)

def act (g : Grammar) (r : Reading) (s : Switch) (value : Option String) : Except Halt Reading :=
  match s.purpose with
  | .help => .error (.shown (g.usage ++ g.manual))
  | .version => .error (.shown g.version)
  | .value refusal =>
    match value.bind refusal with
    | some text => .error (g.refuseArgument s.title text)
    | none => .ok { r with switches := r.switches ++ [(s.key, value)] }
  | .flag =>
    match s.conflicts.find? r.has with
    | some other => .error (g.refuseArgument s.title ("not allowed with argument " ++ other))
    | none => .ok { r with switches := r.switches ++ [(s.key, value)] }

def actAll (g : Grammar) (r : Reading) : List (Switch × Option String) → Except Halt Reading
  | [] => .ok r
  | (s, value) :: uses => do g.actAll (← g.act r s value) uses

def operandCount (g : Grammar) (run : List Piece) : Nat :=
  let dashes := (run.takeWhile Piece.isDashes).length
  if run.length = dashes then 0
  else match g.operands with
    | .nothing => 0
    | .one _ => dashes + 1 + ((run.drop (dashes + 1)).takeWhile Piece.isDashes).length
    | .many _ => run.length
    | .command _ _ => 0

/-- Gives pieces to the operands, unless these have theirs already, and the rest to nobody. The
first pair of dashes only marks what follows. -/
def settle (g : Grammar) (r : Reading) (run : List Piece) : Reading :=
  let count := if r.operands.isEmpty then g.operandCount run else 0
  let taken := (run.take count).map Piece.text
  { r with operands := r.operands ++ taken.erase "--"
           extras := r.extras ++ (run.drop count).map Piece.text }

def settleCommand (g : Grammar) (r : Reading) (name : String) (choices : List String)
    (word : String) (rest : List String) : Except Halt Reading :=
  if choices.contains word then .ok { r with operands := word :: rest }
  else .error (g.refuseArgument name ("invalid choice: " ++ Text.quotedString word
    ++ " (choose from " ++ String.intercalate ", " (choices.map Text.quotedString) ++ ")"))

def nextOperand? : List Piece → Option String
  | .operand text :: _ => some text
  | _ => none

/-- Goes through the pieces, where `run` are those since the last switch, and `taken` tells that
the next piece went to that switch as its value. -/
def readPieces (g : Grammar) (r : Reading) (run : List Piece) (taken : Bool) :
    List Piece → Except Halt Reading
  | [] => .ok (g.settle r run)
  | piece :: pieces =>
    if taken then g.readPieces r run false pieces
    else match piece with
      | .switch spotted => do
        let r := g.settle r run
        let uses ← g.usesOf spotted (nextOperand? pieces)
        let r ← g.actAll { r with extras := r.extras ++ uses.extra.toList } uses.uses
        g.readPieces r [] uses.tookNext pieces
      | _ =>
        match g.operands with
        | .command name choices =>
          if piece.isDashes && pieces.isEmpty then g.readPieces r (run ++ [piece]) false pieces
          else g.settleCommand r name choices piece.text (pieces.map Piece.text)
        | _ => g.readPieces r (run ++ [piece]) false pieces

def missing? (g : Grammar) (r : Reading) : Option String :=
  match g.operands with
  | .nothing => none
  | .one name | .many name | .command name _ => if r.operands.isEmpty then some name else none

def read (g : Grammar) (arguments : List String) : Except Halt Reading := do
  let pieces ← g.spotAll arguments
  let r ← g.readPieces {} [] false pieces
  match g.missing? r with
  | some name => throw (g.refuse ("the following arguments are required: " ++ name))
  | none => return r

def refuseExtras (g : Grammar) (extras : List String) : Except Halt Unit :=
  if extras.isEmpty then .ok ()
  else .error (g.refuse ("unrecognized arguments: " ++ String.intercalate " " extras))

end Grammar
end QueryTidy.Command
