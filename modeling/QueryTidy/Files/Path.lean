/-! Paths as they are given: single dots and doubled slashes do not count, double dots do. -/
namespace QueryTidy.Files

structure Path where
  root : String
  parts : List String
deriving DecidableEq, Repr

namespace Path

def pieces : List Char → List (List Char)
  | [] => [[]]
  | c :: t => if c = '/' then [] :: pieces t else (pieces t).modifyHead (c :: ·)

/-- Two slashes in front are a root of their own, three and more are one. -/
def rootOf : List Char → String
  | '/' :: '/' :: '/' :: _ => "/"
  | '/' :: '/' :: _ => "//"
  | '/' :: _ => "/"
  | _ => ""

def ofString (s : String) : Path :=
  ⟨rootOf s.toList, ((pieces s.toList).map String.ofList).filter fun p => p ≠ "" ∧ p ≠ "."⟩

def text (p : Path) : String :=
  let shown := p.root ++ String.intercalate "/" p.parts
  if shown = "" then "." else shown

def parent (p : Path) : Path := { p with parts := p.parts.dropLast }

def hasNul (p : Path) : Bool := p.parts.any fun name => name.toList.contains '\x00'

def join (p : Path) (names : List String) : Path := { p with parts := p.parts ++ names }

end Path
end QueryTidy.Files
