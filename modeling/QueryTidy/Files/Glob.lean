import QueryTidy.Files.Tree

/-! Searching for files by names with wildcards. -/
namespace QueryTidy.Files

inductive Span where
  | single (c : Char)
  | run (lo hi : Char)
deriving DecidableEq, Repr

namespace Span

def ofBody : List Char → List Span
  | lo :: '-' :: hi :: t => .run lo hi :: ofBody t
  | c :: t => .single c :: ofBody t
  | [] => []

def isEmpty : Span → Bool
  | .single _ => false
  | .run lo hi => hi < lo

def contains (c : Char) : Span → Bool
  | .single d => c = d
  | .run lo hi => lo ≤ c && c ≤ hi

end Span

inductive Slot where
  | char (c : Char)
  | any
  | oneOf (negated : Bool) (spans : List Span)
deriving DecidableEq, Repr

namespace Slot

def admits (c : Char) : Slot → Bool
  | .char d => c = d
  | .any => true
  | .oneOf negated spans => spans.any (·.contains c) != negated

/-- An exclamation mark in front negates. Empty runs are left out first; what is then in front
counts too, and of a run that starts with the mark the dash and the end remain. -/
def ofBody : List Char → Slot
  | '!' :: body => .oneOf true ((Span.ofBody body).filter (!·.isEmpty))
  | body =>
    match (Span.ofBody body).filter (!·.isEmpty) with
    | .single '!' :: spans => .oneOf true spans
    | .run '!' hi :: spans => .oneOf true (.single '-' :: .single hi :: spans)
    | spans => .oneOf false spans

def untilBracket : List Char → Option (List Char × List Char)
  | [] => none
  | c :: t => if c = ']' then some ([], t) else (untilBracket t).map fun (a, b) => (c :: a, b)

/-- A slot in brackets. A closing bracket right at the start is meant as itself. -/
def bracket? (t : List Char) : Option (Slot × List Char) :=
  let mark := if t.head? = some '!' then ['!'] else []
  match t.drop mark.length with
  | [] => none
  | c :: u => (untilBracket u).map fun (body, rest) => (ofBody (mark ++ c :: body), rest)

end Slot

/-- A name with wildcards: slots that follow each other without a gap, with a gap of any length
between one group of slots and the next. -/
abbrev Wild := List (List Slot)

namespace Wild

def push (slot : Slot) (wild : Wild) : Wild := wild.modifyHead (slot :: ·)

/-- Groups of a pattern, of which no more than `fuel` characters are read. -/
def parseFrom : Nat → List Char → Wild
  | 0, _ | _, [] => [[]]
  | fuel + 1, '*' :: t => [] :: parseFrom fuel t
  | fuel + 1, '?' :: t => push .any (parseFrom fuel t)
  | fuel + 1, '[' :: t =>
    match Slot.bracket? t with
    | some (slot, rest) => push slot (parseFrom fuel rest)
    | none => push (.char '[') (parseFrom fuel t)
  | fuel + 1, c :: t => push (.char c) (parseFrom fuel t)

def parse (pattern : String) : Wild := parseFrom pattern.length pattern.toList

def strip? : List Slot → List Char → Option (List Char)
  | [], t => some t
  | slot :: slots, c :: t => if slot.admits c then strip? slots t else none
  | _ :: _, [] => none

def stripFirst? (slots : List Slot) : List Char → Option (List Char)
  | [] => strip? slots []
  | c :: t =>
    match strip? slots (c :: t) with
    | some rest => some rest
    | none => stripFirst? slots t

def endsIn (slots : List Slot) (t : List Char) : Bool :=
  slots.length ≤ t.length && (strip? slots (t.drop (t.length - slots.length))).isSome

/-- Whether the groups stand in a text one after the other, the last at its end. Taking each at the
first place leaves the most to the others. -/
def fitsBehind : List (List Slot) → List Char → Bool
  | [], _ => true
  | [slots], t => endsIn slots t
  | slots :: groups, t =>
    match stripFirst? slots t with
    | some rest => fitsBehind groups rest
    | none => false

def fits : Wild → List Char → Bool
  | [], t => t.isEmpty
  | [slots], t => strip? slots t = some []
  | slots :: groups, t =>
    match strip? slots t with
    | some rest => fitsBehind groups rest
    | none => false

end Wild

inductive Step where
  | name (s : String)
  | wild (w : Wild)
  | anywhere
deriving DecidableEq, Repr

structure Pattern where
  steps : List Step
  directoriesOnly : Bool
deriving DecidableEq, Repr

inductive PatternFault where
  | notRelative
  | looseStars
deriving DecidableEq, Repr

def PatternFault.message : PatternFault → String
  | .notRelative => "Non-relative patterns are unsupported"
  | .looseStars => "Invalid pattern: '**' can only be an entire path component"

namespace Step

def parse (part : String) : Except PatternFault Step :=
  let t := part.toList
  if part = "**" then .ok .anywhere
  else if Text.occursIn ['*', '*'] t then .error .looseStars
  else if t.contains '*' || t.contains '?' || t.contains '[' then .ok (.wild (.parse part))
  else .ok (.name part)

def reach (tree : Tree) (directoriesOnly : Bool) (path : Path) : Step → Except Fault (List Path)
  | .name s => do
    let next := path.join [s]
    match ← tree.find? next with
    | none => return []
    | some node => return if directoriesOnly && node ≠ .directory then [] else [next]
  | .wild w =>
    match tree.locate path with
    | .error cause => .error (.path cause path)
    | .ok l => .ok (tree.nodes.filterMap fun (k, node) =>
        match l.descent? k with
        | some [child] =>
          if directoriesOnly && node ≠ .directory then none
          else if w.fits child.toList then some (path.join [child])
          else none
        | _ => none)
  | .anywhere =>
    match tree.locate path with
    | .error cause => .error (.path cause path)
    | .ok l => .ok (path :: tree.nodes.filterMap fun (k, node) =>
        if node = .directory then (l.descent? k).map path.join else none)

end Step

namespace Pattern

def parse (s : String) : Except PatternFault Pattern := do
  let path := Path.ofString s
  if path.root ≠ "" then throw .notRelative
  else return ⟨← path.parts.mapM Step.parse, s.toList.getLast? = some '/'⟩

def select (tree : Tree) (directoriesOnly : Bool) : List Step → Path → Except Fault (List Path)
  | [], path => .ok [path]
  | step :: steps, path => do
    let reached ← step.reach tree (directoriesOnly || !steps.isEmpty) path
    return (← reached.mapM (select tree directoriesOnly steps)).flatten.eraseDups

end Pattern

def namesLe : List String → List String → Bool
  | [], _ => true
  | _ :: _, [] => false
  | a :: as, b :: bs => a < b || (a = b && namesLe as bs)

def filesBelow (tree : Tree) (root : Path) (pattern : Pattern) : Except Fault (List Path) := do
  let found ← Pattern.select tree pattern.directoriesOnly (.anywhere :: pattern.steps) root
  let files ← found.filterM fun path => do
    return match ← tree.find? path with
      | some (.file _) => true
      | _ => false
  return files.mergeSort fun p q => namesLe p.parts q.parts

end QueryTidy.Files
