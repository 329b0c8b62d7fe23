import QueryTidy.Files.Path
import QueryTidy.Text.Utf8

/-! A tree of files, as far as it is known: reading, writing and making directories. Every path is
followed to a place that is named from the root, so that all paths to a file, absolute or relative,
lead to one place. There are no links. -/
namespace QueryTidy.Files

/-- A place in the tree, by the names that lead to it from the root. -/
abbrev Location := List String

inductive Node where
  | file (bytes : Text.Bytes)
  | directory
deriving DecidableEq, Repr

/-- The nodes that are known, and the directory that relative paths start from. -/
structure Tree where
  nodes : List (Location × Node)
  current : Location := []
deriving DecidableEq, Repr

inductive Cause where
  | notFound
  | alreadyThere
  | notDirectory
  | isDirectory
  | nameTooLong
deriving DecidableEq, Repr

def Cause.message : Cause → String
  | .notFound => "[Errno 2] No such file or directory"
  | .alreadyThere => "[Errno 17] File exists"
  | .notDirectory => "[Errno 20] Not a directory"
  | .isDirectory => "[Errno 21] Is a directory"
  | .nameTooLong => "[Errno 36] File name too long"

inductive Fault where
  | path (cause : Cause) (p : Path)
  | nul
  | content (fault : Text.Utf8Fault)
deriving DecidableEq, Repr

def Fault.message : Fault → String
  | .path cause p => cause.message ++ ": " ++ Text.quotedString p.text
  | .nul => "embedded null byte"
  | .content fault => fault.message

namespace Location

def descent? (l k : Location) : Option (List String) :=
  (l.isPrefixOf? k).filter (!·.isEmpty)

def text (l : Location) : String := "/" ++ String.intercalate "/" l

end Location

namespace Tree

def empty : Tree := { nodes := [] }

/-- The directories that every machine has, and the file that is always empty. -/
def machine : Tree where
  nodes := (["dev", "null"], .file [])
    :: ["bin", "dev", "etc", "home", "lib", "opt", "proc", "root", "run", "sbin", "srv", "sys",
        "tmp", "usr", "var"].map fun name => ([name], .directory)

def node? (tree : Tree) (l : Location) : Option Node :=
  if l = [] then some .directory else tree.nodes.lookup l

def nameLimit : Nat := 255

def pathLimit : Nat := 4096

/-- Follows names from a location; all that is passed has to be a directory. -/
def walk (tree : Tree) (l : Location) : List String → Except Cause Location
  | [] => .ok l
  | name :: names =>
    match tree.node? l with
    | none => .error .notFound
    | some (.file _) => .error .notDirectory
    | some .directory =>
      if nameLimit < name.utf8ByteSize then .error .nameTooLong
      else walk tree (if name = ".." then l.dropLast else l ++ [name]) names

def startOf (tree : Tree) (path : Path) : Location := if path.root = "" then tree.current else []

def locate (tree : Tree) (path : Path) : Except Cause Location :=
  if pathLimit ≤ path.text.utf8ByteSize then .error .nameTooLong
  else tree.walk (tree.startOf path) path.parts

/-- The node that a path leads to. Only a path that is too long cannot be followed. -/
def find? (tree : Tree) (path : Path) : Except Fault (Option Node) :=
  if path.hasNul then .ok none
  else match tree.locate path with
    | .ok l => .ok (tree.node? l)
    | .error .nameTooLong => .error (.path .nameTooLong path)
    | .error _ => .ok none

def readBytes (tree : Tree) (path : Path) : Except Cause Text.Bytes := do
  match tree.node? (← tree.locate path) with
  | some (.file bytes) => return bytes
  | some .directory => throw .isDirectory
  | none => throw .notFound

def readText (tree : Tree) (path : Path) : Except Fault Text :=
  if path.hasNul then .error .nul
  else match tree.readBytes path with
    | .error cause => .error (.path cause path)
    | .ok bytes =>
      match Text.decode bytes with
      | .error fault => .error (.content fault)
      | .ok t => .ok t.unifyBreaks

def isDirectory (tree : Tree) (path : Path) : Bool :=
  match tree.locate path with
  | .ok l => tree.node? l = some .directory
  | .error _ => false

def insertIn (l : Location) (node : Node) : List (Location × Node) → List (Location × Node)
  | [] => [(l, node)]
  | (k, old) :: nodes => if k = l then (l, node) :: nodes else (k, old) :: insertIn l node nodes

def insert (tree : Tree) (l : Location) (node : Node) : Tree :=
  { tree with nodes := insertIn l node tree.nodes }

def writeBytes (tree : Tree) (path : Path) (bytes : Text.Bytes) : Except Cause Tree := do
  let l ← tree.locate path
  match tree.node? l with
  | some .directory => throw .isDirectory
  | _ => return tree.insert l (.file bytes)

def writeText (tree : Tree) (path : Path) (t : Text) : Except Fault Tree :=
  if path.hasNul then .error .nul
  else (tree.writeBytes path t.encode).mapError fun cause => .path cause path

def makeDirectory (tree : Tree) (path : Path) : Except Cause Tree := do
  let l ← tree.locate path
  if (tree.node? l).isSome then throw .alreadyThere
  else return tree.insert l .directory

def ensureDirectory (tree : Tree) (path : Path) : Except Cause Tree :=
  match tree.makeDirectory path with
  | .ok made => .ok made
  | .error .alreadyThere => if tree.isDirectory path then .ok tree else .error .alreadyThere
  | .error cause => .error cause

/-- Makes a directory, after those that lead to it where they are missing. The names come last
one first. -/
def makeAlong (tree : Tree) (root : String) : List String → Except Fault Tree
  | [] => (tree.ensureDirectory ⟨root, []⟩).mapError (.path · ⟨root, []⟩)
  | name :: names =>
    let path : Path := ⟨root, (name :: names).reverse⟩
    match tree.ensureDirectory path with
    | .error .notFound => do
      let tree ← makeAlong tree root names
      (tree.ensureDirectory path).mapError (.path · path)
    | outcome => outcome.mapError (.path · path)

def makeDirectories (tree : Tree) (path : Path) : Except Fault Tree :=
  if path.hasNul then .error .nul else tree.makeAlong path.root path.parts.reverse

def enter (tree : Tree) (l : Location) : Tree :=
  { (tree.makeDirectories ⟨"/", l⟩).toOption.getD tree with current := l }

def addFile (tree : Tree) (path : Path) (bytes : Text.Bytes) : Tree :=
  match tree.makeDirectories path.parent with
  | .error _ => tree
  | .ok tree => (tree.writeBytes path bytes).toOption.getD tree

def files (tree : Tree) : List (Location × Text.Bytes) :=
  tree.nodes.filterMap fun (l, node) =>
    match node with
    | .file bytes => some (l, bytes)
    | .directory => none

end Tree
end QueryTidy.Files
