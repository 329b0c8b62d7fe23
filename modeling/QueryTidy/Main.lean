import QueryTidy.Command.Tidy

/-! The program on the files of the machine: it looks at the files that are named, works on them in
memory, and writes those that changed. -/
namespace QueryTidy.Main
open Command Files

def pathsOf : Request → List Path
  | .format _ _ paths => paths
  | .check _ paths => paths
  | .fix _ paths => paths
  | .rules => []

def start : IO Tree := do
  return Tree.empty.enter (Path.ofString (← IO.currentDir).toString).parts

def look (tree : Tree) (path : Path) : IO Tree := do
  match ← (IO.FS.readBinFile path.text).toBaseIO with
  | .ok bytes => return tree.addFile path bytes.toList
  | .error (.inappropriateType _ 21 _) => return (tree.makeDirectories path).toOption.getD tree
  | .error _ => return tree

def load (tree : Tree) (path : Path) : IO Tree :=
  (List.range path.parts.length).foldlM
    (fun tree n => look tree { path with parts := path.parts.take (n + 1) }) tree

def store (old new : Tree) : IO Unit :=
  for (l, bytes) in new.files do
    if old.node? l ≠ some (.file bytes) then
      IO.FS.writeBinFile l.text (ByteArray.mk bytes.toArray)

def finish (old : Tree) (outcome : Outcome) : IO UInt32 := do
  IO.print outcome.stdout
  IO.eprint outcome.stderr
  store old outcome.tree
  match outcome.exit with
  | .status code => return UInt32.ofNat code
  | .message text =>
    IO.eprintln text
    return 1

end QueryTidy.Main

open QueryTidy QueryTidy.Command in
def main (arguments : List String) : IO UInt32 := do
  let (tree, result) ← match Invocation.ofArguments arguments with
    | .error stop => pure (.empty, stop.outcome .empty)
    | .ok invocation =>
      let tree ← (Main.pathsOf invocation.request).foldlM Main.load (← Main.start)
      pure (tree, invocation.run tree)
  match result with
  | .ok outcome => Main.finish tree outcome
  | .error fault =>
    IO.eprintln fault.message
    return 1
