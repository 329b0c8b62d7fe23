import QueryTidy.Command.Outcome
import QueryTidy.Document

/-! Totals over all query files of a directory. Measured times are no part of it. -/
namespace QueryTidy.Command
open Files (Path Tree)

def benchmarkGrammar : Grammar where
  program := "time_format.py"
  usage := "usage: time_format.py [-h] [--glob GLOB] [--runs RUNS] [--warmups WARMUPS]\n"
    ++ "                      [--no-progress] [--profile] [--profile-top PROFILE_TOP]\n"
    ++ "                      [--profile-sort PROFILE_SORT]\n"
    ++ "                      root\n"
  manual := "\nBenchmark SuperSQL formatting and migration scanning\n"
    ++ "\npositional arguments:\n"
    ++ "  root                  Directory searched recursively for query files\n"
    ++ "\noptions:\n"
    ++ "  -h, --help            show this help message and exit\n"
    ++ "  --glob GLOB           File pattern (default: *.spq)\n"
    ++ "  --runs RUNS           Measured runs\n"
    ++ "  --warmups WARMUPS     Warmup runs\n"
    ++ "  --no-progress         Disable tqdm progress bars (useful for pure timing)\n"
    ++ "  --profile             Run cProfile and print top hotspots\n"
    ++ "  --profile-top PROFILE_TOP\n"
    ++ "                        Number of cProfile rows to print\n"
    ++ "  --profile-sort PROFILE_SORT\n"
    ++ "                        cProfile sort key\n"
  switches := [helpSwitch, ⟨["--glob"], .value fun _ => none, []⟩,
    ⟨["--runs"], .value (refuseInteger "int"), []⟩,
    ⟨["--warmups"], .value (refuseInteger "int"), []⟩, ⟨["--no-progress"], .flag, []⟩,
    ⟨["--profile"], .flag, []⟩, ⟨["--profile-top"], .value (refuseInteger "int"), []⟩,
    ⟨["--profile-sort"], .value fun _ => none, []⟩]
  operands := .one "root"

def patternOf (r : Reading) : String × String :=
  match r.setting "--glob" with
  | .absent => ("*.spq", "*.spq")
  | .blank => ("", "[]")
  | .text s => (s, s)

/-- At least one run is made, and no less than none before it. -/
def measure (tree : Tree) (r : Reading) : Except Fault Outcome := do
  let root := Path.ofString (r.operands.headD "")
  if (← (tree.find? root).mapError .file) ≠ some .directory then
    return { exit := .message ("Invalid root: " ++ root.text), tree }
  let (wanted, shown) := patternOf r
  let pattern ← (Files.Pattern.parse wanted).mapError .pattern
  let paths ← (Files.filesBelow tree root pattern).mapError .file
  if paths.isEmpty then
    return { exit := .message ("No " ++ shown ++ " files found under " ++ root.text), tree }
  let sources ← (paths.mapM tree.readText).mapError .file
  let warmups := max (← (r.setting "--warmups").integer 1 .count) 0
  let runs := max (← (r.setting "--runs").integer 5 .count) 1
  let sums := Totals.of sources
  return { exit := .status 0
           stdout := s!"Dataset: {root.text} ({paths.length} files)\n"
             ++ s!"Formatted bytes: {sums.bytes}\n"
             ++ s!"Migration findings: {sums.findings}\n"
             ++ s!"Runs: {runs} (warmups={warmups})\n"
           tree }

def benchmark (tree : Tree) (arguments : List String) : Except Fault Outcome :=
  match benchmarkGrammar.read arguments with
  | .error halt => .ok (halt.outcome tree)
  | .ok r =>
    match benchmarkGrammar.refuseExtras r.extras with
    | .error halt => .ok (halt.outcome tree)
    | .ok () => measure tree r

end QueryTidy.Command
