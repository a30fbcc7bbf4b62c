import LineScript.Batch.Duration

/-!
# Summary of a batch

- `FileResult`: how the run of one script ended.
- `Summary.add`: the results of a batch with the counts of both kinds.
- `Summary.lines`: the report.
- `total_add`: every added result counts once.
-/

namespace LineScript

/-- How the run of one script ended: why it failed if it did, what it printed,
its bindings at the end, and how long it took in nanoseconds. -/
structure FileResult where
  path : String
  failure : Option String
  output : List String
  globals : List (String × String)
  duration : Nat
deriving DecidableEq, Repr

/-- Whether a script ran to its end. -/
def FileResult.passed (r : FileResult) : Bool :=
  r.failure.isNone

/-- The results of a batch, in order, and how many passed and failed. -/
structure Summary where
  files : List FileResult
  passed : Nat
  failed : Nat
deriving DecidableEq, Repr

/-- A number of files, as a noun. -/
def fileCount (n : Nat) : String :=
  toString n ++ (if n = 1 then " file" else " files")

namespace Summary

/-- No results. -/
def empty : Summary :=
  ⟨[], 0, 0⟩

/-- The summary with one more result. -/
def add (s : Summary) (r : FileResult) : Summary :=
  if r.passed then ⟨s.files ++ [r], s.passed + 1, s.failed⟩
  else ⟨s.files ++ [r], s.passed, s.failed + 1⟩

/-- The summary of a list of results. -/
def ofResults (rs : List FileResult) : Summary :=
  rs.foldl add empty

/-- The number of results. -/
def total (s : Summary) : Nat :=
  s.passed + s.failed

/-- Whether any script failed. -/
def hasFailures (s : Summary) : Bool :=
  0 < s.failed

/-- The exit code: 2 without scripts, 1 with failures, 0 otherwise. -/
def exitCode (s : Summary) : Nat :=
  if s.total = 0 then 2 else if s.hasFailures then 1 else 0

/-- The lines of the report on one script. -/
def fileLines (verbose : Bool) (r : FileResult) : List String :=
  [(if r.passed then "✅ " else "❌ ") ++ r.path] ++
    (r.failure.map ("    " ++ ·)).toList ++
    (if verbose then
      ["    duration: " ++ durationText r.duration] ++ r.output.map ("    | " ++ ·) ++
        r.globals.map fun (id, value) => "    " ++ id ++ " = " ++ value
    else [])

/-- The lines of the report: every script, a blank line and the counts. -/
def lines (verbose : Bool) (s : Summary) : List String :=
  s.files.flatMap (fileLines verbose) ++
    ["", "Successfully ran " ++ fileCount s.passed ++ ".",
      "Failure when running " ++ fileCount s.failed ++ "."]

/-- The report as a text. -/
def render (verbose : Bool) (s : Summary) : String :=
  String.join ((s.lines verbose).map (· ++ "\n"))

/-- Every added result counts once. -/
theorem total_add (s : Summary) (r : FileResult) : (s.add r).total = s.total + 1 := by
  unfold add total
  split <;> simp <;> omega

end Summary

end LineScript
