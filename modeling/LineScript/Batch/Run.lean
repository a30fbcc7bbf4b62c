import LineScript.Batch.Summary
import LineScript.Files.Search
import LineScript.Machine.Interpreter

/-!
# Running a batch

Every script of a batch runs in an interpreter of its own, so the result of one
does not depend on the others.

- `BatchConfig`: which scripts run, and how.
- `runScript`: the result of one script.
- `Batch.discover`, `Batch.run`: the scripts of a batch, and their summary.
-/

namespace LineScript

/-- Which scripts of a batch run, and how. -/
structure BatchConfig where
  /-- Only scripts whose path contains this text run. -/
  filter : Option String
  /-- The report shows output and bindings. -/
  verbose : Bool
  /-- Scripts wait at the same time, not one after the other. -/
  parallel : Bool
  /-- Waits take their time. -/
  wait : Bool
deriving DecidableEq, Repr

/-- How a batch runs unless it is told otherwise. -/
def BatchConfig.default : BatchConfig :=
  ⟨none, false, true, true⟩

/-- Whether a text contains `part`. -/
def containsText (part : List Char) : List Char → Bool
  | [] => part.isEmpty
  | c :: rest => part.isPrefixOf (c :: rest) || containsText part rest

/-- Why a run failed, as it stands in the report. -/
def Stop.report : Stop → String
  | .failed e => e.textWithLine
  | .outOfFuel => "out of fuel"

/-- The result of one script. A run takes the time of its waits, if they take
any. -/
def runScript (fs : Files) (fuel : Nat) (config : BatchConfig) (path : String) : FileResult :=
  match fs.load path with
  | .error e => ⟨path, some e.message, [], [], 0⟩
  | .ok program =>
    let (r, m) := (Interpreter.new CallStack.defaultLimit (.buffer #[]) []).run fuel program
    let failure := match r with
      | .ok () => none
      | .error e => some e.report
    let globals := m.globals.map fun (id, b) => (id, b.value.text)
    ⟨path, failure, m.state.sink.lines, globals, if config.wait then m.state.clock.total else 0⟩

namespace Batch

/-- The scripts at a path that pass the filter. -/
def discover (fs : Files) (config : BatchConfig) (path : String) : List String :=
  match config.filter with
  | none => fs.discover path
  | some part => (fs.discover path).filter fun p => containsText part.toList p.toList

/-- The summary of a list of scripts. -/
def run (fs : Files) (fuel : Nat) (config : BatchConfig) (paths : List String) : Summary :=
  .ofResults (paths.map (runScript fs fuel config))

/-- How long a batch takes: as long as the longest script, or as all together. -/
def elapsed (config : BatchConfig) (s : Summary) : Nat :=
  let durations := s.files.map FileResult.duration
  if config.parallel then durations.foldl max 0 else durations.foldl (· + ·) 0

end Batch

end LineScript
