import LineScript.Batch.Run
import LineScript.Diagnostic.Pages
import LineScript.Diagnostic.Terminal

/-!
# Command line

The command line of the interpreter, as a function of its arguments and the
files.

- `Report`: what a command writes, and its exit code.
- `parseTest`: the options of a batch.
- `execute`: what the arguments of the command line do.
-/

namespace LineScript

namespace CommandLine

/-- What a command does: what happens on the console, in order, the text of the
error output, and the exit code. -/
structure Report where
  events : List Event
  errors : List String
  exitCode : Nat

/-- The text that a command writes to the console. -/
def Report.output (r : Report) : String :=
  String.join (r.events.map fun
    | .line text => text ++ "\n"
    | .pause _ => "")

/-- The text that a command writes to the error output. -/
def Report.errorOutput (r : Report) : String :=
  String.join r.errors

/-- A report of lines. -/
def Report.ofLines (lines : List String) (exitCode : Nat) : Report :=
  ⟨lines.map .line, [], exitCode⟩

/-- A report of lines of the error output, for a command that failed. -/
def Report.failure (lines : List String) : Report :=
  ⟨[], lines.map (· ++ "\n"), 1⟩

/-- The lines that say how the command line is used. -/
def usage : List String :=
  ["QuickCode interpreter",
    "",
    "Usage: qc <command> [options]",
    "",
    "Commands:",
    "  run <file.qc>        Run a script",
    "  test [path]          Run every script under a path (default: current directory)",
    "  explain <code>       Explain an error code (e.g., E2001)",
    "  help                 Show this help message",
    "  version              Show version information",
    "",
    "Test options:",
    "  --filter=<pattern>  Only run scripts whose path contains pattern",
    "  --verbose, -v       Show output and final bindings per script",
    "  --no-parallel       Run scripts sequentially",
    "  --no-wait           Record WAIT without sleeping",
    "",
    "Examples:",
    "  qc hello.qc",
    "  qc test scripts/ --filter=loops",
    "  qc explain E3001"]

/-- The version of the interpreter. -/
def version : String := "0.1.0"

/-- The surroundings of a command: the files, whether the error output is a
terminal, and the fuel of a run. -/
structure Context where
  files : Files
  terminal : Bool
  fuel : Nat

/-- Run one script on the console. An error of the script goes to the error
output. -/
def runFile (ctx : Context) (path : String) : Report :=
  match ctx.files.load path with
  | .error e => .failure ["error: " ++ e.message]
  | .ok program =>
    let (r, m) := (Interpreter.new CallStack.defaultLimit (.console #[]) []).run ctx.fuel program
    let events := m.state.sink.events
    match r with
    | .ok () => ⟨events, [], 0⟩
    | .error (.failed e) =>
      let d := e.toDiagnostic.withPath path
      let emitter := (Emitter.new (ColorMode.auto.resolve ctx.terminal)).emit d
      ⟨events, [emitter.written], 1⟩
    | .error .outOfFuel => ⟨events, ["error: out of fuel\n"], 1⟩

/-- Run every script at a path and report. -/
def runBatch (ctx : Context) (config : BatchConfig) (path : String) : Report :=
  if !ctx.files.hasPath path then .failure ["Path not found: " ++ path]
  else
    let paths := Batch.discover ctx.files config path
    let summary := Batch.run ctx.files ctx.fuel config paths
    ⟨[.line ("Running " ++ fileCount paths.length ++ "."), .pause (Batch.elapsed config summary)] ++
        (summary.lines config.verbose).map .line,
      [], summary.exitCode⟩

/-- A text filled up with spaces to a width. -/
def padded (width : Nat) (s : String) : String :=
  s ++ String.ofList (List.replicate (width - s.length) ' ')

/-- A line of the list of known error codes. -/
def codeLine (code : ErrorCode) : String :=
  "  " ++ code.text ++ "  " ++ padded 15 code.category.name ++ " " ++ code.summary

/-- Show the page of an error code. -/
def explain (name : String) : Report :=
  match ErrorCode.ofText? name with
  | some code => .ofLines [code.page] 0
  | none =>
    .failure (["Unknown error code: " ++ name, "", "Known codes:"] ++ ErrorCode.all.map codeLine)

/-- The rest of an argument after the start of an option. -/
def optionValue? (option argument : String) : Option String :=
  (option.toList.isPrefixOf? argument.toList).map String.ofList

/-- Whether an argument is an option. -/
def isOption (argument : String) : Bool :=
  argument.toList.head? = some '-'

/-- Take one argument of a batch into account: an option, or the path if none
was given before. Unknown options do not count. -/
def parseTestArgument (acc : BatchConfig × Option String) (argument : String) :
    BatchConfig × Option String :=
  let (config, path) := acc
  match optionValue? "--filter=" argument with
  | some part => ({ config with filter := some part }, path)
  | none =>
    if argument = "--verbose" ∨ argument = "-v" then ({ config with verbose := true }, path)
    else if argument = "--no-parallel" then ({ config with parallel := false }, path)
    else if argument = "--no-wait" then ({ config with wait := false }, path)
    else if isOption argument then (config, path)
    else (config, some (path.getD argument))

/-- The options and the path of a batch. -/
def parseTest (arguments : List String) : BatchConfig × String :=
  let (config, path) := arguments.foldl parseTestArgument (.default, none)
  (config, path.getD ".")

/-- What the arguments of the command line do. -/
def execute (ctx : Context) : List String → Report
  | [] => .ofLines usage 0
  | command :: arguments =>
    if command = "run" then
      match arguments.find? fun a => !isOption a with
      | some path => runFile ctx path
      | none => .failure ["Usage: qc run <file.qc>"]
    else if command = "test" then
      let (config, path) := parseTest arguments
      runBatch ctx config path
    else if command ∈ ["help", "--help", "-h"] then .ofLines usage 0
    else if command ∈ ["version", "--version", "-V"] then .ofLines ["QuickCode " ++ version] 0
    else if command ∈ ["--explain", "explain"] then
      match arguments with
      | name :: _ => explain name
      | [] => .failure ["Usage: qc explain <ERROR_CODE>", "Example: qc explain E2001"]
    else if isScript command then runFile ctx command
    else ⟨usage.map .line, ["Unknown command: " ++ command ++ "\n", "\n"], 1⟩

end CommandLine

end LineScript
