import LineScript.Diagnostic.Code

/-!
# Explanations of the error codes

For every error code a page that describes the failure, shows a script that
runs into it and says how to mend the script.

- `ErrorCode.page`: the page of a code.
-/

namespace LineScript

namespace ErrorCode

/-- A text of lines, each ended by a line feed. -/
def pageOfLines (lines : List String) : String :=
  String.join (lines.map (· ++ "\n"))

/-- The page of a code. -/
def page : ErrorCode → String
  | e1001 => pageOfLines [
      "# E1001: Unknown Instruction",
      "",
      "Every executable line must start with an instruction keyword. The line's",
      "first word did not match any keyword.",
      "",
      "## Example",
      "",
      "```text",
      "%-- BEGIN EXECUTION --%",
      "DECLAR x = 1",
      "```",
      "",
      "## Solution",
      "",
      "Check the spelling and case of the keyword. Keywords are upper case:",
      "`DECLARE`, `ASSIGN`, `IF`, `ELSE`, `END`, `FUNC`, `CALL`, `RET`, `JUMP`,",
      "`WAIT`, `STD::OUT`, `IGNORE`.",
      "",
      "When the misspelling is a prefix of a known keyword the diagnostic lists the",
      "candidates."]
  | e1002 => pageOfLines [
      "# E1002: Malformed Operand",
      "",
      "An instruction's operand does not have the expected shape. The most common",
      "cause is an identifier that is empty or contains whitespace.",
      "",
      "## Example",
      "",
      "```text",
      "DECLARE my value = 1",
      "DECLARE = 3",
      "```",
      "",
      "## Solution",
      "",
      "Identifiers are a single word. Write `DECLARE my_value = 1`."]
  | e1003 => pageOfLines [
      "# E1003: Unterminated Block",
      "",
      "An `IF` or `FUNC` block was opened but no matching `END` was found before",
      "the end of the executable region.",
      "",
      "## Example",
      "",
      "```text",
      "IF x > 1",
      "    STD::OUT \"big\"",
      "```",
      "",
      "## Solution",
      "",
      "Close every `IF` and `FUNC` with `END`. Nested blocks each need their own",
      "`END`."]
  | e1004 => pageOfLines [
      "# E1004: Invalid Jump",
      "",
      "`JUMP` was given a target that is not an integer, or an absolute target",
      "below `-1`.",
      "",
      "## Example",
      "",
      "```text",
      "JUMP \"start\"",
      "JUMP 1.5",
      "```",
      "",
      "## Solution",
      "",
      "Use an integer instruction index, a signed relative offset such as `+2` or",
      "`-3`, or an expression that evaluates to an integer."]
  | e1005 => pageOfLines [
      "# E1005: Misplaced Negation",
      "",
      "The `!` operator may only appear at the start of an operand. A `!` anywhere",
      "else in a bare operand cannot be evaluated.",
      "",
      "## Example",
      "",
      "```text",
      "DECLARE y = x!",
      "```",
      "",
      "## Solution",
      "",
      "Put the negation in front: `DECLARE y = !x`."]
  | e1006 => pageOfLines [
      "# E1006: Return Outside Function",
      "",
      "`RET` was executed while no function call was active.",
      "",
      "## Example",
      "",
      "```text",
      "%-- BEGIN EXECUTION --%",
      "RET 1",
      "```",
      "",
      "## Solution",
      "",
      "Only use `RET` inside a `FUNC` body. To stop a script early, jump past the",
      "last instruction instead."]
  | e1007 => pageOfLines [
      "# E1007: Malformed Expression",
      "",
      "The expression is empty, or its parentheses are not balanced.",
      "",
      "## Example",
      "",
      "```text",
      "DECLARE x = (1 + 2",
      "DECLARE y = ()",
      "```",
      "",
      "## Solution",
      "",
      "Balance every `(` with a `)` and make sure each group contains an",
      "expression."]
  | e1008 => pageOfLines [
      "# E1008: Stray Block Keyword",
      "",
      "An `ELSE` or `END` was executed on its own. These keywords are consumed by",
      "the block that opened them, so reaching one directly means there is no open",
      "block.",
      "",
      "## Example",
      "",
      "```text",
      "%-- BEGIN EXECUTION --%",
      "STD::OUT 1",
      "END",
      "```",
      "",
      "## Solution",
      "",
      "Remove the extra `END`, or add the `IF`/`FUNC` it was meant to close."]
  | e2001 => pageOfLines [
      "# E2001: Undefined Identifier",
      "",
      "A name was read or assigned before any `DECLARE` made it visible in the",
      "current scope or an enclosing one.",
      "",
      "## Example",
      "",
      "```text",
      "STD::OUT total",
      "ASSIGN count = 1",
      "```",
      "",
      "## Solution",
      "",
      "Declare the name first with `DECLARE total = 0`. Names declared inside an",
      "`IF` branch or a function body are not visible after the block ends."]
  | e2002 => pageOfLines [
      "# E2002: Undefined Function",
      "",
      "`CALL` named a function that was never declared.",
      "",
      "## Example",
      "",
      "```text",
      "CALL greet \"world\"",
      "```",
      "",
      "## Solution",
      "",
      "Define the function with `FUNC greet name` ... `END` before calling it."]
  | e3001 => pageOfLines [
      "# E3001: Assignment to Constant",
      "",
      "A binding declared as constant cannot be reassigned.",
      "",
      "## Example",
      "",
      "```text",
      "DECLARE *limit = 10",
      "ASSIGN limit = 20",
      "```",
      "",
      "## Solution",
      "",
      "Declare the binding without `*` if it needs to change."]
  | e3002 => pageOfLines [
      "# E3002: Constant Without Value",
      "",
      "A constant must be initialised when it is declared.",
      "",
      "## Example",
      "",
      "```text",
      "DECLARE *limit",
      "```",
      "",
      "## Solution",
      "",
      "Give it a value: `DECLARE *limit = 10`."]
  | e3003 => pageOfLines [
      "# E3003: Not a Function",
      "",
      "`CALL` named a binding whose value is not a function.",
      "",
      "## Example",
      "",
      "```text",
      "DECLARE greet = \"hello\"",
      "CALL greet",
      "```",
      "",
      "## Solution",
      "",
      "Only call names bound by `FUNC` or by a `DECLARE` whose value is a function."]
  | e3004 => pageOfLines [
      "# E3004: Number Expected",
      "",
      "An instruction that needs a number received some other kind of value.",
      "",
      "## Example",
      "",
      "```text",
      "WAIT \"soon\"",
      "```",
      "",
      "## Solution",
      "",
      "Pass a number of milliseconds, or an expression that evaluates to one."]
  | e4001 => pageOfLines [
      "# E4001: Call Depth Exceeded",
      "",
      "Function calls nested deeper than the interpreter's limit, usually because",
      "of recursion without a base case.",
      "",
      "## Example",
      "",
      "```text",
      "FUNC forever",
      "    CALL forever",
      "END",
      "CALL forever",
      "```",
      "",
      "## Solution",
      "",
      "Make sure every recursive function has a branch that returns without",
      "calling itself."]

end ErrorCode

end LineScript
