import Clerk.Json.Writer
import Clerk.Machine

/-!
# Reports

The verdict on a run.  It is a success when the program halts and nothing is expected any more, a
fail when it halts early, and an error when it meets a fault.

A report is written in JSON, or in aligned lines for people to read.  Without a message it has no
such member and no such line.
-/

set_option autoImplicit false

namespace Clerk

/-- The verdict. -/
inductive Status where
  | success
  | fail
  | error
  deriving DecidableEq, Repr

/-- The name of a verdict. -/
def Status.text : Status → String
  | .success => "success"
  | .fail => "fail"
  | .error => "error"

/-- The account of one run: the verdict with its message, the size of the program, the steps of the
run, the whole input and the values emitted.  A success has no message. -/
structure Report where
  status : Status
  message : Option String
  instructionCount : Nat
  stepCount : Nat
  input : List Value
  output : List Value
  deriving DecidableEq, Repr

namespace Report

/-- What is said when the program halts with values still expected. -/
def shortMessage (missing : Nat) : String :=
  Decimal.text missing ++ " expected values were never output"

/-- The verdict on an ending, with its message; `missing` values are still expected. -/
def verdict (ending : Ending) (missing : Nat) : Status × Option String :=
  match ending with
  | .fault cause => (.error, some cause.message)
  | .halt _ => if missing = 0 then (.success, none) else (.fail, some (shortMessage missing))

/-- The report on a run that has ended. -/
def ofEnding (program : Program) (ending : Ending) (machine : Machine) : Report :=
  let (status, message) := verdict ending machine.session.expected.length
  { status, message
    instructionCount := program.size
    stepCount := machine.steps
    input := machine.session.input
    output := machine.session.output.toList }

/-- The mean of step counts, rounded down; zero for none. -/
def meanSteps (counts : List Nat) : Nat :=
  counts.foldl (· + ·) 0 / counts.length

/-- The mean of the step counts of reports, rounded down; zero for none. -/
def averageSteps (reports : List Report) : Nat :=
  meanSteps (reports.map stepCount)

/-- Whether the run is a success. -/
def isSuccess (report : Report) : Bool :=
  report.status == .success

/-! ## In JSON -/

/-- The members of a report, in the order in which they are written. -/
def members (report : Report) : List (String × String) :=
  [("status", Json.quoted report.status.text)]
    ++ report.message.toList.map (fun message => ("message", Json.quoted message))
    ++ [("instruction_count", Decimal.text report.instructionCount),
        ("step_count", Decimal.text report.stepCount),
        ("input", Json.indentedList (report.input.map Value.json)),
        ("output", Json.indentedList (report.output.map Value.json))]

/-- A report in JSON, on several lines. -/
def json (report : Report) : String :=
  Json.indentedObject report.members

/-! ## As text -/

/-- A list of values on a line, after its length. -/
def valuesLine (title : String) (values : List Value) : String :=
  title ++ "(" ++ Decimal.text values.length ++ "):  " ++ Value.listText values

/-- The lines of a report. -/
def textLines (report : Report) : List String :=
  ["status:       " ++ report.status.text]
    ++ report.message.toList.map (fun message => "message:      " ++ message)
    ++ [valuesLine "input  " report.input,
        valuesLine "output " report.output,
        "instructions: " ++ Decimal.text report.instructionCount,
        "steps:        " ++ Decimal.text report.stepCount]

/-- A report as text; the last line has no newline. -/
def text (report : Report) : String :=
  String.intercalate "\n" report.textLines

end Report

end Clerk
