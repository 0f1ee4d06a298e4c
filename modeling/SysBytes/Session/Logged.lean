import SysBytes.Log.Event

/-!
Runs with a log: the threshold and format are chosen first, given as texts or read from two
environment values, and the events a run reports are written in that format, each distinct
event once. The first choice that can be read decides.
-/
namespace SysBytes.Session

open Log

/-- How the log is chosen. -/
inductive LogChoice where
  | given (format level : String)
  | environment (format level : Option (List UInt8))

def LogChoice.select : LogChoice → Except ParseError (Format × Level)
  | .given format level => do
    let f ← Format.parse format
    let l ← Level.parse level
    pure (f, l)
  | .environment format level => fromEnvironment format level

def LogChoice.report (c : LogChoice) : Report :=
  match c.select, c with
  | .ok (f, l), .given _ _ =>
    .fields [("format", .text f.name), ("level", .text l.name), ("filter", .text l.filterName)]
  | .ok _, .environment _ _ => .text "ok"
  | .error e, _ => Report.failure "ParseLogError" e.message

def firstOccurrences : List Report → List Report → List Report
  | _, [] => []
  | seen, r :: rest =>
    if seen.contains r then firstOccurrences seen rest
    else r :: firstOccurrences (r :: seen) rest

/-- The format and threshold in force after choices are installed in order: the first that can be
read. -/
def installed : List LogChoice → Option (Format × Level)
  | [] => none
  | c :: rest =>
    match c.select with
    | .ok chosen => some chosen
    | .error _ => installed rest

def writtenLog (cs : List LogChoice) (events : List Event) : List Report :=
  match installed cs with
  | some (f, l) => firstOccurrences [] ((events.filter fun e => l.admits e.level).map (·.written f))
  | none => []

/-- The answer to a run with a log: the first choice, the run's own answer and the log written. -/
def loggedAnswer (c : LogChoice) (again : Option LogChoice) (run : Report × List Event) : Report :=
  .fields [("init", c.report), ("answer", run.1), ("log", .list (writtenLog (c :: again.toList) run.2))]

end SysBytes.Session
