import SysBytes.Log.Level
import SysBytes.Report

/-!
Events the library reports while it works: a level, a message and named values. An event is
written either as a text line, `LEVEL message name=value ...`, or as a JSON object with the
level and the fields, the message first among them.
-/
namespace SysBytes.Log

/-- The value of a field of an event. -/
inductive Value where
  | nat (n : Nat)
  | flag (b : Bool)
  | word (s : String)
  deriving DecidableEq, Repr

/-- A reported event. -/
structure Event where
  level : Level
  message : String
  fields : List (String × Value)
  deriving DecidableEq, Repr

namespace Value

def text : Value → String
  | .nat n => toString n
  | .flag b => if b then "true" else "false"
  | .word s => s

def report : Value → Report
  | .nat n => .nat n
  | .flag b => .bool b
  | .word s => .text s

end Value

namespace Event

def line (e : Event) : String :=
  e.fields.foldl (fun acc f => acc ++ " " ++ f.1 ++ "=" ++ f.2.text)
    (e.level.tag ++ " " ++ e.message)

def object (e : Event) : Report :=
  .fields [("level", .text e.level.tag),
    ("fields", .fields (("message", .text e.message) :: e.fields.map fun f => (f.1, f.2.report)))]

def written (e : Event) : Format → Report
  | .text => .text e.line
  | .json => e.object

end Event

end SysBytes.Log
