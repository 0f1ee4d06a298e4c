import SysBytes.Text.Utf8
import SysBytes.Text.Quoted

/-!
Log levels and line formats, read from text without regard to ASCII case, and the choice of
both from two environment values: the format first, then the level, a missing or ill-formed
value falling back to text lines at `warn`.
-/
namespace SysBytes.Log

/-- How much the library reports, from the least to the most. -/
inductive Level where
  | error
  | warn
  | info
  | debug
  | trace
  deriving DecidableEq, Repr, Inhabited

/-- How each reported event is written: a text line or a JSON object. -/
inductive Format where
  | text
  | json
  deriving DecidableEq, Repr, Inhabited

structure ParseError where
  kind : String
  value : String
  deriving DecidableEq, Repr

def ParseError.message (e : ParseError) : String :=
  "unknown log " ++ e.kind ++ ": " ++ Text.Quoted.quote e.value

namespace Level

def rank : Level → Nat
  | .error => 0
  | .warn => 1
  | .info => 2
  | .debug => 3
  | .trace => 4

def name : Level → String
  | .error => "Error"
  | .warn => "Warn"
  | .info => "Info"
  | .debug => "Debug"
  | .trace => "Trace"

def filterName : Level → String
  | .error => "error"
  | .warn => "warn"
  | .info => "info"
  | .debug => "debug"
  | .trace => "trace"

def tag : Level → String
  | .error => "ERROR"
  | .warn => "WARN"
  | .info => "INFO"
  | .debug => "DEBUG"
  | .trace => "TRACE"

/-- Whether an event at level `event` passes the threshold `threshold`. -/
def admits (threshold event : Level) : Bool := event.rank ≤ threshold.rank

def parse (s : String) : Except ParseError Level :=
  match s.map Char.toLower with
  | "error" => .ok .error
  | "warn" => .ok .warn
  | "info" => .ok .info
  | "debug" => .ok .debug
  | "trace" => .ok .trace
  | _ => .error ⟨"level", s⟩

end Level

namespace Format

def name : Format → String
  | .text => "Text"
  | .json => "Json"

def parse (s : String) : Except ParseError Format :=
  match s.map Char.toLower with
  | "text" => .ok .text
  | "json" => .ok .json
  | _ => .error ⟨"format", s⟩

end Format

/-- The format and threshold chosen by two environment values; an absent or non-UTF-8 value gives
text lines at `warn`. -/
def fromEnvironment (format level : Option (List UInt8)) : Except ParseError (Format × Level) := do
  let f ← match format.bind Text.Utf8.decode? with
    | some s => Format.parse s
    | none => pure .text
  let l ← match level.bind Text.Utf8.decode? with
    | some s => Level.parse s
    | none => pure .warn
  pure (f, l)

end SysBytes.Log
