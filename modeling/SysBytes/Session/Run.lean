import SysBytes.Store.Heap
import SysBytes.Report

/-!
Sessions: sequences of commands over values kept in named slots. Each command answers with a
report; the first failure, a fault or an error, is the last answer, and the commands after it
are not run. Faults answer as panics with their message.
-/
namespace SysBytes.Session

open Store

/-- The answer of one command: a report, and whether the session ends with it. -/
structure Answer where
  report : Report
  stop : Bool := false

namespace Answer

def ok (r : Report) : Answer := ⟨r, false⟩

def error (kind message : String) : Answer := ⟨Report.failure kind message, true⟩

end Answer

structure Slotted (α : Type) where
  slot : String
  command : α

/-- Values by slot name, each name once. -/
abbrev Slots (α : Type) := List (String × α)

namespace Slots

def get? {α : Type} (s : Slots α) (name : String) : Option α := s.lookup name

def put {α : Type} (s : Slots α) (name : String) (v : α) : Slots α × Option α :=
  match s.lookup name with
  | some old => (s.map fun e => if e.1 = name then (name, v) else e, some old)
  | none => (s ++ [(name, v)], none)

def remove {α : Type} (s : Slots α) (name : String) : Slots α := s.filter fun e => e.1 ≠ name

def names {α : Type} (s : Slots α) : List String :=
  (s.map Prod.fst).mergeSort fun a b => decide (a ≤ b)

end Slots

/-- Runs commands in order until one ends the session; a fault ends it as a panic. -/
def runSteps {σ α : Type} (step : σ → α → HeapM (σ × Answer)) : σ → List α → HeapM (List Report)
  | _, [] => pure []
  | s, c :: rest => do
    let tried : Sum Fault (σ × Answer) ← tryCatch (Sum.inr <$> step s c) (fun f => pure (Sum.inl f))
    match tried with
    | .inl f => pure [Report.failure "panic" f.message]
    | .inr (s', a) =>
      if a.stop then pure [a.report]
      else do
        let more ← runSteps step s' rest
        pure (a.report :: more)

def runSession {σ α : Type} (step : σ → α → HeapM (σ × Answer)) (start : σ) (cs : List α) :
    Report × List Log.Event :=
  match (runSteps step start cs).run {} with
  | .ok reports h => (.fields [("steps", .list reports)], h.events)
  | .error f h => (.fields [("steps", .list [Report.failure "panic" f.message])], h.events)

def missingSlot (name : String) : Answer := Answer.error "bad_input" s!"missing slot {name}"

/-- The largest capacity a command may ask for. -/
def capacityLimit : Nat := Nat.pow 2 20

def overLimit (n : Nat) : Answer := Answer.error "limit" s!"capacity {n} above {capacityLimit}"

end SysBytes.Session
