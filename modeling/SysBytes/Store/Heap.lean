import SysBytes.Fault
import SysBytes.Log.Event

/-!
The heap of shared regions. A region is a run of bytes owned by a number of handles; a handle
names its region by number, and numbers are never reused. Operations on the heap may report
events, kept oldest first, and may stop at a fault; the heap as it stood at the fault, events
included, is kept.
-/
namespace SysBytes.Store

/-- A shared allocation: its bytes and how many handles own it. -/
structure Region where
  cells : List UInt8
  owners : Nat
  deriving DecidableEq, Repr, Inhabited

/-- All regions allocated so far, by number, and the events reported so far. -/
structure Heap where
  regions : List Region := []
  events : List Log.Event := []
  deriving Inhabited

/-- Computations over the heap that may stop at a fault. -/
abbrev HeapM := EStateM Fault Heap

namespace Heap

def region (h : Heap) (id : Nat) : Region := h.regions.getD id default

def cells (h : Heap) (id : Nat) : List UInt8 := (h.region id).cells

def owners (h : Heap) (id : Nat) : Nat := (h.region id).owners

def update (h : Heap) (id : Nat) (f : Region → Region) : Heap :=
  { h with regions := h.regions.set id (f (h.region id)) }

end Heap

def note (e : Log.Event) : HeapM Unit :=
  modify fun h => { h with events := h.events ++ [e] }

def fail {α : Type} (f : Fault) : HeapM α := throw f

def allocate (cells : List UInt8) : HeapM Nat :=
  modifyGet fun h => (h.regions.length, { h with regions := h.regions ++ [⟨cells, 1⟩] })

def heap : HeapM Heap := get

end SysBytes.Store
