import SysBytes.Session.Run
import SysBytes.Path.Normalize

/-!
Sessions over paths. After each command the slot's path is described: its bytes and texts,
its components read by splitting, and its view read by stepping. Edits run in order on the
path's view and the view is written back when they end, also when one of them fails.
-/
namespace SysBytes.Session

open Store SysBytes.Path

/-- A component index as a command gives it: the k-th index, the start or end index, or a raw
offset. -/
inductive IndexArg where
  | nth (k : Nat)
  | start
  | finish
  | offset (n : Nat)

inductive Source where
  | names (ns : List (List UInt8))
  | path (bytes : List UInt8)
  | nothing

inductive PathEdit where
  | push (name : List UInt8)
  | insert (index : IndexArg) (name : List UInt8)
  | remove (index : IndexArg)
  | pop
  | replaceRange (lo hi : IndexArg) (names : List (List UInt8))
  | removeRange (lo hi : IndexArg)
  | clear
  | retain (dropKinds : List Kind) (dropNames : List (List UInt8))
  | extend (names : List (List UInt8))
  | assign (source : Source)
  | get (index : IndexArg)
  | indexAfter (index : IndexArg)
  | indexBefore (index : IndexArg)
  | view
  | peek

/-- A command on a path. -/
inductive PathCommand where
  | parse (bytes : List UInt8)
  | empty
  | clone (source : String)
  | push (other : List UInt8)
  | pushSlot (other : String)
  | pop
  | normalize
  | setComponents (source : Source)
  | fromParts (root : Bool) (source : Source)
  | compare (other : String)
  | order (other : String)
  | edit (edits : List PathEdit)

def componentReport (c : List UInt8) : Report :=
  .fields [("kind", .text (Kind.of c).name), ("bytes", Report.bytes c),
    ("stem", Report.bytes (stem c)), ("extension", Report.bytes? (extension c)),
    ("display", .text (Text.Utf8.lossy c)), ("debug", .text (componentDebug c)),
    ("owned", if Kind.of c = .root then .null else Report.bytes c),
    ("utf8", .bool (Text.Utf8.isValid c))]

def viewReport (v : View) : Report :=
  .fields [("has_root", .bool v.hasRoot), ("relative", Report.bytes v.relative),
    ("start_index", .nat v.startIndex), ("end_index", .nat v.endIndex),
    ("len", .nat v.count), ("empty", .bool v.isEmpty),
    ("indices", .list (v.indices.map Report.nat)), ("indices_rev", .list (v.indicesRev.map Report.nat)),
    ("names", .list (v.names.map Report.bytes)), ("names_rev", .list (v.namesRev.map Report.bytes)),
    ("first", Report.bytes? v.first?), ("last", Report.bytes? v.last?),
    ("debug", .text v.debugText)]

def pathReport (p : FilePath) : Report :=
  .fields [("bytes", Report.bytes p.bytes), ("display", .text p.display),
    ("debug", .text p.debugText), ("absolute", .bool p.isAbsolute),
    ("root", if p.isAbsolute then .text "/" else .null), ("empty", .bool p.isEmpty),
    ("to_str", match p.toText with
      | .ok s => .fields [("ok", .text s)]
      | .error e => Report.failure e.kind e.message),
    ("path_buf", Report.bytes p.bytes),
    ("iter", .list (p.components.map componentReport)),
    ("iter_rev", .list (p.components.reverse.map Report.bytes)),
    ("last_component", Report.bytes? p.lastComponent?),
    ("round_trip", .bool (FilePath.ofView p.isAbsolute p.view == p)),
    ("components", viewReport p.view)]

def IndexArg.resolve (v : View) : IndexArg → Option Nat
  | .nth k => if k < v.count then v.indices[k]? else if k = v.count then some v.endIndex else none
  | .start => some v.startIndex
  | .finish => some v.endIndex
  | .offset n => some n

def Source.toView : Source → Except Answer View
  | .names ns =>
    match View.ofNames ns with
    | .ok v => .ok v
    | .error f => .error (Answer.error "panic" f.message)
  | .path bytes =>
    match FilePath.ofBytes bytes with
    | .ok p => .ok p.view
    | .error e => .error (Answer.error e.kind e.message)
  | .nothing => .ok {}

def faultAnswer (f : Fault) : Answer := Answer.error "panic" f.message

def applyEdit (v : View) : PathEdit → Except Answer (View × Report)
  | e =>
    let lift {α : Type} (r : Except Fault α) : Except Answer α := r.mapError faultAnswer
    let index (a : IndexArg) : Except Answer Nat :=
      match a.resolve v with
      | some i => .ok i
      | none => .error (Answer.error "bad_input" "component index out of range")
    match e with
    | .push name => do pure (← lift (v.push name), .null)
    | .insert a name => do pure (← lift (v.insert (← index a) name), .null)
    | .remove a => do
      let (v', removed) ← lift (v.remove (← index a))
      pure (v', Report.bytes removed)
    | .pop => do
      let (v', removed) ← lift v.pop
      pure (v', Report.bytes? removed)
    | .replaceRange lo hi names => do
      let lo ← index lo
      let hi ← index hi
      pure (← lift (v.replaceRange lo hi names), .null)
    | .removeRange lo hi => do
      let lo ← index lo
      let hi ← index hi
      pure (← lift (v.removeRange lo hi), .null)
    | .clear => do pure (← lift v.clear, .null)
    | .retain kinds names => do
      let keep (c : List UInt8) : Bool := !kinds.contains (Kind.of c) && !names.contains c
      pure (← lift (v.retain keep), .null)
    | .extend names => do pure (← lift (v.extend names), .null)
    | .assign source => do pure (← source.toView, .null)
    | .get a => do pure (v, componentReport (← lift (v.get (← index a))))
    | .indexAfter a => do pure (v, .nat (← lift (v.indexAfter (← index a))))
    | .indexBefore a => do pure (v, .nat (← lift (v.indexBefore (← index a))))
    | .view => pure (v, viewReport v)
    | .peek => pure (v, .fields [("len", .nat v.count), ("names", .list (v.names.map Report.bytes))])

def applyEdits (v : View) : List PathEdit → View × List Report × Option Answer
  | [] => (v, [], none)
  | e :: rest =>
    match applyEdit v e with
    | .error a => (v, [], some a)
    | .ok (v', r) =>
      let (v'', rs, stop) := applyEdits v' rest
      (v'', r :: rs, stop)

def orderingSign : Ordering → Int
  | .lt => -1
  | .eq => 0
  | .gt => 1

/-- Runs one command on a slot of paths. -/
def pathStep (slots : Slots FilePath) (c : Slotted PathCommand) :
    HeapM (Slots FilePath × Answer) :=
  let put (p : FilePath) (extra : List (String × Report)) : Slots FilePath × Answer :=
    ((slots.put c.slot p).1, Answer.ok ((pathReport p).extend extra))
  let current (k : FilePath → HeapM (Slots FilePath × Answer)) : HeapM (Slots FilePath × Answer) :=
    match slots.get? c.slot with
    | some p => k p
    | none => pure (slots, missingSlot c.slot)
  let other (name : String) (k : FilePath → FilePath → HeapM (Slots FilePath × Answer)) :
      HeapM (Slots FilePath × Answer) :=
    current fun p => match slots.get? name with
      | some q => k p q
      | none => pure (slots, missingSlot name)
  let parsed (bytes : List UInt8) (k : FilePath → HeapM (Slots FilePath × Answer)) :
      HeapM (Slots FilePath × Answer) :=
    match FilePath.ofBytes bytes with
    | .ok p => k p
    | .error e => pure (slots, Answer.error e.kind e.message)
  let sourced (s : Source) (k : View → HeapM (Slots FilePath × Answer)) :
      HeapM (Slots FilePath × Answer) :=
    match s.toView with
    | .ok v => k v
    | .error a => pure (slots, a)
  match c.command with
  | .parse bytes => parsed bytes fun p => pure (put p [])
  | .empty => pure (put FilePath.empty [])
  | .clone source =>
    pure (match slots.get? source with
      | some p => put p []
      | none => (slots, missingSlot source))
  | .push bytes => current fun p => parsed bytes fun q => pure (put (p.push q) [])
  | .pushSlot name => other name fun p q => pure (put (p.push q) [])
  | .pop => current fun p => (do
    let (r, e) := p.pop
    note e
    pure (match r with
      | .ok (q, popped) => put q [("popped", .bool popped)]
      | .error f => (slots, faultAnswer f)))
  | .normalize => current fun p => pure (put p.lexicallyNormalize [])
  | .setComponents s => current fun p => sourced s fun v => pure (put (p.setComponents v) [])
  | .fromParts root s => sourced s fun v => pure (put (FilePath.ofView root v) [])
  | .compare name => other name fun p q =>
    pure (put p [("compare", .fields [("cmp", .int (orderingSign (p.order q))), ("eq", .bool (p == q)),
      ("starts_with", .bool (p.startsWith q)), ("is_prefix_of", .bool (q.startsWith p))])])
  | .order name => other name fun p q =>
    let o := p.order q
    pure (put p [("order", .fields [("partial_cmp", .int (orderingSign o)), ("lt", .bool (o == .lt)),
      ("le", .bool (o != .gt)), ("gt", .bool (o == .gt)), ("ge", .bool (o != .lt))])])
  | .edit edits => current fun p => (do
    let (v, results, stop) := applyEdits p.view edits
    let (q, e) := FilePath.writeBack p.isAbsolute v
    note e
    pure (match stop with
      | some a => ((slots.put c.slot q).1, a)
      | none => put q [("results", .list results)]))

def runPaths (cs : List (Slotted PathCommand)) : Report × List Log.Event :=
  runSession pathStep [] cs

end SysBytes.Session
