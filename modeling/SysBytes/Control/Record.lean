import SysBytes.Word
import SysBytes.Log.Event

/-!
Control-message records: a 16-byte header (a 64-bit length counting header and payload, then
the level and the kind), the payload, and padding to 8. The walk reads well-formed records from
offset 0, each step the padded length clamped to the end, and stops at the first malformed one.
-/
namespace SysBytes.Control

def headerSize : Nat := 16

/-- The bytes a record with `n` payload bytes occupies, padding included. -/
def space (n : Nat) : Nat := headerSize + Word.roundUp8 n

def messageLen (n : Nat) : Nat := headerSize + n

/-- A control message: level, kind and payload. -/
structure Message where
  level : Int32
  kind : Int32
  payload : List UInt8
  deriving DecidableEq, Repr

def socketLevel : Int32 := 1

def rightsKind : Int32 := 1

namespace Message

def isFds (m : Message) : Bool := m.level == socketLevel && m.kind == rightsKind

def descriptors (m : Message) : List Int32 :=
  (List.range (m.payload.length / 4)).map fun i => Word.decodeInt32 (Word.slice m.payload (4 * i) 4)

def debugText (m : Message) : String :=
  s!"Message \x7b level: {m.level.toInt}, kind: {m.kind.toInt}, payload_len: {m.payload.length} \x7d"

/-- The bytes of a record holding the message, header, payload and padding. -/
def encode (m : Message) : List UInt8 :=
  Word.encodeLE 8 (messageLen m.payload.length) ++ Word.encodeInt32 m.level ++
    Word.encodeInt32 m.kind ++ m.payload ++
    List.replicate (Word.roundUp8 m.payload.length - m.payload.length) 0

end Message

/-- The record at offset `o`, with its length field, if it is well-formed. -/
def recordAt (bytes : List UInt8) (o : Nat) : Option (Nat × Message) :=
  if o + headerSize ≤ bytes.length then
    let len := Word.decodeLE (Word.slice bytes o 8)
    if headerSize ≤ len ∧ o + len ≤ bytes.length then
      some (len, ⟨Word.decodeInt32 (Word.slice bytes (o + 8) 4),
        Word.decodeInt32 (Word.slice bytes (o + 12) 4),
        Word.slice bytes (o + headerSize) (len - headerSize)⟩)
    else none
  else none

theorem recordAt_bounds {bytes : List UInt8} {o len : Nat} {m : Message}
    (h : recordAt bytes o = some (len, m)) : headerSize ≤ len ∧ o + len ≤ bytes.length := by
  unfold recordAt at h
  dsimp only at h
  split at h
  · split at h
    · cases h
      rename_i inside
      exact inside
    · cases h
  · cases h

/-- Where the walk steps from a record at `o` with length field `len`: its padded end, clamped to
the bytes. -/
def nextOffset (bytes : List UInt8) (o len : Nat) : Nat :=
  let next := min (o + Word.roundUp8 len) bytes.length
  if next < bytes.length ∧ (recordAt bytes next).isNone then bytes.length else next

def stopNote? (bytes : List UInt8) (o len : Nat) : Option Log.Event :=
  let next := min (o + Word.roundUp8 len) bytes.length
  if next < bytes.length ∧ (recordAt bytes next).isNone then
    some ⟨.debug, "malformed control message; stopping",
      [("offset", .nat next), ("committed", .nat bytes.length)]⟩
  else none

theorem nextOffset_le (bytes : List UInt8) (o len : Nat) : nextOffset bytes o len ≤ bytes.length := by
  unfold nextOffset
  dsimp only
  split <;> omega

theorem lt_nextOffset {bytes : List UInt8} {o len : Nat} (long : headerSize ≤ len)
    (inside : o + len ≤ bytes.length) : o < nextOffset bytes o len := by
  unfold nextOffset Word.roundUp8
  simp only [headerSize] at long
  dsimp only
  split <;> omega

def startIndex (bytes : List UInt8) : Nat :=
  if (recordAt bytes 0).isSome then 0 else bytes.length

def startNote? (bytes : List UInt8) : Option Log.Event :=
  if (recordAt bytes 0).isNone ∧ bytes ≠ [] then
    some ⟨.debug, "first control message malformed", [("len", .nat bytes.length)]⟩
  else none

set_option linter.unusedVariables false in
def walkFrom (bytes : List UInt8) (o : Nat) : List (Nat × Message) :=
  match found : recordAt bytes o with
  | none => []
  | some (len, m) => (o, m) :: walkFrom bytes (nextOffset bytes o len)
termination_by bytes.length - o
decreasing_by
  have bounds := recordAt_bounds found
  have forward := lt_nextOffset bounds.1 bounds.2
  have le := nextOffset_le bytes o len
  omega

set_option linter.unusedVariables false in
def walkNotesFrom (bytes : List UInt8) (o : Nat) : List Log.Event :=
  match found : recordAt bytes o with
  | none => []
  | some (len, _) =>
    (stopNote? bytes o len).toList ++ walkNotesFrom bytes (nextOffset bytes o len)
termination_by bytes.length - o
decreasing_by
  have bounds := recordAt_bounds found
  have forward := lt_nextOffset bounds.1 bounds.2
  have le := nextOffset_le bytes o len
  omega

/-- The records of committed bytes, in walk order, with their offsets. -/
def walk (bytes : List UInt8) : List (Nat × Message) := walkFrom bytes (startIndex bytes)

def walkNotes (bytes : List UInt8) : List Log.Event :=
  (startNote? bytes).toList ++ walkNotesFrom bytes (startIndex bytes)

def messages (bytes : List UInt8) : List Message := (walk bytes).map Prod.snd

def indices (bytes : List UInt8) : List Nat := (walk bytes).map Prod.fst

/-- An iterator over the messages of committed bytes: the bytes and the offset it reads next. -/
structure Cursor where
  bytes : List UInt8
  offset : Nat
  deriving DecidableEq, Repr

namespace Cursor

def start (bytes : List UInt8) : Cursor := ⟨bytes, startIndex bytes⟩

def next (c : Cursor) : Option Message × Cursor :=
  match recordAt c.bytes c.offset with
  | some (len, m) => (some m, { c with offset := nextOffset c.bytes c.offset len })
  | none => (none, c)

end Cursor

end SysBytes.Control
