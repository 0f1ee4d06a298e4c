import Mathlib.Logic.Function.Iterate
import SysBytes.Control.Record

/-!
The reference reading of control-message bytes, and the walk's agreement with it. The walk
splits the checks of a record between `recordAt` and `nextOffset`; both stop exactly where the
reference reading stops, so the iterator yields the reference messages one per call.
-/
namespace SysBytes.Control

def lengthField (bytes : List UInt8) (o : Nat) : Nat := Word.decodeLE (Word.slice bytes o 8)

/-- A record at `o` that the bytes frame: its header inside, its length at least a header and within
the bytes. -/
def Framed (bytes : List UInt8) (o : Nat) : Prop :=
  o + headerSize ≤ bytes.length ∧ headerSize ≤ lengthField bytes o ∧
    o + lengthField bytes o ≤ bytes.length

instance (bytes : List UInt8) (o : Nat) : Decidable (Framed bytes o) :=
  inferInstanceAs (Decidable (_ ∧ _ ∧ _))

def framedMessage (bytes : List UInt8) (o : Nat) : Message :=
  ⟨Word.decodeInt32 (Word.slice bytes (o + 8) 4), Word.decodeInt32 (Word.slice bytes (o + 12) 4),
    Word.slice bytes (o + headerSize) (lengthField bytes o - headerSize)⟩

theorem step_lt_of_framed {bytes : List UInt8} {o : Nat} (framed : Framed bytes o) :
    bytes.length - (o + Word.roundUp8 (lengthField bytes o)) < bytes.length - o := by
  obtain ⟨_, long, inside⟩ := framed
  unfold Word.roundUp8
  simp only [headerSize] at long
  omega

set_option linter.unusedVariables false in
/-- The records read from offset `o` on, with their offsets. -/
def frames (bytes : List UInt8) (o : Nat) : List (Nat × Message) :=
  if framed : Framed bytes o then
    (o, framedMessage bytes o) :: frames bytes (o + Word.roundUp8 (lengthField bytes o))
  else []
termination_by bytes.length - o
decreasing_by exact step_lt_of_framed framed

set_option linter.unusedVariables false in
def framesEnd (bytes : List UInt8) (o : Nat) : Nat :=
  if framed : Framed bytes o then framesEnd bytes (o + Word.roundUp8 (lengthField bytes o))
  else o
termination_by bytes.length - o
decreasing_by exact step_lt_of_framed framed

theorem not_framed_of_le {bytes : List UInt8} {o : Nat} (beyond : bytes.length ≤ o) :
    ¬ Framed bytes o := by
  rintro ⟨header, -, -⟩
  simp only [headerSize] at header
  omega

theorem recordAt_eq (bytes : List UInt8) (o : Nat) :
    recordAt bytes o =
      if Framed bytes o then some (lengthField bytes o, framedMessage bytes o) else none := by
  unfold recordAt Framed
  by_cases header : o + headerSize ≤ bytes.length <;> simp [header, lengthField, framedMessage]

theorem recordAt_of_framed {bytes : List UInt8} {o : Nat} (framed : Framed bytes o) :
    recordAt bytes o = some (lengthField bytes o, framedMessage bytes o) := by
  rw [recordAt_eq, if_pos framed]

theorem recordAt_of_not_framed {bytes : List UInt8} {o : Nat} (unframed : ¬ Framed bytes o) :
    recordAt bytes o = none := by
  rw [recordAt_eq, if_neg unframed]

theorem framed_iff_isSome (bytes : List UInt8) (o : Nat) :
    Framed bytes o ↔ (recordAt bytes o).isSome := by
  by_cases framed : Framed bytes o
  · simp [framed, recordAt_of_framed framed]
  · simp [framed, recordAt_of_not_framed framed]

theorem walkFrom_of_framed {bytes : List UInt8} {o : Nat} (framed : Framed bytes o) :
    walkFrom bytes o = (o, framedMessage bytes o) ::
      walkFrom bytes (nextOffset bytes o (lengthField bytes o)) := by
  rw [walkFrom]
  split
  · rename_i found
    rw [recordAt_of_framed framed] at found
    cases found
  · rename_i len m found
    rw [recordAt_of_framed framed] at found
    cases found
    rfl

theorem walkFrom_of_not_framed {bytes : List UInt8} {o : Nat} (unframed : ¬ Framed bytes o) :
    walkFrom bytes o = [] := by
  rw [walkFrom]
  split
  · rfl
  · rename_i found
    rw [recordAt_of_not_framed unframed] at found
    cases found

theorem walkFrom_nextOffset (bytes : List UInt8) (o len : Nat) :
    walkFrom bytes (nextOffset bytes o len) = walkFrom bytes (o + Word.roundUp8 len) := by
  have atEnd := walkFrom_of_not_framed (not_framed_of_le (Nat.le_refl bytes.length))
  unfold nextOffset
  dsimp only
  by_cases beyond : bytes.length ≤ o + Word.roundUp8 len
  · rw [Nat.min_eq_right beyond, if_neg (fun h => Nat.lt_irrefl _ h.1), atEnd,
      walkFrom_of_not_framed (not_framed_of_le beyond)]
  · rw [Nat.min_eq_left (Nat.le_of_not_le beyond)]
    split
    · rename_i malformed
      have unframed : ¬ Framed bytes (o + Word.roundUp8 len) := by
        rw [framed_iff_isSome, Option.eq_none_of_isNone malformed.2]
        decide
      rw [atEnd, walkFrom_of_not_framed unframed]
    · rfl

theorem walkFrom_eq_frames (bytes : List UInt8) (o : Nat) : walkFrom bytes o = frames bytes o := by
  fun_induction frames bytes o with
  | case1 o framed ih => rw [walkFrom_of_framed framed, walkFrom_nextOffset, ih]
  | case2 o unframed => exact walkFrom_of_not_framed unframed

/-- The walk over committed bytes reads exactly the reference records. -/
theorem walk_eq_frames (bytes : List UInt8) : walk bytes = frames bytes 0 := by
  unfold walk startIndex
  split
  · exact walkFrom_eq_frames bytes 0
  · rename_i missing
    have unframed : ¬ Framed bytes 0 := by
      rw [framed_iff_isSome]
      exact missing
    rw [walkFrom_of_not_framed (not_framed_of_le (Nat.le_refl bytes.length)), frames,
      dif_neg unframed]

theorem framed_of_mem_frames {bytes : List UInt8} {o : Nat} {r : Nat × Message}
    (mem : r ∈ frames bytes o) : Framed bytes r.1 ∧ r.2 = framedMessage bytes r.1 := by
  fun_induction frames bytes o with
  | case1 o framed ih =>
    rcases List.mem_cons.mp mem with rfl | later
    · exact ⟨framed, rfl⟩
    · exact ih later
  | case2 => cases mem

theorem framedMessage_payload {bytes : List UInt8} {o : Nat} (framed : Framed bytes o) :
    (framedMessage bytes o).payload.length = lengthField bytes o - headerSize ∧
      o + headerSize + (framedMessage bytes o).payload.length ≤ bytes.length := by
  obtain ⟨_, long, inside⟩ := framed
  simp only [framedMessage, Word.slice, List.length_take, List.length_drop]
  omega

namespace Cursor

theorem next_walkFrom (c : Cursor) :
    c.next.1 = (walkFrom c.bytes c.offset).head?.map Prod.snd ∧
      c.next.2.bytes = c.bytes ∧
      walkFrom c.next.2.bytes c.next.2.offset = (walkFrom c.bytes c.offset).tail := by
  unfold next
  split
  · rename_i len m found
    obtain ⟨framed, rfl, rfl⟩ : Framed c.bytes c.offset ∧ len = lengthField c.bytes c.offset ∧
        m = framedMessage c.bytes c.offset := by
      by_cases framed : Framed c.bytes c.offset
      · rw [recordAt_of_framed framed, Option.some.injEq, Prod.mk.injEq] at found
        exact ⟨framed, found.1.symm, found.2.symm⟩
      · rw [recordAt_of_not_framed framed] at found
        cases found
    simp [walkFrom_of_framed framed]
  · rename_i found
    have unframed : ¬ Framed c.bytes c.offset := by
      rw [framed_iff_isSome, found]
      decide
    simp [walkFrom_of_not_framed unframed]

theorem iterate_walkFrom (c : Cursor) (n : Nat) :
    ((fun c : Cursor => c.next.2)^[n] c).bytes = c.bytes ∧
      walkFrom ((fun c : Cursor => c.next.2)^[n] c).bytes
        ((fun c : Cursor => c.next.2)^[n] c).offset = (walkFrom c.bytes c.offset).drop n := by
  induction n with
  | zero => exact ⟨rfl, rfl⟩
  | succ n ih =>
    obtain ⟨-, same, ahead⟩ := next_walkFrom ((fun c : Cursor => c.next.2)^[n] c)
    rw [Function.iterate_succ_apply']
    refine ⟨same.trans ih.1, ?_⟩
    rw [ahead, ih.2, List.tail_drop]

end Cursor

/-- **The iterator reads the reference records.** The `n`-th call of the message iterator yields the
`n`-th message of the reference reading, and every payload lies within its record. -/
theorem messages_follow_reference (bytes : List UInt8) :
    (∀ n, ((fun c : Cursor => c.next.2)^[n] (Cursor.start bytes)).next.1 =
        ((frames bytes 0).map Prod.snd)[n]?) ∧
      (∀ n, (frames bytes 0).length ≤ n →
        ((fun c : Cursor => c.next.2)^[n] (Cursor.start bytes)).next.1 = none) ∧
      (∀ n m, n ≤ m → ((fun c : Cursor => c.next.2)^[n] (Cursor.start bytes)).next.1 = none →
        ((fun c : Cursor => c.next.2)^[m] (Cursor.start bytes)).next.1 = none) ∧
      ∀ r ∈ frames bytes 0, r.1 + headerSize + r.2.payload.length ≤ bytes.length ∧
        r.2.payload = Word.slice bytes (r.1 + headerSize) r.2.payload.length := by
  have yields : ∀ n, ((fun c : Cursor => c.next.2)^[n] (Cursor.start bytes)).next.1 =
      ((frames bytes 0).map Prod.snd)[n]? := by
    intro n
    obtain ⟨_, ahead⟩ := Cursor.iterate_walkFrom (Cursor.start bytes) n
    rw [(Cursor.next_walkFrom _).1, ahead]
    change ((walk bytes).drop n).head?.map Prod.snd = _
    rw [walk_eq_frames, List.head?_drop, List.getElem?_map]
  refine ⟨yields, ?_, ?_, ?_⟩
  · intro n past
    rw [yields, List.getElem?_eq_none_iff, List.length_map]
    exact past
  · intro n m le none_at
    rw [yields] at none_at ⊢
    rw [List.getElem?_eq_none_iff] at none_at ⊢
    omega
  · intro r mem
    obtain ⟨framed, msg⟩ := framed_of_mem_frames mem
    obtain ⟨len, inside⟩ := framedMessage_payload framed
    rw [msg]
    refine ⟨inside, ?_⟩
    rw [len]
    rfl

end SysBytes.Control
