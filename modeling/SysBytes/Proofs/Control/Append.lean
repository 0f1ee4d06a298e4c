import SysBytes.Proofs.Control.Frames
import SysBytes.Proofs.Store.Handles
import SysBytes.Proofs.Word
import SysBytes.Control.Buffer

/-!
Appending control messages. Committed bytes are complete when the reference reading stops only
at their end; an append writes zeros to the next 8-byte boundary and then the record, so the
result is read as the old messages followed by the new one, and is complete again.
-/
namespace SysBytes.Store.Filler

theorem length_run {fill : Filler Empty} {region written : List UInt8} {used : Nat}
    (ran : fill.run region = .ok (written, used)) : written.length = region.length := by
  unfold Filler.run at ran
  split at ran
  · cases ran
    simp
  · cases ran

theorem writing_run {p region : List UInt8} (same : region.length = p.length) :
    (writing p p.length : Filler Empty).run region = .ok (p, p.length) := by
  simp [Filler.run, writing, Word.overwrite_zero_of_length same.symm,
    List.take_of_length_le (Nat.le_of_eq same.symm)]

end SysBytes.Store.Filler

namespace SysBytes.Control

/-! ### The reference reading of longer bytes -/

theorem frames_of_framed {bytes : List UInt8} {o : Nat} (framed : Framed bytes o) :
    frames bytes o = (o, framedMessage bytes o) ::
      frames bytes (o + Word.roundUp8 (lengthField bytes o)) := by
  rw [frames, dif_pos framed]

theorem frames_of_not_framed {bytes : List UInt8} {o : Nat} (unframed : ¬ Framed bytes o) :
    frames bytes o = [] := by
  rw [frames, dif_neg unframed]

theorem messages_nil : messages [] = [] := by
  rw [messages, walk_eq_frames, frames_of_not_framed (not_framed_of_le (Nat.zero_le _))]
  rfl

theorem framesEnd_of_framed {bytes : List UInt8} {o : Nat} (framed : Framed bytes o) :
    framesEnd bytes o = framesEnd bytes (o + Word.roundUp8 (lengthField bytes o)) := by
  rw [framesEnd, dif_pos framed]

theorem framesEnd_of_not_framed {bytes : List UInt8} {o : Nat} (unframed : ¬ Framed bytes o) :
    framesEnd bytes o = o := by
  rw [framesEnd, dif_neg unframed]

theorem framed_append {a : List UInt8} {o : Nat} (t : List UInt8) (framed : Framed a o) :
    Framed (a ++ t) o ∧ lengthField (a ++ t) o = lengthField a o ∧
      framedMessage (a ++ t) o = framedMessage a o := by
  obtain ⟨header, long, inside⟩ := framed
  simp only [headerSize] at header long inside
  have same_length : lengthField (a ++ t) o = lengthField a o := by
    unfold lengthField
    rw [Word.slice_append_left (by omega)]
  refine ⟨⟨?_, ?_, ?_⟩, same_length, ?_⟩
  · simp only [headerSize, List.length_append]
    omega
  · rw [same_length]
    exact long
  · rw [same_length, List.length_append]
    omega
  · unfold framedMessage
    rw [same_length, Word.slice_append_left (by omega), Word.slice_append_left (by omega),
      Word.slice_append_left (by simp only [headerSize]; omega)]

theorem frames_append (a t : List UInt8) (o : Nat) :
    frames (a ++ t) o = frames a o ++ frames (a ++ t) (framesEnd a o) := by
  fun_induction frames a o with
  | case1 o framed ih =>
    obtain ⟨framed', same_length, same_message⟩ := framed_append t framed
    rw [frames_of_framed framed', same_length, same_message, ih, framesEnd_of_framed framed]
    rfl
  | case2 o unframed =>
    rw [framesEnd_of_not_framed unframed, List.nil_append]

theorem framesEnd_append (a t : List UInt8) (o : Nat) :
    framesEnd (a ++ t) o = framesEnd (a ++ t) (framesEnd a o) := by
  fun_induction framesEnd a o with
  | case1 o framed ih =>
    obtain ⟨framed', same_length, -⟩ := framed_append t framed
    rw [framesEnd_of_framed framed', same_length, ih]
  | case2 o unframed => rfl

/-! ### Complete bytes -/

/-- Committed bytes whose reference reading stops only at their end. -/
def Complete (bytes : List UInt8) : Prop := bytes.length ≤ framesEnd bytes 0

theorem framesEnd_aligned (bytes : List UInt8) (o : Nat) (aligned : o % 8 = 0)
    (within : o ≤ Word.roundUp8 bytes.length) :
    framesEnd bytes o % 8 = 0 ∧ framesEnd bytes o ≤ Word.roundUp8 bytes.length := by
  fun_induction framesEnd bytes o with
  | case1 o framed ih =>
    obtain ⟨-, -, inside⟩ := framed
    apply ih
    · unfold Word.roundUp8
      omega
    · unfold Word.roundUp8 at within ⊢
      omega
  | case2 o => exact ⟨aligned, within⟩

theorem framesEnd_of_complete {bytes : List UInt8} (complete : Complete bytes) :
    framesEnd bytes 0 = Word.roundUp8 bytes.length := by
  obtain ⟨aligned, within⟩ := framesEnd_aligned bytes 0 rfl (Nat.zero_le _)
  unfold Complete at complete
  unfold Word.roundUp8 at within ⊢
  omega

theorem complete_nil : Complete [] := Nat.zero_le _

/-! ### Cutting back to the end of the last record -/

theorem offset_le_of_mem_frames {bytes : List UInt8} {o : Nat} {r : Nat × Message}
    (mem : r ∈ frames bytes o) : o ≤ r.1 := by
  fun_induction frames bytes o with
  | case1 o framed ih =>
    rcases List.mem_cons.mp mem with rfl | later
    · exact Nat.le_refl _
    · exact Nat.le_trans (Nat.le_add_right _ _) (ih later)
  | case2 => cases mem

theorem le_framesEnd (bytes : List UInt8) (o : Nat) : o ≤ framesEnd bytes o := by
  fun_induction framesEnd bytes o with
  | case1 o framed ih => exact Nat.le_trans (Nat.le_add_right _ _) ih
  | case2 o => exact Nat.le_refl o

theorem end_le_framesEnd {bytes : List UInt8} {o : Nat} {r : Nat × Message}
    (mem : r ∈ frames bytes o) : r.1 + lengthField bytes r.1 ≤ framesEnd bytes o := by
  fun_induction frames bytes o with
  | case1 o framed ih =>
    rw [framesEnd_of_framed framed]
    rcases List.mem_cons.mp mem with rfl | later
    · have rest := le_framesEnd bytes (o + Word.roundUp8 (lengthField bytes o))
      have pad : lengthField bytes o ≤ Word.roundUp8 (lengthField bytes o) := by
        unfold Word.roundUp8
        omega
      dsimp only
      omega
    · exact ih later
  | case2 => cases mem

theorem end_le_last {bytes : List UInt8} {o : Nat} {r l : Nat × Message}
    (mem : r ∈ frames bytes o) (last : (frames bytes o).getLast? = some l) :
    r.1 + lengthField bytes r.1 ≤ l.1 + lengthField bytes l.1 := by
  fun_induction frames bytes o with
  | case1 o framed ih =>
    rw [List.getLast?_cons] at last
    cases rest_last : (frames bytes (o + Word.roundUp8 (lengthField bytes o))).getLast? with
    | none =>
      rw [rest_last, Option.getD_none, Option.some.injEq] at last
      rw [List.getLast?_eq_none_iff] at rest_last
      rw [rest_last, List.mem_singleton] at mem
      rw [mem, last]
    | some l' =>
      rw [rest_last, Option.getD_some, Option.some.injEq] at last
      subst last
      rcases List.mem_cons.mp mem with rfl | later
      · have after := offset_le_of_mem_frames (List.mem_of_getLast? rest_last)
        unfold Word.roundUp8 at after
        dsimp only
        omega
      · exact ih later rest_last
  | case2 => cases mem

theorem framed_of_append {a t : List UInt8} {o : Nat} (framed : Framed (a ++ t) o)
    (inside : o + lengthField (a ++ t) o ≤ a.length) : Framed a o := by
  obtain ⟨-, long, -⟩ := framed
  have same_length : lengthField (a ++ t) o = lengthField a o := by
    unfold lengthField
    rw [Word.slice_append_left (by simp only [headerSize] at long; omega)]
  rw [same_length] at long inside
  refine ⟨?_, long, inside⟩
  simp only [headerSize] at long ⊢
  omega

theorem frames_of_prefix {a bytes : List UInt8} {o : Nat} (pre : a <+: bytes)
    (ends : ∀ r ∈ frames bytes o, r.1 + lengthField bytes r.1 ≤ a.length) :
    frames a o = frames bytes o ∧ framesEnd a o = framesEnd bytes o := by
  obtain ⟨t, rfl⟩ := pre
  fun_induction frames a o with
  | case1 o framed ih =>
    obtain ⟨framed', same_length, same_message⟩ := framed_append t framed
    rw [frames_of_framed framed', same_length, same_message] at ends
    obtain ⟨rest, stop⟩ := ih fun r mem => ends r (List.mem_cons_of_mem _ mem)
    rw [frames_of_framed framed', framesEnd_of_framed framed, framesEnd_of_framed framed',
      same_length, same_message, rest, stop]
    exact ⟨rfl, rfl⟩
  | case2 o unframed =>
    have unframed' : ¬ Framed (a ++ t) o := by
      intro framed'
      have own := ends (o, framedMessage (a ++ t) o) (by
        rw [frames_of_framed framed']
        exact List.mem_cons_self)
      exact unframed (framed_of_append framed' own)
    rw [frames_of_not_framed unframed', framesEnd_of_not_framed unframed,
      framesEnd_of_not_framed unframed']
    exact ⟨rfl, rfl⟩

def recordsEnd (bytes : List UInt8) : Nat :=
  match (frames bytes 0).getLast? with
  | some (o, _) => o + lengthField bytes o
  | none => 0

theorem complete_take_recordsEnd (bytes : List UInt8) :
    frames (bytes.take (recordsEnd bytes)) 0 = frames bytes 0 ∧
      Complete (bytes.take (recordsEnd bytes)) := by
  have ends : ∀ r ∈ frames bytes 0, r.1 + lengthField bytes r.1 ≤ recordsEnd bytes := by
    intro r mem
    unfold recordsEnd
    cases last : (frames bytes 0).getLast? with
    | none =>
      rw [List.getLast?_eq_none_iff] at last
      rw [last] at mem
      cases mem
    | some l => exact end_le_last mem last
  have stop : recordsEnd bytes ≤ framesEnd bytes 0 := by
    unfold recordsEnd
    cases last : (frames bytes 0).getLast? with
    | none => exact Nat.zero_le _
    | some l => exact end_le_framesEnd (List.mem_of_getLast? last)
  have within : ∀ r ∈ frames bytes 0, r.1 + lengthField bytes r.1 ≤ bytes.length :=
    fun r mem => (framed_of_mem_frames mem).1.2.2
  obtain ⟨same, same_end⟩ := frames_of_prefix (List.take_prefix (recordsEnd bytes) bytes)
    fun r mem => by
      rw [List.length_take]
      exact Nat.le_min.mpr ⟨ends r mem, within r mem⟩
  refine ⟨same, ?_⟩
  unfold Complete
  rw [same_end, List.length_take]
  exact Nat.le_trans (Nat.min_le_left _ _) stop

/-! ### One encoded record -/

theorem length_encode (m : Message) : m.encode.length = space m.payload.length := by
  simp only [Message.encode, space, headerSize, messageLen, List.length_append,
    Word.length_encodeLE, Word.length_encodeInt32, List.length_replicate]
  unfold Word.roundUp8
  omega

theorem lengthField_encode (pre : List UInt8) (m : Message)
    (small : messageLen m.payload.length ≤ Store.wordMax) :
    lengthField (pre ++ m.encode) pre.length = messageLen m.payload.length := by
  have below : messageLen m.payload.length < 256 ^ 8 := by
    have word : Store.wordMax = 18446744073709551615 := rfl
    have bytes8 : (256 : Nat) ^ 8 = 18446744073709551616 := by norm_num
    omega
  have split : pre ++ m.encode = pre ++ Word.encodeLE 8 (messageLen m.payload.length) ++
      (Word.encodeInt32 m.level ++ Word.encodeInt32 m.kind ++ m.payload ++
        List.replicate (Word.roundUp8 m.payload.length - m.payload.length) 0) := by
    simp [Message.encode]
  unfold lengthField
  rw [split, Word.slice_middle rfl (by simp), Word.decodeLE_encodeLE, Nat.mod_eq_of_lt below]

theorem framed_encode (pre : List UInt8) (m : Message)
    (small : messageLen m.payload.length ≤ Store.wordMax) :
    Framed (pre ++ m.encode) pre.length ∧ framedMessage (pre ++ m.encode) pre.length = m := by
  have total : (pre ++ m.encode).length = pre.length + space m.payload.length := by
    rw [List.length_append, length_encode]
  have field := lengthField_encode pre m small
  have framed : Framed (pre ++ m.encode) pre.length := by
    refine ⟨?_, ?_, ?_⟩
    · rw [total]
      simp only [space]
      omega
    · rw [field]
      simp only [messageLen]
      omega
    · rw [field, total]
      simp only [messageLen, space, headerSize]
      unfold Word.roundUp8
      omega
  have level : Word.slice (pre ++ m.encode) (pre.length + 8) 4 = Word.encodeInt32 m.level := by
    have split : pre ++ m.encode = pre ++ Word.encodeLE 8 (messageLen m.payload.length) ++
        Word.encodeInt32 m.level ++ (Word.encodeInt32 m.kind ++ m.payload ++
          List.replicate (Word.roundUp8 m.payload.length - m.payload.length) 0) := by
      simp [Message.encode]
    rw [split, Word.slice_middle (by simp) (by simp)]
  have kind : Word.slice (pre ++ m.encode) (pre.length + 12) 4 = Word.encodeInt32 m.kind := by
    have split : pre ++ m.encode = pre ++ Word.encodeLE 8 (messageLen m.payload.length) ++
        Word.encodeInt32 m.level ++ Word.encodeInt32 m.kind ++ (m.payload ++
          List.replicate (Word.roundUp8 m.payload.length - m.payload.length) 0) := by
      simp [Message.encode]
    rw [split, Word.slice_middle (by simp) (by simp)]
  have payload : Word.slice (pre ++ m.encode) (pre.length + headerSize)
      (lengthField (pre ++ m.encode) pre.length - headerSize) = m.payload := by
    have split : pre ++ m.encode = pre ++ Word.encodeLE 8 (messageLen m.payload.length) ++
        Word.encodeInt32 m.level ++ Word.encodeInt32 m.kind ++ m.payload ++
          List.replicate (Word.roundUp8 m.payload.length - m.payload.length) 0 := by
      simp [Message.encode]
    rw [field, split, Word.slice_middle (by simp [headerSize]) (by simp [messageLen, headerSize])]
  refine ⟨framed, ?_⟩
  cases m
  simp only [framedMessage, level, kind, payload, Word.decodeInt32_encodeInt32]

theorem frames_encode (pre : List UInt8) (m : Message)
    (small : messageLen m.payload.length ≤ Store.wordMax) :
    frames (pre ++ m.encode) pre.length = [(pre.length, m)] ∧
      framesEnd (pre ++ m.encode) pre.length = pre.length + space m.payload.length := by
  obtain ⟨framed, message⟩ := framed_encode pre m small
  have step : pre.length + Word.roundUp8 (lengthField (pre ++ m.encode) pre.length) =
      pre.length + space m.payload.length := by
    rw [lengthField_encode pre m small]
    simp only [messageLen, space, headerSize]
    unfold Word.roundUp8
    omega
  have past : ¬ Framed (pre ++ m.encode)
      (pre.length + Word.roundUp8 (lengthField (pre ++ m.encode) pre.length)) := by
    apply not_framed_of_le
    rw [List.length_append, length_encode, step]
  refine ⟨?_, ?_⟩
  · rw [frames_of_framed framed, message, frames_of_not_framed past]
  · rw [framesEnd_of_framed framed, framesEnd_of_not_framed past, step]

theorem frames_extend {bytes : List UInt8} (complete : Complete bytes) (m : Message)
    (small : messageLen m.payload.length ≤ Store.wordMax) :
    frames (bytes ++ List.replicate (Word.roundUp8 bytes.length - bytes.length) 0 ++ m.encode) 0 =
        frames bytes 0 ++ [(Word.roundUp8 bytes.length, m)] ∧
      Complete (bytes ++ List.replicate (Word.roundUp8 bytes.length - bytes.length) 0 ++
        m.encode) := by
  have padded : (bytes ++ List.replicate (Word.roundUp8 bytes.length - bytes.length) 0).length =
      Word.roundUp8 bytes.length := by
    simp only [List.length_append, List.length_replicate]
    unfold Word.roundUp8
    omega
  have stop := framesEnd_of_complete complete
  have tail := frames_encode (bytes ++ List.replicate (Word.roundUp8 bytes.length - bytes.length) 0)
    m small
  rw [padded] at tail
  have regroup : bytes ++ List.replicate (Word.roundUp8 bytes.length - bytes.length) 0 ++ m.encode =
      bytes ++ (List.replicate (Word.roundUp8 bytes.length - bytes.length) 0 ++ m.encode) :=
    List.append_assoc _ _ _
  refine ⟨?_, ?_⟩
  · rw [regroup, frames_append, stop, ← regroup, tail.1]
  · unfold Complete
    rw [regroup, framesEnd_append, stop, ← regroup, tail.2, List.length_append, length_encode,
      padded]

/-! ### Descriptor payloads -/

theorem length_flatMap_encodeInt32 (fds : List Int32) :
    (fds.flatMap Word.encodeInt32).length = 4 * fds.length := by
  induction fds with
  | nil => rfl
  | cons fd fds ih =>
    rw [List.flatMap_cons, List.length_append, Word.length_encodeInt32, ih, List.length_cons]
    omega

theorem slice_flatMap_encodeInt32 (fds : List Int32) (i : Nat) (lt : i < fds.length) :
    Word.slice (fds.flatMap Word.encodeInt32) (4 * i) 4 = Word.encodeInt32 fds[i] := by
  induction fds generalizing i with
  | nil => cases lt
  | cons fd fds ih =>
    rw [List.flatMap_cons]
    cases i with
    | zero =>
      rw [Word.slice_append_left (by simp)]
      simp [Word.slice]
    | succ j =>
      rw [Word.slice_append_right (by simp), Word.length_encodeInt32,
        show 4 * (j + 1) - 4 = 4 * j by omega]
      exact ih j (by simpa using lt)

theorem descriptors_flatMap_encodeInt32 (level kind : Int32) (fds : List Int32) :
    Message.descriptors ⟨level, kind, fds.flatMap Word.encodeInt32⟩ = fds := by
  unfold Message.descriptors
  dsimp only
  rw [length_flatMap_encodeInt32, Nat.mul_div_cancel_left _ (by decide)]
  apply List.ext_getElem (by simp)
  intro i inside _
  rw [List.length_map, List.length_range] at inside
  simp [slice_flatMap_encodeInt32 fds i inside]

/-! ### Appending to a buffer -/

namespace Buffer

open Store

theorem committed_eq_take (h : Heap) (b : Buffer) : b.committed h = (b.cells h).take b.len := by
  unfold committed cells
  cases b.store <;> simp

theorem capacity_eq_length (h : Heap) (b : Buffer) : b.capacity h = (b.cells h).length := by
  unfold capacity cells
  cases b.store <;> rfl

structure Valid (h : Heap) (b : Buffer) : Prop where
  allocated : ∀ s, b.store = some s → s.id < h.regions.length
  within : b.len ≤ b.capacity h

/-- An append of `n` payload bytes that passes the length check, with room already or growth within
a word. -/
def Appendable (h : Heap) (b : Buffer) (n : Nat) : Prop :=
  appendRoom b.len n ≠ none ∧
    (Word.roundUp8 b.len + space n ≤ b.capacity h ∨ b.capacity h * 7 + 2 ≤ wordMax)

theorem appendRoom_ne_none_iff {len n : Nat} :
    appendRoom len n ≠ none ↔
      len + 7 ≤ wordMax ∧ n + (headerSize + 8) ≤ wordMax ∧
        Word.roundUp8 len + space n ≤ wordMax := by
  simp only [appendRoom, checkedAdd]
  split_ifs <;> simp_all

theorem Appendable.small {h : Heap} {b : Buffer} {n : Nat} (room : b.Appendable h n) :
    messageLen n ≤ wordMax := by
  have bounded := (appendRoom_ne_none_iff.mp room.1).2.1
  unfold messageLen headerSize at *
  omega

theorem length_committed {h : Heap} {b : Buffer} (valid : b.Valid h) :
    (b.committed h).length = b.len := by
  rw [committed_eq_take, List.length_take, ← capacity_eq_length]
  exact Nat.min_eq_left valid.within

theorem reserve_cells {h : Heap} {b : Buffer} {n : Nat}
    (allocated : ∀ s, b.store = some s → s.id < h.regions.length)
    (fits : n ≤ b.capacity h ∨ b.capacity h * 7 + 2 ≤ wordMax) (positive : 0 < n) :
    ∃ b' h' s' k, (b.reserve n).run h = .ok b' h' ∧ b'.store = some s' ∧
      s'.id < h'.regions.length ∧ b'.cells h' = b.cells h ++ List.replicate k 0 ∧
      n ≤ b'.capacity h' ∧ b'.len = b.len := by
  cases stored : b.store with
  | none =>
    obtain ⟨s', h', run, zeros, inside⟩ := CowStore.create_cells (h := h) positive
    refine ⟨{ b with store := some s' }, h', s', Word.roundUp8 n, ?_, rfl, inside, ?_, ?_, rfl⟩
    · simp [reserve, stored, Nat.pos_iff_ne_zero.mp positive, run]
    · simp [cells, stored, zeros]
    · simp [capacity, CowStore.capacity, zeros]
      unfold Word.roundUp8
      omega
  | some s =>
    have fits' : n ≤ s.capacity h ∨ s.capacity h * 7 + 2 ≤ wordMax := by
      simpa [capacity, stored] using fits
    obtain ⟨s', h', k, run, grown, room, inside⟩ :=
      CowStore.reserve_cells (allocated s stored) fits'
    refine ⟨{ b with store := some s' }, h', s', k, ?_, rfl, inside, ?_, ?_, rfl⟩
    · simp [reserve, stored, run]
    · simp [cells, stored, grown]
    · simpa [capacity] using room

theorem modifyCells_cells {h : Heap} {b : Buffer} {s : CowStore} (stored : b.store = some s)
    (inside : s.id < h.regions.length) (edit : List UInt8 → List UInt8) :
    ∃ b' h' s', (b.modifyCells edit).run h = .ok b' h' ∧ b'.store = some s' ∧
      s'.id < h'.regions.length ∧ b'.cells h' = edit (b.cells h) ∧ b'.len = b.len := by
  obtain ⟨s', h', run, written, inside'⟩ := CowStore.modifyCells_cells edit inside
  refine ⟨{ b with store := some s' }, h', s', ?_, rfl, inside', ?_, rfl⟩
  · simp [modifyCells, stored, run]
  · simp [cells, stored, written]

end Buffer

open Store

theorem run_fail {α : Type} (f : Fault) (h : Heap) : (fail f : HeapM α).run h = .error f h := rfl

namespace Buffer

variable {h : Heap} {b : Buffer} {level kind : Int32} {cap : Nat} {fill : Filler Empty}

theorem appendWith_of_room (passed : appendRoom b.len cap ≠ none) :
    (b.appendWith level kind cap fill).run h = (b.appendRecord level kind cap fill).run h := by
  simp only [appendWith, passed, if_false]

theorem appendWith_refused (refused : appendRoom b.len cap = none) :
    (b.appendWith level kind cap fill).run h = .error .lengthOverflow h := by
  simp only [appendWith, refused, if_true]
  rfl

end Buffer

theorem overwrite_record (cells header : List UInt8) {written : List UInt8} {len start cap used : Nat}
    (before : len ≤ start) (room : start + space cap ≤ cells.length)
    (wrote : written.length = cap) (header_len : header.length = headerSize) (fits : used ≤ cap) :
    (Word.overwrite (Word.overwrite (Word.overwrite (Word.overwrite cells len
      (List.replicate (start - len) 0)) (start + headerSize) written) start header)
      (start + headerSize + used)
      (List.replicate (start + space used - (start + headerSize + used)) 0)).take
        (start + space used) =
      cells.take len ++ List.replicate (start - len) 0 ++
        (header ++ written.take used ++ List.replicate (Word.roundUp8 used - used) 0) := by
  have grow : Word.roundUp8 used ≤ Word.roundUp8 cap := by unfold Word.roundUp8; omega
  have pad : used ≤ Word.roundUp8 used := by unfold Word.roundUp8; omega
  simp only [space, headerSize] at room header_len ⊢
  apply List.ext_getElem?
  intro i
  by_cases outside : start + (16 + Word.roundUp8 used) ≤ i
  · rw [List.getElem?_eq_none (by simp; omega), List.getElem?_eq_none (by simp; omega)]
  rw [List.getElem?_take_of_lt (by omega)]
  simp only [Word.getElem?_overwrite, Word.length_overwrite, List.length_replicate,
    List.getElem?_append, List.length_append, List.length_take, List.getElem?_replicate,
    List.getElem?_take, wrote, header_len]
  -- each branch is one region of the layout: the contradictory ones fall to omega, and the
  -- others read the same byte of the same part on both sides
  split_ifs <;> first | rfl | omega | (congr 1; omega)

theorem appendWith_run {h : Heap} {b : Buffer} (level kind : Int32) {cap : Nat}
    (fill : Filler Empty) (valid : b.Valid h) (room : b.Appendable h cap) :
    ∃ region written used, region.length = cap ∧ fill.run region = .ok (written, used) ∧
      (cap < used → ∃ h', (b.appendWith level kind cap fill).run h =
        .error (.initializerOverrun used cap) h') ∧
      (used ≤ cap → ∃ b' h', (b.appendWith level kind cap fill).run h = .ok b' h' ∧
        b'.Valid h' ∧ b'.len = Word.roundUp8 b.len + space used ∧
        b'.committed h' = b.committed h ++ List.replicate (Word.roundUp8 b.len - b.len) 0 ++
          Message.encode ⟨level, kind, written.take used⟩) := by
  obtain ⟨b1, h1, s1, k, run1, stored1, inside1, cells1, room1, len1⟩ :=
    Buffer.reserve_cells valid.allocated room.2 (by simp [space, headerSize])
  have before : b.len ≤ Word.roundUp8 b.len := by unfold Word.roundUp8; omega
  have wide : cap ≤ Word.roundUp8 cap := by unfold Word.roundUp8; omega
  have committed_len : b.len ≤ (b.cells h).length := by
    rw [← Buffer.capacity_eq_length]
    exact valid.within
  rw [Buffer.capacity_eq_length] at room1
  have region_len : (Word.slice (b1.cells h1) (Word.roundUp8 b.len + headerSize) cap).length =
      cap := by
    simp only [Word.length_slice]
    simp only [space, headerSize] at room1 ⊢
    omega
  cases ran : fill.run (Word.slice (b1.cells h1) (Word.roundUp8 b.len + headerSize) cap) with
  | error e => exact e.elim
  | ok result =>
  obtain ⟨written, used⟩ := result
  have wrote : written.length = cap := (Filler.length_run ran).trans region_len
  obtain ⟨b2, h2, s2, run2, stored2, inside2, cells2, len2⟩ :=
    Buffer.modifyCells_cells stored1 inside1 fun cells =>
      Word.overwrite (Word.overwrite cells b1.len (List.replicate (Word.roundUp8 b.len - b1.len) 0))
        (Word.roundUp8 b.len + headerSize) written
  refine ⟨_, written, used, region_len, ran, fun overrun => ⟨h2, ?_⟩, fun fits => ?_⟩
  · rw [Buffer.appendWith_of_room room.1]
    unfold Buffer.appendRecord
    simp only [EStateM.run_bind, run1, heap, EStateM.run_get, ran, run2, if_pos overrun, run_fail]
  obtain ⟨b3, h3, s3, run3, stored3, inside3, cells3, len3⟩ :=
    Buffer.modifyCells_cells stored2 inside2 fun cells =>
      Word.overwrite (Word.overwrite cells (Word.roundUp8 b.len)
        (Word.encodeLE 8 (messageLen used) ++ Word.encodeInt32 level ++ Word.encodeInt32 kind))
        (Word.roundUp8 b.len + headerSize + used)
        (List.replicate (Word.roundUp8 b.len + space used - (Word.roundUp8 b.len + headerSize + used)) 0)
  have final_cells : Buffer.cells h3 { b3 with len := Word.roundUp8 b.len + space used } =
      Buffer.cells h3 b3 := rfl
  have layout := overwrite_record (b1.cells h1) (Word.encodeLE 8 (messageLen used) ++
      Word.encodeInt32 level ++ Word.encodeInt32 kind) before room1 wrote (by simp [headerSize]) fits
  refine ⟨{ b3 with len := Word.roundUp8 b.len + space used }, h3, ?_, ⟨?_, ?_⟩, rfl, ?_⟩
  · rw [Buffer.appendWith_of_room room.1]
    unfold Buffer.appendRecord
    simp only [EStateM.run_bind, run1, heap, EStateM.run_get, ran, run2, if_neg (Nat.not_lt.mpr fits),
      run3]
    rfl
  · intro s stored
    rw [show s = s3 from Option.some.inj (stored.symm.trans stored3)]
    exact inside3
  · rw [Buffer.capacity_eq_length, final_cells, cells3, cells2]
    simp only [Word.length_overwrite]
    have grow : Word.roundUp8 used ≤ Word.roundUp8 cap := by unfold Word.roundUp8; omega
    simp only [space] at room1 ⊢
    omega
  · rw [Buffer.committed_eq_take, final_cells, cells3, cells2, len1, layout, cells1,
      List.take_append_of_le_length committed_len, ← Buffer.committed_eq_take]
    have payload_len : (written.take used).length = used := by simp [wrote, fits]
    simp [Message.encode, payload_len]

/-- `b'` in `h'` is `b` in `h` with the message `m` appended, read back in full. -/
def Appended (h : Heap) (b : Buffer) (h' : Heap) (b' : Buffer) (m : Message) : Prop :=
  b'.Valid h' ∧ b'.len = Word.roundUp8 b.len + space m.payload.length ∧
    b'.committed h' = b.committed h ++ List.replicate (Word.roundUp8 b.len - b.len) 0 ++ m.encode ∧
    recordAt (b'.committed h') (Word.roundUp8 b.len) = some (messageLen m.payload.length, m) ∧
    Complete (b'.committed h') ∧ messages (b'.committed h') = messages (b.committed h) ++ [m]

theorem appended_of_committed {h h' : Heap} {b b' : Buffer} {m : Message} (valid : b.Valid h)
    (complete : Complete (b.committed h)) (small : messageLen m.payload.length ≤ wordMax)
    (valid' : b'.Valid h') (len' : b'.len = Word.roundUp8 b.len + space m.payload.length)
    (bytes' : b'.committed h' = b.committed h ++ List.replicate (Word.roundUp8 b.len - b.len) 0 ++
      m.encode) : Appended h b h' b' m := by
  have length := Buffer.length_committed valid
  obtain ⟨read, complete'⟩ := frames_extend complete m small
  rw [length] at read complete'
  have padded : (b.committed h ++ List.replicate (Word.roundUp8 b.len - b.len) 0).length =
      Word.roundUp8 b.len := by
    simp only [List.length_append, List.length_replicate, length]
    unfold Word.roundUp8
    omega
  obtain ⟨framed, message⟩ := framed_encode (b.committed h ++ List.replicate (Word.roundUp8 b.len - b.len) 0) m small
  have field := lengthField_encode (b.committed h ++ List.replicate (Word.roundUp8 b.len - b.len) 0)
    m small
  rw [padded] at framed message field
  refine ⟨valid', len', bytes', ?_, bytes' ▸ complete', ?_⟩
  · rw [bytes', recordAt_of_framed framed, message, field]
  · simp only [messages, walk_eq_frames, bytes', read, List.map_append, List.map_cons,
      List.map_nil]

theorem Appended.stored {h h' : Heap} {b b' : Buffer} {m : Message}
    (appended : Appended h b h' b' m) : ∃ s, b'.store = some s := by
  cases stored : b'.store with
  | some s => exact ⟨s, rfl⟩
  | none =>
    -- the record's header alone needs room, and a buffer without a region has none
    have within := appended.1.within
    rw [appended.2.1, Buffer.capacity, stored] at within
    simp only [space, headerSize] at within
    omega

theorem run_bind_ok {α β : Type} {x : HeapM α} {f : α → HeapM β} {h h' : Heap} {b : β}
    (ran : (x >>= f).run h = .ok b h') : ∃ a h₁, x.run h = .ok a h₁ ∧ (f a).run h₁ = .ok b h' := by
  rw [EStateM.run_bind] at ran
  cases first : x.run h with
  | ok a h₁ =>
    rw [first] at ran
    exact ⟨a, h₁, rfl, ran⟩
  | error e h₁ =>
    rw [first] at ran
    cases ran

namespace Buffer

theorem empty_valid (h : Heap) : empty.Valid h where
  allocated _ stored := by cases stored
  within := Nat.le_refl 0

theorem committed_of_len_zero (h : Heap) {b : Buffer} (zero : b.len = 0) : b.committed h = [] := by
  rw [committed_eq_take, zero, List.take_zero]

theorem appendable_of_ok {h h' : Heap} {b b' : Buffer} {level kind : Int32} {cap : Nat}
    {fill : Filler Empty} (ran : (b.appendWith level kind cap fill).run h = .ok b' h') :
    b.Appendable h cap := by
  have word : wordMax = 18446744073709551615 := rfl
  -- an append that returns has passed its length check
  have passed : appendRoom b.len cap ≠ none := fun refused => by
    rw [appendWith_refused refused] at ran
    cases ran
  refine ⟨passed, ?_⟩
  by_contra fails
  rw [not_or, Nat.not_le, Nat.not_le] at fails
  cases stored : b.store with
  | none =>
    have empty_cap : b.capacity h = 0 := by simp [capacity, stored]
    omega
  | some s =>
    have same_cap : b.capacity h = s.capacity h := by simp [capacity, stored]
    rw [same_cap] at fails
    have overflow := CowStore.reserve_overflow fails.1 fails.2
    rw [appendWith_of_room passed] at ran
    unfold appendRecord at ran
    obtain ⟨b₁, h₁, reserved, -⟩ := run_bind_ok ran
    simp [reserve, stored, overflow] at reserved

theorem appendWith_appends {h : Heap} {b : Buffer} (level kind : Int32) {cap : Nat}
    (fill : Filler Empty) (valid : b.Valid h) (complete : Complete (b.committed h))
    (room : b.Appendable h cap) :
    ∃ region written used, region.length = cap ∧ fill.run region = .ok (written, used) ∧
      (cap < used → ∃ h', (b.appendWith level kind cap fill).run h =
        .error (.initializerOverrun used cap) h') ∧
      (used ≤ cap → ∃ b' h', (b.appendWith level kind cap fill).run h = .ok b' h' ∧
        Appended h b h' b' ⟨level, kind, written.take used⟩ ∧ (written.take used).length = used) := by
  obtain ⟨region, written, used, region_len, ran, overrun, fits⟩ :=
    appendWith_run level kind fill valid room
  refine ⟨region, written, used, region_len, ran, overrun, fun le => ?_⟩
  obtain ⟨b', h', run, valid', len', bytes'⟩ := fits le
  have wrote : written.length = cap := (Filler.length_run ran).trans region_len
  have payload_len : (written.take used).length = used := by simp [wrote, le]
  have small : messageLen (written.take used).length ≤ wordMax := by
    have limit := room.small
    rw [payload_len]
    unfold messageLen at limit ⊢
    omega
  refine ⟨b', h', run, appended_of_committed valid complete small valid' ?_ bytes', payload_len⟩
  rw [payload_len]
  exact len'

theorem append_appends {h : Heap} {b : Buffer} (level kind : Int32) (p : List UInt8)
    (valid : b.Valid h) (complete : Complete (b.committed h)) (room : b.Appendable h p.length) :
    ∃ b' h', (b.append level kind p).run h = .ok b' h' ∧ Appended h b h' b' ⟨level, kind, p⟩ := by
  obtain ⟨region, written, used, region_len, ran, -, fits⟩ :=
    appendWith_appends level kind (Filler.writing p p.length) valid complete room
  rw [Filler.writing_run region_len, Except.ok.injEq, Prod.mk.injEq] at ran
  obtain ⟨rfl, rfl⟩ := ran
  obtain ⟨b', h', run, appended, -⟩ := fits (Nat.le_refl _)
  rw [List.take_length] at appended
  exact ⟨b', h', run, appended⟩

theorem appendFds_appends {h : Heap} {b : Buffer} (fds : List Int32) (valid : b.Valid h)
    (complete : Complete (b.committed h)) (room : b.Appendable h (4 * fds.length)) :
    ∃ b' h', (b.appendFds fds).run h = .ok b' h' ∧
      Appended h b h' b' ⟨socketLevel, rightsKind, fds.flatMap Word.encodeInt32⟩ ∧
      Message.isFds ⟨socketLevel, rightsKind, fds.flatMap Word.encodeInt32⟩ ∧
      Message.descriptors ⟨socketLevel, rightsKind, fds.flatMap Word.encodeInt32⟩ = fds := by
  rw [← length_flatMap_encodeInt32] at room
  obtain ⟨b', h', run, appended⟩ :=
    append_appends socketLevel rightsKind (fds.flatMap Word.encodeInt32) valid complete room
  exact ⟨b', h', run, appended, rfl, descriptors_flatMap_encodeInt32 _ _ fds⟩

theorem appended_of_ok {h h' : Heap} {b b' : Buffer} {level kind : Int32} {cap : Nat}
    {fill : Filler Empty} (valid : b.Valid h) (complete : Complete (b.committed h))
    (ran : (b.appendWith level kind cap fill).run h = .ok b' h') : ∃ m, Appended h b h' b' m := by
  obtain ⟨_, _, used, _, _, overrun, fits⟩ :=
    appendWith_appends level kind fill valid complete (appendable_of_ok ran)
  by_cases le : used ≤ cap
  · obtain ⟨b'', h'', run, appended, -⟩ := fits le
    rw [ran] at run
    cases run
    exact ⟨_, appended⟩
  · obtain ⟨h'', run⟩ := overrun (Nat.lt_of_not_le le)
    rw [ran] at run
    cases run

theorem extend_appends {ms : List Message} {h h' : Heap} {b b' : Buffer} (valid : b.Valid h) (complete : Complete (b.committed h))
    (ran : (b.extend ms).run h = .ok b' h') :
    b'.Valid h' ∧ Complete (b'.committed h') ∧
      messages (b'.committed h') = messages (b.committed h) ++ ms := by
  induction ms generalizing h b with
  | nil =>
    cases ran
    exact ⟨valid, complete, (List.append_nil _).symm⟩
  | cons m ms ih =>
    unfold extend at ran
    rw [List.foldlM_cons] at ran
    obtain ⟨b₁, h₁, first, rest⟩ := run_bind_ok ran
    have room := appendable_of_ok first
    obtain ⟨b₂, h₂, run, appended⟩ := append_appends m.level m.kind m.payload valid complete room
    rw [first] at run
    cases run
    obtain ⟨valid₁, -, -, -, complete₁, read₁⟩ := appended
    obtain ⟨valid', complete', read'⟩ := ih valid₁ complete₁ rest
    refine ⟨valid', complete', ?_⟩
    rw [read', read₁, List.append_assoc]
    rfl

theorem withCapacity_valid {h h' : Heap} {b : Buffer} {n : Nat}
    (made : (withCapacity n).run h = .ok b h') : b.Valid h' ∧ b.len = 0 := by
  have word : wordMax = 18446744073709551615 := rfl
  by_cases zero : n = 0
  · subst zero
    simp only [withCapacity, reserve, empty, if_pos] at made
    cases made
    exact ⟨empty_valid _, rfl⟩
  · obtain ⟨b', h'', s', -, run, stored, inside, -, -, len⟩ :=
      reserve_cells (b := empty) (h := h) (n := n) (empty_valid h).allocated
        (Or.inr (by simp [capacity, empty]; omega)) (Nat.pos_of_ne_zero zero)
    rw [withCapacity, run] at made
    cases made
    refine ⟨⟨fun s stored' => ?_, by rw [len]; exact Nat.zero_le _⟩, len⟩
    rw [show s = s' from Option.some.inj (stored'.symm.trans stored)]
    exact inside

theorem clear_valid {h : Heap} {b : Buffer} (valid : b.Valid h) :
    b.clear.Valid h ∧ b.clear.committed h = [] :=
  ⟨⟨valid.allocated, Nat.zero_le _⟩, committed_of_len_zero h rfl⟩

/-- Buffers made by the writing operations alone. -/
inductive Built : Heap → Buffer → Prop
  | empty (h : Heap) : Built h Buffer.empty
  | withCapacity {h h' : Heap} {b : Buffer} {n : Nat} (made : (Buffer.withCapacity n).run h = .ok b h') :
      Built h' b
  | clear {h : Heap} {b : Buffer} (valid : b.Valid h) : Built h b.clear
  | appendWith {h h' : Heap} {b b' : Buffer} {level kind : Int32} {cap : Nat} {fill : Filler Empty}
      (built : Built h b) (ran : (b.appendWith level kind cap fill).run h = .ok b' h') :
      Built h' b'
  | extend {h h' : Heap} {b b' : Buffer} {ms : List Message} (built : Built h b)
      (ran : (b.extend ms).run h = .ok b' h') : Built h' b'

theorem Built.append {h h' : Heap} {b b' : Buffer} {level kind : Int32} {p : List UInt8}
    (built : Built h b) (ran : (b.append level kind p).run h = .ok b' h') : Built h' b' :=
  .appendWith built ran

theorem Built.appendFds {h h' : Heap} {b b' : Buffer} {fds : List Int32} (built : Built h b)
    (ran : (b.appendFds fds).run h = .ok b' h') : Built h' b' :=
  .append built ran

theorem Built.ofMessages {h h' : Heap} {b : Buffer} {ms : List Message}
    (ran : (Buffer.ofMessages ms).run h = .ok b h') : Built h' b :=
  .extend (.empty h) ran

theorem Built.valid_complete {h : Heap} {b : Buffer} (built : Built h b) :
    b.Valid h ∧ Complete (b.committed h) := by
  induction built with
  | empty h =>
    refine ⟨empty_valid h, ?_⟩
    rw [committed_of_len_zero h rfl]
    exact complete_nil
  | withCapacity made =>
    obtain ⟨valid, zero⟩ := withCapacity_valid made
    refine ⟨valid, ?_⟩
    rw [committed_of_len_zero _ zero]
    exact complete_nil
  | clear valid =>
    obtain ⟨valid', none⟩ := clear_valid valid
    refine ⟨valid', ?_⟩
    rw [none]
    exact complete_nil
  | appendWith _ ran ih =>
    obtain ⟨m, valid', -, -, -, complete', -⟩ := appended_of_ok ih.1 ih.2 ran
    exact ⟨valid', complete'⟩
  | extend _ ran ih =>
    obtain ⟨valid', complete', -⟩ := extend_appends ih.1 ih.2 ran
    exact ⟨valid', complete'⟩

end Buffer

/-- **Appending keeps control bytes complete.** An append whose sums pass the length check reads
back as the old messages then the new one; any other stops at the overflow. -/
theorem appends_keep_complete :
    (∀ (h : Heap) (b : Buffer), b.Built h → Complete (b.committed h)) ∧
    (∀ bytes : List UInt8, Complete (bytes.take (recordsEnd bytes)) ∧
      messages (bytes.take (recordsEnd bytes)) = messages bytes) ∧
    (∀ (h : Heap) (b : Buffer) (level kind : Int32) (p : List UInt8), b.Valid h →
      Complete (b.committed h) → b.Appendable h p.length →
      ∃ b' h', (b.append level kind p).run h = .ok b' h' ∧ Appended h b h' b' ⟨level, kind, p⟩) ∧
    (∀ (h : Heap) (b : Buffer) (level kind : Int32) (cap : Nat) (fill : Filler Empty),
      b.Valid h → Complete (b.committed h) → b.Appendable h cap →
      ∃ region written used, region.length = cap ∧ fill.run region = .ok (written, used) ∧
        (used ≤ cap → ∃ b' h', (b.appendWith level kind cap fill).run h = .ok b' h' ∧
          Appended h b h' b' ⟨level, kind, written.take used⟩ ∧ (written.take used).length = used)) ∧
    (∀ (h : Heap) (b : Buffer) (level kind : Int32) (cap : Nat) (fill : Filler Empty),
      Buffer.appendRoom b.len cap = none →
        (b.appendWith level kind cap fill).run h = .error .lengthOverflow h) ∧
    (∀ (h : Heap) (b : Buffer) (fds : List Int32), b.Valid h → Complete (b.committed h) →
      b.Appendable h (4 * fds.length) →
      ∃ b' h', (b.appendFds fds).run h = .ok b' h' ∧
        Appended h b h' b' ⟨socketLevel, rightsKind, fds.flatMap Word.encodeInt32⟩ ∧
        Message.isFds ⟨socketLevel, rightsKind, fds.flatMap Word.encodeInt32⟩ ∧
        Message.descriptors ⟨socketLevel, rightsKind, fds.flatMap Word.encodeInt32⟩ = fds) := by
  refine ⟨fun h b built => built.valid_complete.2, fun bytes => ?_,
    fun h b level kind p => Buffer.append_appends level kind p,
    fun h b level kind cap fill valid complete room => ?_,
    fun _ _ _ _ _ _ refused => Buffer.appendWith_refused refused,
    fun h b fds => Buffer.appendFds_appends fds⟩
  · obtain ⟨same, complete⟩ := complete_take_recordsEnd bytes
    refine ⟨complete, ?_⟩
    rw [messages, messages, walk_eq_frames, walk_eq_frames, same]
  · obtain ⟨region, written, used, region_len, ran, -, fits⟩ :=
      Buffer.appendWith_appends level kind fill valid complete room
    exact ⟨region, written, used, region_len, ran, fits⟩

/-- A byte appended to the empty buffer. -/
theorem append_to_empty :
    ∃ b' h', (Buffer.empty.append 1 2 [7]).run {} = .ok b' h' ∧
      Appended {} Buffer.empty h' b' ⟨1, 2, [7]⟩ :=
  appends_keep_complete.2.2.1 {} Buffer.empty 1 2 [7] (Buffer.empty_valid {})
    (Buffer.Built.valid_complete (.empty {})).2 ⟨by decide, Or.inr (by decide)⟩

end SysBytes.Control
