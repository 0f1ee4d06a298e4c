import SysBytes.Proofs.Control.Append
import SysBytes.Proofs.Control.Sessions

/-!
Reading control bytes cut short, and reading them by index. A cut drops the records that do not
end by it and changes no other; the index loop reads exactly the records the iterator reads.
-/
namespace SysBytes.Control

open Store

/-! ### Bytes cut short -/

theorem frames_take (bytes : List UInt8) (k o : Nat) :
    frames (bytes.take k) o =
      (frames bytes o).takeWhile fun r => r.1 + lengthField bytes r.1 ≤ k := by
  have whole := List.take_append_drop k bytes
  fun_induction frames bytes o with
  | case1 o framed ih =>
    rw [List.takeWhile_cons]
    by_cases ends : o + lengthField bytes o ≤ k
    · -- the record lies inside the cut, which frames it with the same fields
      have inside : o + lengthField bytes o ≤ (bytes.take k).length := by
        rw [List.length_take]
        exact Nat.le_min.mpr ⟨ends, framed.2.2⟩
      have framed_cut : Framed (bytes.take k) o := by
        have framed' : Framed (bytes.take k ++ bytes.drop k) o := by rwa [whole]
        exact framed_of_append framed' (by rwa [whole])
      obtain ⟨-, same_length, same_message⟩ := framed_append (bytes.drop k) framed_cut
      rw [whole] at same_length same_message
      rw [frames_of_framed framed_cut, ← same_length, ← same_message, ih]
      dsimp only
      rw [if_pos (decide_eq_true ends)]
    · -- a record the cut framed would end by `k`
      have unframed : ¬ Framed (bytes.take k) o := by
        intro framed_cut
        obtain ⟨-, same_length, -⟩ := framed_append (bytes.drop k) framed_cut
        rw [whole] at same_length
        have within := framed_cut.2.2
        rw [← same_length, List.length_take] at within
        exact ends (Nat.le_trans within (Nat.min_le_left _ _))
      rw [frames_of_not_framed unframed]
      dsimp only
      rw [if_neg (by simpa using ends)]
  | case2 o unframed =>
    have unframed_cut : ¬ Framed (bytes.take k) o := by
      intro framed_cut
      have longer := (framed_append (bytes.drop k) framed_cut).1
      rw [whole] at longer
      exact unframed longer
    rw [frames_of_not_framed unframed_cut, List.takeWhile_nil]

namespace Buffer

theorem ofBytes_run (bytes : List UInt8) (h : Heap) :
    ∃ b h', (ofBytes bytes).run h = .ok b h' ∧ b.Valid h' ∧ b.committed h' = bytes ∧
      b.len = bytes.length := by
  by_cases none : bytes = []
  · subst none
    refine ⟨{ empty with len := 0 }, h, ?_, empty_valid h, rfl, rfl⟩
    simp [ofBytes, overwriteWith, prepareReceive, reserve, empty, modifyCells, heap, cells,
      Filler.run, Filler.writing, Word.overwrite]
  have positive : 0 < bytes.length := List.length_pos_iff.mpr none
  have word : wordMax = 18446744073709551615 := rfl
  -- a zeroed region of at least the length, owned alone
  obtain ⟨b1, h1, s1, -, run1, stored1, inside1, -, room1, -⟩ :=
    reserve_cells (b := { empty with len := 0 }) (h := h) (n := bytes.length)
      (fun _ stored => by cases stored) (Or.inr (by simp [capacity, empty]; omega)) positive
  obtain ⟨b2, h2, s2, run2, stored2, inside2, cells2, -⟩ := modifyCells_cells stored1 inside1 id
  have same2 : b2.cells h2 = b1.cells h1 := cells2
  rw [capacity_eq_length, ← same2] at room1
  have region : ((b2.cells h2).take bytes.length).length = bytes.length := by
    simp [List.length_take, room1]
  obtain ⟨b3, h3, s3, run3, stored3, inside3, cells3, -⟩ :=
    modifyCells_cells stored2 inside2 fun cells => Word.overwrite cells 0 bytes
  refine ⟨{ b3 with len := bytes.length }, h3, ?_, ⟨fun s stored => ?_, ?_⟩, ?_, rfl⟩
  · simp only [ofBytes, overwriteWith, prepareReceive, EStateM.run_bind, run1, run2, heap,
      EStateM.run_get, EStateM.run_pure, Filler.writing_run region, run3, Nat.lt_irrefl,
      if_false]
  · rw [show s = s3 from Option.some.inj (stored.symm.trans stored3)]
    exact inside3
  · rw [capacity_eq_length]
    show bytes.length ≤ (b3.cells h3).length
    rw [cells3, Word.length_overwrite]
    exact room1
  · rw [committed_eq_take]
    show (b3.cells h3).take bytes.length = bytes
    rw [cells3]
    exact Word.take_overwrite_zero room1

end Buffer

/-- **Cutting control bytes only drops trailing records.** The buffer made from the first `k` bytes
reads the leading records that end by `k`, and nothing else. -/
theorem cut_reads_leading_records (bytes : List UInt8) (k : Nat) (h : Heap) :
    ∃ full h₁ cut h₂, (Buffer.ofBytes bytes).run h = .ok full h₁ ∧
      (Buffer.ofBytes (bytes.take k)).run h = .ok cut h₂ ∧
      full.committed h₁ = bytes ∧ cut.committed h₂ = bytes.take k ∧
      walk (cut.committed h₂) =
        (walk (full.committed h₁)).takeWhile (fun r => r.1 + lengthField bytes r.1 ≤ k) ∧
      messages (cut.committed h₂) <+: messages (full.committed h₁) := by
  obtain ⟨full, h₁, run₁, -, committed₁, -⟩ := Buffer.ofBytes_run bytes h
  obtain ⟨cut, h₂, run₂, -, committed₂, -⟩ := Buffer.ofBytes_run (bytes.take k) h
  have leading : walk (cut.committed h₂) =
      (walk (full.committed h₁)).takeWhile (fun r => r.1 + lengthField bytes r.1 ≤ k) := by
    rw [committed₁, committed₂, walk_eq_frames, walk_eq_frames, frames_take]
  refine ⟨full, h₁, cut, h₂, run₁, run₂, committed₁, committed₂, leading, ?_⟩
  rw [messages, messages, leading]
  exact (List.takeWhile_prefix _).map Prod.snd

/-! ### Walking by index -/

theorem nextOffset_lands (bytes : List UInt8) (o len : Nat) :
    nextOffset bytes o len = bytes.length ∨ Framed bytes (nextOffset bytes o len) := by
  unfold nextOffset
  dsimp only
  split
  · exact .inl rfl
  · rename_i kept
    by_cases at_end : min (o + Word.roundUp8 len) bytes.length = bytes.length
    · exact .inl at_end
    · have before : min (o + Word.roundUp8 len) bytes.length < bytes.length :=
        Nat.lt_of_le_of_ne (Nat.min_le_right _ _) at_end
      have found : recordAt bytes (min (o + Word.roundUp8 len) bytes.length) ≠ none := by
        simpa [before] using kept
      exact .inr ((framed_iff_isSome _ _).mpr (Option.isSome_iff_ne_none.mpr found))

theorem startIndex_lands (bytes : List UInt8) :
    startIndex bytes = bytes.length ∨ Framed bytes (startIndex bytes) := by
  unfold startIndex
  split
  · rename_i first
    exact .inr ((framed_iff_isSome bytes 0).mpr first)
  · exact .inl rfl

namespace Buffer

theorem messageAt_run (b : Buffer) (i : Nat) (h : Heap) :
    (b.messageAt i).run h =
      match recordAt (b.committed h) i with
      | some (_, m) => .ok m h
      | none => .error (.noRecord i) h := by
  unfold messageAt
  simp only [EStateM.run_bind, heap, EStateM.run_get]
  cases recordAt (b.committed h) i with
  | none => rfl
  | some r =>
    obtain ⟨len, m⟩ := r
    rfl

theorem indexAfter_run (b : Buffer) (i : Nat) (h : Heap) :
    (b.indexAfter i).run h =
      match recordAt (b.committed h) i with
      | some (len, _) => .ok (nextOffset (b.committed h) i len)
          { h with events := h.events ++ (stopNote? (b.committed h) i len).toList }
      | none => .error (.noRecord i) h := by
  unfold indexAfter
  simp only [EStateM.run_bind, heap, EStateM.run_get]
  cases recordAt (b.committed h) i with
  | none => rfl
  | some r =>
    obtain ⟨len, m⟩ := r
    simp only [EStateM.run_bind, Session.run_notes, EStateM.run_pure]

theorem committed_events (b : Buffer) (h : Heap) (events : List Log.Event) :
    b.committed { h with events := events } = b.committed h := rfl

end Buffer

/-- The index loop over a buffer from index `i`, reading the message at each index until the end
index. -/
inductive IndexWalk (b : Buffer) : Heap → Nat → List Nat → List Message → Heap → Prop
  | stop {h : Heap} {i : Nat} (at_end : i = b.len) : IndexWalk b h i [] [] h
  | step {h h₁ h₂ h₃ : Heap} {i j : Nat} {m : Message} {is : List Nat} {ms : List Message}
      (inside : i ≠ b.len) (read : (b.messageAt i).run h = .ok m h₁)
      (moved : (b.indexAfter i).run h₁ = .ok j h₂) (rest : IndexWalk b h₂ j is ms h₃) :
      IndexWalk b h i (i :: is) (m :: ms) h₃

namespace IndexWalk

variable {b : Buffer}

theorem determined {h h' h'' : Heap} {i : Nat} {is is' : List Nat} {ms ms' : List Message}
    (first : IndexWalk b h i is ms h') (second : IndexWalk b h i is' ms' h'') :
    is = is' ∧ ms = ms' := by
  induction first generalizing is' ms' h'' with
  | stop at_end =>
    cases second with
    | stop => exact ⟨rfl, rfl⟩
    | step inside => exact absurd at_end inside
  | step inside read moved _ ih =>
    cases second with
    | stop at_end => exact absurd at_end inside
    | step _ read' moved' rest' =>
      rw [read, EStateM.Result.ok.injEq] at read'
      obtain ⟨rfl, rfl⟩ := read'
      rw [moved, EStateM.Result.ok.injEq] at moved'
      obtain ⟨rfl, rfl⟩ := moved'
      obtain ⟨rfl, rfl⟩ := ih rest'
      exact ⟨rfl, rfl⟩

theorem of_walkFrom {bytes : List UInt8} (fits : b.len = bytes.length) {h : Heap}
    (committed : b.committed h = bytes) {i : Nat} (lands : i = bytes.length ∨ Framed bytes i) :
    ∃ h', IndexWalk b h i ((walkFrom bytes i).map Prod.fst)
      ((walkFrom bytes i).map Prod.snd) h' := by
  fun_induction walkFrom bytes i generalizing h with
  | case1 i found =>
    have at_end : i = bytes.length := by
      refine lands.resolve_right fun framed => ?_
      rw [recordAt_of_framed framed] at found
      cases found
    exact ⟨h, .stop (at_end.trans fits.symm)⟩
  | case2 i len m found ih =>
    have framed : Framed bytes i := (framed_iff_isSome bytes i).mpr (by rw [found]; rfl)
    have inside : i ≠ b.len := by
      have header := framed.1
      simp only [headerSize] at header
      omega
    have read : (b.messageAt i).run h = .ok m h := by
      rw [Buffer.messageAt_run, committed, found]
    have moved : (b.indexAfter i).run h = .ok (nextOffset bytes i len)
        { h with events := h.events ++ (stopNote? bytes i len).toList } := by
      rw [Buffer.indexAfter_run, committed, found]
    obtain ⟨h', rest⟩ := ih ((Buffer.committed_events b h _).trans committed)
      (nextOffset_lands bytes i len)
    exact ⟨h', .step inside read moved rest⟩

end IndexWalk

/-- **Walking by index reads the iterator's messages.** On any valid buffer the index loop ends
without a fault, visits the walk's offsets and reads the iterator's messages. -/
theorem index_walk_reads_messages {h : Heap} {b : Buffer} (valid : b.Valid h) :
    (∃ h', IndexWalk b h (startIndex (b.committed h)) (indices (b.committed h))
        (messages (b.committed h)) h') ∧
    (∀ is ms h', IndexWalk b h (startIndex (b.committed h)) is ms h' →
        is = indices (b.committed h) ∧ ms = messages (b.committed h)) ∧
    (∀ i ∈ indices (b.committed h), (recordAt (b.committed h) i).isSome ∧
        ∃ j h', (b.indexAfter i).run h = .ok j h' ∧ i < j) ∧
    (∀ i, (∃ f h', (b.messageAt i).run h = .error f h') ↔
        recordAt (b.committed h) i = none) ∧
    (∀ i, (∃ f h', (b.indexAfter i).run h = .error f h') ↔
        recordAt (b.committed h) i = none) := by
  have fits : b.len = (b.committed h).length := (Buffer.length_committed valid).symm
  obtain ⟨h', walked⟩ := IndexWalk.of_walkFrom fits rfl (startIndex_lands (b.committed h))
  refine ⟨⟨h', walked⟩, fun is ms h'' run => ?_, ?_, fun i => ?_, fun i => ?_⟩
  · obtain ⟨same_indices, same_messages⟩ := walked.determined run
    exact ⟨same_indices.symm, same_messages.symm⟩
  · intro i mem
    obtain ⟨r, mem_walk, rfl⟩ := List.mem_map.mp mem
    obtain ⟨framed, -⟩ := framed_of_mem_frames (walk_eq_frames _ ▸ mem_walk)
    have found := recordAt_of_framed framed
    refine ⟨by rw [found]; rfl, _, _, by rw [Buffer.indexAfter_run, found], ?_⟩
    exact lt_nextOffset framed.2.1 framed.2.2
  · rw [Buffer.messageAt_run]
    cases recordAt (b.committed h) i with
    | none => exact ⟨fun _ => rfl, fun _ => ⟨_, _, rfl⟩⟩
    | some r =>
      obtain ⟨len, m⟩ := r
      constructor
      · rintro ⟨_, _, failed⟩
        cases failed
      · intro found
        cases found
  · rw [Buffer.indexAfter_run]
    cases recordAt (b.committed h) i with
    | none => exact ⟨fun _ => rfl, fun _ => ⟨_, _, rfl⟩⟩
    | some r =>
      obtain ⟨len, m⟩ := r
      constructor
      · rintro ⟨_, _, failed⟩
        cases failed
      · intro found
        cases found

/-- The index loop over a buffer holding one record with an empty payload. -/
theorem index_walk_one_record :
    ∃ (b : Buffer) (h : Heap), b.Valid h ∧
      b.committed h = [16, 0, 0, 0, 0, 0, 0, 0, 1, 0, 0, 0, 1, 0, 0, 0] ∧
      ∃ h', IndexWalk b h (startIndex (b.committed h)) (indices (b.committed h))
        (messages (b.committed h)) h' := by
  obtain ⟨b, h, -, valid, committed, -⟩ :=
    Buffer.ofBytes_run [16, 0, 0, 0, 0, 0, 0, 0, 1, 0, 0, 0, 1, 0, 0, 0] {}
  exact ⟨b, h, valid, committed, (index_walk_reads_messages valid).1⟩

end SysBytes.Control
