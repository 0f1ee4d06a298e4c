import SysBytes.Proofs.Control.Bounds
import SysBytes.Proofs.Store.Growth

/-!
Refilling a control buffer. Every record takes a multiple of 8 bytes, so from a length on a word
each append starts right at the end; while the spaces add up to at most the capacity every
reserve stays within the region, and a cleared buffer refills without growing.
-/
namespace SysBytes.Control

open Store

/-- The bytes the records of `ms` take, padding included. -/
def framedSize (ms : List Message) : Nat := (ms.map fun m => space m.payload.length).sum

@[simp] theorem framedSize_nil : framedSize [] = 0 := rfl

@[simp] theorem framedSize_cons (m : Message) (ms : List Message) :
    framedSize (m :: ms) = space m.payload.length + framedSize ms := by
  simp [framedSize]

theorem space_aligned (n : Nat) : space n % 8 = 0 := by
  unfold space headerSize Word.roundUp8
  omega

theorem add_space_aligned {n : Nat} (aligned : n % 8 = 0) (k : Nat) : (n + space k) % 8 = 0 := by
  rw [Nat.add_mod, aligned, space_aligned]

theorem roundUp8_of_aligned {n : Nat} (aligned : n % 8 = 0) : Word.roundUp8 n = n := by
  unfold Word.roundUp8
  omega

namespace Buffer

variable {h h' : Heap} {b b' : Buffer}

/-! ### Appending within the capacity -/

theorem reserve_within (sized : Sized h b) {n : Nat} (room : n ≤ b.capacity h) :
    Ends (b.reserve n) h
      (fun b' h' => Sized h' b' ∧ b'.len = b.len ∧ b'.cells h' = b.cells h) fun _ => False := by
  cases stored : b.store with
  | none =>
    -- with no region the capacity is 0, so nothing is asked for
    have zero : n = 0 := Nat.le_zero.mp (capacity_of_none stored ▸ room)
    have ran : (b.reserve n).run h = .ok b h := by simp [reserve, stored, zero]
    exact Ends.of_ok ran ⟨sized, rfl, rfl⟩
  | some s =>
    have within : n ≤ (s.cells h).length := by
      rw [capacity_of_some stored] at room
      exact room
    have rule := reserve_grows stored n h
    cases ran : (b.reserve n).run h with
    | ok b₁ h₁ =>
      rw [ran] at rule
      obtain ⟨sized₁, len₁, -⟩ := (reserve_ends sized n).ok ran
      have kept : b₁.cells h₁ = s.cells h := rule.1 within
      refine Ends.of_ok ran ⟨sized₁, len₁, ?_⟩
      rw [kept]
      simp [cells, stored]
    | error f h₁ =>
      rw [ran] at rule
      exact absurd within (Nat.not_le.mpr rule.1)

theorem appendWith_within (sized : Sized h b) (level kind : Int32) {cap : Nat}
    (fill : Filler Empty) (room : Word.roundUp8 b.len + space cap ≤ b.capacity h) :
    Ends (b.appendWith level kind cap fill) h
      (fun b' h' => Sized h' b' ∧ b'.capacity h' = b.capacity h)
      fun f => LengthOverflow b cap f ∨
        ∃ used, Overran fill cap used ∧ f = .initializerOverrun used cap := by
  refine (appendWith_reserved sized level kind cap fill).imp (fun b' h' facts => ?_)
    fun f stops => ?_
  · obtain ⟨sized', b₁, h₁, reserved, same⟩ := facts
    -- the room was within the capacity, so the reserve kept the region's bytes
    obtain ⟨-, -, kept⟩ := (reserve_within sized room).ok reserved
    refine ⟨sized', ?_⟩
    rw [same, capacity_eq_length, capacity_eq_length, kept]
  · exact stops.imp_right fun rest =>
      rest.resolve_right fun grows => absurd room (Nat.not_le.mpr grows.2.1)

theorem append_within (sized : Sized h b) (level kind : Int32) (p : List UInt8)
    (passed : appendRoom b.len p.length ≠ none)
    (room : Word.roundUp8 b.len + space p.length ≤ b.capacity h) :
    Ends (b.append level kind p) h (fun b' h' => Sized h' b' ∧ b'.capacity h' = b.capacity h)
      fun _ => False :=
  (appendWith_within sized level kind _ room).imp (fun _ _ facts => facts) fun _ stops =>
    stops.elim (fun refused => passed refused.2) fun ⟨_, beyond, _⟩ =>
      writing_never_overruns p _ beyond

theorem appendWith_aligned {level kind : Int32} {cap : Nat} {fill : Filler Empty}
    (valid : b.Valid h) (complete : Complete (b.committed h))
    (ran : (b.appendWith level kind cap fill).run h = .ok b' h') : b'.len % 8 = 0 := by
  obtain ⟨m, -, len', -⟩ := appended_of_ok valid complete ran
  have start : Word.roundUp8 b.len % 8 = 0 := by
    unfold Word.roundUp8
    omega
  rw [len']
  exact add_space_aligned start _

/-! ### Refills -/

/-- The length checks of appending `ms` one by one from the committed length `len` all pass. -/
def Fits : Nat → List Message → Prop
  | _, [] => True
  | len, m :: ms => appendRoom len m.payload.length ≠ none ∧ Fits (len + space m.payload.length) ms

theorem fits_of_le {ms : List Message} {len : Nat} (aligned : len % 8 = 0)
    (bound : len + framedSize ms + 8 ≤ wordMax) : Fits len ms := by
  induction ms generalizing len with
  | nil => trivial
  | cons m ms ih =>
    rw [framedSize_cons] at bound
    have wide : m.payload.length ≤ Word.roundUp8 m.payload.length := by
      unfold Word.roundUp8
      omega
    refine ⟨appendRoom_ne_none_iff.mpr ?_, ih (add_space_aligned aligned _) (by omega)⟩
    rw [roundUp8_of_aligned aligned]
    simp only [space, headerSize] at bound ⊢
    omega

theorem append_refills (sized : Sized h b) (complete : Complete (b.committed h))
    (aligned : b.len % 8 = 0) (m : Message) (passed : appendRoom b.len m.payload.length ≠ none)
    (room : b.len + space m.payload.length ≤ b.capacity h) :
    ∃ b' h', (b.append m.level m.kind m.payload).run h = .ok b' h' ∧ Sized h' b' ∧
      b'.capacity h' = b.capacity h ∧ b'.len = b.len + space m.payload.length ∧
      Complete (b'.committed h') ∧ messages (b'.committed h') = messages (b.committed h) ++ [m] := by
  have start : Word.roundUp8 b.len = b.len := roundUp8_of_aligned aligned
  have room' : Word.roundUp8 b.len + space m.payload.length ≤ b.capacity h := by
    rw [start]
    exact room
  obtain ⟨b', h', ran, sized', same⟩ :=
    (append_within sized m.level m.kind m.payload passed room').exists_ok
  obtain ⟨b'', h'', ran', _, len', -, -, complete', read⟩ :=
    append_appends m.level m.kind m.payload sized.valid complete ⟨passed, Or.inl room'⟩
  rw [ran, EStateM.Result.ok.injEq] at ran'
  obtain ⟨rfl, rfl⟩ := ran'
  refine ⟨b', h', ran, sized', same, ?_, complete', read⟩
  rw [len', start]

theorem extend_within {ms : List Message} (fits : Fits b.len ms) (sized : Sized h b)
    (complete : Complete (b.committed h)) (aligned : b.len % 8 = 0)
    (room : b.len + framedSize ms ≤ b.capacity h) :
    ∃ b' h', (b.extend ms).run h = .ok b' h' ∧ Sized h' b' ∧ b'.capacity h' = b.capacity h ∧
      b'.len = b.len + framedSize ms ∧ Complete (b'.committed h') ∧
      messages (b'.committed h') = messages (b.committed h) ++ ms := by
  induction ms generalizing h b with
  | nil => exact ⟨b, h, rfl, sized, rfl, by simp, complete, (List.append_nil _).symm⟩
  | cons m ms ih =>
    rw [framedSize_cons] at room
    obtain ⟨b₁, h₁, ran₁, sized₁, same₁, len₁, complete₁, read₁⟩ :=
      append_refills sized complete aligned m fits.1 (by omega)
    have aligned₁ : b₁.len % 8 = 0 := by
      rw [len₁]
      exact add_space_aligned aligned _
    have room₁ : b₁.len + framedSize ms ≤ b₁.capacity h₁ := by
      rw [len₁, same₁]
      omega
    obtain ⟨b', h', ran, sized', same', len', complete', read'⟩ :=
      ih (len₁ ▸ fits.2) sized₁ complete₁ aligned₁ room₁
    refine ⟨b', h', ?_, sized', same'.trans same₁, ?_, complete', ?_⟩
    · unfold extend
      rw [List.foldlM_cons, EStateM.run_bind, ran₁]
      exact ran
    · rw [len', len₁, framedSize_cons]
      omega
    · rw [read', read₁, List.append_assoc]
      rfl

theorem extend_len {ms : List Message} (sized : Sized h b) (complete : Complete (b.committed h))
    (aligned : b.len % 8 = 0) (ran : (b.extend ms).run h = .ok b' h') :
    Sized h' b' ∧ Complete (b'.committed h') ∧ b'.len = b.len + framedSize ms ∧ Fits b.len ms := by
  induction ms generalizing h b with
  | nil =>
    cases ran
    exact ⟨sized, complete, by simp, trivial⟩
  | cons m ms ih =>
    unfold extend at ran
    rw [List.foldlM_cons] at ran
    obtain ⟨b₁, h₁, first, rest⟩ := run_bind_ok ran
    have sized₁ := (append_ends sized m.level m.kind m.payload).ok first
    have room := appendable_of_ok first
    obtain ⟨b₂, h₂, run, _, len₁, -, -, complete₁, -⟩ :=
      append_appends m.level m.kind m.payload sized.valid complete room
    rw [first] at run
    cases run
    have grown : b₁.len = b.len + space m.payload.length := by
      rw [len₁, roundUp8_of_aligned aligned]
    have aligned₁ : b₁.len % 8 = 0 := by
      rw [grown]
      exact add_space_aligned aligned _
    obtain ⟨sized', complete', len', fits'⟩ := ih sized₁ complete₁ aligned₁ rest
    refine ⟨sized', complete', ?_, room.1, grown ▸ fits'⟩
    rw [len', grown, framedSize_cons]
    omega

theorem clear_extend {ms : List Message} (sized : Sized h b) (fits : Fits 0 ms)
    (room : framedSize ms ≤ b.capacity h) :
    ∃ b' h', (b.clear.extend ms).run h = .ok b' h' ∧ Sized h' b' ∧
      b'.capacity h' = b.capacity h ∧ b'.len = framedSize ms ∧ messages (b'.committed h') = ms := by
  have cleared : Sized h b.clear := sized.withLen (Nat.zero_le _)
  have nothing : b.clear.committed h = [] := committed_of_len_zero h rfl
  have complete : Complete (b.clear.committed h) := nothing ▸ complete_nil
  have room' : b.clear.len + framedSize ms ≤ b.clear.capacity h := by
    show 0 + framedSize ms ≤ b.capacity h
    rw [Nat.zero_add]
    exact room
  obtain ⟨b', h', ran, sized', same, len', -, read⟩ :=
    extend_within fits cleared complete rfl room'
  refine ⟨b', h', ran, sized', same, len'.trans (Nat.zero_add _), ?_⟩
  rw [read, nothing, messages_nil, List.nil_append]

theorem ofMessages_len {ms : List Message} (made : (ofMessages ms).run h = .ok b h') :
    Sized h' b ∧ framedSize ms ≤ b.capacity h' ∧ Fits 0 ms := by
  have empty_complete : Complete (empty.committed h) := by
    rw [committed_of_len_zero h rfl]
    exact complete_nil
  obtain ⟨sized, -, len, fits⟩ := extend_len (Sized.empty h) empty_complete rfl made
  refine ⟨sized, ?_, fits⟩
  have within := sized.valid.within
  rw [len] at within
  simpa [empty] using within

end Buffer

open Buffer

/-- **A cleared buffer refills without growing**, for every sized buffer of fewer than `2 ^ 63`
bytes and messages that fit its capacity. -/
theorem cleared_refills_keep_capacity :
    (∀ (h : Heap) (b : Buffer) (ms : List Message), Sized h b →
      b.capacity h < Nat.pow 2 63 → framedSize ms ≤ b.capacity h →
      ∃ b' h', (b.clear.extend ms).run h = .ok b' h' ∧ b'.capacity h' = b.capacity h ∧
        b'.len = framedSize ms ∧ messages (b'.committed h') = ms) ∧
    (∀ (h h₁ : Heap) (b : Buffer) (ms : List Message), (ofMessages ms).run h = .ok b h₁ →
      framedSize ms ≤ b.capacity h₁ ∧ messages (b.clear.committed h₁) = [] ∧
      ∃ b' h', (b.clear.extend ms).run h₁ = .ok b' h' ∧ b'.capacity h' = b.capacity h₁ ∧
        messages (b'.committed h') = ms) ∧
    (∀ (h : Heap) (b : Buffer) (n : Nat), Sized h b → n ≤ b.capacity h →
      ∃ b' h', (b.reserve n).run h = .ok b' h' ∧ b'.cells h' = b.cells h ∧ b'.len = b.len) ∧
    (∀ (h h' : Heap) (b b' : Buffer) (level kind : Int32) (cap : Nat) (fill : Filler Empty),
      b.Valid h → Complete (b.committed h) →
      (b.appendWith level kind cap fill).run h = .ok b' h' → b'.len % 8 = 0) := by
  refine ⟨fun h b ms sized allocatable room => ?_, fun h h₁ b ms made => ?_,
    fun h b n sized room => ?_, fun _ _ _ _ _ _ _ _ valid complete ran =>
    appendWith_aligned valid complete ran⟩
  · -- records within an allocatable region pass every length check
    have word : wordMax = 18446744073709551615 := rfl
    have top : Nat.pow 2 63 = 9223372036854775808 := rfl
    have fits : Fits 0 ms := fits_of_le rfl (by omega)
    obtain ⟨b', h', ran, -, same, len, read⟩ := clear_extend sized fits room
    exact ⟨b', h', ran, same, len, read⟩
  · obtain ⟨sized, room, fits⟩ := ofMessages_len made
    obtain ⟨b', h', ran, -, same, -, read⟩ := clear_extend sized fits room
    refine ⟨room, ?_, b', h', ran, same, read⟩
    rw [committed_of_len_zero h₁ rfl, messages_nil]
  · obtain ⟨b', h', ran, -, len, kept⟩ := (reserve_within sized room).exists_ok
    exact ⟨b', h', ran, kept, len⟩

/-- A buffer with a 24-byte region, cleared and refilled with one message of one byte, keeps its
24 bytes and reads back the message. -/
theorem one_record_refill_keeps_region :
    ∃ b' h', ((⟨some ⟨0⟩, 24⟩ : Buffer).clear.extend [⟨1, 2, [7]⟩]).run
        ⟨[⟨List.replicate 24 0, 1⟩], []⟩ = .ok b' h' ∧
      b'.capacity h' = (⟨some ⟨0⟩, 24⟩ : Buffer).capacity ⟨[⟨List.replicate 24 0, 1⟩], []⟩ ∧
      b'.len = framedSize [⟨1, 2, [7]⟩] ∧ messages (b'.committed h') = [⟨1, 2, [7]⟩] :=
  cleared_refills_keep_capacity.1 _ _ _
    (Sized.of_some rfl (by decide) (by decide) (by decide) (by decide)) (by decide) (by decide)

end SysBytes.Control
