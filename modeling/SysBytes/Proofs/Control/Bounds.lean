import SysBytes.Proofs.Control.Reading

/-!
Control buffers stay inside their regions. Each operation is described once by how its run may
end, with the buffer it leaves or the faults it may stop at; from that, every buffer reached by
any sequence of operations commits at most its capacity, a multiple of 8.
-/
namespace SysBytes

namespace Store

/-- How a run from `h` may end: with a result and a heap satisfying `P`, or at a fault satisfying
`F`. -/
def Ends {α : Type} (x : HeapM α) (h : Heap) (P : α → Heap → Prop) (F : Fault → Prop) : Prop :=
  match x.run h with
  | .ok a h' => P a h'
  | .error f _ => F f

namespace Ends

variable {α β : Type} {x : HeapM α} {h h' : Heap} {P : α → Heap → Prop} {Q : β → Heap → Prop}
  {F G : Fault → Prop}

theorem of_ok {a : α} (ran : x.run h = .ok a h') (holds : P a h') : Ends x h P F := by
  unfold Ends
  rw [ran]
  exact holds

theorem of_error {f : Fault} (ran : x.run h = .error f h') (stops : F f) : Ends x h P F := by
  unfold Ends
  rw [ran]
  exact stops

theorem ok (ends : Ends x h P F) {a : α} (ran : x.run h = .ok a h') : P a h' := by
  unfold Ends at ends
  rw [ran] at ends
  exact ends

theorem error (ends : Ends x h P F) {f : Fault} (ran : x.run h = .error f h') : F f := by
  unfold Ends at ends
  rw [ran] at ends
  exact ends

theorem of_pure {a : α} (holds : P a h) : Ends (pure a) h P F := holds

theorem fail_bind {e : Fault} {f : α → HeapM β} (stops : F e) : Ends (fail e >>= f) h Q F := stops

theorem bind_heap {f : Heap → HeapM β} (rest : Ends (f h) h Q F) : Ends (heap >>= f) h Q F := rest

theorem bind {f : α → HeapM β} (first : Ends x h P F) (rest : ∀ a h₁, P a h₁ → Ends (f a) h₁ Q F) :
    Ends (x >>= f) h Q F := by
  unfold Ends at first ⊢
  rw [EStateM.run_bind]
  cases ran : x.run h with
  | ok a h₁ =>
    rw [ran] at first
    exact rest a h₁ first
  | error e h₁ =>
    rw [ran] at first
    exact first

theorem imp {R : α → Heap → Prop} (ends : Ends x h P F) (weaken : ∀ a h', P a h' → R a h')
    (widen : ∀ f, F f → G f) : Ends x h R G := by
  unfold Ends at ends ⊢
  cases ran : x.run h with
  | ok a h₁ =>
    rw [ran] at ends
    exact weaken a h₁ ends
  | error e h₁ =>
    rw [ran] at ends
    exact widen e ends

theorem exists_ok (ends : Ends x h P fun _ => False) : ∃ a h', x.run h = .ok a h' ∧ P a h' := by
  unfold Ends at ends
  cases ran : x.run h with
  | ok a h₁ =>
    rw [ran] at ends
    exact ⟨a, h₁, rfl, ends⟩
  | error e h₁ =>
    rw [ran] at ends
    exact ends.elim

theorem of_run_eq {y : HeapM α} (same : x.run h = y.run h) (ends : Ends y h P F) :
    Ends x h P F := by
  unfold Ends at ends ⊢
  rw [same]
  exact ends

theorem with_run (ends : Ends x h P F) :
    Ends x h (fun a h' => x.run h = .ok a h' ∧ P a h') F := by
  unfold Ends at ends ⊢
  cases ran : x.run h with
  | ok a h₁ =>
    rw [ran] at ends
    exact ⟨rfl, ends⟩
  | error e h₁ =>
    rw [ran] at ends
    exact ends

end Ends

end Store

namespace Control

open Store

namespace Buffer

variable {h h' : Heap} {b : Buffer}

theorem capacity_of_some {s : CowStore} (stored : b.store = some s) : b.capacity h = s.capacity h := by
  simp [capacity, stored]

theorem capacity_of_none (stored : b.store = none) : b.capacity h = 0 := by
  simp [capacity, stored]

/-- A buffer whose region, if any, is allocated and holds a positive multiple of 8 bytes, at least
its length. -/
structure Sized (h : Heap) (b : Buffer) : Prop where
  valid : b.Valid h
  eights : b.capacity h % 8 = 0
  positive : ∀ s, b.store = some s → 0 < s.capacity h

namespace Sized

theorem empty (h : Heap) : Sized h empty := ⟨empty_valid h, rfl, fun _ stored => by cases stored⟩

theorem capacity_eq_zero (sized : Sized h b) : b.capacity h = 0 ↔ b.store = none := by
  cases stored : b.store with
  | none => simp [capacity_of_none stored]
  | some s =>
    rw [capacity_of_some stored]
    simpa using Nat.pos_iff_ne_zero.mp (sized.positive s stored)

theorem of_some {s : CowStore} (stored : b.store = some s) (inside : s.id < h.regions.length)
    (within : b.len ≤ s.capacity h) (eights : s.capacity h % 8 = 0) (positive : 0 < s.capacity h) :
    Sized h b := by
  have only : ∀ t, b.store = some t → t = s := fun t stored_t =>
    Option.some.inj (stored_t.symm.trans stored)
  refine ⟨⟨fun t stored_t => only t stored_t ▸ inside, ?_⟩, ?_, fun t stored_t => only t stored_t ▸ positive⟩
  · rw [capacity_of_some stored]
    exact within
  · rw [capacity_of_some stored]
    exact eights

theorem withLen (sized : Sized h b) {n : Nat} (room : n ≤ b.capacity h) :
    Sized h { b with len := n } :=
  ⟨⟨sized.valid.allocated, room⟩, sized.eights, sized.positive⟩

end Sized

def GrowthOverflow (h : Heap) (b : Buffer) (n : Nat) (f : Fault) : Prop :=
  f = .capacityOverflow ∧ b.capacity h < n ∧ wordMax < b.capacity h * 7 + 2

theorem GrowthOverflow.huge {n : Nat} {f : Fault} (stops : GrowthOverflow h b n f) :
    Nat.pow 2 61 < b.capacity h := by
  have huge := stops.2.2
  have word : wordMax = 18446744073709551615 := rfl
  have bound : Nat.pow 2 61 = 2305843009213693952 := rfl
  rw [bound]
  omega

theorem not_growthOverflow_empty {n : Nat} {f : Fault} : ¬ GrowthOverflow h empty n f := by
  rintro ⟨-, -, huge⟩
  have nothing : empty.capacity h = 0 := rfl
  rw [nothing] at huge
  exact absurd huge (by decide)

def Overran (fill : Filler Empty) (cap used : Nat) : Prop :=
  cap < used ∧ ∃ region written, region.length = cap ∧ fill.run region = .ok (written, used)

theorem writing_never_overruns (p : List UInt8) (used : Nat) :
    ¬ Overran (Filler.writing p p.length) p.length used := by
  rintro ⟨beyond, region, written, region_len, ran⟩
  rw [Filler.writing_run region_len, Except.ok.injEq, Prod.mk.injEq] at ran
  omega

/-- Every range an append after `len` committed bytes writes lies inside a region of `room` bytes.
-/
def AppendFits (len cap room : Nat) : Prop :=
  len ≤ Word.roundUp8 len ∧ Word.roundUp8 len + headerSize + cap ≤ room ∧
    ∀ used ≤ cap, Word.roundUp8 len + headerSize + used ≤ Word.roundUp8 len + space used ∧
      Word.roundUp8 len + space used ≤ room

theorem appendFits_of_le {len cap room : Nat} (within : Word.roundUp8 len + space cap ≤ room) :
    AppendFits len cap room := by
  simp only [AppendFits, space, headerSize] at within ⊢
  unfold Word.roundUp8 at within ⊢
  exact ⟨by omega, by omega, fun used le => ⟨by omega, by omega⟩⟩

/-! ### One operation at a time -/

theorem reserve_ends (sized : Sized h b) (n : Nat) :
    Ends (b.reserve n) h (fun b' h' => Sized h' b' ∧ b'.len = b.len ∧ n ≤ b'.capacity h')
      (GrowthOverflow h b n) := by
  cases stored : b.store with
  | none =>
    have unused : b.len = 0 := Nat.le_zero.mp (capacity_of_none stored ▸ sized.valid.within)
    by_cases zero : n = 0
    · -- nothing is asked for, so no region is made
      have ran : (b.reserve n).run h = .ok b h := by simp [reserve, stored, zero]
      exact Ends.of_ok ran ⟨sized, rfl, by omega⟩
    · obtain ⟨s', h', run, zeros, inside⟩ := CowStore.create_cells (h := h) (Nat.pos_of_ne_zero zero)
      have ran : (b.reserve n).run h = .ok { b with store := some s' } h' := by
        simp [reserve, stored, zero, run]
      have cap : s'.capacity h' = Word.roundUp8 n := by
        rw [CowStore.capacity, zeros, List.length_replicate]
      have rounded : n ≤ Word.roundUp8 n ∧ Word.roundUp8 n % 8 = 0 := by
        unfold Word.roundUp8
        omega
      have room : n ≤ Word.roundUp8 n := rounded.1
      refine Ends.of_ok ran ⟨Sized.of_some rfl inside ?_ (cap ▸ rounded.2) (by omega), rfl, ?_⟩
      · show b.len ≤ s'.capacity h'
        rw [unused]
        exact Nat.zero_le _
      · rw [capacity_of_some rfl, cap]
        exact room
  | some s =>
    have cap : b.capacity h = s.capacity h := capacity_of_some stored
    by_cases fits : n ≤ s.capacity h ∨ s.capacity h * 7 + 2 ≤ wordMax
    · obtain ⟨s', h', run, grown, inside⟩ :=
        CowStore.reserve_reserved (sized.valid.allocated s stored) fits
      have ran : (b.reserve n).run h = .ok { b with store := some s' } h' := by
        simp [reserve, stored, run]
      have eights : (s.cells h).length % 8 = 0 := by
        show s.capacity h % 8 = 0
        rw [← cap]
        exact sized.eights
      -- the region keeps its bytes, so it stays positive and holds the committed ones
      obtain ⟨kept, room, eights'⟩ := CowStore.reservedCells_aligned eights n
      have cap' : s'.capacity h' = (CowStore.reservedCells (s.cells h) n).length := by
        rw [CowStore.capacity, grown]
      have within : b.len ≤ s.capacity h := cap ▸ sized.valid.within
      have positive : 0 < s.capacity h := sized.positive s stored
      refine Ends.of_ok ran ⟨Sized.of_some rfl inside (cap' ▸ within.trans kept) (cap' ▸ eights')
        (cap' ▸ Nat.lt_of_lt_of_le positive kept), rfl, ?_⟩
      rw [capacity_of_some rfl, cap']
      exact room
    · -- the region must grow and its scaled size does not fit a word
      rw [not_or, Nat.not_le, Nat.not_le] at fits
      have ran : (b.reserve n).run h = .error .capacityOverflow h := by
        simp [reserve, stored, CowStore.reserve_overflow fits.1 fits.2]
      exact Ends.of_error ran ⟨rfl, cap ▸ fits.1, cap ▸ fits.2⟩

theorem modifyCells_ends {F : Fault → Prop} (sized : Sized h b) {edit : List UInt8 → List UInt8}
    (keeps : ∀ cells, (edit cells).length = cells.length) :
    Ends (b.modifyCells edit) h
      (fun b' h' => Sized h' b' ∧ b'.len = b.len ∧ b'.cells h' = edit (b.cells h) ∧
        b'.capacity h' = b.capacity h) F := by
  cases stored : b.store with
  | none =>
    have ran : (b.modifyCells edit).run h = .ok b h := by simp [modifyCells, stored]
    have nothing : edit [] = [] := List.length_eq_zero_iff.mp (keeps [])
    refine Ends.of_ok ran ⟨sized, rfl, ?_, rfl⟩
    simp [cells, stored, nothing]
  | some s =>
    obtain ⟨b', h', s', ran, stored', inside, written, len'⟩ :=
      modifyCells_cells stored (sized.valid.allocated s stored) edit
    have same : b'.capacity h' = b.capacity h := by
      rw [capacity_eq_length, capacity_eq_length, written, keeps]
    have same' : s'.capacity h' = s.capacity h := by
      rw [← capacity_of_some stored', same, capacity_of_some stored]
    have within : b'.len ≤ s'.capacity h' := by
      rw [len', same', ← capacity_of_some stored]
      exact sized.valid.within
    have eights : s'.capacity h' % 8 = 0 := by
      rw [same', ← capacity_of_some stored]
      exact sized.eights
    exact Ends.of_ok ran ⟨Sized.of_some stored' inside within eights
      (same' ▸ sized.positive s stored), len', written, same⟩

theorem prepareReceive_ends (sized : Sized h b) (cap : Nat) :
    Ends (b.prepareReceive cap) h
      (fun r h' => Sized h' r.1 ∧ r.1.len = 0 ∧ cap ≤ r.1.capacity h' ∧ r.2.length = cap)
      (GrowthOverflow h b cap) := by
  unfold prepareReceive
  refine (reserve_ends (sized.withLen (Nat.zero_le _)) cap).bind fun b₁ h₁ ⟨sized₁, len₁, room₁⟩ => ?_
  refine (modifyCells_ends sized₁ fun _ => rfl).bind fun b₂ h₂ ⟨sized₂, len₂, _, same₂⟩ => ?_
  refine Ends.bind_heap ?_
  have room₂ : cap ≤ b₂.capacity h₂ := same₂ ▸ room₁
  refine Ends.of_pure ⟨sized₂, len₂.trans len₁, room₂, ?_⟩
  rw [List.length_take, ← capacity_eq_length]
  exact Nat.min_eq_left room₂

theorem overwriteWith_ends (sized : Sized h b) (cap : Nat) (fill : Filler Empty) :
    Ends (b.overwriteWith cap fill) h (fun b' h' => Sized h' b')
      (fun f => (∃ reported, Overran fill cap reported ∧ f = .receiverOverrun reported cap) ∨
        GrowthOverflow h b cap f) := by
  unfold overwriteWith
  refine ((prepareReceive_ends sized cap).imp (fun _ _ facts => facts) fun _ grows => .inr grows).bind
    fun ⟨b₁, region⟩ h₁ facts => ?_
  obtain ⟨sized₁, -, room₁, offered⟩ := facts
  cases ran : fill.run region with
  | error e => exact e.elim
  | ok result =>
    obtain ⟨written, reported⟩ := result
    simp only [ran]
    refine (modifyCells_ends sized₁ fun cells => Word.length_overwrite cells written 0).bind
      fun b₂ h₂ facts => ?_
    obtain ⟨sized₂, -, -, same₂⟩ := facts
    by_cases overrun : cap < reported
    · rw [if_pos overrun]
      exact Ends.fail_bind (.inl ⟨reported, ⟨overrun, region, written, offered, ran⟩, rfl⟩)
    · rw [if_neg overrun]
      have room₂ : cap ≤ b₂.capacity h₂ := same₂ ▸ room₁
      exact Ends.of_pure (sized₂.withLen (Nat.le_trans (Nat.le_of_not_lt overrun) room₂))

theorem appendRecord_reserved (sized : Sized h b) (level kind : Int32) (cap : Nat)
    (fill : Filler Empty) :
    Ends (b.appendRecord level kind cap fill) h
      (fun b' h' => Sized h' b' ∧ ∃ b₁ h₁,
        (b.reserve (Word.roundUp8 b.len + space cap)).run h = .ok b₁ h₁ ∧
          b'.capacity h' = b₁.capacity h₁)
      (fun f => (∃ used, Overran fill cap used ∧ f = .initializerOverrun used cap) ∨
        GrowthOverflow h b (Word.roundUp8 b.len + space cap) f) := by
  unfold appendRecord
  refine ((reserve_ends sized _).with_run.imp (fun _ _ facts => facts) fun _ grows => .inr grows).bind
    fun b₁ h₁ facts => ?_
  obtain ⟨reserved, sized₁, -, room₁⟩ := facts
  refine Ends.bind_heap ?_
  obtain ⟨-, region_fits, kept_fits⟩ := appendFits_of_le room₁
  have region_len :
      (Word.slice (b₁.cells h₁) (Word.roundUp8 b.len + headerSize) cap).length = cap := by
    rw [Word.length_slice, ← capacity_eq_length]
    omega
  cases ran : fill.run (Word.slice (b₁.cells h₁) (Word.roundUp8 b.len + headerSize) cap) with
  | error e => exact e.elim
  | ok result =>
    obtain ⟨written, used⟩ := result
    simp only [ran]
    refine (modifyCells_ends sized₁ fun cells => by simp only [Word.length_overwrite]).bind
      fun b₂ h₂ facts => ?_
    obtain ⟨sized₂, -, -, same₂⟩ := facts
    by_cases overrun : cap < used
    · rw [if_pos overrun]
      exact Ends.fail_bind (.inl ⟨used, ⟨overrun, _, written, region_len, ran⟩, rfl⟩)
    · rw [if_neg overrun]
      refine (modifyCells_ends sized₂ fun cells => by simp only [Word.length_overwrite]).bind
        fun b₃ h₃ facts => ?_
      obtain ⟨sized₃, -, -, same₃⟩ := facts
      have room₃ : Word.roundUp8 b.len + space used ≤ b₃.capacity h₃ := by
        rw [same₃, same₂]
        exact (kept_fits used (Nat.le_of_not_lt overrun)).2
      exact Ends.of_pure ⟨sized₃.withLen room₃, b₁, h₁, reserved, same₃.trans same₂⟩

def LengthOverflow (b : Buffer) (cap : Nat) (f : Fault) : Prop :=
  f = .lengthOverflow ∧ appendRoom b.len cap = none

theorem appendWith_reserved (sized : Sized h b) (level kind : Int32) (cap : Nat)
    (fill : Filler Empty) :
    Ends (b.appendWith level kind cap fill) h
      (fun b' h' => Sized h' b' ∧ ∃ b₁ h₁,
        (b.reserve (Word.roundUp8 b.len + space cap)).run h = .ok b₁ h₁ ∧
          b'.capacity h' = b₁.capacity h₁)
      (fun f => LengthOverflow b cap f ∨
        (∃ used, Overran fill cap used ∧ f = .initializerOverrun used cap) ∨
        GrowthOverflow h b (Word.roundUp8 b.len + space cap) f) := by
  by_cases refused : appendRoom b.len cap = none
  · exact Ends.of_error (appendWith_refused refused) (.inl ⟨rfl, refused⟩)
  · exact Ends.of_run_eq (appendWith_of_room refused)
      ((appendRecord_reserved sized level kind cap fill).imp (fun _ _ facts => facts)
        fun _ stops => .inr stops)

theorem appendWith_ends (sized : Sized h b) (level kind : Int32) (cap : Nat) (fill : Filler Empty) :
    Ends (b.appendWith level kind cap fill) h (fun b' h' => Sized h' b')
      (fun f => LengthOverflow b cap f ∨
        (∃ used, Overran fill cap used ∧ f = .initializerOverrun used cap) ∨
        GrowthOverflow h b (Word.roundUp8 b.len + space cap) f) :=
  (appendWith_reserved sized level kind cap fill).imp (fun _ _ facts => facts.1) fun _ stops =>
    stops

theorem append_ends (sized : Sized h b) (level kind : Int32) (p : List UInt8) :
    Ends (b.append level kind p) h (fun b' h' => Sized h' b')
      (fun f => LengthOverflow b p.length f ∨
        GrowthOverflow h b (Word.roundUp8 b.len + space p.length) f) :=
  (appendWith_ends sized level kind p.length _).imp (fun _ _ sized' => sized') fun _ stops =>
    stops.imp_right fun rest => rest.resolve_left fun ⟨_, beyond, _⟩ =>
      writing_never_overruns p _ beyond

theorem appendFds_ends (sized : Sized h b) (fds : List Int32) :
    Ends (b.appendFds fds) h (fun b' h' => Sized h' b')
      (fun f => LengthOverflow b (4 * fds.length) f ∨
        GrowthOverflow h b (Word.roundUp8 b.len + space (4 * fds.length)) f) := by
  rw [← length_flatMap_encodeInt32]
  exact append_ends sized socketLevel rightsKind _

theorem withCapacity_ends (n : Nat) :
    Ends (withCapacity n) h (fun b' h' => Sized h' b' ∧ n ≤ b'.capacity h') fun _ => False :=
  (reserve_ends (Sized.empty h) n).imp (fun _ _ facts => ⟨facts.1, facts.2.2⟩) fun _ grows =>
    not_growthOverflow_empty grows

theorem ofBytes_ends (bytes : List UInt8) :
    Ends (ofBytes bytes) h (fun b' h' => Sized h' b') fun _ => False :=
  (overwriteWith_ends (Sized.empty h) _ _).imp (fun _ _ sized' => sized') fun _ stops =>
    stops.elim (fun ⟨_, beyond, _⟩ => writing_never_overruns bytes _ beyond) not_growthOverflow_empty

theorem messageAt_stops {i : Nat} {f : Fault} (ran : (b.messageAt i).run h = .error f h') :
    f = .noRecord i ∧ recordAt (b.committed h) i = none := by
  rw [messageAt_run] at ran
  split at ran
  · cases ran
  · cases ran
    exact ⟨rfl, ‹_›⟩

theorem indexAfter_stops {i : Nat} {f : Fault} (ran : (b.indexAfter i).run h = .error f h') :
    f = .noRecord i ∧ recordAt (b.committed h) i = none := by
  rw [indexAfter_run] at ran
  split at ran
  · cases ran
  · cases ran
    exact ⟨rfl, ‹_›⟩

/-! ### The length check of an append -/

theorem checkedAdd_eq_some {a c r : Nat} :
    checkedAdd a c = some r ↔ a + c ≤ wordMax ∧ a + c = r := by
  unfold checkedAdd
  split <;> simp_all

theorem appendRoom_sufficient {len cap reserved : Nat} (passed : appendRoom len cap = some reserved) :
    reserved = Word.roundUp8 len + space cap ∧ len + 7 ≤ wordMax ∧ cap + 7 ≤ wordMax ∧
      AppendFits len cap wordMax := by
  simp only [appendRoom, Option.bind_eq_bind, Option.bind_eq_some_iff, checkedAdd_eq_some] at passed
  obtain ⟨_, ⟨aligns, -⟩, _, ⟨bounded, -⟩, total, rfl⟩ := passed
  simp only [headerSize] at bounded
  exact ⟨rfl, aligns, by omega, appendFits_of_le total⟩

theorem appendRoom_refuses {len cap : Nat} (refused : appendRoom len cap = none) :
    wordMax < Word.roundUp8 len + space cap + 8 := by
  by_contra fits
  have rounded : len ≤ Word.roundUp8 len ∧ cap ≤ Word.roundUp8 cap := by
    unfold Word.roundUp8
    omega
  simp only [space, headerSize] at fits
  have aligns : len + 7 ≤ wordMax := by omega
  have bounded : cap + (headerSize + 8) ≤ wordMax := by simp only [headerSize]; omega
  have total : Word.roundUp8 len + space cap ≤ wordMax := by simp only [space, headerSize]; omega
  simp [appendRoom, checkedAdd, aligns, bounded, total] at refused

/-- The check is not exact: a record whose space ends 8 bytes below the top of a word is still
refused, since the payload with its header and an alignment step would not fit. -/
example : appendRoom 0 (wordMax - 23) = none ∧ Word.roundUp8 0 + space (wordMax - 23) ≤ wordMax := by
  decide

/-! ### Runs of operations -/

/-- The operations that change a control buffer in place. -/
inductive Op where
  | reserve (n : Nat)
  | append (level kind : Int32) (payload : List UInt8)
  | appendWith (level kind : Int32) (cap : Nat) (fill : Filler Empty)
  | appendFds (fds : List Int32)
  | overwriteWith (cap : Nat) (fill : Filler Empty)
  | clear
  | receive (cap : Nat) (bytes : List UInt8) (reported : Nat)

namespace Op

def run : Op → Buffer → HeapM Buffer
  | .reserve n, b => b.reserve n
  | .append level kind p, b => b.append level kind p
  | .appendWith level kind cap fill, b => b.appendWith level kind cap fill
  | .appendFds fds, b => b.appendFds fds
  | .overwriteWith cap fill, b => b.overwriteWith cap fill
  | .clear, b => pure b.clear
  | .receive cap bytes reported, b => do
    let (b, _) ← b.prepareReceive cap
    let b ← b.modifyCells fun cells => Word.overwrite cells 0 (bytes.take cap)
    pure (b.commitReceived reported cap)

def Stops (h : Heap) (b : Buffer) : Op → Fault → Prop
  | .reserve n => GrowthOverflow h b n
  | .append _ _ p => fun f => LengthOverflow b p.length f ∨
    GrowthOverflow h b (Word.roundUp8 b.len + space p.length) f
  | .appendWith _ _ cap fill => fun f => LengthOverflow b cap f ∨
    (∃ used, Overran fill cap used ∧ f = .initializerOverrun used cap) ∨
      GrowthOverflow h b (Word.roundUp8 b.len + space cap) f
  | .appendFds fds => fun f => LengthOverflow b (4 * fds.length) f ∨
    GrowthOverflow h b (Word.roundUp8 b.len + space (4 * fds.length)) f
  | .overwriteWith cap fill => fun f =>
    (∃ reported, Overran fill cap reported ∧ f = .receiverOverrun reported cap) ∨
      GrowthOverflow h b cap f
  | .clear => fun _ => False
  | .receive cap _ _ => GrowthOverflow h b cap

theorem receive_ends (sized : Sized h b) (cap : Nat) (bytes : List UInt8) (reported : Nat) :
    Ends ((receive cap bytes reported).run b) h (fun b' h' => Sized h' b' ∧ b'.len ≤ cap)
      (GrowthOverflow h b cap) := by
  refine (prepareReceive_ends sized cap).bind fun ⟨b₁, _⟩ h₁ facts => ?_
  obtain ⟨sized₁, -, room₁, -⟩ := facts
  refine (modifyCells_ends sized₁ fun cells => Word.length_overwrite cells _ 0).bind
    fun b₂ h₂ facts => ?_
  obtain ⟨sized₂, -, -, same₂⟩ := facts
  have clamped : min reported cap ≤ cap := Nat.min_le_right reported cap
  exact Ends.of_pure ⟨sized₂.withLen (clamped.trans (same₂ ▸ room₁)), clamped⟩

theorem run_ends (sized : Sized h b) (op : Op) :
    Ends (op.run b) h (fun b' h' => Sized h' b') (op.Stops h b) := by
  cases op with
  | reserve n => exact (reserve_ends sized n).imp (fun _ _ facts => facts.1) fun _ stops => stops
  | append level kind p => exact append_ends sized level kind p
  | appendWith level kind cap fill => exact appendWith_ends sized level kind cap fill
  | appendFds fds => exact appendFds_ends sized fds
  | overwriteWith cap fill => exact overwriteWith_ends sized cap fill
  | clear => exact Ends.of_pure (sized.withLen (Nat.zero_le _))
  | receive cap bytes reported =>
    exact (receive_ends sized cap bytes reported).imp (fun _ _ facts => facts.1) fun _ stops => stops

end Op

/-- The states a control buffer reaches: made, then changed by operation after operation. -/
inductive Reachable : Heap → Buffer → Prop
  | empty (h : Heap) : Reachable h empty
  | withCapacity {h h' : Heap} {b : Buffer} (n : Nat) (made : (withCapacity n).run h = .ok b h') :
      Reachable h' b
  | ofBytes {h h' : Heap} {b : Buffer} (bytes : List UInt8) (made : (ofBytes bytes).run h = .ok b h') :
      Reachable h' b
  | step {h h' : Heap} {b b' : Buffer} (reached : Reachable h b) (op : Op)
      (ran : (op.run b).run h = .ok b' h') : Reachable h' b'

theorem Reachable.sized (reached : Reachable h b) : Sized h b := by
  induction reached with
  | empty h => exact Sized.empty h
  | withCapacity n made => exact ((withCapacity_ends n).ok made).1
  | ofBytes bytes made => exact (ofBytes_ends bytes).ok made
  | step _ op ran sized => exact (Op.run_ends sized op).ok ran

end Buffer

open Buffer

/-- **Control buffers stay within their regions.** Every reachable buffer commits exactly `len`
bytes of a region whose size is a multiple of 8; an append writes inside its room, and an operation
stops only at its own faults. -/
theorem control_buffers_stay_in_bounds :
    (∀ h b, Reachable h b → b.len ≤ b.capacity h ∧ b.capacity h % 8 = 0 ∧
      (b.capacity h = 0 ↔ b.store = none) ∧ (b.committed h).length = b.len) ∧
    (∀ h b cap b₁ h₁, Reachable h b →
      (b.reserve (Word.roundUp8 b.len + space cap)).run h = .ok b₁ h₁ →
      AppendFits b.len cap (b₁.capacity h₁)) ∧
    (∀ h b cap r h₁, Reachable h b → (b.prepareReceive cap).run h = .ok r h₁ →
      cap ≤ r.1.capacity h₁ ∧ r.2.length = cap) ∧
    (∀ len cap reserved, appendRoom len cap = some reserved →
      reserved = Word.roundUp8 len + space cap ∧ len + 7 ≤ wordMax ∧ cap + 7 ≤ wordMax ∧
        AppendFits len cap wordMax) ∧
    (∀ len cap, appendRoom len cap = none → wordMax < Word.roundUp8 len + space cap + 8) ∧
    (∀ h b (op : Op) f h', Reachable h b → (op.run b).run h = .error f h' → op.Stops h b f) ∧
    (∀ h b n f, GrowthOverflow h b n f → Nat.pow 2 61 < b.capacity h) ∧
    (∀ h n, ∃ b h', (withCapacity n).run h = .ok b h') ∧
    (∀ h bytes, ∃ b h', (ofBytes bytes).run h = .ok b h') ∧
    (∀ h (b : Buffer) i f h', (b.messageAt i).run h = .error f h' →
      f = .noRecord i ∧ recordAt (b.committed h) i = none) ∧
    (∀ h (b : Buffer) i f h', (b.indexAfter i).run h = .error f h' →
      f = .noRecord i ∧ recordAt (b.committed h) i = none) := by
  refine ⟨fun h b reached => ?_, fun h b cap b₁ h₁ reached ran => ?_,
    fun h b cap r h₁ reached ran => ?_, fun _ _ _ passed => appendRoom_sufficient passed,
    fun _ _ refused => appendRoom_refuses refused,
    fun h b op f h' reached ran => (Op.run_ends reached.sized op).error ran,
    fun _ _ _ _ stops => stops.huge, fun h n => ?_, fun h bytes => ?_,
    fun _ _ _ _ _ ran => messageAt_stops ran, fun _ _ _ _ _ ran => indexAfter_stops ran⟩
  · have sized := reached.sized
    exact ⟨sized.valid.within, sized.eights, sized.capacity_eq_zero, length_committed sized.valid⟩
  · exact appendFits_of_le ((reserve_ends reached.sized _).ok ran).2.2
  · have offered := (prepareReceive_ends reached.sized cap).ok ran
    exact ⟨offered.2.2.1, offered.2.2.2⟩
  · obtain ⟨b, h', ran, -⟩ := (withCapacity_ends (h := h) n).exists_ok
    exact ⟨b, h', ran⟩
  · obtain ⟨b, h', ran, -⟩ := (ofBytes_ends (h := h) bytes).exists_ok
    exact ⟨b, h', ran⟩

/-- A record of one byte appended to an empty buffer fills 24 bytes of a region made for it. -/
theorem appended_record_fits_region :
    ∃ h b, Reachable h b ∧ b.len = 24 ∧ 24 ≤ b.capacity h ∧ b.capacity h % 8 = 0 ∧
      b.store ≠ none := by
  obtain ⟨b, h, ran, appended⟩ := append_appends 1 2 [7] (empty_valid {})
    (Built.valid_complete (.empty {})).2 ⟨by decide, Or.inr (by decide)⟩
  have reached : Reachable h b := .step (.empty {}) (.append 1 2 [7]) ran
  obtain ⟨within, eights, unmade, -⟩ := control_buffers_stay_in_bounds.1 h b reached
  have len : b.len = 24 := by rw [appended.2.1]; rfl
  refine ⟨h, b, reached, len, len ▸ within, eights, fun unplaced => ?_⟩
  have empty := unmade.2 unplaced
  omega

end Control

end SysBytes
