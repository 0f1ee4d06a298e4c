import SysBytes.Proofs.Store.SmallSessions

/-!
The shape of small buffers: inline storage of 28 bytes, or a region of more than 28 bytes in
words of 8. Every operation keeps that shape, and over sessions a buffer is inline exactly when
every size asked along the buffers it was cloned from is at most 28.
-/
namespace SysBytes

namespace Store

namespace SmallBuffer

/-- Inline storage of exactly 28 bytes with at most 28 in use, or a region of more than 28 bytes in
words of 8. -/
def Shaped (h : Heap) : SmallBuffer → Prop
  | .inline c n => c.length = inlineCapacity ∧ n ≤ inlineCapacity
  | .large s n => inlineCapacity < s.capacity h ∧ s.capacity h % 8 = 0 ∧ n ≤ s.capacity h

variable {h h' : Heap} {others : List Nat} {b b' : SmallBuffer}

namespace Shaped

theorem valid (shaped : b.Shaped h) : b.Valid h := by
  cases b with
  | inline c n => exact shaped
  | large s n => exact shaped.2.2

theorem ofNat_len (shaped : b.Shaped h) (inline : b.isInline = true) :
    (UInt8.ofNat b.len).toNat = b.len := by
  cases b with
  | inline c n =>
    have short := shaped.2
    unfold inlineCapacity at short
    exact UInt8.toNat_ofNat_of_lt' (show n < 256 by omega)
  | large s n => cases inline

theorem of_cells (shaped : b.Shaped h) (kind : b'.isInline = b.isInline)
    (length : (b'.cells h').length = (b.cells h).length) (room : b'.len ≤ (b'.cells h').length) :
    b'.Shaped h' := by
  cases b with
  | inline c n =>
    cases b' with
    | inline c' n' => exact ⟨length.trans shaped.1, room.trans_eq (length.trans shaped.1)⟩
    | large s' n' => cases kind
  | large s n =>
    cases b' with
    | inline c' n' => cases kind
    | large s' n' =>
      have same : s'.capacity h' = s.capacity h := length
      rw [Shaped, same]
      exact ⟨shaped.1, shaped.2.1, room.trans_eq length⟩

theorem congr (same : ∀ j ∈ b.handles, h'.cells j = h.cells j) (shaped : b.Shaped h) :
    b.Shaped h' :=
  shaped.of_cells rfl (by rw [cells_congr same])
    (by rw [cells_congr same]; exact len_le_length shaped.valid)

end Shaped

/-! ### Which operations keep a buffer inline -/

theorem setLen_past {n : Nat} (past : b.capacity h < n) :
    (b.setLen n).run h = .error (.lengthExceeds n (b.capacity h)) h := by
  simp [setLen, heap, past, fail]

theorem setLen_yields (b : SmallBuffer) (n : Nat) :
    Yields (b.setLen n) fun b' => b'.isInline = b.isInline := by
  intro h b' h' ran
  by_cases room : n ≤ b.capacity h
  · rw [setLen_run room] at ran
    cases ran
    cases b <;> rfl
  · rw [setLen_past (Nat.lt_of_not_le room)] at ran
    cases ran

theorem modifyCells_yields (b : SmallBuffer) (edit : List UInt8 → List UInt8) :
    Yields (b.modifyCells edit) fun b' => b'.isInline = b.isInline := by
  cases b with
  | inline c n => exact Yields.of_pure rfl
  | large s n => exact Yields.of_bind fun _ => Yields.of_pure rfl

theorem reserve_yields (b : SmallBuffer) (minimum : Nat) :
    Yields (b.reserve minimum) fun b' =>
      b'.isInline = (b.isInline && decide (minimum ≤ inlineCapacity)) := by
  cases b with
  | inline c n =>
    by_cases small : minimum ≤ inlineCapacity
    · simp only [reserve, if_pos small]
      exact Yields.of_pure (by simp [isInline, small])
    · simp only [reserve, if_neg small]
      exact Yields.of_bind fun _ => Yields.of_bind fun _ => Yields.of_bind fun _ =>
        Yields.of_bind fun _ => Yields.of_pure (by simp [isInline, small])
  | large s n => exact Yields.of_bind fun _ => Yields.of_pure rfl

theorem append_yields (b : SmallBuffer) (more : List UInt8) :
    Yields (b.append more) fun b' =>
      b'.isInline = (b.isInline && decide (b.len + more.length ≤ inlineCapacity)) := by
  unfold append
  refine Yields.of_bind_yields (reserve_yields b _) fun b₁ kind₁ =>
    Yields.of_bind_yields (modifyCells_yields b₁ _) fun b₂ kind₂ => ?_
  intro h₂ b₃ h₃ ran
  rw [setLen_yields b₂ _ h₂ b₃ h₃ ran, kind₂, kind₁]

/-! ### Each operation keeps the shape -/

theorem setLen_shaped (live : Live h others b) (shaped : b.Shaped h) {n : Nat}
    (room : n ≤ b.capacity h) :
    RunsLive (b.setLen n) h others fun b' h' =>
      b'.Shaped h' ∧ b'.isInline = b.isInline ∧ b'.len = n := by
  have room' : n ≤ (b.cells h).length := capacity_eq_length h b shaped.valid ▸ room
  obtain ⟨b', h', ran, live', kept, cells', len'⟩ := setLen_runsLive live room'
  have kind := setLen_yields b n h b' h' ran
  exact ⟨b', h', ran, live', kept,
    shaped.of_cells kind (by rw [cells']) (len_le_length live'.valid), kind, len'⟩

theorem modifyCells_shaped (live : Live h others b) (shaped : b.Shaped h)
    (edit : List UInt8 → List UInt8) (keeps : ∀ c, (edit c).length = c.length) :
    RunsLive (b.modifyCells edit) h others fun b' h' =>
      b'.Shaped h' ∧ b'.isInline = b.isInline ∧ b'.cells h' = edit (b.cells h) ∧
        b'.len = b.len := by
  obtain ⟨b', h', ran, live', kept, cells', len'⟩ := modifyCells_runsLive live edit keeps
  have kind := modifyCells_yields b edit h b' h' ran
  exact ⟨b', h', ran, live', kept,
    shaped.of_cells kind (by rw [cells', keeps]) (len_le_length live'.valid), kind, cells', len'⟩

theorem modifyBytes_shaped (live : Live h others b) (shaped : b.Shaped h)
    (edit : List UInt8 → List UInt8) :
    RunsLive (b.modifyBytes edit) h others fun b' h' => b'.Shaped h' ∧ b'.isInline = b.isInline :=
  (modifyCells_shaped live shaped _ fun _ => Word.length_overwrite _ _ _).imp
    fun _ _ facts => ⟨facts.1, facts.2.1⟩

theorem shaped_of_capacity_roundUp8 {s : CowStore} {n minimum : Nat} (short : n ≤ inlineCapacity)
    (large : inlineCapacity < minimum) (cap : s.capacity h = Word.roundUp8 minimum) :
    (SmallBuffer.large s n).Shaped h ∧ minimum ≤ s.capacity h := by
  rw [Shaped, cap]
  unfold inlineCapacity Word.roundUp8 at *
  omega

theorem Shaped.of_reservedCells {s s' : CowStore} {n minimum : Nat}
    (shaped : (SmallBuffer.large s n).Shaped h)
    (grown : s'.cells h' = CowStore.reservedCells (s.cells h) minimum) :
    (SmallBuffer.large s' n).Shaped h' ∧ minimum ≤ s'.capacity h' := by
  obtain ⟨kept, room, eights⟩ := CowStore.reservedCells_aligned shaped.2.1 minimum
  have cap : s'.capacity h' = (CowStore.reservedCells (s.cells h) minimum).length := by
    rw [CowStore.capacity, grown]
  rw [Shaped, cap]
  exact ⟨⟨Nat.lt_of_lt_of_le shaped.1 kept, eights, Nat.le_trans shaped.2.2 kept⟩, room⟩

theorem withCapacity_shaped (acc : Accounted h others) (minimum : Nat) :
    RunsLive (withCapacity minimum) h others fun b h' =>
      b.Shaped h' ∧ b.isInline = decide (minimum ≤ inlineCapacity) ∧
        minimum ≤ b.capacity h' := by
  by_cases small : minimum ≤ inlineCapacity
  · have run : (withCapacity minimum).run h = .ok empty h := by simp [withCapacity, small]
    refine ⟨empty, h, run, ⟨acc, by simp [Valid, empty]⟩, fun _ _ => rfl, ?_, ?_, small⟩
    · simp [Shaped, empty]
    · simp [empty, isInline, small]
  · obtain ⟨s, h', run, acc', zeroed, kept⟩ :=
      CowStore.create_accounted acc (n := minimum) (by unfold inlineCapacity at small; omega)
    have cap : s.capacity h' = Word.roundUp8 minimum := by
      rw [CowStore.capacity, zeroed, List.length_replicate]
    obtain ⟨shaped, room⟩ :=
      shaped_of_capacity_roundUp8 (Nat.zero_le _) (Nat.lt_of_not_le small) cap
    refine ⟨.large s 0, h', ?_, ⟨acc', Nat.zero_le _⟩, kept, shaped,
      by simp [isInline, small], room⟩
    simp only [withCapacity, if_neg small, EStateM.run_bind, run]
    rfl

theorem reserve_shaped (live : Live h others b) (shaped : b.Shaped h) (minimum : Nat)
    (fits : b.isInline = true ∨ minimum ≤ b.capacity h ∨ b.capacity h * 7 + 2 ≤ wordMax) :
    RunsLive (b.reserve minimum) h others fun b' h' =>
      b'.Shaped h' ∧ b'.isInline = (b.isInline && decide (minimum ≤ inlineCapacity)) ∧
        b'.len = b.len ∧ minimum ≤ b'.capacity h' := by
  cases b with
  | inline c n =>
    by_cases small : minimum ≤ inlineCapacity
    · exact ⟨.inline c n, h, by simp [reserve, small], live, fun _ _ => rfl, shaped,
        by simp [isInline, small], rfl, small⟩
    apply (promote_runsLive live small).imp
    rintro _ h' ⟨s', rfl, stored⟩
    have cap : s'.capacity h' = Word.roundUp8 minimum := by
      rw [CowStore.capacity, stored, Word.length_overwrite, List.length_replicate]
    obtain ⟨shaped', room⟩ := shaped_of_capacity_roundUp8 shaped.2 (Nat.lt_of_not_le small) cap
    exact ⟨shaped', by simp [isInline, small], rfl, room⟩
  | large s n =>
    have fits' : minimum ≤ s.capacity h ∨ s.capacity h * 7 + 2 ≤ wordMax :=
      fits.resolve_left (by simp [isInline])
    apply (regrow_runsLive live fits').imp
    rintro _ h' ⟨s', rfl, grown⟩
    obtain ⟨shaped', room⟩ := shaped.of_reservedCells grown
    exact ⟨shaped', rfl, rfl, room⟩

theorem reserve_overflows {minimum : Nat} (onHeap : b.isInline = false)
    (beyond : b.capacity h < minimum) (overflow : wordMax < b.capacity h * 7 + 2) :
    (b.reserve minimum).run h = .error .capacityOverflow h := by
  cases b with
  | inline c n => cases onHeap
  | large s n =>
    simp only [reserve, EStateM.run_bind, CowStore.reserve_overflow beyond overflow]

theorem append_shaped (live : Live h others b) (shaped : b.Shaped h) (more : List UInt8)
    (fits : b.isInline = true ∨ b.len + more.length ≤ b.capacity h ∨
      b.capacity h * 7 + 2 ≤ wordMax) :
    RunsLive (b.append more) h others fun b' h' =>
      b'.Shaped h' ∧
        b'.isInline = (b.isInline && decide (b.len + more.length ≤ inlineCapacity)) := by
  unfold append
  apply (reserve_shaped live shaped _ fits).bind
  rintro b₁ h₁ live₁ ⟨shaped₁, kind₁, -, room₁⟩
  apply (modifyCells_shaped live₁ shaped₁ _ fun _ => Word.length_overwrite _ _ _).bind
  rintro b₂ h₂ live₂ ⟨shaped₂, kind₂, cells₂, -⟩
  have room₂ : b.len + more.length ≤ b₂.capacity h₂ := by
    rw [capacity_eq_length h₂ b₂ shaped₂.valid, cells₂, Word.length_overwrite,
      ← capacity_eq_length h₁ b₁ shaped₁.valid]
    exact room₁
  apply (setLen_shaped live₂ shaped₂ room₂).imp
  rintro b₃ h₃ ⟨shaped₃, kind₃, -⟩
  exact ⟨shaped₃, kind₃.trans (kind₂.trans kind₁)⟩

theorem append_overflows {more : List UInt8} (onHeap : b.isInline = false)
    (beyond : b.capacity h < b.len + more.length) (overflow : wordMax < b.capacity h * 7 + 2) :
    (b.append more).run h = .error .capacityOverflow h := by
  simp only [append, EStateM.run_bind, reserve_overflows onHeap beyond overflow]

theorem tryFilled_shaped {ε : Type} (acc : Accounted h others) (n : Nat) (bytes : List UInt8)
    {used : Nat} (within : used ≤ n) :
    ∃ b h', (tryFilled n (Filler.writing bytes used : Filler ε)).run h = .ok (.ok b) h' ∧
      Live h' others b ∧ (∀ j ∈ others, h'.cells j = h.cells j) ∧ b.Shaped h' ∧
        b.isInline = decide (n ≤ inlineCapacity) := by
  obtain ⟨b₁, h₁, run₁, live₁, kept₁, shaped₁, kind₁, room₁⟩ :=
    withCapacity_shaped acc n
  obtain ⟨b₂, h₂, run₂, live₂, kept₂, shaped₂, kind₂, cells₂, -⟩ :=
    modifyCells_shaped live₁ shaped₁
      (fun cells => Word.overwrite cells 0 (Word.overwrite ((b₁.cells h₁).take n) 0 bytes))
      fun _ => Word.length_overwrite _ _ _
  have room₂ : used ≤ b₂.capacity h₂ := by
    rw [capacity_eq_length h₂ b₂ shaped₂.valid, cells₂, Word.length_overwrite,
      ← capacity_eq_length h₁ b₁ shaped₁.valid]
    omega
  obtain ⟨b₃, h₃, run₃, live₃, kept₃, shaped₃, kind₃, -⟩ :=
    setLen_shaped live₂ shaped₂ room₂
  refine ⟨b₃, h₃, ?_, live₃,
    fun j mem => (kept₃ j mem).trans ((kept₂ j mem).trans (kept₁ j mem)), shaped₃,
    kind₃.trans (kind₂.trans kind₁)⟩
  simp only [tryFilled, EStateM.run_bind, run₁, heap, EStateM.run_get, Filler.run_writing, run₂,
    if_neg (Nat.not_lt.mpr within), run₃]
  rfl

theorem ofBytes_shaped (acc : Accounted h others) (bytes : List UInt8) :
    RunsLive (ofBytes bytes) h others fun b h' =>
      b.Shaped h' ∧ b.isInline = decide (bytes.length ≤ inlineCapacity) := by
  obtain ⟨b, h', run, live, kept, shaped, kind⟩ :=
    tryFilled_shaped (ε := Empty) acc bytes.length bytes (Nat.le_refl _)
  refine ⟨b, h', ?_, live, kept, shaped, kind⟩
  simp only [ofBytes, filled, EStateM.run_bind, run]
  rfl

end SmallBuffer

end Store

namespace Session

open Store

/-! ### Sessions -/

/-- The largest size asked of each slot's buffer after a command, along the buffers it was cloned
from. -/
def askedAfter (asked : Slots Nat) (slots : Slots SmallBuffer) (c : Slotted SmallCommand) :
    Slots Nat :=
  let raise (n : Nat) := (asked.put c.slot (max ((asked.get? c.slot).getD 0) n)).1
  match c.command with
  | .create => (asked.put c.slot 0).1
  | .withCapacity n => (asked.put c.slot n).1
  | .ofBytes bytes => (asked.put c.slot bytes.length).1
  | .filled n _ => (asked.put c.slot n).1
  | .clone source => (asked.put c.slot ((asked.get? source).getD 0)).1
  | .reserve n => raise n
  | .append bytes => raise (((slots.get? c.slot).map SmallBuffer.len).getD 0 + bytes.length)
  | .drop => asked.remove c.slot
  | _ => asked

/-- The states sessions over small buffers reach, with the size asked of each slot's buffer. -/
inductive SmallReached : Slots SmallBuffer → Heap → Slots Nat → Prop
  | start : SmallReached [] {} []
  | step {slots slots' : Slots SmallBuffer} {h h' : Heap} {asked : Slots Nat} {a : Answer}
      (c : Slotted SmallCommand) : SmallReached slots h asked →
      (smallStep slots c).run h = .ok (slots', a) h' →
      SmallReached slots' h' (if a.stop then asked else askedAfter asked slots c)

/-- Every slot's buffer has its shape and is inline exactly when the size asked of it is at most 28.
-/
structure Shapes (h : Heap) (slots : Slots SmallBuffer) (asked : Slots Nat) : Prop where
  accounted : Accounted h (bufferHandles slots)
  distinct : (slots.map Prod.fst).Nodup
  shaped : ∀ e ∈ slots, e.2.Shaped h
  inline_iff : ∀ name b, slots.get? name = some b →
    ∃ d, asked.get? name = some d ∧ (b.isInline = true ↔ d ≤ inlineCapacity)

def SmallFault (h : Heap) (slots : Slots SmallBuffer) (c : Slotted SmallCommand) (f : Fault) :
    Prop :=
  (∃ n b, c.command = .setLen n ∧ slots.get? c.slot = some b ∧ b.capacity h < n ∧
    f = .lengthExceeds n (b.capacity h)) ∨
  (∃ n bytes used, c.command = .filled n (.writes bytes used) ∧ n < used ∧
    f = .initializerOverrun used n) ∨
  (∃ b, slots.get? c.slot = some b ∧ b.isInline = false ∧ wordMax < b.capacity h * 7 + 2 ∧
    f = .capacityOverflow)

def ShapeKept (h : Heap) (slots : Slots SmallBuffer) (asked : Slots Nat)
    (c : Slotted SmallCommand) : EStateM.Result Fault Heap (Slots SmallBuffer × Answer) → Prop
  | .ok (slots', a) h' => Shapes h' slots' (if a.stop then asked else askedAfter asked slots c)
  | .error f _ => SmallFault h slots c f

structure Asks (asked asked' : Slots Nat) (name : String) (d : Nat) : Prop where
  here : asked'.get? name = some d
  elsewhere : ∀ n, n ≠ name → asked'.get? n = asked.get? n

theorem Asks.put (asked : Slots Nat) (name : String) (d : Nat) :
    Asks asked (asked.put name d).1 name d :=
  ⟨Slots.lookup_put asked name d, fun _ other => Slots.lookup_put_ne asked other d⟩

theorem Asks.self {asked : Slots Nat} {name : String} {d : Nat} (found : asked.get? name = some d) :
    Asks asked asked name d :=
  ⟨found, fun _ _ => rfl⟩

theorem inline_keep {b b' : SmallBuffer} {d : Nat}
    (kind : b.isInline = true ↔ d ≤ inlineCapacity) (same : b'.isInline = b.isInline) :
    b'.isInline = true ↔ d ≤ inlineCapacity := by
  rw [same]
  exact kind

theorem inline_raise {b b' : SmallBuffer} {d n : Nat}
    (kind : b.isInline = true ↔ d ≤ inlineCapacity)
    (raised : b'.isInline = (b.isInline && decide (n ≤ inlineCapacity))) :
    b'.isInline = true ↔ max d n ≤ inlineCapacity := by
  rw [raised, Bool.and_eq_true, kind, decide_eq_true_iff, Nat.max_le]

section Shapes

variable {h h' : Heap} {slots : Slots SmallBuffer} {asked : Slots Nat} {name : String}

theorem Shapes.empty : Shapes {} [] [] :=
  ⟨⟨fun _ => rfl, by simp [bufferHandles, Slots.owned]⟩, List.nodup_nil, by simp,
    fun _ _ found => by cases found⟩

theorem Shapes.shaped_of (shapes : Shapes h slots asked) {b : SmallBuffer}
    (found : slots.get? name = some b) : b.Shaped h :=
  shapes.shaped _ (Slots.mem_of_lookup found)

theorem Shapes.live (shapes : Shapes h slots asked) {b : SmallBuffer}
    (found : slots.get? name = some b) :
    SmallBuffer.Live h (bufferHandles (slots.remove name)) b :=
  ⟨shapes.accounted.perm (Slots.owned_perm _ shapes.distinct found),
    (shapes.shaped_of found).valid⟩

theorem Shapes.put (shapes : Shapes h slots asked) {b : SmallBuffer} {asked' : Slots Nat} {d : Nat}
    (live : SmallBuffer.Live h' (bufferHandles (slots.remove name)) b) (shaped : b.Shaped h')
    (kept : ∀ j ∈ bufferHandles (slots.remove name), h'.cells j = h.cells j)
    (asks : Asks asked asked' name d) (kind : b.isInline = true ↔ d ≤ inlineCapacity) :
    Shapes h' (slots.put name b).1 asked' := by
  -- a slot other than `name` reads only handles that the step kept
  have other : ∀ e ∈ slots, e.1 ≠ name → ∀ j ∈ e.2.handles, h'.cells j = h.cells j :=
    fun e mem apart j mine => kept j (Slots.mem_owned_remove _
      (List.mem_filter.mpr ⟨mem, by simpa using apart⟩) mine)
  refine ⟨live.accounted.perm (Slots.owned_put _ shapes.distinct b).symm,
    Slots.nodup_put shapes.distinct name b, fun e mem => ?_, fun n b' found => ?_⟩
  · rcases Slots.mem_put mem with rfl | ⟨old, apart⟩
    · exact shaped
    · exact (shapes.shaped e old).congr (other e old apart)
  · by_cases here : n = name
    · subst here
      rw [Slots.get?, Slots.lookup_put, Option.some.injEq] at found
      subst found
      exact ⟨d, asks.here, kind⟩
    · rw [Slots.get?, Slots.lookup_put_ne _ here] at found
      rw [asks.elsewhere n here]
      exact shapes.inline_iff n b' found

theorem Shapes.remove (shapes : Shapes h slots asked)
    (acc : Accounted h' (bufferHandles (slots.remove name)))
    (same : ∀ j, h'.cells j = h.cells j) : Shapes h' (slots.remove name) (asked.remove name) := by
  refine ⟨acc, Slots.nodup_remove shapes.distinct name, fun e mem => ?_, fun n b found => ?_⟩
  · exact (shapes.shaped e (List.mem_of_mem_filter mem)).congr fun j _ => same j
  · have here : n ≠ name := by
      rintro rfl
      rw [Slots.get?, Slots.lookup_remove_self] at found
      cases found
    rw [Slots.get?, Slots.lookup_remove_ne _ here] at found
    show ∃ d, (asked.remove name).lookup n = some d ∧ _
    rw [Slots.lookup_remove_ne _ here]
    exact shapes.inline_iff n b found

theorem Shapes.congr (shapes : Shapes h slots asked) (acc : Accounted h' (bufferHandles slots))
    (same : ∀ j ∈ bufferHandles slots, h'.cells j = h.cells j) : Shapes h' slots asked :=
  ⟨acc, shapes.distinct, fun e mem => (shapes.shaped e mem).congr fun j mine =>
    same j (List.mem_flatMap.mpr ⟨e, mem, mine⟩), shapes.inline_iff⟩

end Shapes

/-! ### One command at a time -/

section Steps

variable {h : Heap} {slots : Slots SmallBuffer} {asked : Slots Nat} {name : String}

theorem refused_keeps (shapes : Shapes h slots asked) (c : Slotted SmallCommand) {a : Answer}
    (stops : a.stop = true) : ShapeKept h slots asked c (.ok (slots, a) h) := by
  show Shapes h slots (if a.stop then asked else askedAfter asked slots c)
  rw [if_pos stops]
  exact shapes

theorem lookup_keeps (shapes : Shapes h slots asked) (c : Slotted SmallCommand) (slot : String)
    {k : SmallBuffer → HeapM (Slots SmallBuffer × Answer)}
    (found_keeps : ∀ b, slots.get? slot = some b → ShapeKept h slots asked c ((k b).run h)) :
    ShapeKept h slots asked c ((match slots.get? slot with
      | some b => k b
      | none => pure (slots, missingSlot slot) : HeapM _).run h) := by
  cases found : slots.get? slot with
  | none => exact refused_keeps shapes c rfl
  | some b => exact found_keeps b found

theorem limited_keeps (shapes : Shapes h slots asked) (c : Slotted SmallCommand) (n : Nat)
    {x : HeapM (Slots SmallBuffer × Answer)}
    (within_keeps : n ≤ capacityLimit → ShapeKept h slots asked c (x.run h)) :
    ShapeKept h slots asked c
      ((if capacityLimit < n then pure (slots, overLimit n) else x).run h) := by
  by_cases limit : capacityLimit < n
  · rw [if_pos limit]
    exact refused_keeps shapes c rfl
  · rw [if_neg limit]
    exact within_keeps (Nat.le_of_not_lt limit)

theorem created_keeps (shapes : Shapes h slots asked) (c : Slotted SmallCommand) {b : SmallBuffer}
    {h₁ : Heap} {d : Nat} (live : SmallBuffer.Live h₁ (bufferHandles slots) b)
    (shaped : b.Shaped h₁) (kept : ∀ j ∈ bufferHandles slots, h₁.cells j = h.cells j)
    (asks : Asks asked (askedAfter asked slots c) c.slot d)
    (kind : b.isInline = true ↔ d ≤ inlineCapacity) :
    ShapeKept h slots asked c ((match (slots.put c.slot b).2 with
      | some o => do
        o.release
        let r ← heap
        pure ((slots.put c.slot b).1, Answer.ok (smallReport r b))
      | _ => do
        let r ← heap
        pure ((slots.put c.slot b).1, Answer.ok (smallReport r b)) : HeapM _).run h₁) := by
  have kept' : ∀ j ∈ bufferHandles (slots.remove c.slot), h₁.cells j = h.cells j :=
    fun j mem => kept j (Slots.owned_remove_subset _ mem)
  rw [Slots.put_snd]
  cases found : slots.lookup c.slot with
  | none =>
    -- nothing to give up: the other slots are all the slots
    have live' : SmallBuffer.Live h₁ (bufferHandles (slots.remove c.slot)) b := by
      rw [Slots.remove_of_none found]
      exact live
    simp only [EStateM.run_bind, heap, EStateM.run_get, EStateM.run_pure]
    exact shapes.put live' shaped kept' asks kind
  | some old =>
    have acc : Accounted h₁ (old.handles ++ (b.handles ++ bufferHandles (slots.remove c.slot))) :=
      live.accounted.perm (((Slots.owned_perm _ shapes.distinct found).append_left
        b.handles).trans (List.perm_append_comm_assoc _ _ _))
    obtain ⟨h₂, released, acc₂, same₂⟩ := SmallBuffer.release_run acc
    have live₂ : SmallBuffer.Live h₂ (bufferHandles (slots.remove c.slot)) b :=
      ⟨acc₂, SmallBuffer.valid_congr (fun j _ => same₂ j) live.valid⟩
    simp only [EStateM.run_bind, released, heap, EStateM.run_get, EStateM.run_pure]
    exact shapes.put live₂ (shaped.congr fun j _ => same₂ j)
      (fun j mem => (same₂ j).trans (kept' j mem)) asks kind

theorem described_keeps (shapes : Shapes h slots asked) (c : Slotted SmallCommand) {h₁ : Heap}
    {d : Nat} (kept₁ : ∀ j ∈ bufferHandles (slots.remove c.slot), h₁.cells j = h.cells j)
    (asks : Asks asked (askedAfter asked slots c) c.slot d) {x : HeapM SmallBuffer}
    (run : SmallBuffer.RunsLive x h₁ (bufferHandles (slots.remove c.slot))
      fun b' h' => b'.Shaped h' ∧ (b'.isInline = true ↔ d ≤ inlineCapacity))
    (extra : List (String × Report)) :
    ShapeKept h slots asked c ((do
        let b' ← x
        let r ← heap
        pure ((slots.put c.slot b').1, Answer.ok ((smallReport r b').extend extra)) :
          HeapM _).run h₁) := by
  obtain ⟨b', h', ran, live, kept, shaped, kind⟩ := run
  simp only [EStateM.run_bind, ran, heap, EStateM.run_get, EStateM.run_pure]
  exact shapes.put live shaped (fun j mem => (kept j mem).trans (kept₁ j mem)) asks kind

namespace SmallCommand

section Commands

variable (shapes : Shapes h slots asked)
include shapes

theorem create_keeps :
    ShapeKept h slots asked ⟨name, .create⟩ ((smallStep slots ⟨name, .create⟩).run h) :=
  created_keeps shapes _ ⟨shapes.accounted, by simp [SmallBuffer.Valid, SmallBuffer.empty]⟩
    (by simp [SmallBuffer.Shaped, SmallBuffer.empty]) (fun _ _ => rfl) (Asks.put asked name 0)
    (by simp [SmallBuffer.empty, SmallBuffer.isInline])

theorem withCapacity_keeps {n : Nat} : ShapeKept h slots asked ⟨name, .withCapacity n⟩
    ((smallStep slots ⟨name, .withCapacity n⟩).run h) := by
  refine limited_keeps shapes _ n fun _ => ?_
  obtain ⟨b, h₁, ran, live, kept, shaped, kind, -⟩ :=
    SmallBuffer.withCapacity_shaped shapes.accounted n
  simp only [EStateM.run_bind, ran]
  exact created_keeps shapes _ live shaped kept (Asks.put asked name n)
    (by rw [kind, decide_eq_true_iff])

theorem ofBytes_keeps {bytes : List UInt8} : ShapeKept h slots asked ⟨name, .ofBytes bytes⟩
    ((smallStep slots ⟨name, .ofBytes bytes⟩).run h) := by
  obtain ⟨b, h₁, ran, live, kept, shaped, kind⟩ :=
    SmallBuffer.ofBytes_shaped shapes.accounted bytes
  simp only [smallStep, EStateM.run_bind, ran]
  exact created_keeps shapes _ live shaped kept (Asks.put asked name bytes.length)
    (by rw [kind, decide_eq_true_iff])

theorem filled_keeps {n : Nat} {fill : Fill} : ShapeKept h slots asked ⟨name, .filled n fill⟩
    ((smallStep slots ⟨name, .filled n fill⟩).run h) := by
  refine limited_keeps shapes _ n fun _ => ?_
  cases fill with
  | writes bytes used =>
    by_cases beyond : n < used
    · -- the writer reports more than the size asked
      obtain ⟨h₁, ran⟩ :=
        SmallBuffer.tryFilled_overrun (ε := String) shapes.accounted n bytes beyond
      simp only [Fill.filler, EStateM.run_bind, ran]
      exact Or.inr (Or.inl ⟨n, bytes, used, rfl, beyond, rfl⟩)
    · obtain ⟨b, h₁, ran, live, kept, shaped, kind⟩ :=
        SmallBuffer.tryFilled_shaped (ε := String) shapes.accounted n bytes
          (Nat.le_of_not_lt beyond)
      simp only [Fill.filler, EStateM.run_bind, ran]
      exact created_keeps shapes _ live shaped kept (Asks.put asked name n)
        (by rw [kind, decide_eq_true_iff])
  | refuses message =>
    obtain ⟨h₁, ran, acc, kept⟩ := SmallBuffer.tryFilled_refusing shapes.accounted n message
    simp only [Fill.filler, EStateM.run_bind, ran, EStateM.run_pure]
    exact refused_keeps (shapes.congr acc kept) _ rfl

theorem clone_keeps {source : String} : ShapeKept h slots asked ⟨name, .clone source⟩
    ((smallStep slots ⟨name, .clone source⟩).run h) := by
  refine lookup_keeps shapes _ source fun b found => ?_
  -- the clone is one more owner of the source's storage, beside all the slots
  obtain ⟨h₁, ran, acc, same⟩ := SmallBuffer.clone_run (shapes.live found).accounted
  have perm : (b.handles ++ b.handles ++ bufferHandles (slots.remove source)).Perm
      (b.handles ++ bufferHandles slots) := by
    rw [List.append_assoc]
    exact ((Slots.owned_perm _ shapes.distinct found).append_left b.handles).symm
  have live : SmallBuffer.Live h₁ (bufferHandles slots) b :=
    ⟨acc.perm perm, SmallBuffer.valid_congr (fun j _ => same j) (shapes.live found).valid⟩
  obtain ⟨d, asked_d, kind⟩ := shapes.inline_iff source b found
  have asks : Asks asked (askedAfter asked slots ⟨name, .clone source⟩) name d := by
    show Asks asked (asked.put name ((asked.get? source).getD 0)).1 name d
    rw [asked_d]
    exact Asks.put asked name d
  simp only [EStateM.run_bind, ran]
  exact created_keeps shapes _ live ((shapes.shaped_of found).congr fun j _ => same j)
    (fun j _ => same j) asks kind

theorem reserve_keeps {n : Nat} : ShapeKept h slots asked ⟨name, .reserve n⟩
    ((smallStep slots ⟨name, .reserve n⟩).run h) := by
  refine limited_keeps shapes _ n fun within => ?_
  refine lookup_keeps shapes _ name fun b found => ?_
  obtain ⟨d, asked_d, kind⟩ := shapes.inline_iff name b found
  -- within the limit a region always grows
  have fits : b.isInline = true ∨ n ≤ b.capacity h ∨ b.capacity h * 7 + 2 ≤ wordMax := by
    have := limit_fits
    exact .inr (by omega)
  have asks : Asks asked (askedAfter asked slots ⟨name, .reserve n⟩) name (max d n) := by
    show Asks asked (asked.put name (max ((asked.get? name).getD 0) n)).1 name (max d n)
    rw [asked_d]
    exact Asks.put asked name _
  exact described_keeps shapes ⟨name, .reserve n⟩ (fun _ _ => rfl) asks
    ((SmallBuffer.reserve_shaped (shapes.live found) (shapes.shaped_of found) n fits).imp
      fun _ _ facts => ⟨facts.1, inline_raise kind facts.2.1⟩) []

theorem setLen_keeps {n : Nat} : ShapeKept h slots asked ⟨name, .setLen n⟩
    ((smallStep slots ⟨name, .setLen n⟩).run h) := by
  refine lookup_keeps shapes _ name fun b found => ?_
  obtain ⟨d, asked_d, kind⟩ := shapes.inline_iff name b found
  by_cases room : n ≤ b.capacity h
  · exact described_keeps shapes ⟨name, .setLen n⟩ (fun _ _ => rfl) (Asks.self asked_d)
      ((SmallBuffer.setLen_shaped (shapes.live found) (shapes.shaped_of found) room).imp
        fun _ _ facts => ⟨facts.1, inline_keep kind facts.2.1⟩) []
  · have past := Nat.lt_of_not_le room
    simp only [EStateM.run_bind, SmallBuffer.setLen_past past]
    exact Or.inl ⟨n, b, rfl, found, past, rfl⟩

theorem clear_keeps :
    ShapeKept h slots asked ⟨name, .clear⟩ ((smallStep slots ⟨name, .clear⟩).run h) := by
  refine lookup_keeps shapes _ name fun b found => ?_
  obtain ⟨d, asked_d, kind⟩ := shapes.inline_iff name b found
  exact described_keeps shapes ⟨name, .clear⟩ (fun _ _ => rfl) (Asks.self asked_d)
    ((SmallBuffer.setLen_shaped (shapes.live found) (shapes.shaped_of found)
      (Nat.zero_le _)).imp fun _ _ facts => ⟨facts.1, inline_keep kind facts.2.1⟩) []

theorem append_keeps {more : List UInt8} : ShapeKept h slots asked ⟨name, .append more⟩
    ((smallStep slots ⟨name, .append more⟩).run h) := by
  refine lookup_keeps shapes _ name fun b found => ?_
  obtain ⟨d, asked_d, kind⟩ := shapes.inline_iff name b found
  by_cases fits : b.isInline = true ∨ b.len + more.length ≤ b.capacity h ∨
      b.capacity h * 7 + 2 ≤ wordMax
  · have asks : Asks asked (askedAfter asked slots ⟨name, .append more⟩) name
        (max d (b.len + more.length)) := by
      show Asks asked (asked.put name (max ((asked.get? name).getD 0)
        (((slots.get? name).map SmallBuffer.len).getD 0 + more.length))).1 name _
      rw [asked_d, found]
      exact Asks.put asked name _
    exact described_keeps shapes ⟨name, .append more⟩ (fun _ _ => rfl) asks
      ((SmallBuffer.append_shaped (shapes.live found) (shapes.shaped_of found) more fits).imp
        fun _ _ ⟨shaped', raised⟩ => ⟨shaped', inline_raise kind raised⟩) []
  · -- a region too large to grow stops the append
    simp only [not_or, Bool.not_eq_true] at fits
    obtain ⟨onHeap, beyond, overflow⟩ := fits
    simp only [EStateM.run_bind, SmallBuffer.append_overflows onHeap (Nat.lt_of_not_le beyond)
      (Nat.lt_of_not_le overflow)]
    exact Or.inr (Or.inr ⟨b, found, onHeap, Nat.lt_of_not_le overflow, rfl⟩)

theorem fill_keeps {value : UInt8} : ShapeKept h slots asked ⟨name, .fill value⟩
    ((smallStep slots ⟨name, .fill value⟩).run h) := by
  refine lookup_keeps shapes _ name fun b found => ?_
  obtain ⟨d, asked_d, kind⟩ := shapes.inline_iff name b found
  exact described_keeps shapes ⟨name, .fill value⟩ (fun _ _ => rfl) (Asks.self asked_d)
    ((SmallBuffer.modifyBytes_shaped (shapes.live found) (shapes.shaped_of found) _).imp
      fun _ _ ⟨shaped', same⟩ => ⟨shaped', inline_keep kind same⟩) []

theorem write_keeps {offset : Nat} {more : List UInt8} : ShapeKept h slots asked
    ⟨name, .write offset more⟩ ((smallStep slots ⟨name, .write offset more⟩).run h) := by
  refine lookup_keeps shapes _ name fun b found => ?_
  obtain ⟨d, asked_d, kind⟩ := shapes.inline_iff name b found
  -- the writable bytes are taken first: a shared region is copied
  obtain ⟨b₁, h₁, ran₁, live₁, kept₁, shaped₁, same₁, -, -⟩ :=
    SmallBuffer.modifyCells_shaped (shapes.live found) (shapes.shaped_of found) id fun _ => rfl
  simp only [EStateM.run_bind, ran₁]
  by_cases past : b₁.len < offset + more.length
  · simp only [if_pos past, EStateM.run_pure]
    exact shapes.put live₁ shaped₁ kept₁ (Asks.self asked_d) (inline_keep kind same₁)
  · simp only [if_neg past]
    exact described_keeps shapes ⟨name, .write offset more⟩ kept₁ (Asks.self asked_d)
      ((SmallBuffer.modifyBytes_shaped live₁ shaped₁ _).imp
        fun _ _ facts => ⟨facts.1, inline_keep (inline_keep kind same₁) facts.2⟩) []

theorem writeCapacity_keeps {offset : Nat} {more : List UInt8} : ShapeKept h slots asked
    ⟨name, .writeCapacity offset more⟩
    ((smallStep slots ⟨name, .writeCapacity offset more⟩).run h) := by
  refine lookup_keeps shapes _ name fun b found => ?_
  obtain ⟨d, asked_d, kind⟩ := shapes.inline_iff name b found
  obtain ⟨b₁, h₁, ran₁, live₁, kept₁, shaped₁, same₁, -, -⟩ :=
    SmallBuffer.modifyCells_shaped (shapes.live found) (shapes.shaped_of found) id fun _ => rfl
  simp only [EStateM.run_bind, ran₁, heap, EStateM.run_get]
  by_cases past : b₁.capacity h₁ < offset + more.length
  · simp only [if_pos past, EStateM.run_pure]
    exact shapes.put live₁ shaped₁ kept₁ (Asks.self asked_d) (inline_keep kind same₁)
  · simp only [if_neg past]
    exact described_keeps shapes ⟨name, .writeCapacity offset more⟩ kept₁ (Asks.self asked_d)
      ((SmallBuffer.modifyCells_shaped live₁ shaped₁ _ fun _ => Word.length_overwrite _ _ _).imp
        fun _ _ facts => ⟨facts.1, inline_keep (inline_keep kind same₁) facts.2.1⟩) []

theorem equals_keeps {other : String} : ShapeKept h slots asked ⟨name, .equals other⟩
    ((smallStep slots ⟨name, .equals other⟩).run h) := by
  refine lookup_keeps shapes _ name fun b found => ?_
  refine lookup_keeps shapes _ other fun o _ => ?_
  obtain ⟨d, asked_d, kind⟩ := shapes.inline_iff name b found
  simp only [EStateM.run_bind, heap, EStateM.run_get, EStateM.run_pure]
  exact shapes.put (shapes.live found) (shapes.shaped_of found) (fun _ _ => rfl)
    (Asks.self asked_d) kind

theorem read_keeps :
    ShapeKept h slots asked ⟨name, .read⟩ ((smallStep slots ⟨name, .read⟩).run h) := by
  refine lookup_keeps shapes _ name fun b found => ?_
  obtain ⟨d, asked_d, kind⟩ := shapes.inline_iff name b found
  simp only [EStateM.run_bind, heap, EStateM.run_get, EStateM.run_pure]
  exact shapes.put (shapes.live found) (shapes.shaped_of found) (fun _ _ => rfl)
    (Asks.self asked_d) kind

theorem drop_keeps :
    ShapeKept h slots asked ⟨name, .drop⟩ ((smallStep slots ⟨name, .drop⟩).run h) := by
  refine lookup_keeps shapes _ name fun b found => ?_
  obtain ⟨h₁, ran, acc, same⟩ := SmallBuffer.release_run (shapes.live found).accounted
  simp only [EStateM.run_bind, ran, EStateM.run_pure]
  exact shapes.remove acc same

end Commands

theorem smallStep_keeps (shapes : Shapes h slots asked) (c : Slotted SmallCommand) :
    ShapeKept h slots asked c ((smallStep slots c).run h) := by
  obtain ⟨name, command⟩ := c
  cases command with
  | create => exact create_keeps shapes
  | withCapacity n => exact withCapacity_keeps shapes
  | ofBytes bytes => exact ofBytes_keeps shapes
  | filled n fill => exact filled_keeps shapes
  | clone source => exact clone_keeps shapes
  | reserve n => exact reserve_keeps shapes
  | setLen n => exact setLen_keeps shapes
  | clear => exact clear_keeps shapes
  | append more => exact append_keeps shapes
  | fill value => exact fill_keeps shapes
  | write offset more => exact write_keeps shapes
  | writeCapacity offset more => exact writeCapacity_keeps shapes
  | equals other => exact equals_keeps shapes
  | read => exact read_keeps shapes
  | drop => exact drop_keeps shapes

end SmallCommand

end Steps

theorem SmallReached.shapes {slots : Slots SmallBuffer} {h : Heap} {asked : Slots Nat}
    (reached : SmallReached slots h asked) : Shapes h slots asked := by
  induction reached with
  | start => exact Shapes.empty
  | step c _ ran shapes =>
    have kept := SmallCommand.smallStep_keeps shapes c
    rw [ran] at kept
    exact kept

/-- **Small buffers keep their shape.** In every reached state each buffer is inline with at most 28
bytes or on a region of more than 28 in words of 8, inline exactly when every size asked of it was
at most 28. -/
theorem small_buffers_keep_shape :
    (∀ slots h asked, SmallReached slots h asked → ∀ name b, slots.get? name = some b →
      b.Shaped h ∧ (b.isInline = true → (UInt8.ofNat b.len).toNat = b.len) ∧
        ∃ d, asked.get? name = some d ∧ (b.isInline = true ↔ d ≤ inlineCapacity)) ∧
    (∀ slots h asked (c : Slotted SmallCommand) f h', SmallReached slots h asked →
      (smallStep slots c).run h = .error f h' → SmallFault h slots c f) ∧
    (∀ (b : SmallBuffer) n, Yields (b.reserve n) fun b' =>
      b'.isInline = (b.isInline && decide (n ≤ inlineCapacity))) ∧
    (∀ (b : SmallBuffer) more, Yields (b.append more) fun b' =>
      b'.isInline = (b.isInline && decide (b.len + more.length ≤ inlineCapacity))) ∧
    (∀ (b : SmallBuffer) n, Yields (b.setLen n) fun b' => b'.isInline = b.isInline) ∧
    (∀ (b : SmallBuffer) edit, Yields (b.modifyCells edit) fun b' => b'.isInline = b.isInline) ∧
    (∀ n (h : Heap), ∃ b h', (SmallBuffer.withCapacity n).run h = .ok b h' ∧ b.Shaped h' ∧
      n ≤ b.capacity h' ∧ b.isInline = decide (n ≤ inlineCapacity)) := by
  refine ⟨fun slots h asked reached name b found => ?_, fun slots h asked c f h' reached ran => ?_,
    SmallBuffer.reserve_yields, SmallBuffer.append_yields, SmallBuffer.setLen_yields,
    SmallBuffer.modifyCells_yields, fun n h => ?_⟩
  · have shapes := reached.shapes
    have shaped := shapes.shaped_of found
    exact ⟨shaped, shaped.ofNat_len, shapes.inline_iff name b found⟩
  · -- a fault ends the step; which faults can arise is what each command allows
    have kept := SmallCommand.smallStep_keeps reached.shapes c
    rw [ran] at kept
    exact kept
  · obtain ⟨b, h', ran, -, -, shaped, kind, room⟩ :=
      SmallBuffer.withCapacity_shaped (Heap.accounted_handles h) n
    exact ⟨b, h', ran, shaped, room, kind⟩

/-- A buffer made with room for 40 bytes is a region on the heap of more than 28 bytes. -/
theorem roomy_buffer_lives_on_heap :
    ∃ h, SmallReached [("a", .large ⟨0⟩ 0)] h [("a", 40)] ∧ (SmallBuffer.large ⟨0⟩ 0).Shaped h := by
  obtain ⟨_, _, made⟩ : ∃ r h', (smallStep [] ⟨"a", .withCapacity 40⟩).run {} =
      .ok ([("a", .large ⟨0⟩ 0)], Answer.ok r) h' := by
    refine ⟨?report, ?heap, ?run⟩
    case run =>
      have limit : ¬ capacityLimit < 40 := by decide
      have large : ¬ 40 ≤ inlineCapacity := by decide
      simp only [smallStep, limit, SmallBuffer.withCapacity, large, CowStore.create, if_false,
        Nat.reduceEqDiff]
      rfl
  have reached := SmallReached.step _ .start made
  obtain ⟨shaped, -⟩ := small_buffers_keep_shape.1 _ _ _ reached "a" _ rfl
  exact ⟨_, reached, shaped⟩

end Session

end SysBytes
