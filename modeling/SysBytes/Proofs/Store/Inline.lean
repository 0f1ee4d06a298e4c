import SysBytes.Proofs.Store.Confined
import SysBytes.Proofs.Word
import SysBytes.Store.Small

/-!
Small buffers and the bytes they hold in use. Each operation takes a valid buffer, accounted
beside any other live handles, to a valid buffer accounted in its place, keeps the bytes of every
other handle, and changes the bytes in use as the operation on a plain list would.
-/
namespace SysBytes

namespace Store

namespace SmallBuffer

def handles : SmallBuffer → List Nat
  | .inline _ _ => []
  | .large s _ => [s.id]

def Valid (h : Heap) : SmallBuffer → Prop
  | .inline c n => c.length = inlineCapacity ∧ n ≤ inlineCapacity
  | .large s n => n ≤ s.capacity h

/-- A buffer the heap keeps live beside the handles `others`. -/
structure Live (h : Heap) (others : List Nat) (b : SmallBuffer) : Prop where
  accounted : Accounted h (b.handles ++ others)
  valid : b.Valid h

variable {h h' : Heap} {others : List Nat} {b : SmallBuffer}

theorem capacity_eq_length (h : Heap) (b : SmallBuffer) (valid : b.Valid h) :
    b.capacity h = (b.cells h).length := by
  cases b with
  | inline c n => exact valid.1.symm
  | large s n => rfl

theorem len_le_length (valid : b.Valid h) : b.len ≤ (b.cells h).length := by
  cases b with
  | inline c n => exact valid.1 ▸ valid.2
  | large s n => exact valid

theorem length_bytes (valid : b.Valid h) : (b.bytes h).length = b.len := by
  rw [bytes, List.length_take]
  exact Nat.min_eq_left (len_le_length valid)

theorem cells_congr (same : ∀ j ∈ b.handles, h'.cells j = h.cells j) : b.cells h' = b.cells h := by
  cases b with
  | inline c n => rfl
  | large s n => exact same s.id (List.mem_singleton_self _)

theorem bytes_congr (same : ∀ j ∈ b.handles, h'.cells j = h.cells j) : b.bytes h' = b.bytes h := by
  rw [bytes, bytes, cells_congr same]

theorem valid_congr (same : ∀ j ∈ b.handles, h'.cells j = h.cells j) (valid : b.Valid h) :
    b.Valid h' := by
  cases b with
  | inline c n => exact valid
  | large s n =>
    have kept : s.cells h' = s.cells h := same s.id (List.mem_singleton_self _)
    show n ≤ (s.cells h').length
    rw [kept]
    exact valid

@[simp] theorem handles_withLen (b : SmallBuffer) (n : Nat) : (b.withLen n).handles = b.handles := by
  cases b <;> rfl

@[simp] theorem cells_withLen (b : SmallBuffer) (n : Nat) : (b.withLen n).cells h = b.cells h := by
  cases b <;> rfl

@[simp] theorem len_withLen (b : SmallBuffer) (n : Nat) : (b.withLen n).len = n := by
  cases b <;> rfl

theorem valid_withLen (valid : b.Valid h) {n : Nat} (room : n ≤ (b.cells h).length) :
    (b.withLen n).Valid h := by
  cases b with
  | inline c n' => exact ⟨valid.1, valid.1 ▸ room⟩
  | large s n' => exact room

/-- A run from `h` that ends with a buffer live beside `others` and satisfying `P`. -/
def RunsLive (x : HeapM SmallBuffer) (h : Heap) (others : List Nat)
    (P : SmallBuffer → Heap → Prop) : Prop :=
  ∃ b' h', x.run h = .ok b' h' ∧ Live h' others b' ∧ (∀ j ∈ others, h'.cells j = h.cells j) ∧
    P b' h'

namespace RunsLive

variable {P Q : SmallBuffer → Heap → Prop}

theorem of_pure (live : Live h others b) (holds : P b h) : RunsLive (pure b) h others P :=
  ⟨b, h, rfl, live, fun _ _ => rfl, holds⟩

theorem bind {x : HeapM SmallBuffer} {f : SmallBuffer → HeapM SmallBuffer}
    (first : RunsLive x h others P)
    (rest : ∀ b₁ h₁, Live h₁ others b₁ → P b₁ h₁ → RunsLive (f b₁) h₁ others Q) :
    RunsLive (x >>= f) h others Q := by
  obtain ⟨b₁, h₁, run₁, live₁, kept₁, holds₁⟩ := first
  obtain ⟨b₂, h₂, run₂, live₂, kept₂, holds₂⟩ := rest b₁ h₁ live₁ holds₁
  refine ⟨b₂, h₂, ?_, live₂, fun j mem => (kept₂ j mem).trans (kept₁ j mem), holds₂⟩
  rw [EStateM.run_bind, run₁]
  exact run₂

theorem imp (run : RunsLive x h others P) (weaken : ∀ b' h', P b' h' → Q b' h') :
    RunsLive x h others Q := by
  obtain ⟨b', h', ran, live, kept, holds⟩ := run
  exact ⟨b', h', ran, live, kept, weaken b' h' holds⟩

end RunsLive

/-! ### One operation at a time -/

theorem setLen_run (room : n ≤ b.capacity h) : (b.setLen n).run h = .ok (b.withLen n) h := by
  simp [setLen, heap, Nat.not_lt.mpr room]

theorem setLen_runsLive (live : Live h others b) {n : Nat} (room : n ≤ (b.cells h).length) :
    RunsLive (b.setLen n) h others fun b' h' => b'.cells h' = b.cells h ∧ b'.len = n := by
  refine ⟨b.withLen n, h, setLen_run ?_, ⟨?_, valid_withLen live.valid room⟩, fun _ _ => rfl,
    cells_withLen b n, len_withLen b n⟩
  · rw [capacity_eq_length h b live.valid]
    exact room
  · rw [handles_withLen]
    exact live.accounted

theorem modifyCells_runsLive (live : Live h others b) (edit : List UInt8 → List UInt8)
    (keeps : ∀ c, (edit c).length = c.length) :
    RunsLive (b.modifyCells edit) h others fun b' h' =>
      b'.cells h' = edit (b.cells h) ∧ b'.len = b.len := by
  cases b with
  | inline c n =>
    exact ⟨.inline (edit c) n, h, rfl, ⟨live.accounted, (keeps c).trans live.valid.1,
      live.valid.2⟩, fun _ _ => rfl, rfl, rfl⟩
  | large s n =>
    -- a shared region is copied first; the copy is the buffer's alone
    obtain ⟨s', h', run, acc, written, kept⟩ := CowStore.modifyCells_accounted edit live.accounted
    refine ⟨.large s' n, h', ?_, ⟨acc, ?_⟩, kept, written, rfl⟩
    · simp only [modifyCells, EStateM.run_bind, run]
      rfl
    · show n ≤ (s'.cells h').length
      rw [written, keeps]
      exact live.valid

theorem modifyBytes_runsLive (live : Live h others b) (edit : List UInt8 → List UInt8)
    (keeps : ∀ l, (edit l).length = l.length) :
    RunsLive (b.modifyBytes edit) h others fun b' h' => b'.bytes h' = edit (b.bytes h) := by
  have fitted : ((edit ((b.cells h).take b.len)).take b.len).length = b.len := by
    rw [List.length_take, keeps, List.length_take]
    have := len_le_length live.valid
    omega
  apply (modifyCells_runsLive live _ fun c => Word.length_overwrite _ _ _).imp
  rintro b' h' ⟨written, same_len⟩
  rw [bytes, written, same_len]
  have front := Word.take_overwrite_zero (p := (edit ((b.cells h).take b.len)).take b.len)
    (show _ ≤ (b.cells h).length by rw [fitted]; exact len_le_length live.valid)
  rw [fitted] at front
  rw [front, List.take_of_length_le (by rw [keeps, ← bytes, length_bytes live.valid])]
  rfl

theorem clone_run (acc : Accounted h (b.handles ++ others)) :
    ∃ h', b.clone.run h = .ok b h' ∧ Accounted h' (b.handles ++ b.handles ++ others) ∧
      ∀ j, h'.cells j = h.cells j := by
  cases b with
  | inline c n => exact ⟨h, rfl, acc, fun _ => rfl⟩
  | large s n =>
    obtain ⟨h', run, acc', same⟩ := CowStore.share_accounted acc
    refine ⟨h', ?_, acc', same⟩
    simp only [clone, EStateM.run_bind, run]
    rfl

theorem release_run (acc : Accounted h (b.handles ++ others)) :
    ∃ h', b.release.run h = .ok () h' ∧ Accounted h' others ∧ ∀ j, h'.cells j = h.cells j := by
  cases b with
  | inline c n => exact ⟨h, rfl, acc, fun _ => rfl⟩
  | large s n => exact CowStore.release_accounted acc

theorem withCapacity_runsLive (acc : Accounted h others) (minimum : Nat) :
    RunsLive (withCapacity minimum) h others fun b h' =>
      b.len = 0 ∧ ∃ m, minimum ≤ m ∧ b.cells h' = List.replicate m 0 := by
  by_cases small : minimum ≤ inlineCapacity
  · have run : (withCapacity minimum).run h = .ok empty h := by simp [withCapacity, small]
    refine ⟨empty, h, run, ⟨acc, by simp [Valid, empty]⟩, fun _ _ => rfl, rfl, inlineCapacity,
      small, rfl⟩
  · obtain ⟨s, h', run, acc', zeroed, kept⟩ :=
      CowStore.create_accounted acc (n := minimum) (by unfold inlineCapacity at small; omega)
    refine ⟨.large s 0, h', ?_, ⟨acc', Nat.zero_le _⟩, kept, rfl, Word.roundUp8 minimum, ?_,
      zeroed⟩
    · simp only [withCapacity, if_neg small, EStateM.run_bind, run]
      rfl
    · unfold Word.roundUp8
      omega

theorem promote_runsLive {c : List UInt8} {n minimum : Nat} (live : Live h others (.inline c n))
    (large : ¬ minimum ≤ inlineCapacity) :
    RunsLive ((SmallBuffer.inline c n).reserve minimum) h others fun b' h' => ∃ s',
      b' = .large s' n ∧
        s'.cells h' = Word.overwrite (List.replicate (Word.roundUp8 minimum) 0) 0 (c.take n) := by
  obtain ⟨s, h1, run1, acc1, zeroed, kept1⟩ :=
    CowStore.create_accounted live.accounted (n := minimum)
      (by unfold inlineCapacity at large; omega)
  obtain ⟨s', h2, run2, acc2, written, kept2⟩ :=
    CowStore.modifyCells_accounted (fun cells => Word.overwrite cells 0 (c.take n)) acc1
  -- the event of the move touches no region
  obtain ⟨h3, run3, regions3⟩ : ∃ h3, (reserve (.inline c n) minimum).run h =
      .ok (.large s' n) h3 ∧ h3.regions = h2.regions :=
    ⟨_, by simp only [reserve, if_neg large, EStateM.run_bind, run1, run2, heap,
      EStateM.run_get, note, EStateM.run_modify]; rfl, by rfl⟩
  have stored : s'.cells h3 = Word.overwrite (List.replicate (Word.roundUp8 minimum) 0) 0
      (c.take n) := by
    rw [← zeroed, ← written, CowStore.cells, CowStore.cells, Heap.cells, Heap.cells, Heap.region,
      Heap.region, regions3]
  refine ⟨.large s' n, h3, run3, ⟨Accounted.of_regions regions3 acc2, ?_⟩,
    fun j mem => ?_, s', rfl, stored⟩
  · have := live.valid.2
    unfold inlineCapacity at this large
    show n ≤ (s'.cells h3).length
    rw [stored, Word.length_overwrite, List.length_replicate]
    unfold Word.roundUp8
    omega
  · rw [Heap.cells, Heap.cells, Heap.region, Heap.region, regions3]
    exact (kept2 j mem).trans (kept1 j mem)

theorem regrow_runsLive {s : CowStore} {n minimum : Nat} (live : Live h others (.large s n))
    (fits : minimum ≤ s.capacity h ∨ s.capacity h * 7 + 2 ≤ wordMax) :
    RunsLive ((SmallBuffer.large s n).reserve minimum) h others fun b' h' => ∃ s',
      b' = .large s' n ∧ s'.cells h' = CowStore.reservedCells (s.cells h) minimum := by
  obtain ⟨s', h', run, acc, grown, kept⟩ := CowStore.reserve_accounted live.accounted fits
  obtain ⟨k, extended, -⟩ := CowStore.length_reservedCells (s.cells h) minimum
  have within : n ≤ (s.cells h).length := live.valid
  refine ⟨.large s' n, h', ?_, ⟨acc, ?_⟩, kept, s', rfl, grown⟩
  · simp only [reserve, EStateM.run_bind, run]
    rfl
  · show n ≤ (s'.cells h').length
    rw [grown, extended, List.length_append]
    omega

theorem reserve_runsLive (live : Live h others b) {minimum : Nat}
    (fits : minimum * 7 + 2 ≤ wordMax) :
    RunsLive (b.reserve minimum) h others fun b' h' =>
      b'.bytes h' = b.bytes h ∧ b'.len = b.len ∧ minimum ≤ (b'.cells h').length := by
  cases b with
  | inline c n =>
    by_cases small : minimum ≤ inlineCapacity
    · refine ⟨.inline c n, h, by simp [reserve, small], live, fun _ _ => rfl, rfl, rfl, ?_⟩
      show minimum ≤ c.length
      rw [live.valid.1]
      exact small
    apply (promote_runsLive live small).imp
    rintro _ h' ⟨s', rfl, stored⟩
    have kept_bytes : (c.take n).length = n := by
      rw [List.length_take, live.valid.1]
      exact Nat.min_eq_left live.valid.2
    have room : n ≤ Word.roundUp8 minimum := by
      have := live.valid.2
      unfold inlineCapacity at this small
      unfold Word.roundUp8
      omega
    refine ⟨?_, rfl, ?_⟩
    · have front := Word.take_overwrite_zero (p := c.take n)
        (show _ ≤ (List.replicate (Word.roundUp8 minimum) 0).length by
          rw [kept_bytes, List.length_replicate]; exact room)
      rw [kept_bytes] at front
      show (s'.cells h').take n = c.take n
      rw [stored, front]
    · show minimum ≤ (s'.cells h').length
      rw [stored, Word.length_overwrite, List.length_replicate]
      unfold Word.roundUp8
      omega
  | large s n =>
    have fits' : minimum ≤ s.capacity h ∨ s.capacity h * 7 + 2 ≤ wordMax := by omega
    apply (regrow_runsLive live fits').imp
    rintro _ h' ⟨s', rfl, grown⟩
    obtain ⟨k, extended, room⟩ := CowStore.length_reservedCells (s.cells h) minimum
    have within : n ≤ (s.cells h).length := live.valid
    refine ⟨?_, rfl, ?_⟩
    · show (s'.cells h').take n = (s.cells h).take n
      rw [grown, extended, List.take_append_of_le_length within]
    · show minimum ≤ (s'.cells h').length
      rw [grown]
      exact room

theorem append_runsLive (live : Live h others b) (more : List UInt8)
    (fits : (b.len + more.length) * 7 + 2 ≤ wordMax) :
    RunsLive (b.append more) h others fun b' h' => b'.bytes h' = b.bytes h ++ more := by
  unfold append
  apply (reserve_runsLive live fits).bind
  rintro b₁ h₁ live₁ ⟨same₁, len₁, room₁⟩
  apply (modifyCells_runsLive live₁ _ fun c => Word.length_overwrite _ _ _).bind
  rintro b₂ h₂ live₂ ⟨written₂, len₂⟩
  have room₂ : b.len + more.length ≤ (b₂.cells h₂).length := by
    rw [written₂, Word.length_overwrite]
    exact room₁
  apply (setLen_runsLive live₂ room₂).imp
  rintro b₃ h₃ ⟨cells₃, len₃⟩
  rw [bytes, cells₃, len₃, written₂, len₁, Word.take_overwrite _ _ _ (len₁ ▸ room₁), ← len₁,
    ← bytes, same₁]

end SmallBuffer

namespace Filler

theorem run_writing {ε : Type} (region bytes : List UInt8) (used : Nat) :
    (writing bytes used : Filler ε).run region = .ok (Word.overwrite region 0 bytes, used) := by
  have fitted : (Word.overwrite region 0 bytes).take region.length = Word.overwrite region 0 bytes :=
    List.take_of_length_le (by rw [Word.length_overwrite])
  simp only [run, writing, fitted, Word.overwrite_zero_of_length (Word.length_overwrite _ _ _)]

end Filler

namespace SmallBuffer

variable {h : Heap} {others : List Nat}

theorem tryFilled_writing {ε : Type} (acc : Accounted h others) (n : Nat) (bytes : List UInt8)
    {used : Nat} (within : used ≤ n) :
    ∃ b h', (tryFilled n (Filler.writing bytes used : Filler ε)).run h = .ok (.ok b) h' ∧
      Live h' others b ∧ (∀ j ∈ others, h'.cells j = h.cells j) ∧
      b.bytes h' = (Word.overwrite (List.replicate n 0) 0 bytes).take used := by
  obtain ⟨b₁, h₁, run₁, live₁, kept₁, empty₁, m, room, zeroed⟩ := withCapacity_runsLive acc n
  have region : (b₁.cells h₁).take n = List.replicate n 0 := by
    rw [zeroed, List.take_replicate, Nat.min_eq_left room]
  have written_length : (Word.overwrite (List.replicate n 0) 0 bytes).length = n := by
    rw [Word.length_overwrite, List.length_replicate]
  obtain ⟨b₂, h₂, run₂, live₂, kept₂, written₂, len₂⟩ :=
    modifyCells_runsLive live₁ (fun cells => Word.overwrite cells 0
      (Word.overwrite (List.replicate n 0) 0 bytes)) fun c => Word.length_overwrite _ _ _
  have room₂ : used ≤ (b₂.cells h₂).length := by
    rw [written₂, Word.length_overwrite, zeroed, List.length_replicate]
    omega
  obtain ⟨b₃, h₃, run₃, live₃, kept₃, cells₃, len₃⟩ := setLen_runsLive live₂ room₂
  refine ⟨b₃, h₃, ?_, live₃, fun j mem => (kept₃ j mem).trans ((kept₂ j mem).trans (kept₁ j mem)),
    ?_⟩
  · simp only [tryFilled, EStateM.run_bind, run₁, heap, EStateM.run_get, region,
      Filler.run_writing, run₂, if_neg (Nat.not_lt.mpr within), run₃]
    rfl
  · -- the region as written lies at the start of the storage
    have front := Word.take_overwrite_zero (p := Word.overwrite (List.replicate n 0) 0 bytes)
      (show _ ≤ (b₁.cells h₁).length by rw [written_length, zeroed, List.length_replicate]; omega)
    rw [written_length] at front
    rw [SmallBuffer.bytes, cells₃, len₃, written₂]
    calc (Word.overwrite (b₁.cells h₁) 0 (Word.overwrite (List.replicate n 0) 0 bytes)).take used
        = ((Word.overwrite (b₁.cells h₁) 0
            (Word.overwrite (List.replicate n 0) 0 bytes)).take n).take used := by
          rw [List.take_take, Nat.min_eq_left within]
      _ = (Word.overwrite (List.replicate n 0) 0 bytes).take used := by rw [front]

theorem tryFilled_overrun {ε : Type} (acc : Accounted h others) (n : Nat) (bytes : List UInt8)
    {used : Nat} (beyond : n < used) :
    ∃ h', (tryFilled n (Filler.writing bytes used : Filler ε)).run h =
      .error (.initializerOverrun used n) h' := by
  obtain ⟨b₁, h₁, run₁, live₁, -, -, m, room, zeroed⟩ := withCapacity_runsLive acc n
  have region : (b₁.cells h₁).take n = List.replicate n 0 := by
    rw [zeroed, List.take_replicate, Nat.min_eq_left room]
  obtain ⟨b₂, h₂, run₂, -⟩ :=
    modifyCells_runsLive live₁ (fun cells => Word.overwrite cells 0
      (Word.overwrite (List.replicate n 0) 0 bytes)) fun c => Word.length_overwrite _ _ _
  refine ⟨h₂, ?_⟩
  simp only [tryFilled, EStateM.run_bind, run₁, heap, EStateM.run_get, region,
    Filler.run_writing, run₂, if_pos beyond]
  rfl

theorem tryFilled_refusing {ε : Type} (acc : Accounted h others) (n : Nat) (e : ε) :
    ∃ h', (tryFilled n (Filler.refusing e)).run h = .ok (.error e) h' ∧ Accounted h' others ∧
      ∀ j ∈ others, h'.cells j = h.cells j := by
  obtain ⟨b₁, h₁, run₁, live₁, kept₁, -⟩ := withCapacity_runsLive acc n
  obtain ⟨h₂, run₂, acc₂, same₂⟩ := release_run live₁.accounted
  refine ⟨h₂, ?_, acc₂, fun j mem => (same₂ j).trans (kept₁ j mem)⟩
  simp only [tryFilled, EStateM.run_bind, run₁, heap, EStateM.run_get, Filler.run,
    Filler.refusing, run₂]
  rfl

theorem ofBytes_runsLive (acc : Accounted h others) (bytes : List UInt8) :
    RunsLive (ofBytes bytes) h others fun b h' => b.bytes h' = bytes := by
  obtain ⟨b, h', run, live, kept, held⟩ :=
    tryFilled_writing (ε := Empty) acc bytes.length bytes (Nat.le_refl _)
  refine ⟨b, h', ?_, live, kept, ?_⟩
  · simp only [ofBytes, filled, EStateM.run_bind, run]
    rfl
  · show b.bytes h' = bytes
    rw [held, Word.overwrite_zero_of_length (by rw [List.length_replicate]), List.take_length]

theorem ofBytes_bytes (bytes : List UInt8) (h : Heap) :
    ∃ b h', (ofBytes bytes).run h = .ok b h' ∧ b.bytes h' = bytes := by
  obtain ⟨b, h', run, -, -, held⟩ := ofBytes_runsLive (Heap.accounted_handles h) bytes
  exact ⟨b, h', run, held⟩

theorem ofBytes_inline {bytes : List UInt8} (short : bytes.length ≤ inlineCapacity) (h : Heap) :
    (ofBytes bytes).run h =
      .ok (.inline (Word.overwrite (List.replicate inlineCapacity 0) 0 bytes) bytes.length) h := by
  have region : (List.replicate inlineCapacity (0 : UInt8)).take bytes.length =
      List.replicate bytes.length 0 := by
    rw [List.take_replicate, Nat.min_eq_left short]
  have whole : Word.overwrite (List.replicate bytes.length 0) 0 bytes = bytes :=
    Word.overwrite_zero_of_length (by rw [List.length_replicate])
  simp [ofBytes, filled, tryFilled, withCapacity, short, empty, cells, heap, region,
    Filler.run_writing, modifyCells, setLen, capacity, whole, Nat.not_lt.mpr short, withLen]

end SmallBuffer

end Store

end SysBytes
