import SysBytes.Proofs.Control.Sessions
import SysBytes.Proofs.Store.Inline
import SysBytes.Session.Small

/-!
Sessions over small buffers against slots of plain byte lists. Slots of buffers mirror slots of
lists, and every command of the vocabulary keeps that relation and answers as the list model
does, whatever mix of inline buffers, heap buffers and shared regions the slots hold.
-/
namespace SysBytes.Session

open Store

namespace Slots

variable {α β : Type} {slots : Slots α} {name : String}

theorem mem_put {v : α} {e : String × α} (mem : e ∈ (slots.put name v).1) :
    e = (name, v) ∨ (e ∈ slots ∧ e.1 ≠ name) := by
  cases found : slots.lookup name with
  | none =>
    rw [put_of_none found, List.mem_append, List.mem_singleton] at mem
    rcases mem with old | new
    · exact .inr ⟨old, ne_of_lookup_none found e old⟩
    · exact .inl new
  | some old =>
    rw [put_of_some found, List.mem_map] at mem
    obtain ⟨e', mem', rfl⟩ := mem
    by_cases here : e'.1 = name
    · exact .inl (if_pos here)
    · rw [if_neg here]
      exact .inr ⟨mem', here⟩

theorem map_put_congr (f g : α → β) (v : α) (frame : ∀ e ∈ slots, e.1 ≠ name → g e.2 = f e.2) :
    (slots.put name v).1.map (fun e : String × α => (e.1, g e.2)) =
      (Slots.put (slots.map fun e => (e.1, f e.2)) name (g v)).1 := by
  cases found : slots.lookup name with
  | none =>
    have missing : (slots.map fun e => (e.1, f e.2)).lookup name = none := by
      rw [lookup_map, found, Option.map_none]
    rw [put_of_none found, put_of_none missing, List.map_append, List.map_singleton]
    congr 1
    exact List.map_congr_left fun e mem => by rw [frame e mem (ne_of_lookup_none found e mem)]
  | some old =>
    have present : (slots.map fun e => (e.1, f e.2)).lookup name = some (f old) := by
      rw [lookup_map, found, Option.map_some]
    rw [put_of_some found, put_of_some present, List.map_map, List.map_map]
    apply List.map_congr_left
    intro e mem
    by_cases same : e.1 = name
    · simp [same]
    · simp [same, frame e mem same]

theorem map_remove_congr (f g : α → β) (frame : ∀ e ∈ slots, e.1 ≠ name → g e.2 = f e.2) :
    (slots.remove name).map (fun e : String × α => (e.1, g e.2)) =
      Slots.remove (slots.map fun e => (e.1, f e.2)) name := by
  rw [remove_map]
  apply List.map_congr_left
  intro e mem
  rw [frame e (List.mem_of_mem_filter mem) (by simpa [remove] using (List.mem_filter.mp mem).2)]

end Slots

/-! ### The list model -/

inductive SmallShown where
  | created
  | described (extra : List (String × Report))
  | dropped
  | refused (answer : Answer)

def SmallShown.stops : SmallShown → Bool
  | .refused a => a.stop
  | _ => false

/-- One command over slots of byte lists; `none` for a command outside the vocabulary. -/
def bytesStep (vals : Slots (List UInt8)) (c : Slotted SmallCommand) :
    Option (Except Fault (Slots (List UInt8) × SmallShown)) :=
  let created (bytes : List UInt8) := some (.ok ((vals.put c.slot bytes).1, SmallShown.created))
  let refused (a : Answer) := some (.ok (vals, SmallShown.refused a))
  let described (bytes : List UInt8) (extra : List (String × Report)) :=
    some (.ok ((vals.put c.slot bytes).1, SmallShown.described extra))
  let current (k : List UInt8 → Option (Except Fault (Slots (List UInt8) × SmallShown))) :=
    match vals.get? c.slot with
    | some bytes => k bytes
    | none => refused (missingSlot c.slot)
  match c.command with
  | .create => created []
  | .withCapacity n => if capacityLimit < n then refused (overLimit n) else created []
  | .ofBytes bytes => created bytes
  | .filled n (.writes bytes used) =>
    if capacityLimit < n then refused (overLimit n)
    else if n < used then some (.error (.initializerOverrun used n))
    else created ((Word.overwrite (List.replicate n 0) 0 bytes).take used)
  | .filled n (.refuses message) =>
    if capacityLimit < n then refused (overLimit n)
    else refused (Answer.error "init_error" message)
  | .clone source =>
    match vals.get? source with
    | some bytes => created bytes
    | none => refused (missingSlot source)
  | .reserve n =>
    if capacityLimit < n then refused (overLimit n) else current fun bytes => described bytes []
  | .setLen n => current fun bytes =>
    if n ≤ bytes.length then described (bytes.take n) [] else none
  | .clear => current fun _ => described [] []
  | .append more => current fun bytes =>
    if (bytes.length + more.length) * 7 + 2 ≤ wordMax then described (bytes ++ more) [] else none
  | .fill value => current fun bytes => described (bytes.map fun _ => value) []
  | .write offset more => current fun bytes =>
    if bytes.length < offset + more.length then
      refused (Answer.error "out_of_range" "write past region")
    else described (Word.overwrite bytes offset more) []
  | .writeCapacity _ _ => none
  | .equals other => current fun bytes =>
    match vals.get? other with
    | some theirs => described bytes [("equal", .bool (bytes == theirs))]
    | none => refused (missingSlot other)
  | .read => current fun bytes => described bytes [("read", Report.hex bytes)]
  | .drop => current fun _ => some (.ok (vals.remove c.slot, SmallShown.dropped))

/-! ### Buffers that mirror the model -/

def bufferHandles (slots : Slots SmallBuffer) : List Nat := Slots.owned SmallBuffer.handles slots

/-- Slots of buffers mirror slots of byte lists. -/
structure Mirrors (h : Heap) (slots : Slots SmallBuffer) (vals : Slots (List UInt8)) : Prop where
  accounted : Accounted h (bufferHandles slots)
  distinct : (slots.map Prod.fst).Nodup
  valid : ∀ e ∈ slots, e.2.Valid h
  seen : slots.map (fun e => (e.1, e.2.bytes h)) = vals

def Answers (h : Heap) (slots : Slots SmallBuffer) (name : String) : SmallShown → Answer → Prop
  | .created, a => ∃ b, slots.get? name = some b ∧ a = Answer.ok (smallReport h b)
  | .described extra, a =>
    ∃ b, slots.get? name = some b ∧ a = Answer.ok ((smallReport h b).extend extra)
  | .dropped, a => a = Answer.ok (.fields [("dropped", .text name)])
  | .refused a', a => a = a'

theorem Answers.stop {h : Heap} {slots : Slots SmallBuffer} {name : String} {shown : SmallShown}
    {a : Answer} (answers : Answers h slots name shown a) : a.stop = shown.stops := by
  cases shown with
  | created =>
    obtain ⟨b, -, rfl⟩ := answers
    rfl
  | described extra =>
    obtain ⟨b, -, rfl⟩ := answers
    rfl
  | dropped => rw [answers]; rfl
  | refused a' => rw [answers]; rfl

def SmallAgrees (name : String) : EStateM.Result Fault Heap (Slots SmallBuffer × Answer) →
    Except Fault (Slots (List UInt8) × SmallShown) → Prop
  | .ok (slots, a) h, .ok (vals, shown) => Mirrors h slots vals ∧ Answers h slots name shown a
  | .error f _, .error f' => f = f'
  | _, _ => False

section Mirrors

variable {h h' : Heap} {slots : Slots SmallBuffer} {vals : Slots (List UInt8)} {name : String}

theorem Mirrors.get? (mirrors : Mirrors h slots vals) (n : String) :
    vals.get? n = (slots.get? n).map (SmallBuffer.bytes h) := by
  rw [← mirrors.seen]
  exact Slots.lookup_map _ slots n

theorem Mirrors.empty : Mirrors {} [] [] :=
  ⟨⟨fun _ => rfl, by simp [bufferHandles, Slots.owned]⟩, List.nodup_nil, by simp, rfl⟩

theorem Mirrors.live (mirrors : Mirrors h slots vals) {b : SmallBuffer}
    (found : slots.get? name = some b) :
    SmallBuffer.Live h (bufferHandles (slots.remove name)) b :=
  ⟨mirrors.accounted.perm (Slots.owned_perm _ mirrors.distinct found),
    mirrors.valid _ (Slots.mem_of_lookup found)⟩

theorem Mirrors.kept_of_remove {j : Nat} (mem : j ∈ bufferHandles (slots.remove name)) :
    j ∈ bufferHandles slots :=
  Slots.owned_remove_subset _ mem

theorem Mirrors.put (mirrors : Mirrors h slots vals) {b : SmallBuffer}
    (live : SmallBuffer.Live h' (bufferHandles (slots.remove name)) b)
    (kept : ∀ j ∈ bufferHandles (slots.remove name), h'.cells j = h.cells j) :
    Mirrors h' (slots.put name b).1 (vals.put name (b.bytes h')).1 := by
  -- a slot other than `name` reads only handles that the step kept
  have other : ∀ e ∈ slots, e.1 ≠ name → ∀ j ∈ e.2.handles, h'.cells j = h.cells j :=
    fun e mem apart j mine => kept j (Slots.mem_owned_remove _
      (List.mem_filter.mpr ⟨mem, by simpa using apart⟩) mine)
  refine ⟨live.accounted.perm (Slots.owned_put _ mirrors.distinct b).symm,
    Slots.nodup_put mirrors.distinct name b, ?_, ?_⟩
  · intro e mem
    rcases Slots.mem_put mem with rfl | ⟨old, apart⟩
    · exact live.valid
    · exact SmallBuffer.valid_congr (other e old apart) (mirrors.valid e old)
  · rw [Slots.map_put_congr (SmallBuffer.bytes h) (SmallBuffer.bytes h') b
      fun e mem apart => SmallBuffer.bytes_congr (other e mem apart), mirrors.seen]

theorem Mirrors.remove (mirrors : Mirrors h slots vals) (acc : Accounted h' (bufferHandles (slots.remove name)))
    (same : ∀ j, h'.cells j = h.cells j) :
    Mirrors h' (slots.remove name) (vals.remove name) := by
  refine ⟨acc, Slots.nodup_remove mirrors.distinct name, fun e mem => ?_, ?_⟩
  · exact SmallBuffer.valid_congr (fun j _ => same j) (mirrors.valid e (List.mem_of_mem_filter mem))
  · rw [Slots.map_remove_congr (SmallBuffer.bytes h) (SmallBuffer.bytes h')
      (fun e _ _ => SmallBuffer.bytes_congr fun j _ => same j), mirrors.seen]

theorem Mirrors.put_self (mirrors : Mirrors h slots vals) {b : SmallBuffer}
    (found : slots.get? name = some b) : (vals.put name (b.bytes h)).1 = vals := by
  have distinct : (vals.map Prod.fst).Nodup := by
    rw [← mirrors.seen, List.map_map]
    exact mirrors.distinct
  apply Slots.put_lookup_self distinct
  show vals.get? name = _
  rw [mirrors.get? name, found, Option.map_some]

end Mirrors

/-! ### One command at a time -/

section Steps

variable {h : Heap} {slots : Slots SmallBuffer} {vals : Slots (List UInt8)} {name : String}

theorem refused_agrees (mirrors : Mirrors h slots vals) (a : Answer) :
    SmallAgrees name (.ok (slots, a) h) (.ok (vals, .refused a)) := ⟨mirrors, rfl⟩

theorem lookup_agrees (mirrors : Mirrors h slots vals) (slot : String)
    {k : SmallBuffer → HeapM (Slots SmallBuffer × Answer)}
    {k' : List UInt8 → Option (Except Fault (Slots (List UInt8) × SmallShown))}
    {r : Except Fault (Slots (List UInt8) × SmallShown)}
    (step : (match vals.get? slot with
      | some bytes => k' bytes
      | none => some (.ok (vals, SmallShown.refused (missingSlot slot)))) = some r)
    (found_agrees : ∀ b, slots.get? slot = some b → k' (b.bytes h) = some r →
      SmallAgrees name ((k b).run h) r) :
    SmallAgrees name ((match slots.get? slot with
      | some b => k b
      | none => pure (slots, missingSlot slot) : HeapM _).run h) r := by
  rw [mirrors.get? slot] at step
  cases found : slots.get? slot with
  | none =>
    simp only [found, Option.map_none, Option.some.injEq] at step ⊢
    subst step
    exact refused_agrees mirrors _
  | some b =>
    simp only [found, Option.map_some] at step
    exact found_agrees b found step

theorem limited_agrees (mirrors : Mirrors h slots vals) (n : Nat)
    {x : HeapM (Slots SmallBuffer × Answer)}
    {y : Option (Except Fault (Slots (List UInt8) × SmallShown))}
    {r : Except Fault (Slots (List UInt8) × SmallShown)}
    (step : (if capacityLimit < n then some (.ok (vals, SmallShown.refused (overLimit n)))
      else y) = some r)
    (within_agrees : n ≤ capacityLimit → y = some r → SmallAgrees name (x.run h) r) :
    SmallAgrees name ((if capacityLimit < n then pure (slots, overLimit n) else x).run h) r := by
  by_cases limit : capacityLimit < n
  · simp only [if_pos limit, Option.some.injEq] at step ⊢
    subst step
    exact refused_agrees mirrors _
  · simp only [if_neg limit] at step ⊢
    exact within_agrees (Nat.le_of_not_lt limit) step

theorem created_agrees (mirrors : Mirrors h slots vals) {b : SmallBuffer} {h₁ : Heap}
    {made : List UInt8} (live : SmallBuffer.Live h₁ (bufferHandles slots) b)
    (kept : ∀ j ∈ bufferHandles slots, h₁.cells j = h.cells j) (held : b.bytes h₁ = made) :
    SmallAgrees name ((match (slots.put name b).2 with
      | some o => do
        o.release
        let r ← heap
        pure ((slots.put name b).1, Answer.ok (smallReport r b))
      | _ => do
        let r ← heap
        pure ((slots.put name b).1, Answer.ok (smallReport r b)) : HeapM _).run h₁)
      (.ok ((vals.put name made).1, .created)) := by
  have kept' : ∀ j ∈ bufferHandles (slots.remove name), h₁.cells j = h.cells j :=
    fun j mem => kept j (Mirrors.kept_of_remove mem)
  rw [Slots.put_snd]
  cases found : slots.lookup name with
  | none =>
    -- nothing to give up: the other slots are all the slots
    have live' : SmallBuffer.Live h₁ (bufferHandles (slots.remove name)) b := by
      rw [Slots.remove_of_none found]
      exact live
    simp only [EStateM.run_bind, heap, EStateM.run_get, EStateM.run_pure]
    rw [← held]
    exact ⟨mirrors.put live' kept', b, Slots.lookup_put slots name b, rfl⟩
  | some old =>
    have acc : Accounted h₁ (old.handles ++ (b.handles ++ bufferHandles (slots.remove name))) :=
      live.accounted.perm (((Slots.owned_perm _ mirrors.distinct found).append_left
        b.handles).trans (List.perm_append_comm_assoc _ _ _))
    obtain ⟨h₂, released, acc₂, same₂⟩ := SmallBuffer.release_run acc
    have live₂ : SmallBuffer.Live h₂ (bufferHandles (slots.remove name)) b :=
      ⟨acc₂, SmallBuffer.valid_congr (fun j _ => same₂ j) live.valid⟩
    have held₂ : b.bytes h₂ = made := by
      rw [SmallBuffer.bytes_congr fun j _ => same₂ j, held]
    simp only [EStateM.run_bind, released, heap, EStateM.run_get, EStateM.run_pure]
    rw [← held₂]
    exact ⟨mirrors.put live₂ fun j mem => (same₂ j).trans (kept' j mem), b,
      Slots.lookup_put slots name b, rfl⟩

theorem described_agrees (mirrors : Mirrors h slots vals) {h₁ : Heap}
    (kept₁ : ∀ j ∈ bufferHandles (slots.remove name), h₁.cells j = h.cells j)
    {x : HeapM SmallBuffer} {changed : List UInt8}
    (run : SmallBuffer.RunsLive x h₁ (bufferHandles (slots.remove name))
      fun b' h' => b'.bytes h' = changed) (extra : List (String × Report)) :
    SmallAgrees name ((do
        let b' ← x
        let r ← heap
        pure ((slots.put name b').1, Answer.ok ((smallReport r b').extend extra)) : HeapM _).run h₁)
      (.ok ((vals.put name changed).1, .described extra)) := by
  obtain ⟨b', h', ran, live, kept, held⟩ := run
  simp only [EStateM.run_bind, ran, heap, EStateM.run_get, EStateM.run_pure]
  rw [← held]
  exact ⟨mirrors.put live fun j mem => (kept j mem).trans (kept₁ j mem), b',
    Slots.lookup_put slots name b', rfl⟩

theorem Mirrors.congr {h' : Heap} (mirrors : Mirrors h slots vals)
    (acc : Accounted h' (bufferHandles slots)) (same : ∀ j ∈ bufferHandles slots, h'.cells j = h.cells j) :
    Mirrors h' slots vals := by
  have mine : ∀ e ∈ slots, ∀ j ∈ e.2.handles, h'.cells j = h.cells j :=
    fun e mem j owned => same j (List.mem_flatMap.mpr ⟨e, mem, owned⟩)
  refine ⟨acc, mirrors.distinct, fun e mem => SmallBuffer.valid_congr (mine e mem)
    (mirrors.valid e mem), ?_⟩
  rw [← mirrors.seen]
  exact List.map_congr_left fun e mem => by rw [SmallBuffer.bytes_congr (mine e mem)]

theorem empty_live (mirrors : Mirrors h slots vals) :
    SmallBuffer.Live h (bufferHandles slots) SmallBuffer.empty :=
  ⟨mirrors.accounted, by simp [SmallBuffer.Valid, SmallBuffer.empty]⟩

theorem limit_fits : capacityLimit * 7 + 2 ≤ wordMax := by decide

namespace SmallCommand

section Commands

variable (mirrors : Mirrors h slots vals)
include mirrors

theorem create_agrees {r : Except Fault (Slots (List UInt8) × SmallShown)}
    (step : bytesStep vals ⟨name, .create⟩ = some r) :
    SmallAgrees name ((smallStep slots ⟨name, .create⟩).run h) r := by
  simp only [bytesStep, Option.some.injEq] at step
  subst step
  exact created_agrees mirrors (empty_live mirrors) (fun _ _ => rfl) rfl

theorem withCapacity_agrees {r : Except Fault (Slots (List UInt8) × SmallShown)} {n : Nat}
    (step : bytesStep vals ⟨name, .withCapacity n⟩ = some r) :
    SmallAgrees name ((smallStep slots ⟨name, .withCapacity n⟩).run h) r := by
  simp only [bytesStep] at step
  refine limited_agrees mirrors n step fun _ step => ?_
  simp only [Option.some.injEq] at step
  subst step
  obtain ⟨b, h₁, ran, live, kept, empty, -⟩ := SmallBuffer.withCapacity_runsLive mirrors.accounted n
  simp only [EStateM.run_bind, ran]
  exact created_agrees mirrors live kept (by rw [SmallBuffer.bytes, empty, List.take_zero])

theorem ofBytes_agrees {r : Except Fault (Slots (List UInt8) × SmallShown)} {bytes : List UInt8}
    (step : bytesStep vals ⟨name, .ofBytes bytes⟩ = some r) :
    SmallAgrees name ((smallStep slots ⟨name, .ofBytes bytes⟩).run h) r := by
  simp only [bytesStep, Option.some.injEq] at step
  subst step
  obtain ⟨b, h₁, ran, live, kept, held⟩ := SmallBuffer.ofBytes_runsLive mirrors.accounted bytes
  simp only [smallStep, EStateM.run_bind, ran]
  exact created_agrees mirrors live kept held

theorem filled_agrees {r : Except Fault (Slots (List UInt8) × SmallShown)} {n : Nat} {fill : Fill}
    (step : bytesStep vals ⟨name, .filled n fill⟩ = some r) :
    SmallAgrees name ((smallStep slots ⟨name, .filled n fill⟩).run h) r := by
  cases fill with
  | writes bytes used =>
    simp only [bytesStep] at step
    refine limited_agrees mirrors n step fun _ step => ?_
    by_cases beyond : n < used
    · -- the writer reports more than the capacity: both stop at the same fault
      simp only [if_pos beyond, Option.some.injEq] at step
      subst step
      obtain ⟨h₁, ran⟩ := SmallBuffer.tryFilled_overrun (ε := String) mirrors.accounted n bytes
        beyond
      simp only [Fill.filler, EStateM.run_bind, ran]
      rfl
    · simp only [if_neg beyond, Option.some.injEq] at step
      subst step
      obtain ⟨b, h₁, ran, live, kept, held⟩ := SmallBuffer.tryFilled_writing (ε := String)
        mirrors.accounted n bytes (Nat.le_of_not_lt beyond)
      simp only [Fill.filler, EStateM.run_bind, ran]
      exact created_agrees mirrors live kept held
  | refuses message =>
    simp only [bytesStep] at step
    refine limited_agrees mirrors n step fun _ step => ?_
    simp only [Option.some.injEq] at step
    subst step
    obtain ⟨h₁, ran, acc, kept⟩ := SmallBuffer.tryFilled_refusing mirrors.accounted n message
    simp only [Fill.filler, EStateM.run_bind, ran, EStateM.run_pure]
    exact refused_agrees (mirrors.congr acc kept) _

theorem clone_agrees {r : Except Fault (Slots (List UInt8) × SmallShown)} {source : String}
    (step : bytesStep vals ⟨name, .clone source⟩ = some r) :
    SmallAgrees name ((smallStep slots ⟨name, .clone source⟩).run h) r := by
  simp only [bytesStep] at step
  refine lookup_agrees mirrors source step fun b found step => ?_
  simp only [Option.some.injEq] at step
  subst step
  -- the clone is one more owner of the source's storage, beside all the slots
  obtain ⟨h₁, ran, acc, same⟩ := SmallBuffer.clone_run (mirrors.live found).accounted
  have perm : (b.handles ++ b.handles ++ bufferHandles (slots.remove source)).Perm
      (b.handles ++ bufferHandles slots) := by
    rw [List.append_assoc]
    exact ((Slots.owned_perm _ mirrors.distinct found).append_left b.handles).symm
  have live : SmallBuffer.Live h₁ (bufferHandles slots) b :=
    ⟨acc.perm perm, SmallBuffer.valid_congr (fun j _ => same j)
      (mirrors.valid _ (Slots.mem_of_lookup found))⟩
  simp only [EStateM.run_bind, ran]
  exact created_agrees mirrors live (fun j _ => same j)
    (SmallBuffer.bytes_congr fun j _ => same j)

theorem reserve_agrees {r : Except Fault (Slots (List UInt8) × SmallShown)} {n : Nat}
    (step : bytesStep vals ⟨name, .reserve n⟩ = some r) :
    SmallAgrees name ((smallStep slots ⟨name, .reserve n⟩).run h) r := by
  simp only [bytesStep] at step
  refine limited_agrees mirrors n step fun within step => ?_
  refine lookup_agrees mirrors name step fun b found step => ?_
  simp only [Option.some.injEq] at step
  subst step
  have fits : n * 7 + 2 ≤ wordMax := by have := limit_fits; omega
  exact described_agrees mirrors (fun _ _ => rfl)
    ((SmallBuffer.reserve_runsLive (mirrors.live found) fits).imp fun _ _ kept => kept.1) []

theorem setLen_agrees {r : Except Fault (Slots (List UInt8) × SmallShown)} {n : Nat}
    (step : bytesStep vals ⟨name, .setLen n⟩ = some r) :
    SmallAgrees name ((smallStep slots ⟨name, .setLen n⟩).run h) r := by
  simp only [bytesStep] at step
  refine lookup_agrees mirrors name step fun b found step => ?_
  have live := mirrors.live found
  -- a length past the bytes in use is outside the vocabulary
  by_cases shorter : n ≤ (b.bytes h).length
  · simp only [if_pos shorter, Option.some.injEq] at step
    subst step
    rw [SmallBuffer.length_bytes live.valid] at shorter
    apply described_agrees mirrors (fun _ _ => rfl)
      ((SmallBuffer.setLen_runsLive live
        (Nat.le_trans shorter (SmallBuffer.len_le_length live.valid))).imp _)
    rintro b' h' ⟨cells', len'⟩
    rw [SmallBuffer.bytes, cells', len', SmallBuffer.bytes, List.take_take,
      Nat.min_eq_left shorter]
  · simp only [if_neg shorter] at step
    cases step

theorem clear_agrees {r : Except Fault (Slots (List UInt8) × SmallShown)}
    (step : bytesStep vals ⟨name, .clear⟩ = some r) :
    SmallAgrees name ((smallStep slots ⟨name, .clear⟩).run h) r := by
  simp only [bytesStep] at step
  refine lookup_agrees mirrors name step fun b found step => ?_
  simp only [Option.some.injEq] at step
  subst step
  apply described_agrees mirrors (fun _ _ => rfl)
    ((SmallBuffer.setLen_runsLive (mirrors.live found) (Nat.zero_le _)).imp _)
  rintro b' h' ⟨-, len'⟩
  rw [SmallBuffer.bytes, len', List.take_zero]

theorem append_agrees {r : Except Fault (Slots (List UInt8) × SmallShown)} {more : List UInt8}
    (step : bytesStep vals ⟨name, .append more⟩ = some r) :
    SmallAgrees name ((smallStep slots ⟨name, .append more⟩).run h) r := by
  simp only [bytesStep] at step
  refine lookup_agrees mirrors name step fun b found step => ?_
  have live := mirrors.live found
  -- an append past what the growth rule reaches is outside the vocabulary
  by_cases fits : ((b.bytes h).length + more.length) * 7 + 2 ≤ wordMax
  · simp only [if_pos fits, Option.some.injEq] at step
    subst step
    rw [SmallBuffer.length_bytes live.valid] at fits
    exact described_agrees mirrors (fun _ _ => rfl)
      (SmallBuffer.append_runsLive live more fits) []
  · simp only [if_neg fits] at step
    cases step

theorem fill_agrees {r : Except Fault (Slots (List UInt8) × SmallShown)} {value : UInt8}
    (step : bytesStep vals ⟨name, .fill value⟩ = some r) :
    SmallAgrees name ((smallStep slots ⟨name, .fill value⟩).run h) r := by
  simp only [bytesStep] at step
  refine lookup_agrees mirrors name step fun b found step => ?_
  simp only [Option.some.injEq] at step
  subst step
  exact described_agrees mirrors (fun _ _ => rfl)
    (SmallBuffer.modifyBytes_runsLive (mirrors.live found) _ fun l => List.length_map _) []

theorem write_agrees {r : Except Fault (Slots (List UInt8) × SmallShown)} {offset : Nat}
    {more : List UInt8} (step : bytesStep vals ⟨name, .write offset more⟩ = some r) :
    SmallAgrees name ((smallStep slots ⟨name, .write offset more⟩).run h) r := by
  simp only [bytesStep] at step
  refine lookup_agrees mirrors name step fun b found step => ?_
  have live := mirrors.live found
  -- the writable bytes are taken first: a shared region is copied, the bytes kept
  obtain ⟨b₁, h₁, ran₁, live₁, kept₁, cells₁, len₁⟩ :=
    SmallBuffer.modifyCells_runsLive live id fun _ => rfl
  have same₁ : b₁.bytes h₁ = b.bytes h := by rw [SmallBuffer.bytes, cells₁, len₁]; rfl
  have len_eq : b₁.len = (b.bytes h).length := by rw [len₁, SmallBuffer.length_bytes live.valid]
  simp only [EStateM.run_bind, ran₁]
  by_cases past : (b.bytes h).length < offset + more.length
  · simp only [if_pos past, Option.some.injEq] at step
    subst step
    have past₁ : b₁.len < offset + more.length := by rw [len_eq]; exact past
    simp only [if_pos past₁, EStateM.run_pure]
    have kept := mirrors.put live₁ kept₁
    rw [same₁, mirrors.put_self found] at kept
    exact ⟨kept, rfl⟩
  · simp only [if_neg past, Option.some.injEq] at step
    subst step
    have inside₁ : ¬ b₁.len < offset + more.length := by rw [len_eq]; exact past
    simp only [if_neg inside₁]
    rw [← same₁]
    exact described_agrees mirrors kept₁
      (SmallBuffer.modifyBytes_runsLive live₁ _ fun l => Word.length_overwrite _ _ _) []

theorem equals_agrees {r : Except Fault (Slots (List UInt8) × SmallShown)} {other : String}
    (step : bytesStep vals ⟨name, .equals other⟩ = some r) :
    SmallAgrees name ((smallStep slots ⟨name, .equals other⟩).run h) r := by
  simp only [bytesStep] at step
  refine lookup_agrees mirrors name step fun b found step => ?_
  refine lookup_agrees mirrors other step fun o _ step => ?_
  simp only [Option.some.injEq] at step
  subst step
  simp only [EStateM.run_bind, heap, EStateM.run_get, EStateM.run_pure]
  exact ⟨mirrors.put (mirrors.live found) fun _ _ => rfl, b, Slots.lookup_put slots name b, rfl⟩

theorem read_agrees {r : Except Fault (Slots (List UInt8) × SmallShown)}
    (step : bytesStep vals ⟨name, .read⟩ = some r) :
    SmallAgrees name ((smallStep slots ⟨name, .read⟩).run h) r := by
  simp only [bytesStep] at step
  refine lookup_agrees mirrors name step fun b found step => ?_
  simp only [Option.some.injEq] at step
  subst step
  simp only [EStateM.run_bind, heap, EStateM.run_get, EStateM.run_pure]
  exact ⟨mirrors.put (mirrors.live found) fun _ _ => rfl, b, Slots.lookup_put slots name b, rfl⟩

theorem drop_agrees {r : Except Fault (Slots (List UInt8) × SmallShown)}
    (step : bytesStep vals ⟨name, .drop⟩ = some r) :
    SmallAgrees name ((smallStep slots ⟨name, .drop⟩).run h) r := by
  simp only [bytesStep] at step
  refine lookup_agrees mirrors name step fun b found step => ?_
  simp only [Option.some.injEq] at step
  subst step
  obtain ⟨h₁, ran, acc, same⟩ := SmallBuffer.release_run (mirrors.live found).accounted
  simp only [EStateM.run_bind, ran, EStateM.run_pure]
  exact ⟨mirrors.remove acc same, rfl⟩

end Commands

theorem smallStep_agrees (mirrors : Mirrors h slots vals) (c : Slotted SmallCommand)
    {r : Except Fault (Slots (List UInt8) × SmallShown)} (step : bytesStep vals c = some r) :
    SmallAgrees c.slot ((smallStep slots c).run h) r := by
  obtain ⟨name, command⟩ := c
  cases command with
  | create => exact create_agrees mirrors step
  | withCapacity n => exact withCapacity_agrees mirrors step
  | ofBytes bytes => exact ofBytes_agrees mirrors step
  | filled n fill => exact filled_agrees mirrors step
  | clone source => exact clone_agrees mirrors step
  | reserve n => exact reserve_agrees mirrors step
  | setLen n => exact setLen_agrees mirrors step
  | clear => exact clear_agrees mirrors step
  | append more => exact append_agrees mirrors step
  | fill value => exact fill_agrees mirrors step
  | write offset more => exact write_agrees mirrors step
  | writeCapacity offset more => cases step
  | equals other => exact equals_agrees mirrors step
  | read => exact read_agrees mirrors step
  | drop => exact drop_agrees mirrors step

end SmallCommand

end Steps

/-! ### Sessions -/

inductive SmallOutcome where
  | shown (name : String) (vals : Slots (List UInt8)) (shown : SmallShown)
  | fault (f : Fault)

def bytesRun : Slots (List UInt8) → List (Slotted SmallCommand) → Option (List SmallOutcome)
  | _, [] => some []
  | vals, c :: rest =>
    match bytesStep vals c with
    | none => none
    | some (.error f) => some [.fault f]
    | some (.ok (vals', shown)) =>
      if shown.stops then some [.shown c.slot vals' shown]
      else (bytesRun vals' rest).map (.shown c.slot vals' shown :: ·)

def SmallReports (r : Report) : SmallOutcome → Prop
  | .shown name vals shown =>
    ∃ h slots a, Mirrors h slots vals ∧ Answers h slots name shown a ∧ r = a.report
  | .fault f => r = Report.failure "panic" f.message

theorem runSteps_mirrors {h : Heap} {slots : Slots SmallBuffer} {vals : Slots (List UInt8)}
    (mirrors : Mirrors h slots vals) {cs : List (Slotted SmallCommand)}
    {outcomes : List SmallOutcome} (modelled : bytesRun vals cs = some outcomes) :
    ∃ reports h', (runSteps smallStep slots cs).run h = .ok reports h' ∧
      List.Forall₂ SmallReports reports outcomes := by
  induction cs generalizing h slots vals outcomes with
  | nil =>
    cases modelled
    exact ⟨[], h, rfl, List.Forall₂.nil⟩
  | cons c rest ih =>
    simp only [bytesRun] at modelled
    cases stepped : bytesStep vals c with
    | none => simp [stepped] at modelled
    | some r =>
      have agrees := SmallCommand.smallStep_agrees mirrors c stepped
      simp only [runSteps, EStateM.run_bind, run_tryCatch]
      cases ran : (smallStep slots c).run h with
      | ok result h₁ =>
        obtain ⟨slots', a⟩ := result
        rw [ran] at agrees
        cases r with
        | error f => exact agrees.elim
        | ok next =>
          obtain ⟨vals', shown⟩ := next
          obtain ⟨mirrors', answers⟩ := agrees
          simp only [stepped] at modelled
          simp only [answers.stop]
          by_cases stops : shown.stops = true
          · simp only [if_pos stops, Option.some.injEq] at modelled ⊢
            subst modelled
            exact ⟨_, _, rfl, List.Forall₂.cons ⟨h₁, slots', a, mirrors', answers, rfl⟩
              List.Forall₂.nil⟩
          · simp only [if_neg stops] at modelled ⊢
            obtain ⟨more, continued, rfl⟩ := Option.map_eq_some_iff.mp modelled
            obtain ⟨reports, h₂, run_rest, agree⟩ := ih mirrors' continued
            simp only [EStateM.run_bind, run_rest, EStateM.run_pure]
            exact ⟨_, _, rfl, List.Forall₂.cons ⟨h₁, slots', a, mirrors', answers, rfl⟩ agree⟩
      | error f h₁ =>
        rw [ran] at agrees
        cases r with
        | ok next => exact agrees.elim
        | error f' =>
          have same : f = f' := agrees
          subst same
          simp only [stepped, Option.some.injEq] at modelled
          subst modelled
          simp only [EStateM.run_pure]
          exact ⟨_, _, rfl, List.Forall₂.cons rfl List.Forall₂.nil⟩

theorem runSmall_mirrors {cs : List (Slotted SmallCommand)} {outcomes : List SmallOutcome}
    (modelled : bytesRun [] cs = some outcomes) :
    ∃ reports, (runSmall cs).1 = .fields [("steps", .list reports)] ∧
      List.Forall₂ SmallReports reports outcomes := by
  obtain ⟨reports, h', ran, agree⟩ := runSteps_mirrors Mirrors.empty modelled
  exact ⟨reports, by simp only [runSmall, runSession, ran], agree⟩

/-- **Small buffers hold the bytes of plain lists.** Over every session of the vocabulary, each
command answers over buffers whose bytes in use are those of the list model, or panics where the
model stops. -/
theorem small_buffers_hold_list_bytes :
    (∀ cs outcomes, bytesRun [] cs = some outcomes →
      ∃ reports, (runSmall cs).1 = .fields [("steps", .list reports)] ∧
        List.Forall₂ SmallReports reports outcomes) ∧
    ∀ name cs outcomes, bytesRun [] (⟨name, .create⟩ :: cs) = some outcomes →
      ∃ inline onHeap,
        (runSmall (⟨name, .create⟩ :: cs)).1 = .fields [("steps", .list inline)] ∧
        (runSmall (⟨name, .withCapacity 29⟩ :: cs)).1 = .fields [("steps", .list onHeap)] ∧
        List.Forall₂ SmallReports inline outcomes ∧ List.Forall₂ SmallReports onHeap outcomes := by
  refine ⟨fun cs outcomes modelled => runSmall_mirrors modelled, fun name cs outcomes modelled => ?_⟩
  -- the list model makes the same empty list either way
  have forced : bytesRun [] (⟨name, .withCapacity 29⟩ :: cs) = some outcomes := by
    rw [← modelled]
    simp [bytesRun, bytesStep, capacityLimit]
  obtain ⟨inline, ran, agree⟩ := runSmall_mirrors modelled
  obtain ⟨onHeap, ran', agree'⟩ := runSmall_mirrors forced
  exact ⟨inline, onHeap, ran, ran', agree, agree'⟩

/-- A clone of a buffer on the heap shares its region until it is written; the write leaves the
original as it was, and the two then compare unequal. -/
theorem clones_written_apart :
    (∃ outcomes, bytesRun [] [⟨"a", .withCapacity 29⟩, ⟨"a", .append [1, 2]⟩, ⟨"b", .clone "a"⟩,
        ⟨"b", .write 0 [9]⟩, ⟨"a", .equals "b"⟩] = some outcomes ∧
      outcomes.getLast? = some (.shown "a" [("a", [1, 2]), ("b", [9, 2])]
        (.described [("equal", .bool false)])) ∧
      ∃ reports, (runSmall [⟨"a", .withCapacity 29⟩, ⟨"a", .append [1, 2]⟩, ⟨"b", .clone "a"⟩,
        ⟨"b", .write 0 [9]⟩, ⟨"a", .equals "b"⟩]).1 = .fields [("steps", .list reports)] ∧
        List.Forall₂ SmallReports reports outcomes) ∧
    ∃ outcomes, bytesRun [] [⟨"a", .create⟩, ⟨"a", .append [1, 2]⟩] = some outcomes ∧
      ∃ inline onHeap,
        (runSmall [⟨"a", .create⟩, ⟨"a", .append [1, 2]⟩]).1 = .fields [("steps", .list inline)] ∧
        (runSmall [⟨"a", .withCapacity 29⟩, ⟨"a", .append [1, 2]⟩]).1 =
          .fields [("steps", .list onHeap)] ∧
        List.Forall₂ SmallReports inline outcomes ∧ List.Forall₂ SmallReports onHeap outcomes :=
  ⟨⟨_, rfl, rfl, small_buffers_hold_list_bytes.1 _ _ rfl⟩,
    ⟨_, rfl, small_buffers_hold_list_bytes.2 "a" _ _ rfl⟩⟩

end SysBytes.Session
