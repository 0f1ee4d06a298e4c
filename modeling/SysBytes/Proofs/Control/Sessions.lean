import SysBytes.Proofs.Control.Clones
import SysBytes.Proofs.Control.Append
import SysBytes.Proofs.Store.Values
import SysBytes.Session.Control

/-!
Sessions over control buffers. A command on one slot keeps the slots tracked, replaces or
removes that slot alone, and leaves the region of every other slot as it was, also for clones
sharing a region and also at a fault.
-/
namespace SysBytes.Session

open Store Control

namespace Slots

variable {α : Type} {slots : Slots α} {name : String}

theorem remove_remove : (slots.remove name).remove name = slots.remove name := by
  unfold remove
  rw [List.filter_filter]
  congr 1
  funext e
  exact Bool.and_self _

theorem lookup_remove_self : (slots.remove name).lookup name = none := by
  rw [List.lookup_eq_none_iff]
  intro e mem
  have other : e.1 ≠ name := of_decide_eq_true (List.mem_filter.mp mem).2
  rw [bne_iff_ne]
  exact fun same => other same.symm

theorem mem_of_lookup {v : α} (found : slots.lookup name = some v) : (name, v) ∈ slots := by
  obtain ⟨front, back, split, -⟩ := List.lookup_eq_some_iff.mp found
  rw [split]
  exact List.mem_append_right front List.mem_cons_self

end Slots

def slotHandles (slots : Slots Buffer) (name : String) : List Nat :=
  match slots.get? name with
  | some b => b.handles
  | none => []

/-- Slots of buffers the heap tracks: it accounts for their handles, and no name is used twice. -/
structure Tracked (h : Heap) (slots : Slots Buffer) : Prop where
  accounted : Accounted h (Slots.owned Buffer.handles slots)
  distinct : (slots.map Prod.fst).Nodup

def Reslotted (slots : Slots Buffer) (name : String) (slots' : Slots Buffer) : Prop :=
  slots'.remove name = slots.remove name ∧ (slots'.map Prod.fst).Nodup

/-- A step on slot `name`: it keeps the regions of the other slots apart and replaces or removes
only that slot. -/
def SlotStep (slots : Slots Buffer) (name : String) (x : HeapM (Slots Buffer × Answer)) : Prop :=
  (∀ h, Tracked h slots → KeptApart (fun r => slotHandles r.1 name)
    (Slots.owned Buffer.handles (slots.remove name)) h (x.run h)) ∧
  Yields x fun r => Reslotted slots name r.1

section Slotted

variable {slots : Slots Buffer} {name : String}

theorem slotHandles_of_some {b : Buffer} (found : slots.get? name = some b) :
    slotHandles slots name = b.handles := by
  simp [slotHandles, found]

theorem slotHandles_put (b : Buffer) : slotHandles (slots.put name b).1 name = b.handles := by
  simp [slotHandles, Slots.get?, Slots.lookup_put]

theorem slotHandles_remove : slotHandles (slots.remove name) name = [] := by
  simp [slotHandles, Slots.get?, Slots.lookup_remove_self]

theorem owned_split (distinct : (slots.map Prod.fst).Nodup) :
    (Slots.owned Buffer.handles slots).Perm
      (slotHandles slots name ++ Slots.owned Buffer.handles (slots.remove name)) := by
  cases found : slots.get? name with
  | some b =>
    rw [slotHandles_of_some found]
    exact Slots.owned_perm _ distinct found
  | none =>
    have missing : slots.lookup name = none := found
    simp [slotHandles, found, Slots.remove_of_none missing]

theorem reslotted_self (distinct : (slots.map Prod.fst).Nodup) : Reslotted slots name slots :=
  ⟨rfl, distinct⟩

theorem reslotted_put (distinct : (slots.map Prod.fst).Nodup) (b : Buffer) :
    Reslotted slots name (slots.put name b).1 :=
  ⟨Slots.remove_put slots name b, Slots.nodup_put distinct name b⟩

theorem reslotted_remove (distinct : (slots.map Prod.fst).Nodup) :
    Reslotted slots name (slots.remove name) :=
  ⟨Slots.remove_remove, Slots.nodup_remove distinct name⟩

theorem slotStep_of_confined {x : HeapM (Slots Buffer × Answer)}
    (confined : Confined (slotHandles slots name) x fun r => slotHandles r.1 name)
    (shape : Yields x fun r => Reslotted slots name r.1) : SlotStep slots name x :=
  ⟨fun h tracked => confined _ h (tracked.accounted.perm (owned_split tracked.distinct)), shape⟩

end Slotted

theorem bufferReport_confined {mine : List Nat} (masked : Bool) (b : Buffer) :
    Confined mine (bufferReport masked b) fun _ => mine := by
  unfold bufferReport
  refine Confined.of_bind (Buffer.noteWalk_confined b) fun _ => ?_
  exact Confined.of_bind Confined.of_heap fun _ => Confined.of_pure _ fun _ => mine

theorem run_note (e : Log.Event) (h : Heap) :
    (note e).run h = .ok () { h with events := h.events ++ [e] } :=
  rfl

theorem run_notes (events : List Log.Event) (h : Heap) :
    (forIn events PUnit.unit fun e _ => do note e; pure (ForInStep.yield PUnit.unit) : HeapM PUnit).run h =
      .ok PUnit.unit { h with events := h.events ++ events } := by
  induction events generalizing h with
  | nil => simp
  | cons e rest ih =>
    simp only [List.forIn_cons, EStateM.run_bind, run_note, EStateM.run_pure, ih, List.append_assoc,
      List.singleton_append]

theorem noteWalk_run (b : Buffer) (h : Heap) :
    b.noteWalk.run h = .ok () { h with events := h.events ++ walkNotes (b.committed h) } := by
  unfold Buffer.noteWalk
  simp only [EStateM.run_bind, heap, EStateM.run_get, run_notes]
  rfl

theorem bufferReport_run (masked : Bool) (b : Buffer) (h : Heap) :
    ∃ r, (bufferReport masked b).run h =
      .ok r { h with events := h.events ++ walkNotes (b.committed h) } := by
  unfold bufferReport
  simp only [EStateM.run_bind, noteWalk_run, heap, EStateM.run_get, EStateM.run_pure]
  exact ⟨_, rfl⟩

section Placing

variable {slots : Slots Buffer} {name : String}

theorem put_eq (b : Buffer) : slots.put name b = ((slots.put name b).1, slots.lookup name) := by
  rw [← Slots.put_snd]

theorem placeBuffer_confined (b : Buffer) :
    Confined (b.handles ++ slotHandles slots name) (placeBuffer slots name b)
      fun slots' => slotHandles slots' name := by
  have placed := Confined.of_pure (slots.put name b).1 fun slots' => slotHandles slots' name
  rw [slotHandles_put] at placed
  unfold placeBuffer
  rw [put_eq b]
  simp only []
  cases found : slots.lookup name with
  | none =>
    have empty : slotHandles slots name = [] := by simp [slotHandles, Slots.get?, found]
    rw [empty, List.append_nil]
    exact placed
  | some old =>
    rw [slotHandles_of_some found]
    have released := Confined.frame b.handles (Buffer.release_confined old)
    rw [List.append_nil] at released
    exact Confined.of_bind released fun _ => placed

theorem placeBuffer_yields (b : Buffer) :
    Yields (placeBuffer slots name b) fun slots' => slots' = (slots.put name b).1 := by
  unfold placeBuffer
  rw [put_eq b]
  simp only []
  cases slots.lookup name with
  | none => exact Yields.of_pure rfl
  | some old => exact Yields.of_bind fun _ => Yields.of_pure rfl

theorem placed_confined (b' : Buffer) :
    Confined (b'.handles ++ slotHandles slots name) (placeBuffer slots name b' >>= fun slots' =>
      bufferReport false b' >>= fun r => pure (slots', Answer.ok r)) fun r => slotHandles r.1 name :=
  Confined.of_bind (placeBuffer_confined b') fun slots' =>
    Confined.of_bind (bufferReport_confined false b') fun r =>
      Confined.of_pure (slots', Answer.ok r) fun r => slotHandles r.1 name

theorem placed_run (missing : slots.get? name = none) (b : Buffer) (h : Heap) :
    ∃ a h', (placeBuffer slots name b >>= fun slots' =>
      bufferReport false b >>= fun r => pure (slots', Answer.ok r)).run h =
        .ok ((slots.put name b).1, a) h' := by
  obtain ⟨r, described⟩ := bufferReport_run false b h
  have unplaced : slots.lookup name = none := missing
  unfold placeBuffer
  rw [put_eq, unplaced]
  simp only [EStateM.run_bind, EStateM.run_pure, described]
  exact ⟨_, _, rfl⟩

theorem create_run (missing : slots.get? name = none) (h : Heap) :
    ∃ a h', (controlStep slots ⟨name, .create⟩).run h = .ok ((slots.put name Buffer.empty).1, a) h' :=
  placed_run missing Buffer.empty h

theorem clone_run {source : String} {b : Buffer} {s : CowStore} (missing : slots.get? name = none)
    (found : slots.get? source = some b) (stored : b.store = some s) (h : Heap) :
    ∃ a h', (controlStep slots ⟨name, .clone source⟩).run h = .ok ((slots.put name b).1, a) h' := by
  -- a clone is the same handle, with one owner more
  have shared : b.clone.run h = .ok b (h.update s.id fun r => { r with owners := r.owners + 1 }) := by
    obtain ⟨store, len⟩ := b
    cases stored
    rfl
  simp only [controlStep, found, EStateM.run_bind, shared]
  exact placed_run missing b _

theorem append_run {b b' : Buffer} {level kind : Int32} {p : List UInt8} {h h' : Heap}
    (found : slots.get? name = some b) (ran : (b.append level kind p).run h = .ok b' h') :
    ∃ a, (controlStep slots ⟨name, .append level kind p⟩).run h =
      .ok ((slots.put name b').1, a) { h' with events := h'.events ++ walkNotes (b'.committed h') } := by
  obtain ⟨r, described⟩ := bufferReport_run false b' h'
  simp only [controlStep, found, EStateM.run_bind, ran, described, EStateM.run_pure]
  exact ⟨_, rfl⟩

end Placing

section Patterns

variable {slots : Slots Buffer} {name : String} (distinct : (slots.map Prod.fst).Nodup)
include distinct

theorem refused_step (a : Answer) : SlotStep slots name (pure (slots, a)) :=
  slotStep_of_confined (Confined.of_pure (slots, a) fun r => slotHandles r.1 name)
    (Yields.of_pure (reslotted_self distinct))

theorem reported_step {b : Buffer} (found : slots.get? name = some b) (b' : Buffer)
    (same : b'.handles = b.handles) (extra : List (String × Report)) :
    SlotStep slots name (bufferReport false b' >>= fun r =>
      pure ((slots.put name b').1, Answer.ok (r.extend extra))) := by
  refine slotStep_of_confined ?_ (Yields.of_bind fun _ => Yields.of_pure (reslotted_put distinct b'))
  rw [slotHandles_of_some found, ← same]
  refine Confined.of_bind (bufferReport_confined false b') fun r => ?_
  have back := Confined.of_pure ((slots.put name b').1, Answer.ok (r.extend extra))
    fun r => slotHandles r.1 name
  rwa [slotHandles_put] at back

theorem inPlace_step {b : Buffer} (found : slots.get? name = some b) {β : Type} {x : HeapM β}
    {g : β → Buffer} (confined : Confined b.handles x fun v => (g v).handles)
    (extra : β → List (String × Report)) :
    SlotStep slots name (x >>= fun v => bufferReport false (g v) >>= fun r =>
      pure ((slots.put name (g v)).1, Answer.ok (r.extend (extra v)))) := by
  refine slotStep_of_confined ?_
    (Yields.of_bind fun v => Yields.of_bind fun _ => Yields.of_pure (reslotted_put distinct (g v)))
  rw [slotHandles_of_some found]
  refine Confined.of_bind confined fun v => ?_
  refine Confined.of_bind (bufferReport_confined false (g v)) fun r => ?_
  have back := Confined.of_pure ((slots.put name (g v)).1, Answer.ok (r.extend (extra v)))
    fun r => slotHandles r.1 name
  rwa [slotHandles_put] at back

theorem placed_yields (b' : Buffer) :
    Yields (placeBuffer slots name b' >>= fun slots' =>
      bufferReport false b' >>= fun r => pure (slots', Answer.ok r)) fun r => Reslotted slots name r.1 :=
  Yields.of_bind_yields (placeBuffer_yields b') fun _ placed =>
    Yields.of_bind fun _ => Yields.of_pure (placed ▸ reslotted_put distinct b')

theorem created_step {x : HeapM Buffer}
    (creates : ∀ h, Accounted h (Slots.owned Buffer.handles slots) →
      KeptApart Buffer.handles (Slots.owned Buffer.handles slots) h (x.run h)) :
    SlotStep slots name (x >>= fun b' => placeBuffer slots name b' >>= fun slots' =>
      bufferReport false b' >>= fun r => pure (slots', Answer.ok r)) := by
  refine ⟨fun h tracked => ?_, Yields.of_bind fun b' => placed_yields distinct b'⟩
  -- the new buffer's handles, with those of the slot it replaces, against the other slots
  have made : KeptApart (fun b' : Buffer => b'.handles ++ slotHandles slots name)
      (Slots.owned Buffer.handles (slots.remove name)) h (x.run h) :=
    (creates h tracked.accounted).regroup (fun b' => by
      rw [List.append_assoc]
      exact (owned_split distinct).append_left b'.handles)
    fun j mem => Slots.owned_remove_subset _ mem
  exact made.bind fun b' h1 acc1 _ => placed_confined b' _ h1 acc1

theorem dropped_step {b : Buffer} (found : slots.get? name = some b) (a : Answer) :
    SlotStep slots name (b.release >>= fun _ => pure (slots.remove name, a)) := by
  refine slotStep_of_confined ?_ (Yields.of_bind fun _ => Yields.of_pure (reslotted_remove distinct))
  rw [slotHandles_of_some found]
  have emptied := Confined.of_pure (slots.remove name, a) fun r => slotHandles r.1 name
  rw [slotHandles_remove] at emptied
  exact Confined.of_bind (Buffer.release_confined b) fun _ => emptied

theorem current_step {k : Buffer → HeapM (Slots Buffer × Answer)}
    (each : ∀ b, slots.get? name = some b → SlotStep slots name (k b)) :
    SlotStep slots name (match slots.get? name with
      | some b => k b
      | none => pure (slots, missingSlot name)) := by
  cases found : slots.get? name with
  | none => exact refused_step distinct _
  | some b => exact each b found

theorem limited_step {n : Nat} {x : HeapM (Slots Buffer × Answer)} (within : SlotStep slots name x) :
    SlotStep slots name (if capacityLimit < n then pure (slots, overLimit n) else x) := by
  by_cases limit : capacityLimit < n
  · rw [if_pos limit]
    exact refused_step distinct _
  · rw [if_neg limit]
    exact within

end Patterns

theorem clone_creates {slots : Slots Buffer} (distinct : (slots.map Prod.fst).Nodup) {source : String}
    {b : Buffer} (found : slots.get? source = some b) (h : Heap)
    (acc : Accounted h (Slots.owned Buffer.handles slots)) :
    KeptApart Buffer.handles (Slots.owned Buffer.handles slots) h (b.clone.run h) := by
  unfold Buffer.clone
  cases store : b.store with
  | none =>
    refine ⟨?_, fun _ _ => rfl⟩
    show Accounted h (b.handles ++ _)
    rwa [Buffer.handles_of_none store]
  | some s =>
    have perm := Slots.owned_perm Buffer.handles distinct found
    rw [Buffer.handles_of_some store] at perm
    obtain ⟨h', run, acc', same⟩ := CowStore.share_accounted (acc.perm perm)
    simp only [EStateM.run_bind, run]
    exact ⟨acc'.perm (perm.symm.cons s.id), fun j _ => same j⟩

theorem controlStep_slotStep {slots : Slots Buffer} (distinct : (slots.map Prod.fst).Nodup)
    (c : Slotted ControlCommand) : SlotStep slots c.slot (controlStep slots c) := by
  obtain ⟨name, command⟩ := c
  cases command with
  | create =>
    simp only [controlStep]
    exact slotStep_of_confined (placed_confined Buffer.empty) (placed_yields distinct _)
  | withCapacity n =>
    simp only [controlStep]
    exact limited_step distinct
      (created_step distinct fun h acc => Buffer.reserve_confined Buffer.empty n _ h acc)
  | ofBytes bytes =>
    simp only [controlStep]
    exact created_step distinct fun h acc => Buffer.overwriteWith_confined Buffer.empty _ _ _ h acc
  | collect ms =>
    simp only [controlStep]
    exact created_step distinct fun h acc => Buffer.extend_confined Buffer.empty ms _ h acc
  | extend ms =>
    simp only [controlStep]
    exact current_step distinct fun b found =>
      inPlace_step distinct found (g := fun v => v) (b.extend_confined ms) fun _ => []
  | clone source =>
    -- the new buffer comes from another slot, so the source's handle is not the slot's own
    simp only [controlStep]
    cases found : slots.get? source with
    | none => exact refused_step distinct _
    | some b => exact created_step distinct (clone_creates distinct found)
  | append level kind payload =>
    simp only [controlStep]
    exact current_step distinct fun b found =>
      inPlace_step distinct found (g := fun v => v) (b.append_confined level kind payload) fun _ => []
  | appendWith level kind capacity payload used =>
    simp only [controlStep]
    exact current_step distinct fun b found =>
      inPlace_step distinct found (g := fun v => v) (b.appendWith_confined level kind capacity _)
        fun _ => []
  | appendFds fds =>
    simp only [controlStep]
    exact current_step distinct fun b found =>
      inPlace_step distinct found (g := fun v => v) (b.appendFds_confined fds) fun _ => []
  | overwrite capacity bytes reported =>
    simp only [controlStep]
    exact limited_step distinct <| current_step distinct fun b found =>
      inPlace_step distinct found (g := fun v => v) (b.overwriteWith_confined capacity _) fun _ => []
  | clear =>
    simp only [controlStep]
    exact current_step distinct fun b found => reported_step distinct found b.clear rfl []
  | reserve n =>
    simp only [controlStep]
    exact limited_step distinct <| current_step distinct fun b found =>
      inPlace_step distinct found (g := fun v => v) (b.reserve_confined n) fun _ => []
  | messageAt i =>
    simp only [controlStep]
    exact current_step distinct fun b found =>
      inPlace_step distinct found (g := fun _ => b) (b.messageAt_confined i)
        fun m => [("message", messageReport false m)]
  | indexAfter i =>
    simp only [controlStep]
    exact current_step distinct fun b found =>
      inPlace_step distinct found (g := fun _ => b) (b.indexAfter_confined i)
        fun next => [("next", .nat next)]
  | drop =>
    simp only [controlStep]
    exact current_step distinct fun b found => dropped_step distinct found _

section Steps

variable {slots : Slots Buffer} {name : String} {x : HeapM (Slots Buffer × Answer)} {h : Heap}

theorem SlotStep.committed_kept (step : SlotStep slots name x) (tracked : Tracked h slots)
    {n : String} (other : n ≠ name) {o : Buffer} (found : slots.get? n = some o) :
    o.committed (heapAfter (x.run h)) = o.committed h := by
  have mem : (n, o) ∈ slots.remove name := by
    apply Slots.mem_of_lookup
    rw [Slots.lookup_remove_ne slots other]
    exact found
  exact Buffer.committed_of_cells fun j mine =>
    (step.1 h tracked).cells j (Slots.mem_owned_remove _ mem mine)

theorem SlotStep.get?_other (step : SlotStep slots name x) {r : Slots Buffer × Answer} {h' : Heap}
    (ran : x.run h = .ok r h') {n : String} (other : n ≠ name) : r.1.get? n = slots.get? n := by
  have reslotted := step.2 h r h' ran
  show r.1.lookup n = slots.lookup n
  rw [← Slots.lookup_remove_ne r.1 other, reslotted.1, Slots.lookup_remove_ne slots other]

theorem SlotStep.tracked (step : SlotStep slots name x) (tracked : Tracked h slots)
    {r : Slots Buffer × Answer} {h' : Heap} (ran : x.run h = .ok r h') : Tracked h' r.1 := by
  have kept := step.1 h tracked
  rw [ran] at kept
  obtain ⟨reslotted, distinct'⟩ := step.2 h r h' ran
  have acc := kept.1
  rw [← reslotted] at acc
  exact ⟨acc.perm (owned_split distinct').symm, distinct'⟩

end Steps

/-- The states a control session comes to, one command at a time from no slots and the empty heap.
-/
inductive Reached : Slots Buffer → Heap → Prop
  | start : Reached [] {}
  | step {slots : Slots Buffer} {h : Heap} (c : Slotted ControlCommand) {r : Slots Buffer × Answer}
      {h' : Heap} : Reached slots h → (controlStep slots c).run h = .ok r h' → Reached r.1 h'

theorem Tracked.start : Tracked {} [] :=
  ⟨⟨fun _ => rfl, by simp [Slots.owned]⟩, List.nodup_nil⟩

theorem Reached.tracked {slots : Slots Buffer} {h : Heap} (reached : Reached slots h) :
    Tracked h slots := by
  induction reached with
  | start => exact Tracked.start
  | step c _ ran tracked => exact (controlStep_slotStep tracked.distinct c).tracked tracked ran

theorem controlStep_keeps_others {slots : Slots Buffer} {h : Heap} (reached : Reached slots h)
    (c : Slotted ControlCommand) {n : String} (other : n ≠ c.slot) {o : Buffer}
    (found : slots.get? n = some o) :
    o.committed (heapAfter ((controlStep slots c).run h)) = o.committed h ∧
      ∀ r h', (controlStep slots c).run h = .ok r h' → r.1.get? n = some o := by
  have tracked := reached.tracked
  have step := controlStep_slotStep tracked.distinct c
  exact ⟨step.committed_kept tracked other found, fun r h' ran => (step.get?_other ran other).trans found⟩

/-- **Clones behave as independent copies.** A session over shared regions reports what the session
over values reports; a command on one slot, over regions or control buffers, changes the bytes of no
other slot, a clone included. -/
theorem clones_behave_as_copies :
    (∀ cs : List (Slotted SharedCommand), ∃ reports,
      (runShared cs).1 = .fields [("steps", .list reports)] ∧
        List.Forall₂ Reports reports (valueRun [] cs)) ∧
    (∀ (h : Heap) (slots : Slots CowStore) (vals : Slots (List UInt8)), Holds h slots vals →
      ∀ c slots' a h', (sharedStep slots c).run h = .ok (slots', a) h' → ∀ n, n ≠ c.slot →
        (slots'.get? n).map (CowStore.cells h') = (slots.get? n).map (CowStore.cells h)) ∧
    (∀ (slots : Slots Buffer) (h : Heap), Reached slots h → ∀ (c : Slotted ControlCommand) n o,
      n ≠ c.slot → slots.get? n = some o →
        o.committed (heapAfter ((controlStep slots c).run h)) = o.committed h ∧
          ∀ r h', (controlStep slots c).run h = .ok r h' → r.1.get? n = some o) :=
  ⟨runShared_reports,
    fun _ _ _ holds c _ _ _ ran _ other => sharedStep_seen_other holds c ran other,
    fun _ _ reached c _ _ other found => controlStep_keeps_others reached c other found⟩

/-- A record appended to a clone leaves the buffer it was cloned from, which shares its region,
with the one record it held. -/
theorem clone_append_keeps_source :
    ∃ slots h o, Reached slots h ∧ slots.get? "a" = some o ∧ slots.get? "b" = some o ∧
      o.store ≠ none ∧
      messages (o.committed (heapAfter ((controlStep slots ⟨"b", .append 1 2 [8]⟩).run h))) =
        [⟨1, 2, [7]⟩] := by
  obtain ⟨_, h₁, created⟩ := create_run (show Slots.get? ([] : Slots Buffer) "a" = none from rfl) {}
  obtain ⟨b, h₂, ran, appended⟩ := Buffer.append_appends 1 2 [7] (Buffer.empty_valid h₁)
    (Buffer.Built.valid_complete (.empty h₁)).2 ⟨by decide, Or.inr (show 0 * 7 + 2 ≤ wordMax by decide)⟩
  obtain ⟨_, stepped⟩ := append_run
    (show Slots.get? [("a", Buffer.empty)] "a" = some Buffer.empty from rfl) ran
  -- a record needs a region, so the clone shares one
  obtain ⟨s, stored⟩ := appended.stored
  obtain ⟨_, h₄, cloned⟩ := clone_run (show Slots.get? [("a", b)] "b" = none from rfl)
    (show Slots.get? [("a", b)] "a" = some b from rfl) stored _
  have appendedTo : Reached [("a", b)] _ := Reached.step _ (Reached.step _ .start created) stepped
  have reached : Reached [("a", b), ("b", b)] h₄ := Reached.step _ appendedTo cloned
  -- cloning into "b" and then appending to "b" both leave the bytes of "a"
  have keptByClone := (clones_behave_as_copies.2.2 _ _ appendedTo ⟨"b", .clone "a"⟩ "a" b
    (by decide) rfl).1
  have keptByAppend := (clones_behave_as_copies.2.2 _ _ reached ⟨"b", .append 1 2 [8]⟩ "a" b
    (by decide) rfl).1
  rw [cloned] at keptByClone
  have keptByClone : b.committed h₄ = b.committed h₂ := keptByClone
  refine ⟨_, _, b, reached, rfl, rfl, by simp [stored], ?_⟩
  rw [keptByAppend, keptByClone, appended.2.2.2.2.2, Buffer.committed_of_len_zero h₁ rfl, messages_nil]
  rfl

end SysBytes.Session
