import Mathlib
import SysBytes.Proofs.Store.Handles
import SysBytes.Session.Shared

/-!
Sessions over shared regions against slots of plain values, in which each slot owns its bytes
and a clone copies them. Every command keeps the slots holding the values and answers as the
value model does, so no slot ever sees a write made through another.
-/
namespace SysBytes.Session

open Store

namespace Slots

variable {α β : Type}

theorem lookup_map (g : α → β) (slots : Slots α) (name : String) :
    (slots.map fun e => (e.1, g e.2)).lookup name = (slots.lookup name).map g := by
  induction slots with
  | nil => rfl
  | cons e rest ih =>
    obtain ⟨k, v⟩ := e
    by_cases same : name = k
    · subst same
      simp
    · have differ : (name == k) = false := by simpa using same
      simp [List.lookup_cons, differ, ih]

theorem put_snd (slots : Slots α) (name : String) (v : α) :
    (slots.put name v).2 = slots.lookup name := by
  unfold put
  split
  · rename_i old found
    exact found.symm
  · rename_i missing
    exact missing.symm

theorem put_of_some {slots : Slots α} {name : String} {old : α} (found : slots.lookup name = some old)
    (v : α) : (slots.put name v).1 = slots.map fun e => if e.1 = name then (name, v) else e := by
  simp [put, found]

theorem put_of_none {slots : Slots α} {name : String} (missing : slots.lookup name = none) (v : α) :
    (slots.put name v).1 = slots ++ [(name, v)] := by
  simp [put, missing]

theorem ne_of_lookup_none {slots : Slots α} {name : String} (missing : slots.lookup name = none) :
    ∀ e ∈ slots, e.1 ≠ name := by
  intro e mem same
  have := List.lookup_eq_none_iff.mp missing e mem
  simp [same] at this

theorem remove_of_none {slots : Slots α} {name : String} (missing : slots.lookup name = none) :
    slots.remove name = slots := by
  unfold remove
  rw [List.filter_eq_self]
  intro e mem
  simpa using ne_of_lookup_none missing e mem

theorem remove_replace (slots : Slots α) (name : String) (v : α) :
    remove (slots.map fun e => if e.1 = name then (name, v) else e) name = slots.remove name := by
  induction slots with
  | nil => rfl
  | cons e rest ih =>
    unfold remove at ih ⊢
    by_cases same : e.1 = name
    · simpa [same] using ih
    · simpa [same] using ih

theorem remove_put (slots : Slots α) (name : String) (v : α) :
    (slots.put name v).1.remove name = slots.remove name := by
  cases found : slots.lookup name with
  | none => simp [put_of_none found, remove, List.filter_append]
  | some old => rw [put_of_some found, remove_replace]

theorem lookup_replace_self {slots : Slots α} {name : String} {old : α}
    (found : slots.lookup name = some old) (v : α) :
    List.lookup name (slots.map fun e => if e.1 = name then (name, v) else e) = some v := by
  induction slots with
  | nil => cases found
  | cons e rest ih =>
    obtain ⟨k, w⟩ := e
    by_cases here : k = name
    · subst here
      simp
    · have differ : (name == k) = false := by simpa using Ne.symm here
      rw [List.lookup_cons, differ] at found
      simp [List.lookup_cons, here, differ, ih found]

theorem lookup_replace_ne (slots : Slots α) {name n : String} (other : n ≠ name) (v : α) :
    List.lookup n (slots.map fun e => if e.1 = name then (name, v) else e) = slots.lookup n := by
  induction slots with
  | nil => rfl
  | cons e rest ih =>
    obtain ⟨k, w⟩ := e
    by_cases here : k = name
    · subst here
      have differ : (n == k) = false := by simpa using other
      simp [List.lookup_cons, differ, ih]
    · simp [List.lookup_cons, here, ih]

theorem lookup_put (slots : Slots α) (name : String) (v : α) :
    (slots.put name v).1.lookup name = some v := by
  cases found : slots.lookup name with
  | none => simp [put_of_none found, List.lookup_append, found]
  | some old => rw [put_of_some found, lookup_replace_self found]

theorem lookup_put_ne (slots : Slots α) {name n : String} (other : n ≠ name) (v : α) :
    (slots.put name v).1.lookup n = slots.lookup n := by
  cases found : slots.lookup name with
  | none =>
    have beyond : List.lookup n [(name, v)] = none := by simp [other]
    rw [put_of_none found, List.lookup_append, beyond, Option.or_none]
  | some old => rw [put_of_some found, lookup_replace_ne slots other]

theorem lookup_remove_ne (slots : Slots α) {name n : String} (other : n ≠ name) :
    (slots.remove name).lookup n = slots.lookup n := by
  induction slots with
  | nil => rfl
  | cons e rest ih =>
    obtain ⟨k, w⟩ := e
    unfold remove at ih ⊢
    by_cases here : k = name
    · subst here
      have differ : (n == k) = false := by simpa using other
      simpa [List.lookup_cons, differ] using ih
    · by_cases same : n = k
      · subst same
        simp [here]
      · have differ : (n == k) = false := by simpa using same
        simpa [List.lookup_cons, here, differ] using ih

theorem nodup_put {slots : Slots α} (distinct : (slots.map Prod.fst).Nodup) (name : String) (v : α) :
    ((slots.put name v).1.map Prod.fst).Nodup := by
  cases found : slots.lookup name with
  | none =>
    rw [put_of_none found, List.map_append, List.nodup_append]
    refine ⟨distinct, List.nodup_singleton _, ?_⟩
    intro a mem b mem'
    obtain ⟨e, mem_e, rfl⟩ := List.mem_map.mp mem
    rw [List.map_singleton, List.mem_singleton] at mem'
    subst mem'
    exact ne_of_lookup_none found e mem_e
  | some old =>
    have names : (slots.map fun e => if e.1 = name then (name, v) else e).map Prod.fst =
        slots.map Prod.fst := by
      rw [List.map_map]
      apply List.map_congr_left
      intro e _
      by_cases same : e.1 = name <;> simp [same]
    rw [put_of_some found, names]
    exact distinct

theorem nodup_remove {slots : Slots α} (distinct : (slots.map Prod.fst).Nodup) (name : String) :
    ((slots.remove name).map Prod.fst).Nodup :=
  distinct.sublist (List.filter_sublist.map _)

theorem put_lookup_self {slots : Slots α} (distinct : (slots.map Prod.fst).Nodup) {name : String}
    {v : α} (found : slots.lookup name = some v) : (slots.put name v).1 = slots := by
  rw [put_of_some found]
  induction slots with
  | nil => rfl
  | cons e rest ih =>
    obtain ⟨k, w⟩ := e
    rw [List.map_cons, List.nodup_cons] at distinct
    by_cases here : k = name
    · subst here
      rw [List.lookup_cons_self, Option.some.injEq] at found
      subst found
      have apart : ∀ e ∈ rest, e.1 ≠ k := by
        intro e mem same
        have named : e.1 ∈ rest.map Prod.fst := List.mem_map_of_mem mem
        rw [same] at named
        exact distinct.1 named
      have kept : (rest.map fun e => if e.1 = k then (k, w) else e) = rest := by
        rw [List.map_congr_left (fun e mem => if_neg (apart e mem)), List.map_id']
      simp [kept]
    · have differ : (name == k) = false := by simpa using Ne.symm here
      rw [List.lookup_cons, differ] at found
      simp [here, ih distinct.2 found]

theorem remove_map (g : α → β) (slots : Slots α) (name : String) :
    remove (slots.map fun e => (e.1, g e.2)) name = (slots.remove name).map fun e => (e.1, g e.2) := by
  unfold remove
  rw [List.filter_map]
  rfl

def owned (f : α → List Nat) (slots : Slots α) : List Nat := slots.flatMap fun e => f e.2

section Owned

variable (f : α → List Nat) {slots : Slots α} {name : String}

theorem mem_owned_remove {e : String × α} (mem : e ∈ slots.remove name) {j : Nat} (mine : j ∈ f e.2) :
    j ∈ owned f (slots.remove name) :=
  List.mem_flatMap.mpr ⟨e, mem, mine⟩

theorem owned_remove_subset {j : Nat} (mem : j ∈ owned f (slots.remove name)) : j ∈ owned f slots := by
  obtain ⟨e, kept, mine⟩ := List.mem_flatMap.mp mem
  exact List.mem_flatMap.mpr ⟨e, List.mem_of_mem_filter kept, mine⟩

theorem owned_perm (distinct : (slots.map Prod.fst).Nodup) {v : α} (found : slots.lookup name = some v) :
    (owned f slots).Perm (f v ++ owned f (slots.remove name)) := by
  induction slots with
  | nil => cases found
  | cons e rest ih =>
    obtain ⟨k, w⟩ := e
    rw [List.map_cons, List.nodup_cons] at distinct
    by_cases here : k = name
    · subst here
      rw [List.lookup_cons_self, Option.some.injEq] at found
      subst found
      have apart : ∀ e ∈ rest, e.1 ≠ k := by
        intro e mem same
        have named : e.1 ∈ rest.map Prod.fst := List.mem_map_of_mem mem
        rw [same] at named
        exact distinct.1 named
      have kept : remove rest k = rest := by
        unfold remove
        rw [List.filter_eq_self]
        intro e mem
        simpa using apart e mem
      have dropped : remove ((k, w) :: rest) k = remove rest k := by simp [remove]
      rw [dropped, kept]
      rfl
    · have differ : (name == k) = false := by simpa using Ne.symm here
      rw [List.lookup_cons, differ] at found
      have kept : remove ((k, w) :: rest) name = (k, w) :: remove rest name := by
        simp [remove, here]
      rw [kept]
      -- the slot's own handles move to the front past those of `(k, w)`
      have front := (ih distinct.2 found).append_left (f w)
      exact front.trans (List.perm_append_comm_assoc _ _ _)

theorem owned_put (distinct : (slots.map Prod.fst).Nodup) (v : α) :
    (owned f (slots.put name v).1).Perm (f v ++ owned f (slots.remove name)) := by
  have perm := owned_perm f (nodup_put distinct name v) (lookup_put slots name v)
  rwa [remove_put] at perm

end Owned

end Slots

namespace Slots

def seen (h : Heap) (slots : Slots CowStore) : Slots (List UInt8) :=
  slots.map fun e => (e.1, e.2.cells h)

def handles (slots : Slots CowStore) : List Nat := owned (fun s => [s.id]) slots

variable {h h' : Heap} {slots : Slots CowStore} {name : String}

theorem seen_congr (same : ∀ e ∈ slots, e.2.cells h' = e.2.cells h) : seen h' slots = seen h slots :=
  List.map_congr_left fun e mem => by rw [same e mem]

theorem seen_put (s : CowStore) (frame : ∀ e ∈ slots.remove name, e.2.cells h' = e.2.cells h) :
    seen h' (slots.put name s).1 = ((seen h slots).put name (s.cells h')).1 := by
  have kept : ∀ e ∈ slots, e.1 ≠ name → e.2.cells h' = e.2.cells h :=
    fun e mem other => frame e (List.mem_filter.mpr ⟨mem, by simpa using other⟩)
  cases found : slots.lookup name with
  | none =>
    have missing : (seen h slots).lookup name = none := by rw [seen, lookup_map, found, Option.map_none]
    rw [put_of_none found, put_of_none missing, seen, List.map_append, List.map_singleton,
      ← seen, seen_congr fun e mem => kept e mem (ne_of_lookup_none found e mem)]
  | some old =>
    have present : (seen h slots).lookup name = some (old.cells h) := by
      rw [seen, lookup_map, found, Option.map_some]
    rw [put_of_some found, put_of_some present, seen, seen, List.map_map, List.map_map]
    apply List.map_congr_left
    intro e mem
    by_cases same : e.1 = name
    · simp [same]
    · simp [same, kept e mem same]

theorem seen_remove (frame : ∀ e ∈ slots.remove name, e.2.cells h' = e.2.cells h) :
    seen h' (slots.remove name) = (seen h slots).remove name := by
  rw [seen, seen, remove_map, ← seen, ← seen, seen_congr frame]

theorem mem_handles_remove {e : String × CowStore} (mem : e ∈ slots.remove name) :
    e.2.id ∈ handles (slots.remove name) :=
  mem_owned_remove _ mem (List.mem_singleton_self _)

theorem handles_perm (distinct : (slots.map Prod.fst).Nodup) {s : CowStore}
    (found : slots.lookup name = some s) : (handles slots).Perm (s.id :: handles (slots.remove name)) :=
  owned_perm _ distinct found

theorem handles_put (distinct : (slots.map Prod.fst).Nodup) (s : CowStore) :
    (handles (slots.put name s).1).Perm (s.id :: handles (slots.remove name)) :=
  owned_put _ distinct s

end Slots

/-! ### The value model -/

inductive Shown where
  | nothing
  | read (bytes : List UInt8)
  | refused (answer : Answer)

namespace Shown

def answer (h : Heap) (slots : Slots CowStore) : Shown → Answer
  | .nothing => Answer.ok ((sharedReport h slots).extend [])
  | .read bytes => Answer.ok ((sharedReport h slots).extend [("read", Report.hex bytes)])
  | .refused a => a

def stops : Shown → Bool
  | .refused a => a.stop
  | _ => false

theorem stop_answer (h : Heap) (slots : Slots CowStore) (shown : Shown) :
    (shown.answer h slots).stop = shown.stops := by
  cases shown <;> rfl

end Shown

/-- One command over slots of values, in which each slot owns its bytes and a clone copies them. -/
def valueStep (vals : Slots (List UInt8)) (c : Slotted SharedCommand) :
    Except Fault (Slots (List UInt8) × Shown) :=
  let current (k : List UInt8 → Except Fault (Slots (List UInt8) × Shown)) :
      Except Fault (Slots (List UInt8) × Shown) :=
    match vals.get? c.slot with
    | some cells => k cells
    | none => .ok (vals, .refused (missingSlot c.slot))
  match c.command with
  | .create n =>
    if capacityLimit < n then .ok (vals, .refused (overLimit n))
    else if n = 0 then .error .zeroCapacity
    else .ok ((vals.put c.slot (List.replicate (Word.roundUp8 n) 0)).1, .nothing)
  | .clone source =>
    match vals.get? source with
    | some cells => .ok ((vals.put c.slot cells).1, .nothing)
    | none => .ok (vals, .refused (missingSlot source))
  | .reserve n =>
    if capacityLimit < n then .ok (vals, .refused (overLimit n))
    else current fun cells =>
      if cells.length < n ∧ wordMax < cells.length * 7 + 2 then .error .capacityOverflow
      else .ok ((vals.put c.slot (CowStore.reservedCells cells n)).1, .nothing)
  | .makeUnique => current fun _ => .ok (vals, .nothing)
  | .write offset bytes => current fun cells =>
    if cells.length < offset + bytes.length then
      .ok (vals, .refused (Answer.error "out_of_range" "write past capacity"))
    else .ok ((vals.put c.slot (Word.overwrite cells offset bytes)).1, .nothing)
  | .read offset len => current fun cells =>
    if cells.length < offset + len then
      .ok (vals, .refused (Answer.error "out_of_range" "read past capacity"))
    else .ok (vals, .read (Word.slice cells offset len))
  | .drop => current fun _ => .ok (vals.remove c.slot, .nothing)

/-- Slots of handles hold slots of values. -/
structure Holds (h : Heap) (slots : Slots CowStore) (vals : Slots (List UInt8)) : Prop where
  accounted : Accounted h (Slots.handles slots)
  distinct : (slots.map Prod.fst).Nodup
  seen : Slots.seen h slots = vals

def Agrees : EStateM.Result Fault Heap (Slots CowStore × Answer) →
    Except Fault (Slots (List UInt8) × Shown) → Prop
  | .ok (slots, a) h, .ok (vals, shown) => Holds h slots vals ∧ a = shown.answer h slots
  | .error f _, .error f' => f = f'
  | _, _ => False

section Steps

variable {h : Heap} {slots : Slots CowStore} {vals : Slots (List UInt8)}

theorem Holds.get? (holds : Holds h slots vals) (name : String) :
    vals.get? name = (slots.get? name).map (CowStore.cells h) := by
  rw [← holds.seen]
  exact Slots.lookup_map _ slots name

theorem Holds.empty : Holds {} [] [] :=
  ⟨⟨fun _ => rfl, by simp [Slots.handles, Slots.owned]⟩,
    List.nodup_nil, rfl⟩

theorem Holds.lookup_self (holds : Holds h slots vals) {name : String} {s : CowStore}
    (found : slots.get? name = some s) : (vals.put name (s.cells h)).1 = vals := by
  have distinct : (vals.map Prod.fst).Nodup := by
    rw [← holds.seen, Slots.seen, List.map_map]
    exact holds.distinct
  apply Slots.put_lookup_self distinct
  show vals.get? name = _
  rw [holds.get? name, found, Option.map_some]

theorem agrees_refused (holds : Holds h slots vals) (a : Answer) :
    Agrees (.ok (slots, a) h) (.ok (vals, .refused a)) := ⟨holds, rfl⟩

theorem handles_remove_subset {name : String} {j : Nat}
    (mem : j ∈ Slots.handles (slots.remove name)) : j ∈ Slots.handles slots :=
  Slots.owned_remove_subset _ mem

theorem Holds.put (holds : Holds h slots vals) {h' : Heap} (name : String) (s : CowStore)
    (acc : Accounted h' (Slots.handles (slots.put name s).1))
    (frame : ∀ j ∈ Slots.handles (slots.remove name), h'.cells j = h.cells j) :
    Holds h' (slots.put name s).1 (vals.put name (s.cells h')).1 := by
  refine ⟨acc, Slots.nodup_put holds.distinct name s, ?_⟩
  rw [Slots.seen_put s (fun e mem => frame _ (Slots.mem_handles_remove mem)), holds.seen]

theorem place_some (distinct : (slots.map Prod.fst).Nodup) {name : String} {s old : CowStore}
    (acc : Accounted h (s.id :: Slots.handles slots)) (found : slots.lookup name = some old) :
    ∃ h', old.release.run h = .ok () h' ∧ Accounted h' (Slots.handles (slots.put name s).1) ∧
      ∀ j, h'.cells j = h.cells j := by
  have perm : (s.id :: Slots.handles slots).Perm (old.id :: s.id :: Slots.handles (slots.remove name)) :=
    ((Slots.handles_perm distinct found).cons s.id).trans (List.Perm.swap _ _ _)
  obtain ⟨h', run, acc', same⟩ := CowStore.release_accounted (acc.perm perm)
  exact ⟨h', run, acc'.perm (Slots.handles_put distinct s).symm, same⟩

theorem place_none {name : String} {s : CowStore} (acc : Accounted h (s.id :: Slots.handles slots))
    (missing : slots.lookup name = none) : Accounted h (Slots.handles (slots.put name s).1) := by
  rw [Slots.put_of_none missing]
  apply acc.perm
  simp only [Slots.handles, Slots.owned, List.flatMap_append, List.flatMap_singleton]
  exact (List.perm_append_singleton _ _).symm

theorem create_agrees (holds : Holds h slots vals) (name : String) (n : Nat) :
    Agrees ((sharedStep slots ⟨name, .create n⟩).run h) (valueStep vals ⟨name, .create n⟩) := by
  simp only [sharedStep, valueStep]
  by_cases limit : capacityLimit < n
  · simp only [if_pos limit]
    exact agrees_refused holds _
  simp only [if_neg limit]
  by_cases zero : n = 0
  · subst zero
    simp only [EStateM.run_bind, CowStore.create_zero]
    rfl
  obtain ⟨s, h1, run, acc1, cells1, frame1⟩ :=
    CowStore.create_accounted holds.accounted (Nat.pos_of_ne_zero zero)
  simp only [if_neg zero, EStateM.run_bind, run, Slots.put_snd]
  cases found : List.lookup name slots with
  | none =>
    have placed := holds.put name s (place_none acc1 found)
      fun j mem => frame1 j (handles_remove_subset mem)
    rw [cells1] at placed
    exact ⟨placed, rfl⟩
  | some old =>
    -- the old handle is given up after the new region is made
    obtain ⟨h2, run2, acc2, same2⟩ := place_some holds.distinct acc1 found
    have placed := holds.put name s acc2
      fun j mem => (same2 j).trans (frame1 j (handles_remove_subset mem))
    rw [CowStore.cells, same2, ← CowStore.cells, cells1] at placed
    simp only [EStateM.run_bind, run2]
    exact ⟨placed, rfl⟩

theorem clone_agrees (holds : Holds h slots vals) (name source : String) :
    Agrees ((sharedStep slots ⟨name, .clone source⟩).run h) (valueStep vals ⟨name, .clone source⟩) := by
  simp only [sharedStep, valueStep, holds.get? source]
  cases found : slots.get? source with
  | none => exact agrees_refused holds _
  | some s =>
    -- the clone is one more owner of the source's region, whose bytes it shows
    obtain ⟨h1, run, acc1, same1⟩ :=
      CowStore.share_accounted (holds.accounted.perm (Slots.handles_perm holds.distinct found))
    have acc1' : Accounted h1 (s.id :: Slots.handles slots) :=
      acc1.perm ((Slots.handles_perm holds.distinct found).symm.cons s.id)
    simp only [Option.map_some, EStateM.run_bind, run, Slots.put_snd]
    cases found' : List.lookup name slots with
    | none =>
      have placed := holds.put name s (place_none acc1' found') fun j _ => same1 j
      rw [CowStore.cells, same1, ← CowStore.cells] at placed
      exact ⟨placed, rfl⟩
    | some old =>
      obtain ⟨h2, run2, acc2, same2⟩ := place_some holds.distinct acc1' found'
      have placed := holds.put name s acc2 fun j _ => (same2 j).trans (same1 j)
      rw [CowStore.cells, same2, same1, ← CowStore.cells] at placed
      simp only [EStateM.run_bind, run2]
      exact ⟨placed, rfl⟩

theorem reserve_agrees (holds : Holds h slots vals) (name : String) (n : Nat) :
    Agrees ((sharedStep slots ⟨name, .reserve n⟩).run h) (valueStep vals ⟨name, .reserve n⟩) := by
  simp only [sharedStep, valueStep, holds.get? name]
  by_cases limit : capacityLimit < n
  · simp only [if_pos limit]
    exact agrees_refused holds _
  simp only [if_neg limit]
  cases found : slots.get? name with
  | none => exact agrees_refused holds _
  | some s =>
    have acc := holds.accounted.perm (Slots.handles_perm holds.distinct found)
    simp only [Option.map_some]
    by_cases overflow : (s.cells h).length < n ∧ wordMax < (s.cells h).length * 7 + 2
    · rw [if_pos overflow]
      simp only [EStateM.run_bind, CowStore.reserve_overflow overflow.1 overflow.2]
      rfl
    · rw [if_neg overflow]
      have fits : n ≤ s.capacity h ∨ s.capacity h * 7 + 2 ≤ wordMax := by
        unfold CowStore.capacity
        omega
      obtain ⟨s', h1, run, acc1, cells1, frame1⟩ := CowStore.reserve_accounted acc fits
      have placed := holds.put name s' (acc1.perm (Slots.handles_put holds.distinct s').symm) frame1
      rw [cells1] at placed
      simp only [EStateM.run_bind, run]
      exact ⟨placed, rfl⟩

theorem makeUnique_agrees (holds : Holds h slots vals) (name : String) :
    Agrees ((sharedStep slots ⟨name, .makeUnique⟩).run h) (valueStep vals ⟨name, .makeUnique⟩) := by
  simp only [sharedStep, valueStep, holds.get? name]
  cases found : slots.get? name with
  | none => exact agrees_refused holds _
  | some s =>
    obtain ⟨s', h1, run, acc1, cells1, -, frame1⟩ :=
      CowStore.makeUnique_accounted (holds.accounted.perm (Slots.handles_perm holds.distinct found))
    have placed := holds.put name s' (acc1.perm (Slots.handles_put holds.distinct s').symm) frame1
    rw [cells1, holds.lookup_self found] at placed
    simp only [Option.map_some, EStateM.run_bind, run]
    exact ⟨placed, rfl⟩

theorem write_agrees (holds : Holds h slots vals) (name : String) (offset : Nat)
    (bytes : List UInt8) :
    Agrees ((sharedStep slots ⟨name, .write offset bytes⟩).run h)
      (valueStep vals ⟨name, .write offset bytes⟩) := by
  simp only [sharedStep, valueStep, holds.get? name]
  cases found : slots.get? name with
  | none => exact agrees_refused holds _
  | some s =>
    simp only [Option.map_some, EStateM.run_bind, heap, EStateM.run_get]
    -- the shared step tests the capacity, the value step the length of the bytes: the same
    by_cases past : s.capacity h < offset + bytes.length
    · have past' : (s.cells h).length < offset + bytes.length := past
      simp only [if_pos past, if_pos past']
      exact agrees_refused holds _
    · have past' : ¬ (s.cells h).length < offset + bytes.length := past
      obtain ⟨s', h1, run, acc1, written, frame1⟩ :=
        CowStore.modifyCells_accounted (fun cells => Word.overwrite cells offset bytes)
          (holds.accounted.perm (Slots.handles_perm holds.distinct found))
      have placed := holds.put name s' (acc1.perm (Slots.handles_put holds.distinct s').symm) frame1
      rw [written] at placed
      simp only [if_neg past, if_neg past', EStateM.run_bind, run, EStateM.run_get]
      exact ⟨placed, rfl⟩

theorem read_agrees (holds : Holds h slots vals) (name : String) (offset len : Nat) :
    Agrees ((sharedStep slots ⟨name, .read offset len⟩).run h)
      (valueStep vals ⟨name, .read offset len⟩) := by
  simp only [sharedStep, valueStep, holds.get? name]
  cases found : slots.get? name with
  | none => exact agrees_refused holds _
  | some s =>
    simp only [Option.map_some, EStateM.run_bind, heap, EStateM.run_get]
    by_cases past : (s.cells h).length < offset + len
    · simp only [if_pos past]
      exact agrees_refused holds _
    · simp only [if_neg past, EStateM.run_bind, EStateM.run_get]
      exact ⟨holds, rfl⟩

theorem drop_agrees (holds : Holds h slots vals) (name : String) :
    Agrees ((sharedStep slots ⟨name, .drop⟩).run h) (valueStep vals ⟨name, .drop⟩) := by
  simp only [sharedStep, valueStep, holds.get? name]
  cases found : slots.get? name with
  | none => exact agrees_refused holds _
  | some s =>
    obtain ⟨h1, run, acc1, same1⟩ :=
      CowStore.release_accounted (holds.accounted.perm (Slots.handles_perm holds.distinct found))
    have dropped : Holds h1 (slots.remove name) (vals.remove name) := by
      refine ⟨acc1, Slots.nodup_remove holds.distinct name, ?_⟩
      rw [Slots.seen_remove fun e _ => same1 e.2.id, holds.seen]
    simp only [Option.map_some, EStateM.run_bind, run]
    exact ⟨dropped, rfl⟩

theorem sharedStep_agrees (holds : Holds h slots vals) (c : Slotted SharedCommand) :
    Agrees ((sharedStep slots c).run h) (valueStep vals c) := by
  obtain ⟨name, command⟩ := c
  cases command with
  | create n => exact create_agrees holds name n
  | clone source => exact clone_agrees holds name source
  | reserve n => exact reserve_agrees holds name n
  | makeUnique => exact makeUnique_agrees holds name
  | write offset bytes => exact write_agrees holds name offset bytes
  | read offset len => exact read_agrees holds name offset len
  | drop => exact drop_agrees holds name

theorem valueStep_get?_other {vals' : Slots (List UInt8)} {c : Slotted SharedCommand} {shown : Shown}
    (step : valueStep vals c = .ok (vals', shown)) {n : String} (other : n ≠ c.slot) :
    vals'.get? n = vals.get? n := by
  obtain ⟨name, command⟩ := c
  -- every branch leaves the values, puts a value in the slot or empties it
  have put (v : List UInt8) : (vals.put name v).1.get? n = vals.get? n :=
    Slots.lookup_put_ne vals other v
  have removed : (vals.remove name).get? n = vals.get? n := Slots.lookup_remove_ne vals other
  cases command <;> simp only [valueStep] at step <;> (repeat' split at step) <;>
    (cases step) <;> first | rfl | exact put _ | exact removed

theorem sharedStep_seen_other (holds : Holds h slots vals) (c : Slotted SharedCommand)
    {slots' : Slots CowStore} {a : Answer} {h' : Heap}
    (ran : (sharedStep slots c).run h = .ok (slots', a) h') {n : String} (other : n ≠ c.slot) :
    (slots'.get? n).map (CowStore.cells h') = (slots.get? n).map (CowStore.cells h) := by
  have agrees := sharedStep_agrees holds c
  rw [ran] at agrees
  cases valued : valueStep vals c with
  | error f =>
    rw [valued] at agrees
    exact agrees.elim
  | ok next =>
    obtain ⟨vals', shown⟩ := next
    rw [valued] at agrees
    rw [← agrees.1.get?, ← holds.get?]
    exact valueStep_get?_other valued other

end Steps

/-! ### Sessions -/

inductive Outcome where
  | shown (vals : Slots (List UInt8)) (shown : Shown)
  | fault (f : Fault)

def valueRun : Slots (List UInt8) → List (Slotted SharedCommand) → List Outcome
  | _, [] => []
  | vals, c :: rest =>
    match valueStep vals c with
    | .error f => [.fault f]
    | .ok (vals', shown) =>
      if shown.stops then [.shown vals' shown] else .shown vals' shown :: valueRun vals' rest

def Reports (r : Report) : Outcome → Prop
  | .shown vals shown => ∃ h slots, Holds h slots vals ∧ r = (shown.answer h slots).report
  | .fault f => r = Report.failure "panic" f.message

theorem run_tryCatch {α : Type} (x : HeapM α) (h : Heap) :
    (tryCatch (Sum.inr <$> x) (fun f => pure (Sum.inl f)) : HeapM (Sum Fault α)).run h =
      match x.run h with
      | .ok a h' => .ok (.inr a) h'
      | .error f h' => .ok (.inl f) h' := by
  show EStateM.tryCatch (EStateM.map Sum.inr x) (fun f => pure (Sum.inl f)) h = _
  unfold EStateM.tryCatch EStateM.map EStateM.run
  cases x h <;> rfl

theorem runSteps_reports {h : Heap} {slots : Slots CowStore} {vals : Slots (List UInt8)}
    (holds : Holds h slots vals) (cs : List (Slotted SharedCommand)) :
    ∃ reports h', (runSteps sharedStep slots cs).run h = .ok reports h' ∧
      List.Forall₂ Reports reports (valueRun vals cs) := by
  induction cs generalizing h slots vals with
  | nil => exact ⟨[], h, rfl, List.Forall₂.nil⟩
  | cons c rest ih =>
    have step := sharedStep_agrees holds c
    simp only [runSteps, valueRun, EStateM.run_bind, run_tryCatch]
    cases ran : (sharedStep slots c).run h with
    | ok result h1 =>
      obtain ⟨slots', a⟩ := result
      cases valued : valueStep vals c with
      | error f => simp [ran, valued, Agrees] at step
      | ok next =>
        obtain ⟨vals', shown⟩ := next
        rw [ran, valued] at step
        obtain ⟨holds', answered⟩ := step
        have stop_eq : a.stop = shown.stops := by rw [answered, Shown.stop_answer]
        simp only [stop_eq]
        by_cases stops : shown.stops = true
        · simp only [if_pos stops, EStateM.run_pure]
          exact ⟨_, _, rfl, List.Forall₂.cons ⟨h1, slots', holds', by rw [answered]⟩ List.Forall₂.nil⟩
        · obtain ⟨more, h2, run_rest, agree⟩ := ih holds'
          simp only [if_neg stops, EStateM.run_bind, run_rest, EStateM.run_pure]
          exact ⟨_, _, rfl, List.Forall₂.cons ⟨h1, slots', holds', by rw [answered]⟩ agree⟩
    | error f h1 =>
      cases valued : valueStep vals c with
      | ok next => simp [ran, valued, Agrees] at step
      | error f' =>
        rw [ran, valued] at step
        have same : f = f' := step
        subst same
        simp only [EStateM.run_pure]
        exact ⟨_, _, rfl, List.Forall₂.cons rfl List.Forall₂.nil⟩

theorem runShared_reports (cs : List (Slotted SharedCommand)) :
    ∃ reports, (runShared cs).1 = .fields [("steps", .list reports)] ∧
      List.Forall₂ Reports reports (valueRun [] cs) := by
  obtain ⟨reports, h', ran, agree⟩ := runSteps_reports Holds.empty cs
  refine ⟨reports, ?_, agree⟩
  simp only [runShared, runSession, ran]

end SysBytes.Session
