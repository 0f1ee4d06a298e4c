import Mathlib
import SysBytes.Proofs.Store.Values

/-!
Owner counts over sessions of region handles. In every state a session comes to, each region's
owner count is the number of slots holding it; making unique, writing and reserving move a slot
to a fresh region exactly when it must, and every other slot keeps its handle.
-/

/-! ### Leaving a shared region -/

namespace SysBytes.Store

def Moved (h : Heap) (s s' : CowStore) (moves : Prop) : Prop :=
  (moves → s'.id = h.regions.length) ∧ (¬ moves → s' = s)

namespace CowStore

variable {h h' : Heap} {s s' : CowStore}

theorem makeUnique_moved (ran : s.makeUnique.run h = .ok s' h') : Moved h s s' (1 < s.owners h) := by
  refine ⟨fun shared => ?_, fun alone => ?_⟩
  · obtain ⟨h'', run, -⟩ := makeUnique_shared shared
    rw [run] at ran
    cases ran
    rfl
  · rw [makeUnique_alone (Nat.le_of_not_lt alone)] at ran
    cases ran
    rfl

theorem reserve_moved {n : Nat} (ran : (s.reserve n).run h = .ok s' h') :
    Moved h s s' (1 < s.owners h ∨ s.capacity h < n) := by
  by_cases room : n ≤ s.capacity h
  · rw [reserve_within room] at ran
    have moved := makeUnique_moved ran
    refine ⟨fun moves => moved.1 (moves.resolve_right (Nat.not_lt.mpr room)), fun stays => ?_⟩
    exact moved.2 fun shared => stays (.inl shared)
  · have beyond := Nat.lt_of_not_le room
    refine ⟨fun _ => ?_, fun stays => (stays (.inr beyond)).elim⟩
    by_cases fits : s.capacity h * 7 + 2 ≤ wordMax
    · obtain ⟨h'', run, -⟩ := reserve_grow beyond fits
      rw [run] at ran
      cases ran
      rfl
    · rw [reserve_overflow beyond (Nat.lt_of_not_le fits)] at ran
      cases ran

end CowStore

end SysBytes.Store

namespace SysBytes.Session

open Store

/-- The states a session over shared regions comes to, one command at a time. -/
inductive SharedReached : Slots CowStore → Heap → Prop
  | start : SharedReached [] {}
  | step {slots : Slots CowStore} {h : Heap} (c : Slotted SharedCommand)
      {r : Slots CowStore × Answer} {h' : Heap} :
      SharedReached slots h → (sharedStep slots c).run h = .ok r h' → SharedReached r.1 h'

theorem SharedReached.holds {slots : Slots CowStore} {h : Heap} (reached : SharedReached slots h) :
    Holds h slots (Slots.seen h slots) := by
  induction reached with
  | start => exact Holds.empty
  | step c _ ran holds =>
    rename_i r _
    obtain ⟨slots', a⟩ := r
    have agrees := sharedStep_agrees holds c
    rw [ran] at agrees
    cases valued : valueStep (Slots.seen _ _) c with
    | error f =>
      rw [valued] at agrees
      exact agrees.elim
    | ok next =>
      rw [valued] at agrees
      exact ⟨agrees.1.accounted, agrees.1.distinct, rfl⟩

namespace Slots

theorem count_handles (slots : Slots CowStore) (i : Nat) :
    (handles slots).count i = slots.countP fun e => e.2.id = i := by
  induction slots with
  | nil => rfl
  | cons e rest ih =>
    have unfolded : handles (e :: rest) = e.2.id :: handles rest := rfl
    rw [unfolded, List.count_cons, ih, List.countP_cons]
    simp

end Slots

/-! ### Owner counts in a state -/

section Counts

variable {h : Heap} {slots : Slots CowStore} {vals : Slots (List UInt8)}

theorem Holds.owners_eq (holds : Holds h slots vals) (i : Nat) :
    h.owners i = slots.countP fun e => e.2.id = i := by
  rw [holds.accounted.owners_eq i, Slots.count_handles]

theorem Holds.owners_sharing (holds : Holds h slots vals) {name : String} {s : CowStore}
    (found : slots.get? name = some s) :
    s.owners h = 1 + (slots.filter fun e => e.1 ≠ name && e.2 == s).length := by
  have perm := Slots.handles_perm holds.distinct found
  have counted := holds.accounted.owners_eq s.id
  rw [perm.count_eq, List.count_cons_self, Slots.count_handles, Slots.remove,
    List.countP_filter, List.countP_eq_length_filter] at counted
  rw [CowStore.owners, counted, Nat.add_comm]
  congr 2
  apply List.filter_congr
  intro e _
  obtain ⟨k, ⟨i⟩⟩ := e
  cases s
  simp [beq_eq_decide, Bool.and_comm]

theorem owners_put {h' : Heap} {name : String} {s s' : CowStore} (holds : Holds h slots vals)
    (found : slots.get? name = some s) {vals' : Slots (List UInt8)}
    (holds' : Holds h' (slots.put name s').1 vals') (j : Nat) :
    h'.owners j + (if s.id = j then 1 else 0) = h.owners j + (if s'.id = j then 1 else 0) := by
  have before := (Slots.handles_perm holds.distinct found).count_eq j
  have after : (Slots.handles (slots.put name s').1).count j =
      (s'.id :: Slots.handles (slots.remove name)).count j :=
    (Slots.handles_put holds.distinct s').count_eq j
  rw [holds.accounted.owners_eq j, holds'.accounted.owners_eq j, before, after, List.count_cons,
    List.count_cons]
  simp only [beq_iff_eq]
  omega

end Counts


/-- A command on slot `name` that goes on moves the slot to a fresh region exactly when `moves`
holds, and leaves it the region's only owner. -/
def Rehomes (slots : Slots CowStore) (h : Heap) (name : String) (s : CowStore)
    (c : SharedCommand) (moves : Prop) : Prop :=
  ∀ slots' a h', (sharedStep slots ⟨name, c⟩).run h = .ok (slots', a) h' → a.stop = false →
    ∃ s', slots'.get? name = some s' ∧ (s'.id ≠ s.id ↔ moves) ∧ s'.owners h' = 1 ∧
      (∀ n, n ≠ name → slots'.get? n = slots.get? n) ∧ (s'.id ≠ s.id → h'.owners s.id + 1 = s.owners h)

section Rehoming

variable {slots : Slots CowStore} {h : Heap} {name : String} {s : CowStore}

theorem rehomes_of_moved (reached : SharedReached slots h) (found : slots.get? name = some s)
    {c : SharedCommand} {moves : Prop} (shared : 1 < s.owners h → moves)
    (inverted : ∀ slots' a h', (sharedStep slots ⟨name, c⟩).run h = .ok (slots', a) h' →
      a.stop = false → ∃ s', slots' = (slots.put name s').1 ∧ Moved h s s' moves) :
    Rehomes slots h name s c moves := by
  intro slots' a h' ran goes_on
  obtain ⟨s', rfl, moved⟩ := inverted slots' a h' ran goes_on
  have holds := reached.holds
  have holds' := (SharedReached.step _ reached ran).holds
  have inside : s.id < h.regions.length :=
    holds.accounted.allocated s.id ((Slots.handles_perm holds.distinct found).mem_iff.mpr
      (List.mem_cons_self ..))
  have shifted := owners_put holds found holds'
  -- the slot's own region before the command has the slot as one of its owners
  have held : 1 ≤ s.owners h := by
    rw [holds.owners_sharing found]
    omega
  have leaves : s'.id ≠ s.id ↔ moves := by
    constructor
    · intro apart
      by_contra stays
      exact apart (by rw [moved.2 stays])
    · intro moves'
      rw [moved.1 moves']
      omega
  refine ⟨s', Slots.lookup_put slots name s', leaves, ?_, fun n other =>
    Slots.lookup_put_ne slots other s', fun apart => ?_⟩
  · have at_new := shifted s'.id
    by_cases stays : moves
    · -- a fresh region had no owner before
      have fresh : h.owners s'.id = 0 := Heap.owners_of_le (by rw [moved.1 stays])
      have apart : s.id ≠ s'.id := fun same => leaves.mpr stays same.symm
      simp only [if_neg apart, fresh] at at_new
      simpa [CowStore.owners] using at_new
    · have alone : s.owners h ≤ 1 := Nat.le_of_not_lt fun more => stays (shared more)
      rw [moved.2 stays] at at_new ⊢
      rw [if_pos rfl] at at_new
      simp only [CowStore.owners] at alone held ⊢
      omega
  · have at_old := shifted s.id
    simp only [if_neg apart] at at_old
    simpa [CowStore.owners] using at_old

theorem makeUnique_inverted (found : slots.get? name = some s) {slots' : Slots CowStore}
    {a : Answer} {h' : Heap} (ran : (sharedStep slots ⟨name, .makeUnique⟩).run h = .ok (slots', a) h') :
    ∃ s', slots' = (slots.put name s').1 ∧ Moved h s s' (1 < s.owners h) := by
  simp only [sharedStep, found, EStateM.run_bind] at ran
  cases run : s.makeUnique.run h with
  | ok s' h₁ =>
    rw [run] at ran
    simp [heap] at ran
    exact ⟨s', ran.1.1.symm, CowStore.makeUnique_moved run⟩
  | error f h₁ =>
    rw [run] at ran
    cases ran

theorem reserve_inverted (found : slots.get? name = some s) {n : Nat} {slots' : Slots CowStore}
    {a : Answer} {h' : Heap} (ran : (sharedStep slots ⟨name, .reserve n⟩).run h = .ok (slots', a) h')
    (goes_on : a.stop = false) :
    ∃ s', slots' = (slots.put name s').1 ∧ Moved h s s' (1 < s.owners h ∨ s.capacity h < n) := by
  by_cases limit : capacityLimit < n
  · -- a capacity past the limit is refused, which ends the session
    simp only [sharedStep, if_pos limit, EStateM.run_pure, EStateM.Result.ok.injEq, Prod.mk.injEq] at ran
    rw [← ran.1.2] at goes_on
    cases goes_on
  simp only [sharedStep, if_neg limit, found, EStateM.run_bind] at ran
  cases run : (s.reserve n).run h with
  | ok s' h₁ =>
    rw [run] at ran
    simp [heap] at ran
    exact ⟨s', ran.1.1.symm, CowStore.reserve_moved run⟩
  | error f h₁ =>
    rw [run] at ran
    cases ran

theorem write_inverted (found : slots.get? name = some s) {offset : Nat} {bytes : List UInt8}
    {slots' : Slots CowStore} {a : Answer} {h' : Heap}
    (ran : (sharedStep slots ⟨name, .write offset bytes⟩).run h = .ok (slots', a) h')
    (goes_on : a.stop = false) :
    ∃ s', slots' = (slots.put name s').1 ∧ Moved h s s' (1 < s.owners h) := by
  simp only [sharedStep, found, EStateM.run_bind, heap, EStateM.run_get] at ran
  by_cases past : s.capacity h < offset + bytes.length
  · -- a write past the capacity is refused, which ends the session
    simp only [if_pos past, EStateM.run_pure, EStateM.Result.ok.injEq, Prod.mk.injEq] at ran
    rw [← ran.1.2] at goes_on
    cases goes_on
  simp only [if_neg past, EStateM.run_bind, CowStore.modifyCells_run] at ran
  cases run : s.makeUnique.run h with
  | ok s' h₁ =>
    rw [run] at ran
    simp at ran
    exact ⟨s', ran.1.1.symm, CowStore.makeUnique_moved run⟩
  | error f h₁ =>
    rw [run] at ran
    cases ran

end Rehoming

/-- **Owner counts follow the slots.** In every reached state each region's owner count is the
number of slots holding it; making unique, writing and reserving move a slot to a region of its own
exactly when they must. -/
theorem owner_counts_follow_slots :
    (∀ (slots : Slots CowStore) (h : Heap), SharedReached slots h →
      ∀ i, h.owners i = slots.countP fun e => e.2.id = i) ∧
    (∀ (slots : Slots CowStore) (h : Heap), SharedReached slots h → ∀ name s,
      slots.get? name = some s →
        s.owners h = 1 + (slots.filter fun e => e.1 ≠ name && e.2 == s).length ∧
        (s.isUnique h = true ↔ (slots.filter fun e => e.1 ≠ name && e.2 == s) = [])) ∧
    Equivalence (fun s t : CowStore => (s == t) = true) ∧
    (∀ (slots : Slots CowStore) (h : Heap), SharedReached slots h → ∀ name s,
      slots.get? name = some s →
        Rehomes slots h name s .makeUnique (1 < s.owners h) ∧
        (∀ offset bytes, Rehomes slots h name s (.write offset bytes) (1 < s.owners h)) ∧
        ∀ n, Rehomes slots h name s (.reserve n) (1 < s.owners h ∨ s.capacity h < n)) := by
  refine ⟨fun slots h reached i => reached.holds.owners_eq i, fun slots h reached name s found => ?_,
    ⟨fun _ => BEq.rfl, BEq.symm, BEq.trans⟩,
    fun slots h reached name s found => ⟨?_, fun offset bytes => ?_, fun n => ?_⟩⟩
  · have counted := reached.holds.owners_sharing found
    refine ⟨counted, ?_⟩
    rw [CowStore.isUnique, counted, beq_iff_eq, ← List.length_eq_zero_iff]
    omega
  · exact rehomes_of_moved reached found id fun _ _ _ ran _ => makeUnique_inverted found ran
  · exact rehomes_of_moved reached found id fun _ _ _ ran goes_on =>
      write_inverted found ran goes_on
  · exact rehomes_of_moved reached found .inl fun _ _ _ ran goes_on =>
      reserve_inverted found ran goes_on

/-- A region cloned into a second slot has two owners, and neither slot holds it alone. -/
theorem cloned_region_has_two_owners :
    ∃ h, SharedReached [("a", ⟨0⟩), ("b", ⟨0⟩)] h ∧
      (⟨0⟩ : CowStore).owners h = 2 ∧ (⟨0⟩ : CowStore).isUnique h = false := by
  obtain ⟨_, h₁, created⟩ : ∃ a h',
      (sharedStep [] ⟨"a", .create 8⟩).run {} = .ok ([("a", ⟨0⟩)], a) h' := by
    refine ⟨?answer₁, ?heap₁, ?run₁⟩
    case run₁ =>
      have limit : ¬ capacityLimit < 8 := by decide
      simp only [sharedStep, limit, CowStore.create, if_false, Nat.reduceEqDiff]
      rfl
  -- the report is left open: only the slots and the heap are pinned down
  obtain ⟨_, _, cloned⟩ : ∃ a h',
      (sharedStep [("a", ⟨0⟩)] ⟨"b", .clone "a"⟩).run h₁ = .ok ([("a", ⟨0⟩), ("b", ⟨0⟩)], a) h' := by
    refine ⟨?answer₂, ?heap₂, ?run₂⟩
    case run₂ =>
      simp only [sharedStep, CowStore.share]
      rfl
  have reached := SharedReached.step _ (SharedReached.step _ .start created) cloned
  obtain ⟨counted, unique⟩ := owner_counts_follow_slots.2.1 _ _ reached "a" ⟨0⟩ rfl
  have sharing : ([("a", ⟨0⟩), ("b", ⟨0⟩)].filter fun e : String × CowStore =>
      e.1 ≠ "a" && e.2 == ⟨0⟩) = [("b", ⟨0⟩)] := by decide
  refine ⟨_, reached, ?_, ?_⟩
  · simpa [sharing] using counted
  · simpa [sharing] using unique

end SysBytes.Session
