import SysBytes.Proofs.Store.Handles

/-!
Computations on the heap confined to their own handles: run beside any other live handles,
they change none of their bytes. Confinement is closed under `pure` and `bind`, so each operation
on regions is checked once and programs built from them follow by composition.
-/
namespace SysBytes.Store

/-- The heap a run comes to, at its result or at its fault. -/
def heapAfter {α : Type} : EStateM.Result Fault Heap α → Heap
  | .ok _ h => h
  | .error _ h => h

/-- A run from `h` that keeps the handles `others` apart: their regions keep their bytes, and the
heap still accounts for them. -/
def KeptApart {α : Type} (post : α → List Nat) (others : List Nat) (h : Heap) :
    EStateM.Result Fault Heap α → Prop
  | .ok a h' => Accounted h' (post a ++ others) ∧ ∀ j ∈ others, h'.cells j = h.cells j
  | .error _ h' => ∀ j ∈ others, h'.cells j = h.cells j

/-- A computation on the handles `mine`, which keeps every other handle apart. -/
def Confined {α : Type} (mine : List Nat) (x : HeapM α) (post : α → List Nat) : Prop :=
  ∀ others h, Accounted h (mine ++ others) → KeptApart post others h (x.run h)

theorem KeptApart.cells {α : Type} {post : α → List Nat} {others : List Nat} {h : Heap}
    {r : EStateM.Result Fault Heap α} (kept : KeptApart post others h r) :
    ∀ j ∈ others, (heapAfter r).cells j = h.cells j := by
  cases r with
  | ok a h' => exact kept.2
  | error e h' => exact kept

theorem KeptApart.bind {α β : Type} {x : HeapM α} {f : α → HeapM β} {mid : α → List Nat}
    {post : β → List Nat} {others : List Nat} {h : Heap} (first : KeptApart mid others h (x.run h))
    (rest : ∀ a h1, Accounted h1 (mid a ++ others) → (∀ j ∈ others, h1.cells j = h.cells j) →
      KeptApart post others h1 ((f a).run h1)) :
    KeptApart post others h ((x >>= f).run h) := by
  rw [EStateM.run_bind]
  cases ran : x.run h with
  | error e h1 =>
    rw [ran] at first
    exact first
  | ok a h1 =>
    rw [ran] at first
    obtain ⟨acc1, same1⟩ := first
    have next := rest a h1 acc1 same1
    show KeptApart post others h ((f a).run h1)
    cases ran' : (f a).run h1 with
    | ok b h2 =>
      rw [ran'] at next
      exact ⟨next.1, fun j mem => (next.2 j mem).trans (same1 j mem)⟩
    | error e h2 =>
      rw [ran'] at next
      exact fun j mem => (next j mem).trans (same1 j mem)

theorem KeptApart.regroup {α : Type} {post post' : α → List Nat} {others others' : List Nat}
    {h : Heap} {r : EStateM.Result Fault Heap α} (kept : KeptApart post others h r)
    (perm : ∀ a, (post a ++ others).Perm (post' a ++ others')) (sub : ∀ j ∈ others', j ∈ others) :
    KeptApart post' others' h r := by
  cases r with
  | ok a h' => exact ⟨kept.1.perm (perm a), fun j mem => kept.2 j (sub j mem)⟩
  | error e h' => exact fun j mem => kept j (sub j mem)

namespace Confined

variable {α β : Type} {mine : List Nat}

theorem of_pure (a : α) (post : α → List Nat) : Confined (post a) (pure a) post :=
  fun _ _ acc => ⟨acc, fun _ _ => rfl⟩

theorem of_bind {x : HeapM α} {f : α → HeapM β} {mid : α → List Nat} {post : β → List Nat}
    (first : Confined mine x mid) (rest : ∀ a, Confined (mid a) (f a) post) :
    Confined mine (x >>= f) post :=
  fun others h acc => (first others h acc).bind fun a h1 acc1 _ => rest a others h1 acc1

theorem of_fail (e : Fault) (post : α → List Nat) : Confined mine (fail e) post :=
  fun _ _ _ => fun _ _ => rfl

theorem of_heap : Confined mine heap fun _ => mine :=
  fun _ _ acc => ⟨acc, fun _ _ => rfl⟩

theorem of_guard {c : Prop} [Decidable c] {e : Fault} {rest : HeapM α} {post : α → List Nat}
    (kept : Confined mine rest post) :
    Confined mine (if c then (fail e : HeapM Unit) >>= (fun _ => rest) else rest) post := by
  by_cases stops : c
  · rw [if_pos stops]
    exact of_bind (of_fail e fun _ => mine) fun _ => kept
  · rw [if_neg stops]
    exact kept

theorem of_forIn {γ : Type} (l : List γ) (b : α) {f : γ → α → HeapM (ForInStep α)}
    (each : ∀ c b, Confined mine (f c b) fun _ => mine) : Confined mine (forIn l b f) fun _ => mine := by
  induction l generalizing b with
  | nil => exact of_pure b fun _ => mine
  | cons c rest ih =>
    rw [List.forIn_cons]
    refine of_bind (each c b) fun step => ?_
    cases step with
    | done b' => exact of_pure b' fun _ => mine
    | yield b' => exact ih b'

theorem frame {x : HeapM α} {post : α → List Nat} (extra : List Nat) (confined : Confined mine x post) :
    Confined (extra ++ mine) x fun a => extra ++ post a := by
  intro others h acc
  have moved : (extra ++ mine ++ others).Perm (mine ++ (extra ++ others)) := by
    rw [List.append_assoc]
    exact List.perm_append_comm_assoc _ _ _
  refine (confined (extra ++ others) h (acc.perm moved)).regroup (fun a => ?_) fun j mem =>
    List.mem_append_right extra mem
  rw [List.append_assoc]
  exact List.perm_append_comm_assoc _ _ _

theorem perm {mine' : List Nat} {x : HeapM α} {post : α → List Nat} (confined : Confined mine x post)
    (same : mine'.Perm mine) : Confined mine' x post :=
  fun others h acc => confined others h (acc.perm (same.append_right others))

end Confined

/-- Every result a computation ends with, from any heap, satisfies `Q`. -/
def Yields {α : Type} (x : HeapM α) (Q : α → Prop) : Prop :=
  ∀ h a h', x.run h = .ok a h' → Q a

namespace Yields

variable {α β : Type} {Q : β → Prop}

theorem of_pure {b : β} (holds : Q b) : Yields (pure b) Q := by
  intro h a h' ran
  cases ran
  exact holds

theorem of_bind {x : HeapM α} {f : α → HeapM β} (rest : ∀ a, Yields (f a) Q) : Yields (x >>= f) Q := by
  intro h b h' ran
  rw [EStateM.run_bind] at ran
  cases first : x.run h with
  | ok a h1 =>
    rw [first] at ran
    exact rest a h1 b h' ran
  | error e h1 =>
    rw [first] at ran
    cases ran

theorem of_bind_yields {x : HeapM α} {f : α → HeapM β} {P : α → Prop} (first : Yields x P)
    (rest : ∀ a, P a → Yields (f a) Q) : Yields (x >>= f) Q := by
  intro h b h' ran
  rw [EStateM.run_bind] at ran
  cases ran' : x.run h with
  | ok a h1 =>
    rw [ran'] at ran
    exact rest a (first h a h1 ran') h1 b h' ran
  | error e h1 =>
    rw [ran'] at ran
    cases ran

theorem of_fail (e : Fault) : Yields (fail e : HeapM β) Q := by
  intro h b h' ran
  cases ran

end Yields

theorem Accounted.of_regions {h h' : Heap} {ids : List Nat} (same : h'.regions = h.regions)
    (acc : Accounted h ids) : Accounted h' ids :=
  ⟨fun i => by rw [← acc.owners_eq i, Heap.owners, Heap.owners, Heap.region, Heap.region, same],
    fun i mem => same ▸ acc.allocated i mem⟩

theorem note_confined {mine : List Nat} (e : Log.Event) : Confined mine (note e) fun _ => mine :=
  fun _ h acc => ⟨Accounted.of_regions (h := h) rfl acc, fun _ _ => rfl⟩

namespace CowStore

theorem modifyCells_confined (s : CowStore) (edit : List UInt8 → List UInt8) :
    Confined [s.id] (s.modifyCells edit) fun s' => [s'.id] := by
  intro others h acc
  obtain ⟨s', h', run, acc', -, frame⟩ := modifyCells_accounted edit acc
  rw [run]
  exact ⟨acc', frame⟩

theorem reserve_confined (s : CowStore) (n : Nat) :
    Confined [s.id] (s.reserve n) fun s' => [s'.id] := by
  intro others h acc
  by_cases fits : n ≤ s.capacity h ∨ s.capacity h * 7 + 2 ≤ wordMax
  · obtain ⟨s', h', run, acc', -, frame⟩ := reserve_accounted acc fits
    rw [run]
    exact ⟨acc', frame⟩
  · -- growth past a 64-bit word stops before the heap is touched
    rw [reserve_overflow (by omega) (by omega)]
    exact fun _ _ => rfl

theorem create_confined (n : Nat) : Confined [] (create n) fun s => [s.id] := by
  intro others h acc
  by_cases zero : n = 0
  · subst zero
    rw [create_zero]
    exact fun _ _ => rfl
  · obtain ⟨s', h', run, acc', -, frame⟩ := create_accounted acc (Nat.pos_of_ne_zero zero)
    rw [run]
    exact ⟨acc', frame⟩

theorem release_confined (s : CowStore) : Confined [s.id] s.release fun _ => [] := by
  intro others h acc
  obtain ⟨h', run, acc', same⟩ := release_accounted acc
  rw [run]
  exact ⟨acc', fun j _ => same j⟩

end CowStore

end SysBytes.Store
