import SysBytes.Proofs.Control.Bounds
import SysBytes.Proofs.Store.SmallShapes
import SysBytes.Proofs.Store.Growth

/-!
Regions keep their sizes. Nothing the buffers do shrinks or frees a region, `KeepsSizes` is
closed under `pure` and bind, and the shapes of small buffers and the bounds of control buffers
depend on the heap only through those sizes.
-/
namespace SysBytes.Store

namespace Heap

/-- Every region of `h` is still there in `h'`, with as many bytes. -/
structure SizesKept (h h' : Heap) : Prop where
  longer : h.regions.length ≤ h'.regions.length
  sizes : ∀ i < h.regions.length, (h'.cells i).length = (h.cells i).length

variable {h h' h'' : Heap}

theorem SizesKept.refl (h : Heap) : h.SizesKept h := ⟨Nat.le_refl _, fun _ _ => rfl⟩

theorem SizesKept.trans (first : h.SizesKept h') (second : h'.SizesKept h'') :
    h.SizesKept h'' :=
  ⟨first.longer.trans second.longer, fun i inside =>
    (second.sizes i (Nat.lt_of_lt_of_le inside first.longer)).trans (first.sizes i inside)⟩

theorem SizesKept.of_regions (same : h'.regions = h.regions) : h.SizesKept h' := by
  refine ⟨Nat.le_of_eq (congrArg List.length same.symm), fun i _ => ?_⟩
  simp only [cells, region, same]

theorem cells_of_le {i : Nat} (beyond : h.regions.length ≤ i) : h.cells i = [] := by
  simp only [cells, region, List.getD_eq_getElem?_getD, List.getElem?_eq_none beyond,
    Option.getD_none]
  rfl

theorem SizesKept.cells_length (kept : h.SizesKept h') {i : Nat}
    (held : 0 < (h.cells i).length) : (h'.cells i).length = (h.cells i).length := by
  by_cases inside : i < h.regions.length
  · exact kept.sizes i inside
  · rw [cells_of_le (Nat.le_of_not_lt inside)] at held
    exact absurd held (Nat.lt_irrefl 0)

theorem sizesKept_update (h : Heap) (i : Nat) {f : Region → Region}
    (keeps : ∀ r, (f r).cells.length = r.cells.length) : h.SizesKept (h.update i f) := by
  refine ⟨by simp [update], fun j _ => ?_⟩
  by_cases inside : i < h.regions.length
  · rw [cells, cells, region_update h f inside]
    split
    · subst_vars
      exact keeps _
    · rfl
  · -- past the end nothing is replaced
    have same : (h.update i f).regions = h.regions :=
      List.set_eq_of_length_le (Nat.le_of_not_lt inside)
    simp only [cells, region, same]

theorem sizesKept_push {r : Region} (pushed : h'.regions = h.regions ++ [r]) :
    h.SizesKept h' := by
  refine ⟨by simp [pushed], fun j inside => ?_⟩
  rw [cells, cells, region_of_push pushed, if_neg (Nat.ne_of_lt inside)]

end Heap

/-- A computation that, from any heap, ends with every region kept at its size. -/
def KeepsSizes {α : Type} (x : HeapM α) : Prop :=
  ∀ h a h', x.run h = .ok a h' → h.SizesKept h'

namespace KeepsSizes

variable {α β : Type}

theorem of_pure (a : α) : KeepsSizes (pure a : HeapM α) := by
  intro h b h' ran
  cases ran
  exact Heap.SizesKept.refl h

theorem of_bind {x : HeapM α} {f : α → HeapM β} (first : KeepsSizes x)
    (rest : ∀ a, KeepsSizes (f a)) : KeepsSizes (x >>= f) := by
  intro h b h' ran
  rw [EStateM.run_bind] at ran
  cases ran₁ : x.run h with
  | ok a h₁ =>
    rw [ran₁] at ran
    exact (first h a h₁ ran₁).trans (rest a h₁ b h' ran)
  | error e h₁ =>
    rw [ran₁] at ran
    cases ran

theorem of_heap : KeepsSizes heap := by
  intro h a h' ran
  cases ran
  exact Heap.SizesKept.refl h

theorem of_note (e : Log.Event) : KeepsSizes (note e) := by
  intro h a h' ran
  cases ran
  exact Heap.SizesKept.of_regions rfl

end KeepsSizes

namespace CowStore

open Heap

theorem makeUnique_keepsSizes (s : CowStore) : KeepsSizes s.makeUnique := by
  intro h s' h' ran
  by_cases alone : s.owners h ≤ 1
  · rw [makeUnique_alone alone] at ran
    cases ran
    exact SizesKept.refl h
  · -- a shared region is copied to a fresh one, and the old one only loses an owner
    obtain ⟨h₁, run, moved⟩ := makeUnique_shared (Nat.lt_of_not_le alone)
    rw [run] at ran
    cases ran
    exact (sizesKept_update h s.id (f := fun r => { r with owners := r.owners - 1 })
      fun _ => rfl).trans (sizesKept_push moved)

theorem reserve_keepsSizes (s : CowStore) (n : Nat) : KeepsSizes (s.reserve n) := by
  intro h s' h' ran
  by_cases room : n ≤ s.capacity h
  · rw [reserve_within room] at ran
    exact makeUnique_keepsSizes s h s' h' ran
  by_cases fits : s.capacity h * 7 + 2 ≤ wordMax
  · obtain ⟨h₁, run, moved⟩ := reserve_grow (Nat.lt_of_not_le room) fits
    rw [run] at ran
    cases ran
    exact (sizesKept_update h s.id (f := fun r => { r with owners := r.owners - 1 })
      fun _ => rfl).trans (sizesKept_push moved)
  · rw [reserve_overflow (Nat.lt_of_not_le room) (Nat.lt_of_not_le fits)] at ran
    cases ran

theorem create_keepsSizes (n : Nat) : KeepsSizes (create n) := by
  intro h s h' ran
  by_cases zero : n = 0
  · rw [zero, create_zero] at ran
    cases ran
  · simp only [create, allocate, zero, if_false, EStateM.run_bind] at ran
    injection ran with _ made
    subst made
    exact sizesKept_push rfl

theorem modifyCells_keepsSizes (s : CowStore) {edit : List UInt8 → List UInt8}
    (keeps : ∀ cells, (edit cells).length = cells.length) :
    KeepsSizes (s.modifyCells edit) := by
  intro h s' h' ran
  rw [modifyCells_run] at ran
  cases unique : s.makeUnique.run h with
  | ok s₁ h₁ =>
    rw [unique, EStateM.Result.ok.injEq] at ran
    obtain ⟨rfl, rfl⟩ := ran
    exact (makeUnique_keepsSizes s h s₁ h₁ unique).trans
      (sizesKept_update h₁ s₁.id (f := fun r => { r with cells := edit r.cells })
        fun r => keeps r.cells)
  | error f h₁ =>
    rw [unique] at ran
    cases ran

end CowStore

namespace SmallBuffer

open KeepsSizes

theorem reserve_keepsSizes (b : SmallBuffer) (n : Nat) : KeepsSizes (b.reserve n) := by
  cases b with
  | inline c len =>
    by_cases small : n ≤ inlineCapacity
    · simp only [reserve, if_pos small]
      exact of_pure _
    · simp only [reserve, if_neg small]
      exact of_bind (CowStore.create_keepsSizes n) fun s =>
        of_bind (s.modifyCells_keepsSizes fun _ => Word.length_overwrite _ _ _) fun _ =>
          of_bind of_heap fun _ => of_bind (of_note _) fun _ => of_pure _
  | large s len => exact of_bind (s.reserve_keepsSizes n) fun _ => of_pure _

theorem modifyCells_keepsSizes (b : SmallBuffer) {edit : List UInt8 → List UInt8}
    (keeps : ∀ cells, (edit cells).length = cells.length) :
    KeepsSizes (b.modifyCells edit) := by
  cases b with
  | inline c len => exact of_pure _
  | large s len => exact of_bind (s.modifyCells_keepsSizes keeps) fun _ => of_pure _

end SmallBuffer

theorem Ends.keeping {α : Type} {x : HeapM α} {h : Heap} {P : α → Heap → Prop}
    {F : Fault → Prop} (ends : Ends x h P F) (keeps : KeepsSizes x) :
    Ends x h (fun a h' => P a h' ∧ h.SizesKept h') F := by
  unfold Ends at ends ⊢
  cases ran : x.run h with
  | ok a h' =>
    rw [ran] at ends
    exact ⟨ends, keeps h a h' ran⟩
  | error f h' =>
    rw [ran] at ends
    exact ends

namespace SmallBuffer

variable {h h' : Heap} {b : SmallBuffer}

theorem Shaped.allocated {s : CowStore} {n : Nat} (shaped : (large s n).Shaped h) :
    s.id < h.regions.length := by
  by_contra beyond
  have above : inlineCapacity < (s.cells h).length := shaped.1
  rw [CowStore.cells, Heap.cells_of_le (Nat.le_of_not_lt beyond)] at above
  exact absurd above (by decide)

theorem Shaped.sizesKept (shaped : b.Shaped h) (kept : h.SizesKept h') :
    b.Shaped h' ∧ b.capacity h' = b.capacity h := by
  cases b with
  | inline c n => exact ⟨shaped, rfl⟩
  | large s n =>
    have held : 0 < (h.cells s.id).length := Nat.lt_trans (by decide) shaped.1
    have same : s.capacity h' = s.capacity h := kept.cells_length held
    exact ⟨shaped.of_cells rfl same (shaped.2.2.trans_eq same.symm), same⟩

end SmallBuffer

end SysBytes.Store

namespace SysBytes.Control.Buffer

open Store KeepsSizes

variable {h h' : Heap} {b : Buffer}

theorem reserve_keepsSizes (b : Buffer) (n : Nat) : KeepsSizes (b.reserve n) := by
  unfold reserve
  cases stored : b.store with
  | some s => exact of_bind (s.reserve_keepsSizes n) fun _ => of_pure _
  | none =>
    by_cases zero : n = 0
    · simp only [zero, if_true]
      exact of_pure _
    · simp only [zero, if_false]
      exact of_bind (CowStore.create_keepsSizes n) fun _ => of_pure _

theorem modifyCells_keepsSizes (b : Buffer) {edit : List UInt8 → List UInt8}
    (keeps : ∀ cells, (edit cells).length = cells.length) :
    KeepsSizes (b.modifyCells edit) := by
  unfold modifyCells
  cases b.store with
  | some s => exact of_bind (s.modifyCells_keepsSizes keeps) fun _ => of_pure _
  | none => exact of_pure _

theorem prepareReceive_keepsSizes (b : Buffer) (cap : Nat) :
    KeepsSizes (b.prepareReceive cap) :=
  of_bind (reserve_keepsSizes _ cap) fun b₁ =>
    of_bind (modifyCells_keepsSizes b₁ fun _ => rfl) fun _ => of_bind of_heap fun _ => of_pure _

theorem Sized.sizesKept (sized : b.Sized h) (kept : h.SizesKept h') :
    b.Sized h' ∧ b.capacity h' = b.capacity h := by
  have same : b.capacity h' = b.capacity h := by
    cases stored : b.store with
    | none => rw [capacity_of_none stored, capacity_of_none stored]
    | some s =>
      rw [capacity_of_some stored, capacity_of_some stored]
      exact kept.cells_length (sized.positive s stored)
  refine ⟨⟨⟨fun s stored => ?_, same ▸ sized.valid.within⟩, same ▸ sized.eights,
    fun s stored => ?_⟩, same⟩
  · exact Nat.lt_of_lt_of_le (sized.valid.allocated s stored) kept.longer
  · rw [← capacity_of_some stored, same, capacity_of_some stored]
    exact sized.positive s stored

end SysBytes.Control.Buffer
