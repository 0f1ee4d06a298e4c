import Mathlib
import SysBytes.Store.Region

/-!
Handles on shared regions, stated by what each operation does to the heap. Each operation keeps
the heap accounted for the live handles and leaves the bytes seen through every other handle:
a write reaches a region only once its owner count is one.
-/
namespace SysBytes.Store

namespace Heap

@[simp] theorem length_update (h : Heap) (i : Nat) (f : Region → Region) :
    (h.update i f).regions.length = h.regions.length := by
  simp [update]

theorem region_update (h : Heap) {i : Nat} (f : Region → Region) (inside : i < h.regions.length)
    (j : Nat) : (h.update i f).region j = if j = i then f (h.region i) else h.region j := by
  unfold update region
  by_cases same : j = i
  · subst same
    simp [List.getD_eq_getElem?_getD, inside]
  · simp [List.getD_eq_getElem?_getD, Ne.symm same, same]

theorem region_of_push {h h' : Heap} {r : Region} (pushed : h'.regions = h.regions ++ [r])
    (j : Nat) : h'.region j = if j = h.regions.length then r else h.region j := by
  unfold region
  rw [pushed]
  by_cases last : j = h.regions.length
  · subst last
    simp [List.getD_eq_getElem?_getD]
  · rw [if_neg last]
    simp only [List.getD_eq_getElem?_getD, List.getElem?_append]
    split
    · rfl
    · rename_i beyond
      have past : [r].length ≤ j - h.regions.length := by
        rw [List.length_singleton]
        omega
      rw [List.getElem?_eq_none past, List.getElem?_eq_none (Nat.le_of_not_lt beyond)]

end Heap

/-- The heap accounts for the live handles `ids`: each owner count is the number of handles on its
region. -/
structure Accounted (h : Heap) (ids : List Nat) : Prop where
  owners_eq : ∀ i, h.owners i = ids.count i
  allocated : ∀ i ∈ ids, i < h.regions.length

namespace Accounted

variable {h : Heap} {ids : List Nat}

theorem perm {ids' : List Nat} (acc : Accounted h ids) (same : ids.Perm ids') :
    Accounted h ids' :=
  ⟨fun i => (acc.owners_eq i).trans (same.count_eq i),
    fun i mem => acc.allocated i (same.mem_iff.mpr mem)⟩

theorem fresh_not_mem (acc : Accounted h ids) : h.regions.length ∉ ids :=
  fun mem => Nat.lt_irrefl _ (acc.allocated _ mem)

theorem not_mem_of_alone {i : Nat} {others : List Nat} (acc : Accounted h (i :: others))
    (alone : h.owners i = 1) : i ∉ others := by
  have counted := acc.owners_eq i
  rw [alone, List.count_cons_self] at counted
  intro mem
  have := List.count_pos_iff.mpr mem
  omega

end Accounted

namespace Heap

def handles (h : Heap) : List Nat :=
  (List.range h.regions.length).flatMap fun i => List.replicate (h.owners i) i

theorem owners_of_le {h : Heap} {i : Nat} (beyond : h.regions.length ≤ i) : h.owners i = 0 := by
  simp [owners, region, List.getD_eq_getElem?_getD, List.getElem?_eq_none beyond]
  rfl

theorem count_range_flatMap (h : Heap) (i n : Nat) :
    ((List.range n).flatMap fun j => List.replicate (h.owners j) j).count i =
      if i < n then h.owners i else 0 := by
  induction n with
  | zero => simp
  | succ n ih =>
    rw [List.range_succ, List.flatMap_append, List.count_append, ih, List.flatMap_singleton,
      List.count_replicate]
    by_cases last : n = i
    · subst last
      simp
    · have differ : (n == i) = false := by simpa using last
      simp only [differ, Bool.false_eq_true, if_false, Nat.add_zero]
      by_cases below : i < n
      · rw [if_pos below, if_pos (by omega)]
      · rw [if_neg below, if_neg (by omega)]

theorem accounted_handles (h : Heap) : Accounted h h.handles := by
  refine ⟨fun i => ?_, fun i mem => ?_⟩
  · rw [handles, count_range_flatMap]
    split
    · rfl
    · exact owners_of_le (by omega)
  · obtain ⟨j, range, rep⟩ := List.mem_flatMap.mp mem
    rw [List.eq_of_mem_replicate rep]
    exact List.mem_range.mp range

end Heap

section Moves

variable {h h' : Heap} {i : Nat} {others : List Nat}

theorem accounted_move {c : List UInt8} (acc : Accounted h (i :: others))
    (moved : h'.regions =
      (h.update i fun r => { r with owners := r.owners - 1 }).regions ++ [⟨c, 1⟩]) :
    Accounted h' (h.regions.length :: others) ∧ h'.cells h.regions.length = c ∧
      h'.owners h.regions.length = 1 ∧ ∀ j ∈ others, h'.cells j = h.cells j := by
  have inside := acc.allocated i (List.mem_cons_self ..)
  have fresh : h.regions.length ∉ others :=
    fun mem => acc.fresh_not_mem (List.mem_cons_of_mem _ mem)
  have region_eq := Heap.region_of_push moved
  simp only [Heap.length_update] at region_eq
  have region_old := Heap.region_update h (fun r => { r with owners := r.owners - 1 }) inside
  refine ⟨⟨fun j => ?_, fun j mem => ?_⟩, ?_, ?_, fun j mem => ?_⟩
  · simp only [Heap.owners, region_eq, region_old]
    by_cases new : j = h.regions.length
    · subst new
      simp [List.count_eq_zero.mpr fresh]
    · have counted := acc.owners_eq j
      simp only [Heap.owners] at counted
      by_cases old : j = i
      · subst old
        simp only [if_neg new, if_true, List.count_cons_self] at counted ⊢
        rw [List.count_cons_of_ne (Ne.symm new)]
        omega
      · simp only [if_neg new, if_neg old, counted, List.count_cons_of_ne (Ne.symm old),
          List.count_cons_of_ne (Ne.symm new)]
  · rcases List.mem_cons.mp mem with rfl | mem
    · simp [moved]
    · have := acc.allocated j (List.mem_cons_of_mem _ mem)
      simp [moved]
      omega
  · simp [Heap.cells, region_eq]
  · simp [Heap.owners, region_eq]
  · have below := acc.allocated j (List.mem_cons_of_mem _ mem)
    have new : j ≠ h.regions.length := Nat.ne_of_lt below
    simp only [Heap.cells, region_eq, region_old, if_neg new]
    split <;> simp_all

theorem accounted_write (edit : List UInt8 → List UInt8) (acc : Accounted h (i :: others))
    (alone : h.owners i = 1) :
    Accounted (h.update i fun r => { r with cells := edit r.cells }) (i :: others) ∧
      (h.update i fun r => { r with cells := edit r.cells }).cells i = edit (h.cells i) ∧
      ∀ j ∈ others, (h.update i fun r => { r with cells := edit r.cells }).cells j = h.cells j := by
  have inside := acc.allocated i (List.mem_cons_self ..)
  have apart := acc.not_mem_of_alone alone
  have region_eq := Heap.region_update h (fun r => { r with cells := edit r.cells }) inside
  refine ⟨⟨fun j => ?_, fun j mem => ?_⟩, ?_, fun j mem => ?_⟩
  · rw [← acc.owners_eq j]
    simp only [Heap.owners, region_eq]
    split <;> simp_all
  · simpa using acc.allocated j mem
  · simp [Heap.cells, region_eq]
  · have other : j ≠ i := fun same => apart (same ▸ mem)
    simp [Heap.cells, region_eq, other]

end Moves

namespace CowStore

variable {h : Heap} {s : CowStore} {others : List Nat}

theorem makeUnique_alone (alone : s.owners h ≤ 1) : s.makeUnique.run h = .ok s h := by
  simp [makeUnique, heap, alone]

theorem makeUnique_shared (shared : 1 < s.owners h) :
    ∃ h', s.makeUnique.run h = .ok ⟨h.regions.length⟩ h' ∧
      h'.regions = (h.update s.id fun r => { r with owners := r.owners - 1 }).regions ++
        [⟨s.cells h, 1⟩] := by
  refine ⟨⟨_, h.events ++ [⟨.trace, "copying shared store", [("capacity", .nat (s.capacity h))]⟩]⟩,
    ?_, rfl⟩
  simp [makeUnique, heap, note, release, allocate, Nat.not_le.mpr shared, Heap.update,
    Heap.region]

theorem reserve_within {n : Nat} (room : n ≤ s.capacity h) :
    (s.reserve n).run h = s.makeUnique.run h := by
  simp [reserve, heap, room]

theorem reserve_overflow {n : Nat} (beyond : s.capacity h < n)
    (overflow : wordMax < s.capacity h * 7 + 2) :
    (s.reserve n).run h = .error .capacityOverflow h := by
  simp [reserve, heap, grownCapacity, fail, Nat.not_le.mpr beyond, Nat.not_le.mpr overflow]
  rfl

theorem reserve_grow {n : Nat} (beyond : s.capacity h < n)
    (fits : s.capacity h * 7 + 2 ≤ wordMax) :
    ∃ h', (s.reserve n).run h = .ok ⟨h.regions.length⟩ h' ∧
      h'.regions = (h.update s.id fun r => { r with owners := r.owners - 1 }).regions ++
        [⟨s.cells h ++ List.replicate (Word.roundUp8 (max ((s.capacity h * 7 + 2) / 4) n) -
          s.capacity h) 0, 1⟩] := by
  refine ⟨⟨_, h.events ++ [⟨.trace, "growing store", [("old", .nat (s.capacity h)),
    ("new", .nat (max ((s.capacity h * 7 + 2) / 4) n))]⟩]⟩, ?_, rfl⟩
  simp [reserve, heap, grownCapacity, note, release, allocate, Nat.not_le.mpr beyond, fits,
    Heap.update, Heap.region]

theorem modifyCells_run (edit : List UInt8 → List UInt8) :
    (s.modifyCells edit).run h =
      match s.makeUnique.run h with
      | .ok s' h' => .ok s' (h'.update s'.id fun r => { r with cells := edit r.cells })
      | .error e h' => .error e h' := by
  unfold modifyCells
  rw [EStateM.run_bind]
  cases s.makeUnique.run h <;> rfl

/-! ### The bytes seen through the handle itself -/

theorem makeUnique_cells (inside : s.id < h.regions.length) :
    ∃ s' h', s.makeUnique.run h = .ok s' h' ∧ s'.cells h' = s.cells h ∧
      s'.id < h'.regions.length := by
  by_cases alone : s.owners h ≤ 1
  · exact ⟨s, h, makeUnique_alone alone, rfl, inside⟩
  · obtain ⟨h', run, moved⟩ := makeUnique_shared (Nat.lt_of_not_le alone)
    have region_eq := Heap.region_of_push moved
    simp only [Heap.length_update] at region_eq
    exact ⟨_, _, run, by simp [cells, Heap.cells, region_eq], by simp [moved]⟩

theorem modifyCells_cells (edit : List UInt8 → List UInt8) (inside : s.id < h.regions.length) :
    ∃ s' h', (s.modifyCells edit).run h = .ok s' h' ∧ s'.cells h' = edit (s.cells h) ∧
      s'.id < h'.regions.length := by
  obtain ⟨s', h', run, same, inside'⟩ := makeUnique_cells inside
  refine ⟨s', _, by rw [modifyCells_run, run], ?_, by simpa using inside'⟩
  simp only [cells, Heap.cells, Heap.region_update _ _ inside', if_true]
  exact congrArg edit same

/-- The bytes a handle holds after reserving `n`: unchanged within the capacity, else grown by the
rule. -/
def reservedCells (cells : List UInt8) (n : Nat) : List UInt8 :=
  if n ≤ cells.length then cells
  else cells ++ List.replicate (Word.roundUp8 (max ((cells.length * 7 + 2) / 4) n) -
    cells.length) 0

theorem reservedCells_aligned {cells : List UInt8} (eights : cells.length % 8 = 0) (n : Nat) :
    cells.length ≤ (reservedCells cells n).length ∧ n ≤ (reservedCells cells n).length ∧
      (reservedCells cells n).length % 8 = 0 := by
  unfold reservedCells
  split
  · exact ⟨Nat.le_refl _, by assumption, eights⟩
  · have grown := Nat.le_max_right ((cells.length * 7 + 2) / 4) n
    generalize max ((cells.length * 7 + 2) / 4) n = m at grown ⊢
    simp only [List.length_append, List.length_replicate]
    unfold Word.roundUp8
    omega

theorem length_reservedCells (cells : List UInt8) (n : Nat) :
    ∃ k, reservedCells cells n = cells ++ List.replicate k 0 ∧ n ≤ (reservedCells cells n).length := by
  unfold reservedCells
  split
  · exact ⟨0, by simp, by assumption⟩
  · refine ⟨_, rfl, ?_⟩
    simp only [List.length_append, List.length_replicate]
    unfold Word.roundUp8
    omega

theorem reserve_reserved {n : Nat} (inside : s.id < h.regions.length)
    (fits : n ≤ s.capacity h ∨ s.capacity h * 7 + 2 ≤ wordMax) :
    ∃ s' h', (s.reserve n).run h = .ok s' h' ∧ s'.cells h' = reservedCells (s.cells h) n ∧
      s'.id < h'.regions.length := by
  by_cases room : n ≤ s.capacity h
  · obtain ⟨s', h', run, same, inside'⟩ := makeUnique_cells inside
    have room' : n ≤ (s.cells h).length := room
    exact ⟨s', h', by rw [reserve_within room, run], by rw [same, reservedCells, if_pos room'],
      inside'⟩
  · obtain ⟨h', run, moved⟩ := reserve_grow (Nat.lt_of_not_le room) (fits.resolve_left room)
    have region_eq := Heap.region_of_push moved
    simp only [Heap.length_update] at region_eq
    have room' : ¬ n ≤ (s.cells h).length := room
    refine ⟨_, _, run, ?_, by simp [moved]⟩
    show h'.cells h.regions.length = _
    rw [reservedCells, if_neg room']
    simp [Heap.cells, region_eq]
    rfl

theorem reserve_cells {n : Nat} (inside : s.id < h.regions.length)
    (fits : n ≤ s.capacity h ∨ s.capacity h * 7 + 2 ≤ wordMax) :
    ∃ s' h' k, (s.reserve n).run h = .ok s' h' ∧ s'.cells h' = s.cells h ++ List.replicate k 0 ∧
      n ≤ s'.capacity h' ∧ s'.id < h'.regions.length := by
  obtain ⟨s', h', run, grown, inside'⟩ := reserve_reserved inside fits
  obtain ⟨k, extended, room⟩ := length_reservedCells (s.cells h) n
  refine ⟨s', h', k, run, grown.trans extended, ?_, inside'⟩
  show n ≤ (s'.cells h').length
  rw [grown]
  exact room

theorem create_cells {n : Nat} (positive : 0 < n) :
    ∃ s' h', (create n).run h = .ok s' h' ∧ s'.cells h' = List.replicate (Word.roundUp8 n) 0 ∧
      s'.id < h'.regions.length := by
  refine ⟨⟨h.regions.length⟩, ⟨h.regions ++ [⟨List.replicate (Word.roundUp8 n) 0, 1⟩], h.events⟩,
    ?_, ?_, by simp⟩
  · simp [create, allocate, Nat.pos_iff_ne_zero.mp positive]
  · have pushed : (⟨h.regions ++ [⟨List.replicate (Word.roundUp8 n) 0, 1⟩], h.events⟩ : Heap).regions =
        h.regions ++ [⟨List.replicate (Word.roundUp8 n) 0, 1⟩] := rfl
    simp [cells, Heap.cells, Heap.region_of_push pushed]

theorem create_zero : (create 0).run h = .error .zeroCapacity h := by
  simp [create, fail]

/-! ### Accounting, and the bytes seen through every other live handle -/

theorem makeUnique_accounted (acc : Accounted h (s.id :: others)) :
    ∃ s' h', s.makeUnique.run h = .ok s' h' ∧ Accounted h' (s'.id :: others) ∧
      s'.cells h' = s.cells h ∧ h'.owners s'.id = 1 ∧ ∀ j ∈ others, h'.cells j = h.cells j := by
  by_cases alone : s.owners h ≤ 1
  · have counted := acc.owners_eq s.id
    rw [List.count_cons_self] at counted
    refine ⟨s, h, makeUnique_alone alone, acc, rfl, ?_, fun _ _ => rfl⟩
    simp only [owners] at alone
    omega
  · obtain ⟨h', run, moved⟩ := makeUnique_shared (Nat.lt_of_not_le alone)
    obtain ⟨acc', fresh, one, others_same⟩ := accounted_move acc moved
    exact ⟨_, _, run, acc', fresh, one, others_same⟩

theorem modifyCells_accounted (edit : List UInt8 → List UInt8) (acc : Accounted h (s.id :: others)) :
    ∃ s' h', (s.modifyCells edit).run h = .ok s' h' ∧ Accounted h' (s'.id :: others) ∧
      s'.cells h' = edit (s.cells h) ∧ ∀ j ∈ others, h'.cells j = h.cells j := by
  obtain ⟨s', h', run, acc', same, one, others_same⟩ := makeUnique_accounted acc
  obtain ⟨acc'', written, others_kept⟩ := accounted_write edit acc' one
  refine ⟨s', _, by rw [modifyCells_run, run], acc'', ?_, fun j mem => ?_⟩
  · rw [cells, written, ← same]
    rfl
  · rw [others_kept j mem, others_same j mem]

theorem reserve_accounted {n : Nat} (acc : Accounted h (s.id :: others))
    (fits : n ≤ s.capacity h ∨ s.capacity h * 7 + 2 ≤ wordMax) :
    ∃ s' h', (s.reserve n).run h = .ok s' h' ∧ Accounted h' (s'.id :: others) ∧
      s'.cells h' = reservedCells (s.cells h) n ∧ ∀ j ∈ others, h'.cells j = h.cells j := by
  by_cases room : n ≤ s.capacity h
  · obtain ⟨s', h', run, acc', same, -, others_same⟩ := makeUnique_accounted acc
    refine ⟨s', h', by rw [reserve_within room, run], acc', ?_, others_same⟩
    have room' : n ≤ (s.cells h).length := room
    rw [same, reservedCells, if_pos room']
  · obtain ⟨h', run, moved⟩ := reserve_grow (Nat.lt_of_not_le room) (fits.resolve_left room)
    obtain ⟨acc', fresh, -, others_same⟩ := accounted_move acc moved
    refine ⟨_, _, run, acc', ?_, others_same⟩
    have room' : ¬ n ≤ (s.cells h).length := room
    show h'.cells h.regions.length = _
    rw [fresh, reservedCells, if_neg room']
    rfl

theorem share_accounted (acc : Accounted h (s.id :: others)) :
    ∃ h', s.share.run h = .ok s h' ∧ Accounted h' (s.id :: s.id :: others) ∧
      ∀ j, h'.cells j = h.cells j := by
  have inside := acc.allocated s.id (List.mem_cons_self ..)
  have region_eq := Heap.region_update h (fun r => { r with owners := r.owners + 1 }) inside
  refine ⟨_, by simp [share]; rfl, ⟨fun j => ?_, fun j mem => ?_⟩, fun j => ?_⟩
  · have counted := acc.owners_eq j
    simp only [Heap.owners] at counted ⊢
    rw [region_eq]
    by_cases same : j = s.id
    · subst same
      simp only [if_true, List.count_cons_self] at counted ⊢
      omega
    · simp only [if_neg same, counted, List.count_cons_of_ne (Ne.symm same)]
  · rcases List.mem_cons.mp mem with rfl | mem
    · simpa using inside
    · simpa using acc.allocated j mem
  · simp only [Heap.cells, region_eq]
    split <;> simp_all

theorem release_accounted (acc : Accounted h (s.id :: others)) :
    ∃ h', s.release.run h = .ok () h' ∧ Accounted h' others ∧ ∀ j, h'.cells j = h.cells j := by
  have inside := acc.allocated s.id (List.mem_cons_self ..)
  have region_eq := Heap.region_update h (fun r => { r with owners := r.owners - 1 }) inside
  refine ⟨_, by simp [release]; rfl, ⟨fun j => ?_, fun j mem => ?_⟩, fun j => ?_⟩
  · have counted := acc.owners_eq j
    simp only [Heap.owners] at counted ⊢
    rw [region_eq]
    by_cases same : j = s.id
    · subst same
      simp only [if_true, List.count_cons_self] at counted ⊢
      omega
    · simp only [if_neg same, counted, List.count_cons_of_ne (Ne.symm same)]
  · simpa using acc.allocated j (List.mem_cons_of_mem _ mem)
  · simp only [Heap.cells, region_eq]
    split <;> simp_all

theorem create_accounted {n : Nat} {ids : List Nat} (acc : Accounted h ids) (positive : 0 < n) :
    ∃ s' h', (create n).run h = .ok s' h' ∧ Accounted h' (s'.id :: ids) ∧
      s'.cells h' = List.replicate (Word.roundUp8 n) 0 ∧ ∀ j ∈ ids, h'.cells j = h.cells j := by
  have pushed : (⟨h.regions ++ [⟨List.replicate (Word.roundUp8 n) 0, 1⟩], h.events⟩ : Heap).regions =
      h.regions ++ [⟨List.replicate (Word.roundUp8 n) 0, 1⟩] := rfl
  have region_eq := Heap.region_of_push pushed
  refine ⟨⟨h.regions.length⟩, ⟨h.regions ++ [⟨List.replicate (Word.roundUp8 n) 0, 1⟩], h.events⟩,
    by simp [create, allocate, Nat.pos_iff_ne_zero.mp positive], ⟨fun j => ?_, fun j mem => ?_⟩,
    by simp [cells, Heap.cells, region_eq], fun j mem => ?_⟩
  · simp only [Heap.owners, region_eq]
    by_cases new : j = h.regions.length
    · subst new
      simp [List.count_eq_zero.mpr acc.fresh_not_mem]
    · simp only [if_neg new, List.count_cons_of_ne (Ne.symm new)]
      exact acc.owners_eq j
  · rcases List.mem_cons.mp mem with rfl | mem
    · simp
    · have := acc.allocated j mem
      simp
      omega
  · have new : j ≠ h.regions.length := Nat.ne_of_lt (acc.allocated j mem)
    simp [Heap.cells, region_eq, new]

end CowStore

end SysBytes.Store
