import SysBytes.Proofs.Store.Handles
import SysBytes.Proofs.Word
import SysBytes.Store.Small
import SysBytes.Control.Buffer

/-!
How regions grow. A region is made with its size rounded up to 8; beyond the capacity it grows
to seven quarters of it, or to the request, rounded up to 8, unless that overflows a word. So
every region any sequence of operations makes holds a positive multiple of 8 bytes.
-/
namespace SysBytes.Store

/-! ### The growth rule -/

theorem grownCapacity_of_fits {c n : Nat} (fits : c * 7 + 2 ≤ wordMax) :
    grownCapacity c n = .ok (max ((c * 7 + 2) / 4) n) := by
  simp [grownCapacity, fits]

theorem grownCapacity_eq_error_iff (c n : Nat) (f : Fault) :
    grownCapacity c n = .error f ↔ f = .capacityOverflow ∧ wordMax < c * 7 + 2 := by
  unfold grownCapacity
  by_cases fits : c * 7 + 2 ≤ wordMax
  · simp [fits]
  · simp [fits, eq_comm]
    omega

theorem grown_bounds {c n g : Nat} (grown : grownCapacity c n = .ok g) :
    n ≤ Word.roundUp8 g ∧ Word.roundUp8 g % 8 = 0 ∧
      (c % 8 = 0 → 7 * c ≤ 4 * Word.roundUp8 g) := by
  unfold grownCapacity at grown
  split at grown
  · cases grown
    have scaled := Nat.le_max_left ((c * 7 + 2) / 4) n
    have asked := Nat.le_max_right ((c * 7 + 2) / 4) n
    generalize max ((c * 7 + 2) / 4) n = g at scaled asked ⊢
    unfold Word.roundUp8
    refine ⟨by omega, by omega, fun eights => by omega⟩
  · cases grown

/-- What making room for `n` bytes in a region holding `cells` does, by the growth rule. -/
def GrowsByRule {α : Type} (h : Heap) (cells : List UInt8) (n : Nat)
    (after : α → Heap → List UInt8) : EStateM.Result Fault Heap α → Prop
  | .ok a h' =>
    (n ≤ cells.length → after a h' = cells) ∧
    (cells.length < n → ∃ g, grownCapacity cells.length n = .ok g ∧
      after a h' = cells ++ List.replicate (Word.roundUp8 g - cells.length) 0 ∧
      (after a h').length = Word.roundUp8 g)
  | .error f h' => cells.length < n ∧ grownCapacity cells.length n = .error f ∧ h' = h

theorem GrowsByRule.map {α β : Type} {h : Heap} {cells : List UInt8} {n : Nat} {x : HeapM α}
    {after : α → Heap → List UInt8} {after' : β → Heap → List UInt8} {g : α → β}
    (same : ∀ a h', after' (g a) h' = after a h') (rule : GrowsByRule h cells n after (x.run h)) :
    GrowsByRule h cells n after' ((x >>= fun a => pure (g a)).run h) := by
  rw [EStateM.run_bind]
  cases ran : x.run h with
  | ok a h' =>
    rw [ran] at rule
    show GrowsByRule h cells n after' (.ok (g a) h')
    simpa only [GrowsByRule, same] using rule
  | error f h' =>
    rw [ran] at rule
    exact rule

namespace CowStore

variable {h : Heap} {s : CowStore}

theorem lt_length_of_shared (shared : 1 < s.owners h) : s.id < h.regions.length := by
  by_contra beyond
  rw [owners, Heap.owners_of_le (Nat.le_of_not_lt beyond)] at shared
  exact absurd shared (by decide)

theorem makeUnique_keeps (s : CowStore) (h : Heap) :
    ∃ s' h', s.makeUnique.run h = .ok s' h' ∧ s'.cells h' = s.cells h := by
  by_cases alone : s.owners h ≤ 1
  · exact ⟨s, h, makeUnique_alone alone, rfl⟩
  · obtain ⟨s', h', ran, same, -⟩ :=
      makeUnique_cells (lt_length_of_shared (Nat.lt_of_not_le alone))
    exact ⟨s', h', ran, same⟩

theorem reserve_grows (s : CowStore) (n : Nat) (h : Heap) :
    GrowsByRule h (s.cells h) n (fun s' h' => s'.cells h') ((s.reserve n).run h) := by
  by_cases room : n ≤ s.capacity h
  · obtain ⟨s', h', ran, same⟩ := makeUnique_keeps s h
    rw [reserve_within room, ran]
    exact ⟨fun _ => same, fun beyond => absurd room (Nat.not_le.mpr beyond)⟩
  · have beyond : s.capacity h < n := Nat.lt_of_not_le room
    by_cases fits : s.capacity h * 7 + 2 ≤ wordMax
    · obtain ⟨h', ran, moved⟩ := reserve_grow beyond fits
      have grown : grownCapacity (s.cells h).length n =
          .ok (max (((s.cells h).length * 7 + 2) / 4) n) := grownCapacity_of_fits fits
      have stored : h'.cells h.regions.length = s.cells h ++
          List.replicate (Word.roundUp8 (max (((s.cells h).length * 7 + 2) / 4) n) -
            (s.cells h).length) 0 := by
        rw [Heap.cells, Heap.region_of_push moved, Heap.length_update, if_pos rfl]
        rfl
      have large := (grown_bounds grown).1
      rw [ran]
      refine ⟨fun within => absurd within room, fun _ => ⟨_, grown, stored, ?_⟩⟩
      show (h'.cells h.regions.length).length = _
      rw [stored, List.length_append, List.length_replicate]
      have : (s.cells h).length < n := beyond
      omega
    · rw [reserve_overflow beyond (Nat.lt_of_not_le fits)]
      exact ⟨beyond, (grownCapacity_eq_error_iff _ _ _).mpr ⟨rfl, Nat.lt_of_not_le fits⟩,
        rfl⟩

end CowStore

/-! ### Buffers that reserve through a region -/

namespace SmallBuffer

theorem reserve_large_grows (s : CowStore) (len n : Nat) (h : Heap) :
    GrowsByRule h (s.cells h) n (fun b h' => b.cells h') (((large s len).reserve n).run h) :=
  GrowsByRule.map (fun _ _ => rfl) (s.reserve_grows n h)

theorem reserve_inline_promotes (c : List UInt8) (len n : Nat) (large : inlineCapacity < n)
    (h : Heap) : ∃ s' h', ((inline c len).reserve n).run h = .ok (.large s' len) h' ∧
      s'.capacity h' = Word.roundUp8 n := by
  obtain ⟨s₁, h₁, made, zeros, inside⟩ := CowStore.create_cells (h := h) (n := n) (by
    unfold inlineCapacity at large
    omega)
  obtain ⟨s₂, h₂, written, cells₂, -⟩ :=
    CowStore.modifyCells_cells (fun cells => Word.overwrite cells 0 (c.take len)) inside
  -- the event of the move touches no region
  obtain ⟨h₃, ran, regions₃⟩ :
      ∃ h₃, ((inline c len).reserve n).run h = .ok (.large s₂ len) h₃ ∧
        h₃.regions = h₂.regions :=
    ⟨_, by simp only [reserve, if_neg (Nat.not_le.mpr large), EStateM.run_bind, made, written,
      heap, EStateM.run_get, note, EStateM.run_modify]; rfl, by rfl⟩
  refine ⟨s₂, h₃, ran, ?_⟩
  have same : s₂.cells h₃ = s₂.cells h₂ := by
    simp only [CowStore.cells, Heap.cells, Heap.region, regions₃]
  show (s₂.cells h₃).length = _
  rw [same, cells₂, Word.length_overwrite, zeros, List.length_replicate]

end SmallBuffer

/-! ### Every region holds a positive multiple of 8 bytes -/

namespace Heap

/-- Every allocated region holds a positive multiple of 8 bytes. -/
def WordSized (h : Heap) : Prop :=
  ∀ r ∈ h.regions, 0 < r.cells.length ∧ r.cells.length % 8 = 0

variable {h h' : Heap}

theorem WordSized.cells (sized : h.WordSized) {i : Nat} (inside : i < h.regions.length) :
    0 < (h.cells i).length ∧ (h.cells i).length % 8 = 0 := by
  apply sized
  simp only [region, List.getD_eq_getElem?_getD, List.getElem?_eq_getElem inside,
    Option.getD_some]
  exact List.getElem_mem inside

theorem WordSized.update (sized : h.WordSized) (i : Nat) {f : Region → Region}
    (keeps : ∀ r, (f r).cells.length = r.cells.length) : (h.update i f).WordSized := by
  intro r mem
  by_cases inside : i < h.regions.length
  · rcases List.mem_or_eq_of_mem_set mem with old | rfl
    · exact sized r old
    · rw [keeps]
      exact sized.cells inside
  · rw [Heap.update, List.set_eq_of_length_le (Nat.le_of_not_lt inside)] at mem
    exact sized r mem

theorem WordSized.push (sized : h.WordSized) {r : Region} (pushed : h'.regions = h.regions ++ [r])
    (new : 0 < r.cells.length ∧ r.cells.length % 8 = 0) : h'.WordSized := by
  intro r' mem
  rw [pushed, List.mem_append, List.mem_singleton] at mem
  rcases mem with old | rfl
  · exact sized r' old
  · exact new

end Heap

namespace CowStore

variable {h h' : Heap} {s s' : CowStore}

theorem create_wordSized {n : Nat} (sized : h.WordSized) (ran : (create n).run h = .ok s' h') :
    h'.WordSized := by
  by_cases zero : n = 0
  · rw [zero, create_zero] at ran
    cases ran
  · simp only [create, allocate, zero, if_false, EStateM.run_bind] at ran
    injection ran with _ made
    subst made
    refine sized.push rfl ⟨?_, ?_⟩ <;>
      simp only [List.length_replicate] <;> unfold Word.roundUp8 <;> omega

theorem share_wordSized (sized : h.WordSized) (ran : s.share.run h = .ok s' h') : h'.WordSized := by
  have run : s.share.run h = .ok s (h.update s.id fun r => { r with owners := r.owners + 1 }) := by
    simp [share]
  rw [run] at ran
  cases ran
  exact sized.update _ fun _ => rfl

theorem release_wordSized (sized : h.WordSized) (ran : s.release.run h = .ok () h') :
    h'.WordSized := by
  have run :
      s.release.run h = .ok () (h.update s.id fun r => { r with owners := r.owners - 1 }) := by
    simp [release]
  rw [run] at ran
  cases ran
  exact sized.update _ fun _ => rfl

theorem makeUnique_wordSized (sized : h.WordSized) (ran : s.makeUnique.run h = .ok s' h') :
    h'.WordSized := by
  by_cases alone : s.owners h ≤ 1
  · rw [makeUnique_alone alone] at ran
    cases ran
    exact sized
  · -- a shared region is allocated, so its copy is word-sized too
    have shared := Nat.lt_of_not_le alone
    obtain ⟨h₁, run, moved⟩ := makeUnique_shared shared
    rw [run] at ran
    cases ran
    exact (sized.update s.id (f := fun r => { r with owners := r.owners - 1 }) fun _ => rfl).push
      moved (sized.cells (lt_length_of_shared shared))

theorem reserve_wordSized {n : Nat} (sized : h.WordSized) (ran : (s.reserve n).run h = .ok s' h') :
    h'.WordSized := by
  by_cases room : n ≤ s.capacity h
  · rw [reserve_within room] at ran
    exact makeUnique_wordSized sized ran
  · have beyond : s.capacity h < n := Nat.lt_of_not_le room
    by_cases fits : s.capacity h * 7 + 2 ≤ wordMax
    · obtain ⟨h₁, run, moved⟩ := reserve_grow beyond fits
      rw [run] at ran
      cases ran
      have bounds := grown_bounds (grownCapacity_of_fits (n := n) fits)
      refine (sized.update s.id (f := fun r => { r with owners := r.owners - 1 })
        fun _ => rfl).push moved ⟨?_, ?_⟩ <;>
        simp only [List.length_append, List.length_replicate, capacity] at beyond bounds ⊢ <;>
        omega
    · rw [reserve_overflow beyond (Nat.lt_of_not_le fits)] at ran
      cases ran

theorem modifyCells_wordSized {edit : List UInt8 → List UInt8}
    (keeps : ∀ cells, (edit cells).length = cells.length) (sized : h.WordSized)
    (ran : (s.modifyCells edit).run h = .ok s' h') : h'.WordSized := by
  rw [modifyCells_run] at ran
  cases unique : s.makeUnique.run h with
  | ok s₁ h₁ =>
    rw [unique] at ran
    cases ran
    exact (makeUnique_wordSized sized unique).update _ fun r => keeps r.cells
  | error f h₁ =>
    rw [unique] at ran
    cases ran

end CowStore

/-- The heaps that operations on region handles reach from the empty heap. -/
inductive StoreReached : Heap → Prop
  | empty : StoreReached {}
  | create {h h' : Heap} {s : CowStore} (n : Nat) :
      StoreReached h → (CowStore.create n).run h = .ok s h' → StoreReached h'
  | share {h h' : Heap} {s s' : CowStore} :
      StoreReached h → s.share.run h = .ok s' h' → StoreReached h'
  | release {h h' : Heap} {s : CowStore} :
      StoreReached h → s.release.run h = .ok () h' → StoreReached h'
  | makeUnique {h h' : Heap} {s s' : CowStore} :
      StoreReached h → s.makeUnique.run h = .ok s' h' → StoreReached h'
  | reserve {h h' : Heap} {s s' : CowStore} (n : Nat) :
      StoreReached h → (s.reserve n).run h = .ok s' h' → StoreReached h'
  | write {h h' : Heap} {s s' : CowStore} (offset : Nat) (bytes : List UInt8) :
      StoreReached h → (s.modifyCells fun cells => Word.overwrite cells offset bytes).run h =
        .ok s' h' → StoreReached h'

theorem StoreReached.wordSized {h : Heap} (reached : StoreReached h) : h.WordSized := by
  induction reached with
  | empty => exact fun _ mem => absurd mem List.not_mem_nil
  | create _ _ ran sized => exact CowStore.create_wordSized sized ran
  | share _ ran sized => exact CowStore.share_wordSized sized ran
  | release _ ran sized => exact CowStore.release_wordSized sized ran
  | makeUnique _ ran sized => exact CowStore.makeUnique_wordSized sized ran
  | reserve _ _ ran sized => exact CowStore.reserve_wordSized sized ran
  | write _ _ _ ran sized =>
    exact CowStore.modifyCells_wordSized (fun _ => Word.length_overwrite _ _ _) sized ran

end SysBytes.Store

namespace SysBytes.Control.Buffer

open Store

theorem reserve_grows {b : Buffer} {s : CowStore} (stored : b.store = some s) (n : Nat)
    (h : Heap) : GrowsByRule h (s.cells h) n (fun b' h' => b'.cells h') ((b.reserve n).run h) := by
  unfold reserve
  rw [stored]
  exact GrowsByRule.map (fun _ _ => rfl) (s.reserve_grows n h)

theorem reserve_first {b : Buffer} (stored : b.store = none) (n : Nat) (h : Heap) :
    ∃ b' h', (b.reserve n).run h = .ok b' h' ∧ b'.len = b.len ∧
      b'.capacity h' = (if n = 0 then 0 else Word.roundUp8 n) := by
  by_cases zero : n = 0
  · refine ⟨b, h, by simp [reserve, stored, zero], rfl, ?_⟩
    simp [capacity, stored, zero]
  · obtain ⟨s', h', made, zeros, -⟩ := CowStore.create_cells (h := h) (Nat.pos_of_ne_zero zero)
    refine ⟨{ b with store := some s' }, h', by simp [reserve, stored, zero, made], rfl, ?_⟩
    simp [capacity, CowStore.capacity, zeros, zero]

end SysBytes.Control.Buffer

namespace SysBytes.Store

/-- **Regions grow by seven quarters, in words of 8 bytes.** Every reachable region holds a positive
multiple of 8 bytes, and reserving through a handle, a small buffer or a control buffer follows the
growth rule. -/
theorem regions_grow_by_rule :
    (∀ (h : Heap) (m : Nat), 0 < m → ∃ s h', (CowStore.create m).run h = .ok s h' ∧
      s.cells h' = List.replicate (Word.roundUp8 m) 0) ∧
    (∀ h : Heap, (CowStore.create 0).run h = .error .zeroCapacity h) ∧
    (∀ (h : Heap) (s : CowStore), StoreReached h → s.id < h.regions.length →
      0 < s.capacity h ∧ s.capacity h % 8 = 0) ∧
    (∀ (c n : Nat) (f : Fault),
      grownCapacity c n = .error f ↔ f = .capacityOverflow ∧ wordMax < c * 7 + 2) ∧
    (∀ c n : Nat, c * 7 + 2 ≤ wordMax → grownCapacity c n = .ok (max ((c * 7 + 2) / 4) n)) ∧
    Fault.capacityOverflow.message = "capacity overflow while growing buffer" ∧
    (∀ c n g : Nat, grownCapacity c n = .ok g → n ≤ Word.roundUp8 g ∧
      Word.roundUp8 g % 8 = 0 ∧ (c % 8 = 0 → 7 * c ≤ 4 * Word.roundUp8 g)) ∧
    (∀ (h : Heap) (s : CowStore) (n : Nat),
      GrowsByRule h (s.cells h) n (fun s' h' => s'.cells h') ((s.reserve n).run h)) ∧
    (∀ (h : Heap) (s : CowStore) (len n : Nat), GrowsByRule h (s.cells h) n
      (fun b h' => b.cells h') (((SmallBuffer.large s len).reserve n).run h)) ∧
    (∀ (h : Heap) (b : Control.Buffer) (s : CowStore) (n : Nat), b.store = some s →
      GrowsByRule h (s.cells h) n (fun b' h' => b'.cells h') ((b.reserve n).run h)) ∧
    (∀ (h : Heap) (c : List UInt8) (len n : Nat), 28 < n →
      ∃ s' h', ((SmallBuffer.inline c len).reserve n).run h = .ok (.large s' len) h' ∧
        s'.capacity h' = Word.roundUp8 n) ∧
    (∀ (h : Heap) (b : Control.Buffer) (n : Nat), b.store = none →
      ∃ b' h', (b.reserve n).run h = .ok b' h' ∧ b'.len = b.len ∧
        b'.capacity h' = if n = 0 then 0 else Word.roundUp8 n) := by
  refine ⟨fun h m positive => ?_, fun h => CowStore.create_zero, fun h s reached inside =>
    reached.wordSized.cells inside, grownCapacity_eq_error_iff, fun _ _ fits =>
    grownCapacity_of_fits fits, rfl, fun _ _ _ grown => grown_bounds grown,
    fun h s n => s.reserve_grows n h, fun h s len n => SmallBuffer.reserve_large_grows s len n h,
    fun h b s n stored => Control.Buffer.reserve_grows stored n h,
    fun h c len n large => SmallBuffer.reserve_inline_promotes c len n large h,
    fun h b n stored => Control.Buffer.reserve_first stored n h⟩
  obtain ⟨s, h', made, zeros, -⟩ := CowStore.create_cells (h := h) positive
  exact ⟨s, h', made, zeros⟩

/-- A region made for 5 bytes from the empty heap holds 8. -/
theorem made_region_is_word_sized :
    0 < CowStore.capacity ⟨[⟨List.replicate 8 0, 1⟩], []⟩ ⟨0⟩ ∧
      CowStore.capacity ⟨[⟨List.replicate 8 0, 1⟩], []⟩ ⟨0⟩ % 8 = 0 :=
  regions_grow_by_rule.2.2.1 _ _ (.create 5 .empty rfl) (by decide)

end SysBytes.Store
