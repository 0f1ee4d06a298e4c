import SysBytes.Proofs.Store.Confined
import SysBytes.Control.Buffer

/-!
Control buffers and their clones. A buffer owns at most one region handle, shared with its
clones until one of them writes, and every operation is confined to that handle: run beside any
other live buffers, it changes none of their committed bytes.
-/
namespace SysBytes.Control

open Store

namespace Buffer

def handles (b : Buffer) : List Nat :=
  match b.store with
  | some s => [s.id]
  | none => []

theorem handles_of_some {b : Buffer} {s : CowStore} (store : b.store = some s) :
    b.handles = [s.id] := by
  simp [handles, store]

theorem handles_of_none {b : Buffer} (store : b.store = none) : b.handles = [] := by
  simp [handles, store]

theorem pure_confined {b b' : Buffer} (same : b'.store = b.store) :
    Confined b.handles (pure b') handles := by
  have kept := Confined.of_pure b' handles
  rwa [handles, same, ← handles] at kept

theorem withStore_confined (b : Buffer) (s : CowStore) :
    Confined [s.id] (pure ({ b with store := some s } : Buffer)) handles := by
  have kept := Confined.of_pure ({ b with store := some s } : Buffer) handles
  exact kept

theorem reserve_confined (b : Buffer) (n : Nat) : Confined b.handles (b.reserve n) handles := by
  unfold reserve
  cases store : b.store with
  | some s =>
    rw [handles_of_some store]
    exact Confined.of_bind (CowStore.reserve_confined s n) fun s' => withStore_confined b s'
  | none =>
    rw [handles_of_none store]
    by_cases zero : n = 0
    · rw [if_pos zero, ← handles_of_none store]
      exact pure_confined rfl
    · rw [if_neg zero]
      exact Confined.of_bind (CowStore.create_confined n) fun s' => withStore_confined b s'

theorem modifyCells_confined (b : Buffer) (edit : List UInt8 → List UInt8) :
    Confined b.handles (b.modifyCells edit) handles := by
  unfold modifyCells
  cases store : b.store with
  | some s =>
    rw [handles_of_some store]
    exact Confined.of_bind (CowStore.modifyCells_confined s edit) fun s' => withStore_confined b s'
  | none => exact pure_confined rfl

theorem appendRecord_confined (b : Buffer) (level kind : Int32) (capacity : Nat)
    (fill : Filler Empty) : Confined b.handles (b.appendRecord level kind capacity fill) handles := by
  unfold appendRecord
  refine Confined.of_bind (reserve_confined b _) fun b1 => ?_
  refine Confined.of_bind Confined.of_heap fun h1 => ?_
  simp only []
  split
  · rename_i e _
    exact e.elim
  · refine Confined.of_bind (modifyCells_confined b1 _) fun b2 => ?_
    refine Confined.of_guard ?_
    exact Confined.of_bind (modifyCells_confined b2 _) fun b3 => pure_confined rfl

theorem appendWith_confined (b : Buffer) (level kind : Int32) (capacity : Nat)
    (fill : Filler Empty) : Confined b.handles (b.appendWith level kind capacity fill) handles := by
  unfold appendWith
  exact Confined.of_guard (appendRecord_confined b level kind capacity fill)

theorem append_confined (b : Buffer) (level kind : Int32) (payload : List UInt8) :
    Confined b.handles (b.append level kind payload) handles :=
  appendWith_confined b level kind payload.length _

theorem appendFds_confined (b : Buffer) (fds : List Int32) :
    Confined b.handles (b.appendFds fds) handles :=
  append_confined b socketLevel rightsKind _

theorem extend_confined (b : Buffer) (ms : List Message) :
    Confined b.handles (b.extend ms) handles := by
  unfold extend
  -- one append per message, each confined to the handle the one before left
  induction ms generalizing b with
  | nil => exact pure_confined rfl
  | cons m rest ih =>
    rw [List.foldlM_cons]
    exact Confined.of_bind (append_confined b m.level m.kind m.payload) ih

theorem prepareReceive_confined (b : Buffer) (capacity : Nat) :
    Confined b.handles (b.prepareReceive capacity) fun r => r.1.handles := by
  unfold prepareReceive
  refine Confined.of_bind (reserve_confined { b with len := 0 } capacity) fun b1 => ?_
  refine Confined.of_bind (modifyCells_confined b1 id) fun b2 => ?_
  exact Confined.of_bind Confined.of_heap fun _ => Confined.of_pure (b2, _) fun r => r.1.handles

theorem overwriteWith_confined (b : Buffer) (capacity : Nat) (fill : Filler Empty) :
    Confined b.handles (b.overwriteWith capacity fill) handles := by
  unfold overwriteWith
  refine Confined.of_bind (prepareReceive_confined b capacity) fun r => ?_
  obtain ⟨b1, region⟩ := r
  simp only []
  split
  · rename_i e _
    exact e.elim
  · refine Confined.of_bind (modifyCells_confined b1 _) fun b2 => ?_
    exact Confined.of_guard (pure_confined rfl)

theorem release_confined (b : Buffer) : Confined b.handles b.release fun _ => [] := by
  unfold release
  cases store : b.store with
  | some s =>
    rw [handles_of_some store]
    exact CowStore.release_confined s
  | none =>
    rw [handles_of_none store]
    exact Confined.of_pure () fun _ => []

theorem noteWalk_confined {mine : List Nat} (b : Buffer) : Confined mine b.noteWalk fun _ => mine := by
  unfold noteWalk
  refine Confined.of_bind Confined.of_heap fun h => ?_
  refine Confined.of_bind (Confined.of_forIn _ _ fun e _ => ?_) fun _ => Confined.of_pure () fun _ => mine
  exact Confined.of_bind (note_confined e) fun _ => Confined.of_pure _ fun _ => mine

theorem messageAt_confined {mine : List Nat} (b : Buffer) (i : Nat) :
    Confined mine (b.messageAt i) fun _ => mine := by
  unfold messageAt
  refine Confined.of_bind Confined.of_heap fun h => ?_
  split
  · exact Confined.of_pure _ fun _ => mine
  · exact Confined.of_fail _ fun _ => mine

theorem indexAfter_confined {mine : List Nat} (b : Buffer) (i : Nat) :
    Confined mine (b.indexAfter i) fun _ => mine := by
  unfold indexAfter
  refine Confined.of_bind Confined.of_heap fun h => ?_
  simp only []
  split
  · refine Confined.of_bind (Confined.of_forIn _ _ fun e _ => ?_) fun _ => Confined.of_pure _ fun _ => mine
    exact Confined.of_bind (note_confined e) fun _ => Confined.of_pure _ fun _ => mine
  · exact Confined.of_fail _ fun _ => mine

theorem committed_of_cells {o : Buffer} {h h' : Heap} (kept : ∀ j ∈ o.handles, h'.cells j = h.cells j) :
    o.committed h' = o.committed h := by
  unfold committed
  cases store : o.store with
  | none => rfl
  | some s =>
    have same := kept s.id (by rw [handles_of_some store]; exact List.mem_singleton_self _)
    simp only [CowStore.cells, same]

/-- A computation confined to one buffer's handle leaves the committed bytes of every other live
buffer. -/
theorem Confined.committed_kept {α : Type} {mine : List Nat} {x : HeapM α} {post : α → List Nat}
    (confined : Confined mine x post) {o : Buffer} {rest : List Nat} {h : Heap}
    (acc : Accounted h (mine ++ (o.handles ++ rest))) :
    o.committed (heapAfter (x.run h)) = o.committed h :=
  committed_of_cells fun j mem => (confined _ h acc).cells j (List.mem_append_left rest mem)

end Buffer

end SysBytes.Control
