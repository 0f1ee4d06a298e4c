import SysBytes.Proofs.Path.Steps

/-!
Taking a view's indices from both ends. The steps of an index walk land on the indices of the
whole view, which rise strictly, so the walk always holds a stretch of that list, and every
interleaving of pulls yields what a deque of the indices would.
-/
namespace SysBytes.Path

/-! ### The order of the indices -/

theorem add_length_takeWhile_le (p : UInt8 → Bool) {bytes : List UInt8} {i : Nat}
    (le : i ≤ bytes.length) : i + ((bytes.drop i).takeWhile p).length ≤ bytes.length := by
  have := (List.takeWhile_prefix p (l := bytes.drop i)).length_le
  rw [List.length_drop] at this
  omega

theorem nextStart_le {bytes : List UInt8} {i : Nat} (le : i ≤ bytes.length) :
    nextStart bytes i ≤ bytes.length :=
  add_length_takeWhile_le isSep (add_length_takeWhile_le _ le)

theorem forwardFrom_headD {bytes : List UInt8} {i : Nat} (le : i ≤ bytes.length) :
    (View.forwardFrom bytes i).headD bytes.length = i := by
  rw [View.forwardFrom]
  split
  · rfl
  · rw [List.headD_nil]
    omega

theorem nextStart_of_forwardFrom {bytes : List UInt8} {i x : Nat} {pre rest : List Nat}
    (split : View.forwardFrom bytes i = pre ++ x :: rest) :
    nextStart bytes x = rest.headD bytes.length := by
  fun_induction View.forwardFrom bytes i generalizing pre with
  | case1 i inside ih =>
    cases pre with
    | nil =>
      obtain ⟨rfl, rfl⟩ := List.cons.inj split
      exact (forwardFrom_headD (nextStart_le inside.le)).symm
    | cons y pre => exact ih (List.cons.inj split).2
  | case2 => simp at split

theorem prevStart_of_backwardFrom {bytes : List UInt8} {start front i y : Nat}
    {pre rest : List Nat} (split : View.backwardFrom bytes start front i = pre ++ y :: rest) :
    prevStart bytes start (pre.getLastD i) = y := by
  fun_induction View.backwardFrom bytes start front i generalizing pre with
  | case1 i above back =>
    rename_i ih
    cases pre with
    | nil => exact (List.cons.inj split).1
    | cons z pre =>
      obtain ⟨rfl, later⟩ := List.cons.inj split
      rw [List.getLastD_cons]
      exact ih later
  | case2 => simp at split

theorem runStarts_lt {fresh : Bool} {o x : Nat} {l : List UInt8} (mem : x ∈ runStarts fresh o l) :
    x < o + l.length := by
  obtain ⟨above, b, found, -⟩ := mem_runStarts mem
  have := (List.getElem?_eq_some_iff.mp found).1
  omega

theorem runStarts_sorted (fresh : Bool) (o : Nat) (l : List UInt8) :
    (runStarts fresh o l).Pairwise (· < ·) := by
  induction l generalizing fresh o with
  | nil => exact List.Pairwise.nil
  | cons b rest ih =>
    rw [runStarts]
    split
    · refine List.pairwise_cons.mpr ⟨fun x mem => ?_, ih _ _⟩
      have := (mem_runStarts mem).1
      omega
    · exact ih _ _

section Order

variable {v : View}

theorem View.lt_of_mem_indices {x : Nat} (mem : x ∈ v.indices) : x < v.endIndex := by
  rw [indices_eq_runStarts] at mem
  have := runStarts_lt mem
  simp only [View.relative, List.length_drop] at this
  rw [View.endIndex]
  have := (mem_runStarts mem).1
  omega

theorem View.start_le_of_mem_indices {x : Nat} (mem : x ∈ v.indices) : v.start ≤ x := by
  rw [indices_eq_runStarts] at mem
  exact (mem_runStarts mem).1

theorem View.boundaries_sorted (v : View) : (v.indices ++ [v.endIndex]).Pairwise (· < ·) := by
  refine List.pairwise_append.mpr ⟨?_, List.pairwise_singleton _ _, ?_⟩
  · rw [indices_eq_runStarts]
    exact runStarts_sorted _ _ _
  · intro x mem e last
    rw [List.mem_singleton.mp last]
    exact View.lt_of_mem_indices mem

theorem View.startIndex_eq_headD (le : v.start ≤ v.bytes.length) :
    v.startIndex = v.indices.headD v.endIndex :=
  (forwardFrom_headD (add_length_takeWhile_le isSep le)).symm

theorem View.nextStart_of_indices {pre rest : List Nat} {x : Nat}
    (split : v.indices = pre ++ x :: rest) : nextStart v.bytes x = rest.headD v.endIndex :=
  nextStart_of_forwardFrom split

theorem View.prevStart_of_indices {pre post : List Nat} {y : Nat}
    (split : v.indices = pre ++ y :: post) :
    prevStart v.bytes v.start (post.headD v.endIndex) = y := by
  have back : v.indicesRev = post.reverse ++ y :: pre.reverse := by
    rw [indicesRev_eq_reverse, split]
    simp
  have step := prevStart_of_backwardFrom back
  rw [List.getLastD_eq_getLast?, List.getLast?_reverse] at step
  rw [List.headD_eq_head?_getD]
  exact step

end Order

/-! ### Taking indices from both ends -/

/-- Elements taken from the front (`false`) or the back (`true`) of a list, one per pull. -/
def dequePulls {α : Type} : List α → List Bool → List (Option α)
  | _, [] => []
  | l, false :: ds => l.head? :: dequePulls l.tail ds
  | l, true :: ds => l.getLast? :: dequePulls l.dropLast ds

def Indices.pulls (it : Indices) : List Bool → Except Fault (List (Option Nat))
  | [] => .ok []
  | d :: ds => do
    let (x, rest) ← if d then it.nextBack else it.next
    let xs ← rest.pulls ds
    pure (x :: xs)

def Iter.pulls (it : Iter) : List Bool → Except Fault (List (Option (List UInt8)))
  | [] => .ok []
  | d :: ds => do
    let (x, rest) ← if d then it.nextBack else it.next
    let xs ← rest.pulls ds
    pure (x :: xs)

/-- An index walk over `v` with the indices `w` still to yield, a stretch of the view's indices. -/
def Window (v : View) (it : Indices) (w : List Nat) : Prop :=
  it.view = v ∧ ∃ pre post, v.indices = pre ++ w ++ post ∧
    it.front = (w ++ post).headD v.endIndex ∧ it.back = post.headD v.endIndex

section Window

variable {v : View} {it : Indices} {w : List Nat}

theorem Window.start (v : View) (le : v.start ≤ v.bytes.length) :
    Window v (Indices.ofView v) v.indices :=
  ⟨rfl, [], [], by simp, by rw [List.append_nil]; exact View.startIndex_eq_headD le, rfl⟩

theorem Window.mem (win : Window v it w) {x : Nat} (mem : x ∈ w) : x ∈ v.indices := by
  obtain ⟨-, pre, post, split, -⟩ := win
  rw [split]
  simp [mem]

theorem headD_mem_append (l : List Nat) (d : Nat) : l.headD d ∈ l ++ [d] := by
  cases l <;> simp

theorem headD_append_mem {l₁ : List Nat} (l₂ : List Nat) (d : Nat) (nonempty : l₁ ≠ []) :
    (l₁ ++ l₂).headD d ∈ l₁ := by
  cases l₁ with
  | nil => exact absurd rfl nonempty
  | cons x l₁ => simp

theorem View.lt_of_split {pre w post : List Nat} (split : v.indices = pre ++ w ++ post) :
    ∀ a ∈ pre ++ w, ∀ b ∈ post ++ [v.endIndex], a < b := by
  have sorted := v.boundaries_sorted
  rw [split, List.append_assoc (pre ++ w)] at sorted
  exact (List.pairwise_append.mp sorted).2.2

theorem Window.empty (win : Window v it []) : it.front = it.back := by
  obtain ⟨-, pre, post, -, front, back⟩ := win
  rw [front, back, List.nil_append]

theorem Window.next (win : Window v it w) :
    ∃ it', it.next = .ok (w.head?, it') ∧ Window v it' w.tail := by
  cases w with
  | nil => exact ⟨it, by rw [Indices.next, if_pos win.empty]; rfl, win⟩
  | cons x w =>
    obtain ⟨same, pre, post, split, front, back⟩ := win
    have listed : x ∈ v.indices := by rw [split]; simp
    have front_lt : it.front < it.back := by
      rw [front, back]
      exact View.lt_of_split split _ (by simp) _ (headD_mem_append post _)
    have step : nextStart v.bytes x = (w ++ post).headD v.endIndex :=
      View.nextStart_of_indices (show v.indices = pre ++ x :: (w ++ post) by rw [split]; simp)
    have moved : v.indexAfter x = .ok ((w ++ post).headD v.endIndex) := by
      simp only [View.indexAfter, View.checkIndex_ok (View.start_le_of_mem_indices listed)
        (View.lt_of_mem_indices listed).le, pure_bind,
        if_neg (Nat.ne_of_lt (View.lt_of_mem_indices listed)), step]
      rfl
    refine ⟨{ it with front := (w ++ post).headD v.endIndex }, ?_, same, pre ++ [x], post,
      by rw [split]; simp, rfl, back⟩
    rw [Indices.next, if_neg (Nat.ne_of_lt front_lt), same, front, List.cons_append,
      List.headD_cons, moved]
    rfl

theorem Window.nextBack (win : Window v it w) (le : v.start ≤ v.bytes.length) :
    ∃ it', it.nextBack = .ok (w.getLast?, it') ∧ Window v it' w.dropLast := by
  by_cases none_left : w = []
  · subst none_left
    exact ⟨it, by rw [Indices.nextBack, if_pos win.empty]; rfl, win⟩
  obtain ⟨init, y, rfl⟩ : ∃ init y, w = init ++ [y] :=
    ⟨w.dropLast, w.getLast none_left, (List.dropLast_append_getLast none_left).symm⟩
  obtain ⟨same, pre, post, split, front, back⟩ := win
  have below := View.lt_of_split split
  have back_mem := headD_mem_append post v.endIndex
  have front_lt : it.front < it.back := by
    rw [front, back]
    exact below _ (List.mem_append_right pre (headD_append_mem _ _ none_left)) _ back_mem
  have above_start : v.startIndex < it.back := by
    rw [View.startIndex_eq_headD le, split, back]
    exact below _ (headD_append_mem _ _ (by simp)) _ back_mem
  -- the back lies within the view: on an index after the stretch, or at the end
  have bounds : v.start ≤ it.back ∧ it.back ≤ v.bytes.length := by
    rw [back]
    rcases List.mem_append.mp back_mem with mem | last
    · have listed : post.headD v.endIndex ∈ v.indices := by
        rw [split]
        exact List.mem_append_right _ mem
      exact ⟨View.start_le_of_mem_indices listed, (View.lt_of_mem_indices listed).le⟩
    · rw [List.mem_singleton.mp last]
      exact ⟨le, Nat.le_refl _⟩
  have step : prevStart v.bytes v.start (post.headD v.endIndex) = y :=
    View.prevStart_of_indices (show v.indices = (pre ++ init) ++ y :: post by rw [split]; simp)
  have moved : v.indexBefore it.back = .ok y := by
    simp only [View.indexBefore, View.checkIndex_ok bounds.1 bounds.2, pure_bind,
      if_neg (Nat.not_le_of_lt above_start)]
    rw [back, step]
    rfl
  refine ⟨{ it with back := y }, ?_, same, pre, y :: post, by rw [split]; simp, ?_, rfl⟩
  · rw [Indices.nextBack, if_neg (Nat.ne_of_lt front_lt), same, moved]
    simp
  · rw [front]
    simp

end Window

/-! ### Any interleaving of the two ends -/

section Deque

variable {α β : Type}

theorem dequePulls_nil (ds : List Bool) :
    dequePulls ([] : List α) ds = List.replicate ds.length none := by
  induction ds with
  | nil => rfl
  | cons d ds ih => cases d <;> simp [dequePulls, ih, List.replicate_succ]

theorem dequePulls_map (f : α → β) (l : List α) (ds : List Bool) :
    dequePulls (l.map f) ds = (dequePulls l ds).map (Option.map f) := by
  induction ds generalizing l with
  | nil => rfl
  | cons d ds ih =>
    cases d with
    | false => simp only [dequePulls, List.head?_map, ← List.map_tail, ih, List.map_cons]
    | true => simp only [dequePulls, List.getLast?_map, ← List.map_dropLast, ih, List.map_cons]

theorem dequePulls_exactly_once (l : List α) (ds : List Bool) (enough : l.length ≤ ds.length) :
    ∃ xs : List α, xs.Perm l ∧
      dequePulls l ds = xs.map some ++ List.replicate (ds.length - l.length) none := by
  induction ds generalizing l with
  | nil =>
    rw [List.eq_nil_of_length_eq_zero (Nat.le_zero.mp enough)]
    exact ⟨[], List.Perm.refl _, rfl⟩
  | cons d ds ih =>
    by_cases empty : l = []
    · subst empty
      exact ⟨[], List.Perm.refl _, by simp [dequePulls_nil]⟩
    cases d with
    | false =>
      obtain ⟨x, t, rfl⟩ := List.exists_cons_of_ne_nil empty
      obtain ⟨xs, perm, pulled⟩ := ih t (by simpa using enough)
      refine ⟨x :: xs, perm.cons x, ?_⟩
      simp [dequePulls, pulled]
    | true =>
      obtain ⟨init, y, rfl⟩ : ∃ init y, l = init ++ [y] :=
        ⟨l.dropLast, l.getLast empty, (List.dropLast_append_getLast empty).symm⟩
      obtain ⟨xs, perm, pulled⟩ := ih init (by simpa using enough)
      refine ⟨y :: xs, (perm.cons y).trans (List.perm_append_singleton y init).symm, ?_⟩
      simp [dequePulls, pulled]

end Deque

section Runs

variable {v : View}

theorem Window.pulls {it : Indices} {w : List Nat} (le : v.start ≤ v.bytes.length)
    (win : Window v it w) (ds : List Bool) : it.pulls ds = .ok (dequePulls w ds) := by
  induction ds generalizing it w with
  | nil => rfl
  | cons d ds ih =>
    cases d with
    | false =>
      obtain ⟨it', step, win'⟩ := win.next
      simp only [Indices.pulls, Bool.false_eq_true, if_false, step, ok_bind, ih win']
      rfl
    | true =>
      obtain ⟨it', step, win'⟩ := win.nextBack le
      simp only [Indices.pulls, if_true, step, ok_bind, ih win']
      rfl

theorem Iter.read_of_listed {x : Option Nat} (listed : ∀ i ∈ x, i ∈ v.indices)
    (rest : Indices) : Iter.read v (x, rest) = .ok (x.map v.nameAt, ⟨rest⟩) := by
  cases x with
  | none => rfl
  | some i =>
    simp only [Iter.read, View.get_of_mem_indices (listed i rfl), ← View.nameAt_eq]
    rfl

theorem Window.iterPulls {it : Iter} {w : List Nat} (le : v.start ≤ v.bytes.length)
    (win : Window v it.indices w) (ds : List Bool) :
    it.pulls ds = .ok ((dequePulls w ds).map (Option.map v.nameAt)) := by
  induction ds generalizing it w with
  | nil => rfl
  | cons d ds ih =>
    have same : it.indices.view = v := win.1
    cases d with
    | false =>
      obtain ⟨it', step, win'⟩ := win.next
      have read := Iter.read_of_listed (v := v)
        (fun i mem => win.mem (List.mem_of_mem_head? mem)) it'
      simp only [Iter.pulls, Iter.next, Bool.false_eq_true, if_false, step, same, ok_bind, read,
        @ih ⟨it'⟩ _ win']
      rfl
    | true =>
      obtain ⟨it', step, win'⟩ := win.nextBack le
      have read := Iter.read_of_listed (v := v)
        (fun i mem => win.mem (List.mem_of_mem_getLast? mem)) it'
      simp only [Iter.pulls, Iter.nextBack, if_true, step, same, ok_bind, read,
        @ih ⟨it'⟩ _ win']
      rfl

theorem View.isEmpty_iff (le : v.start ≤ v.bytes.length) :
    v.isEmpty = true ↔ v.indices = [] := by
  rw [View.isEmpty, beq_iff_eq, View.startIndex_eq_headD le]
  constructor
  · intro at_end
    cases listed : v.indices with
    | nil => rfl
    | cons x rest =>
      rw [listed, List.headD_cons] at at_end
      have below := View.lt_of_mem_indices (v := v) (by rw [listed]; exact List.mem_cons_self)
      exact absurd at_end (Nat.ne_of_lt below)
  · intro none
    rw [none]
    rfl

end Runs

/-! ### The specification of the indices, and paths -/

def BeginsRun (l : List UInt8) (k : Nat) : Prop :=
  (l[k]?.any fun b => !isSep b) = true ∧ (k = 0 ∨ (l[k - 1]?.any isSep) = true)

instance (l : List UInt8) (k : Nat) : Decidable (BeginsRun l k) :=
  inferInstanceAs (Decidable (_ ∧ _))

theorem fresh_flags_iff (l : List UInt8) (k : Nat) :
    (true :: l.map isSep)[k]? = some true ↔ k = 0 ∨ (l[k - 1]?.any isSep) = true := by
  cases k with
  | zero => simp
  | succ k =>
    rw [List.getElem?_cons_succ, List.getElem?_map, Nat.add_sub_cancel]
    cases l[k]? <;> simp

theorem View.mem_indices_iff (v : View) (x : Nat) :
    x ∈ v.indices ↔ v.start ≤ x ∧ BeginsRun v.relative (x - v.start) := by
  rw [indices_eq_runStarts, mem_runStarts_iff, BeginsRun, fresh_flags_iff]

theorem View.indices_sorted (v : View) : v.indices.Pairwise (· < ·) := by
  rw [indices_eq_runStarts]
  exact runStarts_sorted _ _ _

theorem FilePath.components_eq_names (p : FilePath) :
    p.components = (if p.isAbsolute then [[separator]] else []) ++ p.view.names := by
  rw [FilePath.components, View.names_eq_nonEmptyParts]
  rfl

theorem FilePath.lastComponent?_eq (p : FilePath) :
    p.lastComponent? = p.view.last?.or (if p.isAbsolute then some [separator] else none) := by
  rw [FilePath.lastComponent?, FilePath.components_eq_names, List.getLast?_append, View.last?,
    View.namesRev_eq_reverse, List.head?_reverse]
  split <;> rfl

theorem FilePath.head?_components (p : FilePath) :
    p.components.head? = some [separator] ↔ p.bytes.head? = some separator := by
  by_cases root : p.isAbsolute = true
  · have starts : p.bytes.head? = some separator := by simpa [FilePath.isAbsolute] using root
    simp [FilePath.components, root, starts]
  · have starts : p.bytes.head? ≠ some separator := by simpa [FilePath.isAbsolute] using root
    -- no part split off at separators is the separator alone
    have no_root : [separator] ∉ nonEmptyParts (p.bytes.drop p.rootLen) := fun mem =>
      (names_nonEmptyParts _ _ mem).2 (List.mem_singleton_self _)
    rw [FilePath.components, if_neg root, List.nil_append]
    constructor
    · intro first
      exact absurd (List.mem_of_mem_head? first) no_root
    · intro first
      exact absurd first starts

/-- **Every way of reading a view's components agrees.** Stepping forward or backward, reading at
indices, splitting at separators and pulling from both ends give the same names, each exactly once.
-/
theorem component_walks_agree :
    (∀ v : View, v.start ≤ v.bytes.length →
      v.indices.Pairwise (· < ·) ∧
      (∀ x, x ∈ v.indices ↔ v.start ≤ x ∧ BeginsRun v.relative (x - v.start)) ∧
      v.indicesRev = v.indices.reverse ∧
      (∀ i ∈ v.indices, v.get i = .ok ((v.bytes.drop i).takeWhile fun b => !isSep b)) ∧
      v.names = nonEmptyParts v.relative ∧
      (∀ ds, (Indices.ofView v).pulls ds = .ok (dequePulls v.indices ds) ∧
        (Iter.ofView v).pulls ds = .ok (dequePulls v.names ds)) ∧
      (∀ ds, v.indices.length ≤ ds.length → ∃ xs : List Nat, xs.Perm v.indices ∧
        (Indices.ofView v).pulls ds =
          .ok (xs.map some ++ List.replicate (ds.length - v.indices.length) none)) ∧
      v.count = v.names.length ∧ (v.isEmpty = true ↔ v.indices = [])) ∧
    ∀ p : FilePath,
      p.components = (if p.isAbsolute then [[separator]] else []) ++ p.view.names ∧
      (p.components.head? = some [separator] ↔ p.bytes.head? = some separator) ∧
      p.lastComponent? = p.view.last?.or (if p.isAbsolute then some [separator] else none) := by
  refine ⟨fun v le => ?_, fun p => ⟨p.components_eq_names, p.head?_components,
    p.lastComponent?_eq⟩⟩
  have pulled : ∀ ds, (Indices.ofView v).pulls ds = .ok (dequePulls v.indices ds) :=
    (Window.start v le).pulls le
  refine ⟨v.indices_sorted, v.mem_indices_iff, indicesRev_eq_reverse v,
    fun i mem => View.get_of_mem_indices mem, v.names_eq_nonEmptyParts,
    fun ds => ⟨pulled ds, ?_⟩,
    fun ds enough => ?_, by rw [View.count, View.names, List.length_map], View.isEmpty_iff le⟩
  · have win : Window v (Iter.ofView v).indices v.indices := Window.start v le
    rw [win.iterPulls le, View.names, dequePulls_map]
  · obtain ⟨xs, perm, yields⟩ := dequePulls_exactly_once v.indices ds enough
    exact ⟨xs, perm, by rw [pulled, yields]⟩

/-- The storage `/R//cd`, left by an edit at raw offsets, reads its names `R` and `cd`. -/
theorem doubled_separator_names :
    (View.mk [47, 82, 47, 47, 99, 100] 1).start ≤
        (View.mk [47, 82, 47, 47, 99, 100] 1).bytes.length ∧
      (View.mk [47, 82, 47, 47, 99, 100] 1).names = [[82], [99, 100]] := by
  refine ⟨by decide, ?_⟩
  rw [(component_walks_agree.1 _ (by decide)).2.2.2.2.1]
  decide

end SysBytes.Path
