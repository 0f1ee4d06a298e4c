import SysBytes.Proofs.Path.Splice
import SysBytes.Session.Path

/-!
Editing a path through its view. A path built from bytes is normalized, its view starts right
after the root, and every edit at component indices of the current view keeps the view so;
writing it back gives a normalized path again.
-/
namespace SysBytes.Path

/-- A path whose bytes after the root have one separator per boundary and none at either end. -/
def FilePath.Normalized (p : FilePath) : Prop := p.view.Normalized

instance (p : FilePath) : Decidable p.Normalized := inferInstanceAs (Decidable p.view.Normalized)

/-- A view as a normalized path hands it out: normalized, and starting right after the root. -/
structure View.FromPath (v : View) : Prop where
  normalized : v.Normalized
  start_eq : v.start = (FilePath.mk v.bytes).rootLen

/-! ### Roots -/

theorem FilePath.rootLen_of_head {bytes : List UInt8} (first : bytes.head? ≠ some separator) :
    (FilePath.mk bytes).rootLen = 0 := by
  simp [rootLen, isAbsolute, first]

theorem FilePath.rootLen_cons (bytes : List UInt8) : (FilePath.mk (separator :: bytes)).rootLen = 1 := by
  simp [rootLen, isAbsolute]

theorem FilePath.isAbsolute_iff (p : FilePath) : p.isAbsolute = true ↔ p.rootLen = 1 := by
  unfold rootLen
  split <;> simp_all

theorem View.head?_of_start_zero {v : View} (norm : v.Normalized) (zero : v.start = 0) :
    v.bytes.head? ≠ some separator := by
  have first := norm.2.1
  rwa [relative, zero, List.drop_zero] at first

theorem View.FromPath.of_withNames {v v' : View} {ns : List (List UInt8)} (src : v.FromPath)
    (edited : WithNames v ns v') : v'.FromPath := by
  obtain ⟨same_start, same_root, norm', -⟩ := edited
  refine ⟨norm', ?_⟩
  rw [same_start, src.start_eq]
  by_cases rooted : (FilePath.mk v.bytes).rootLen = 1
  · -- the root byte is among the bytes the edit keeps
    have first : v.bytes.take 1 = [separator] := by
      have absolute := (FilePath.isAbsolute_iff _).mpr rooted
      simp only [FilePath.isAbsolute, beq_iff_eq] at absolute
      cases bytes : v.bytes with
      | nil => simp [bytes] at absolute
      | cons x rest => simp_all
    rw [src.start_eq, rooted, first] at same_root
    cases bytes' : v'.bytes with
    | nil => simp [bytes'] at same_root
    | cons x rest =>
      rw [bytes', List.take_succ_cons, List.take_zero, List.cons.injEq] at same_root
      rw [rooted, same_root.1, FilePath.rootLen_cons]
  · have zero : (FilePath.mk v.bytes).rootLen = 0 := by
      unfold FilePath.rootLen at rooted ⊢
      split_ifs at rooted ⊢ <;> simp_all
    rw [zero, FilePath.rootLen_of_head (View.head?_of_start_zero norm' (by rw [same_start,
      src.start_eq, zero]))]

theorem FilePath.Normalized.view {p : FilePath} (norm : p.Normalized) : p.view.FromPath :=
  ⟨norm, rfl⟩

theorem ofView_normalized {v : View} (src : v.FromPath) (root : Bool) :
    (FilePath.ofView root v).Normalized ∧
      (FilePath.ofView root v).isAbsolute = (root || v.hasRoot) ∧
      (FilePath.ofView root v).view.names = v.names := by
  obtain ⟨norm, start_eq⟩ := src
  by_cases rooted : v.hasRoot = true
  · -- the view brings its own root: the bytes are kept as they are
    have one : v.start = 1 := by
      have positive : 0 < v.start := by simpa [View.hasRoot] using rooted
      rw [start_eq] at positive ⊢
      unfold FilePath.rootLen at positive ⊢
      split_ifs at positive ⊢ <;> simp_all
    have kept : FilePath.ofView root v = ⟨v.bytes⟩ := by simp [FilePath.ofView, rooted]
    have same : (FilePath.mk v.bytes).view = v := by
      cases v
      simp_all [FilePath.view]
    refine ⟨?_, ?_, ?_⟩
    · rw [kept, FilePath.Normalized, same]
      exact norm
    · rw [kept, rooted, Bool.or_true, FilePath.isAbsolute_iff, ← start_eq, one]
    · rw [kept, same]
  · have zero : v.start = 0 := by simpa [View.hasRoot] using rooted
    obtain ⟨R, cs, good, length, rfl⟩ := View.exists_of_normalized norm
    have empty : R = [] := List.eq_nil_of_length_eq_zero (length.trans zero)
    subst empty
    show (FilePath.ofView root ⟨joinNames cs, 0⟩).Normalized ∧
      (FilePath.ofView root ⟨joinNames cs, 0⟩).isAbsolute =
        (root || View.hasRoot ⟨joinNames cs, 0⟩) ∧
      (FilePath.ofView root ⟨joinNames cs, 0⟩).view.names = View.names ⟨joinNames cs, 0⟩
    have read : View.names ⟨joinNames cs, 0⟩ = cs := View.names_joinNames [] cs good
    by_cases wanted : root = true
    · -- the root is put back in front of the joined names
      have put : FilePath.ofView root ⟨joinNames cs, 0⟩ = ⟨[separator] ++ joinNames cs⟩ := by
        simp [FilePath.ofView, View.hasRoot, wanted]
      have view : (FilePath.mk ([separator] ++ joinNames cs)).view =
          ⟨[separator] ++ joinNames cs, [separator].length⟩ := by
        simp [FilePath.view, FilePath.rootLen_cons]
      refine ⟨?_, ?_, ?_⟩
      · rw [put, FilePath.Normalized, view]
        exact View.normalized_joinNames [separator] good
      · rw [put, wanted, Bool.true_or, FilePath.isAbsolute_iff, List.singleton_append,
          FilePath.rootLen_cons]
      · rw [put, view, View.names_joinNames [separator] cs good, read]
    · have kept : FilePath.ofView root ⟨joinNames cs, 0⟩ = ⟨joinNames cs⟩ := by
        simp [FilePath.ofView, wanted]
      have first := (separated_joinNames good).1
      have view : (FilePath.mk (joinNames cs)).view = ⟨joinNames cs, 0⟩ := by
        simp [FilePath.view, FilePath.rootLen_of_head first]
      refine ⟨?_, ?_, ?_⟩
      · rw [kept, FilePath.Normalized, view]
        exact View.normalized_joinNames [] good
      · have not_root : (FilePath.mk (joinNames cs)).isAbsolute = false := by
          simp [FilePath.isAbsolute, first]
        rw [kept, not_root]
        simp [wanted, View.hasRoot]
      · rw [kept, view]

/-! ### Paths built from bytes -/

theorem separator_not_mem_splitOn (bytes : List UInt8) :
    ∀ part ∈ bytes.splitOn separator, separator ∉ part := by
  induction bytes with
  | nil => simp
  | cons x xs ih =>
    rw [List.splitOn_cons_eq_if_modifyHead]
    split
    · intro part mem
      rcases List.mem_cons.mp mem with rfl | later
      · simp
      · exact ih part later
    · rename_i not_sep
      have x_ne : x ≠ separator := by simpa using not_sep
      obtain ⟨first, rest, parts⟩ := List.exists_cons_of_ne_nil (List.splitOn_ne_nil separator xs)
      rw [parts] at ih ⊢
      intro part mem
      rw [List.modifyHead_cons, List.mem_cons] at mem
      rcases mem with rfl | later
      · rw [List.mem_cons, not_or]
        exact ⟨fun eq => x_ne eq.symm, ih first List.mem_cons_self⟩
      · exact ih part (List.mem_cons_of_mem _ later)

theorem names_nonEmptyParts (bytes : List UInt8) : Names (nonEmptyParts bytes) := by
  intro part mem
  rw [nonEmptyParts, List.mem_filter] at mem
  exact ⟨by simpa using mem.2, separator_not_mem_splitOn bytes part mem.1⟩

theorem FilePath.normalized_root_joinNames {root : List UInt8} {cs : List (List UInt8)}
    (good : Names cs) (shape : root = [] ∨ root = [separator]) :
    FilePath.Normalized ⟨root ++ joinNames cs⟩ := by
  have view : (FilePath.mk (root ++ joinNames cs)).view = ⟨root ++ joinNames cs, root.length⟩ := by
    rcases shape with rfl | rfl
    · simp [FilePath.view, FilePath.rootLen_of_head (separated_joinNames good).1]
    · simp [FilePath.view, FilePath.rootLen_cons]
  rw [FilePath.Normalized, view]
  exact View.normalized_joinNames root good

theorem FilePath.ofBytes_normalized {bytes : List UInt8} {p : FilePath}
    (built : FilePath.ofBytes bytes = .ok p) : p.Normalized := by
  unfold FilePath.ofBytes at built
  split at built
  · cases built
  · cases built
    apply FilePath.normalized_root_joinNames (names_nonEmptyParts bytes)
    split <;> simp

/-! ### Replacing at component indices, when it succeeds -/

theorem bind_ok {ε α β : Type} {x : Except ε α} {f : α → Except ε β} {b : β}
    (ran : x >>= f = .ok b) : ∃ a, x = .ok a ∧ f a = .ok b := by
  cases x with
  | error e => cases ran
  | ok a => exact ⟨a, rfl, ran⟩

theorem mapError_ok {ε ε' α : Type} {x : Except ε α} {g : ε → ε'} {a : α}
    (ran : x.mapError g = .ok a) : x = .ok a := by
  cases x with
  | error e => cases ran
  | ok a' =>
    cases ran
    rfl

namespace View

theorem valid_of_replaceRange_ok {v v' : View} {lo hi : Nat} {N : List (List UInt8)}
    (ran : v.replaceRange lo hi N = .ok v') : ∀ n ∈ N, isValidName n = true := by
  cases bad : firstInvalid N with
  | some b =>
    simp only [replaceRange, bad, throw_bind] at ran
    cases ran
  | none =>
    intro n mem
    simpa using List.find?_eq_none.mp bad n mem

theorem boundary_lt {cs : List (List UInt8)} (good : Names cs) {k m : Nat} (lt : k < m)
    (within : m ≤ cs.length) :
    (lead (cs.take k) (cs.drop k)).length < (lead (cs.take m) (cs.drop m)).length := by
  have split := lead_append (cs.take k) ((cs.drop k).take (m - k)) (cs.drop m)
  rw [take_append_take_drop cs lt.le, take_append_drop_of_le cs lt.le] at split
  have between : (cs.drop k).take (m - k) ≠ [] := by
    simp only [ne_eq, List.take_eq_nil_iff, List.drop_eq_nil_iff, not_or]
    omega
  have named : Names ((cs.drop k).take (m - k)) :=
    good.sublist ((List.take_sublist _ _).trans (List.drop_sublist _ _))
  have positive : 0 < (joinNames ((cs.drop k).take (m - k))).length :=
    List.length_pos_iff.mpr fun empty => between ((joinNames_eq_nil named).mp empty)
  have lead_pos : 0 < (lead ((cs.drop k).take (m - k)) (cs.drop m)).length := by
    unfold lead
    split_ifs
    · exact positive
    · rw [List.length_append]
      omega
  rw [split, List.length_append]
  omega

theorem length_boundaries (R : List UInt8) {cs : List (List UInt8)} (good : Names cs) :
    (boundaries ⟨R ++ joinNames cs, R.length⟩).length = cs.length + 1 := by
  rw [boundaries_joinNames R cs good, List.length_map, List.length_range]

theorem withNames_of_replaceRange {v v' : View} (norm : v.Normalized) {k m lo hi : Nat}
    (at_lo : v.boundaries[k]? = some lo) (at_hi : v.boundaries[m]? = some hi)
    {N : List (List UInt8)} (ran : v.replaceRange lo hi N = .ok v') :
    WithNames v (v.names.take k ++ N ++ v.names.drop m) v' := by
  have valid := valid_of_replaceRange_ok ran
  obtain ⟨R, cs, good, -, rfl⟩ := exists_of_normalized norm
  have within : ∀ {j i}, (boundaries ⟨R ++ joinNames cs, R.length⟩)[j]? = some i → j ≤ cs.length := by
    intro j i found
    by_contra out
    rw [List.getElem?_eq_none (by rw [length_boundaries R good]; omega)] at found
    cases found
  have k_in := within at_lo
  have m_in := within at_hi
  rw [getElem?_boundaries R good k_in, Option.some.injEq] at at_lo
  rw [getElem?_boundaries R good m_in, Option.some.injEq] at at_hi
  subst at_lo at_hi
  have le : k ≤ m := by
    by_contra reversed
    have further := boundary_lt good (Nat.lt_of_not_le reversed) k_in
    have total := length_joinNames R (cs.take k) (cs.drop k)
    rw [List.take_append_drop] at total
    have lo_ok : checkIndex ⟨R ++ joinNames cs, R.length⟩
        (R.length + (lead (cs.take k) (cs.drop k)).length) = pure () :=
      checkIndex_ok (Nat.le_add_right _ _) (by rw [total]; omega)
    have hi_ok : checkIndex ⟨R ++ joinNames cs, R.length⟩
        (R.length + (lead (cs.take m) (cs.drop m)).length) = pure () :=
      checkIndex_ok (Nat.le_add_right _ _) (by rw [total]; omega)
    simp only [replaceRange, firstInvalid_eq_none valid, lo_ok, hi_ok, pure_bind,
      if_pos (by omega : R.length + (lead (cs.take m) (cs.drop m)).length <
        R.length + (lead (cs.take k) (cs.drop k)).length), throw_bind] at ran
    cases ran
  rw [replaceRange_boundaries R good le valid] at ran
  cases ran
  rw [names_joinNames R cs good]
  exact withNames_joinNames R (names_append.mpr ⟨names_append.mpr
    ⟨good.sublist (List.take_sublist _ _), names_of_valid valid⟩, good.sublist (List.drop_sublist _ _)⟩)

theorem start_boundary {v : View} (norm : v.Normalized) : v.boundaries[0]? = some v.startIndex := by
  obtain ⟨R, cs, good, -, rfl⟩ := exists_of_normalized norm
  rw [getElem?_boundaries R good (Nat.zero_le _), startIndex_eq_boundary R good]

theorem end_boundary {v : View} (norm : v.Normalized) :
    v.boundaries[v.names.length]? = some v.endIndex := by
  obtain ⟨R, cs, good, -, rfl⟩ := exists_of_normalized norm
  rw [names_joinNames R cs good, getElem?_boundaries R good (Nat.le_refl _), endIndex_eq_boundary]

theorem indexAfter_of_boundary {v : View} (norm : v.Normalized) {k i next : Nat}
    (at_k : v.boundaries[k]? = some i) (after : v.indexAfter i = .ok next) :
    v.boundaries[k + 1]? = some next := by
  obtain ⟨R, cs, good, -, rfl⟩ := exists_of_normalized norm
  have k_in : k ≤ cs.length := by
    by_contra out
    rw [List.getElem?_eq_none (by rw [length_boundaries R good]; omega)] at at_k
    cases at_k
  rw [getElem?_boundaries R good k_in, Option.some.injEq] at at_k
  subst at_k
  by_cases last : k = cs.length
  · -- from the end index there is no next one
    subst last
    have end_ok : checkIndex ⟨R ++ joinNames cs, R.length⟩
        (R.length + (lead (cs.take cs.length) (cs.drop cs.length)).length) = pure () := by
      rw [← endIndex_eq_boundary R]
      exact checkIndex_ok (by simp [endIndex]) (Nat.le_refl _)
    simp only [indexAfter, end_ok, pure_bind, if_pos (endIndex_eq_boundary R).symm,
      throw_bind] at after
    cases after
  · have inside : k < cs.length := Nat.lt_of_le_of_ne k_in last
    rw [indexAfter_boundary R good inside] at after
    cases after
    exact getElem?_boundaries R good inside

end View

/-! ### Edit sessions -/

namespace View

theorem empty_fromPath : ({} : View).FromPath :=
  ⟨normalized_joinNames [] (show Names [] by simp [Names]), rfl⟩

theorem FromPath.replaceRange {v v' : View} (src : v.FromPath) {k m lo hi : Nat}
    (at_lo : v.boundaries[k]? = some lo) (at_hi : v.boundaries[m]? = some hi)
    {N : List (List UInt8)} (ran : v.replaceRange lo hi N = .ok v') : v'.FromPath :=
  src.of_withNames (withNames_of_replaceRange src.normalized at_lo at_hi ran)

end View

end SysBytes.Path

namespace SysBytes.Session

open SysBytes.Path

def IndexArg.FromView : IndexArg → Prop
  | .offset _ => False
  | _ => True

def PathEdit.FromView : PathEdit → Prop
  | .insert a _ => a.FromView
  | .remove a => a.FromView
  | .replaceRange lo hi _ => lo.FromView ∧ hi.FromView
  | .removeRange lo hi => lo.FromView ∧ hi.FromView
  | _ => True

theorem IndexArg.resolve_boundary {v : View} (norm : v.Normalized) {a : IndexArg}
    (current : a.FromView) {i : Nat} (resolved : a.resolve v = some i) :
    ∃ k : Nat, v.boundaries[k]? = some i := by
  cases a with
  | nth k =>
    refine ⟨k, ?_⟩
    have count_eq : v.count = v.indices.length := rfl
    simp only [IndexArg.resolve] at resolved
    rw [View.boundaries]
    split_ifs at resolved with below at_end
    · rwa [List.getElem?_append_left (by omega)]
    · cases resolved
      rw [List.getElem?_append_right (by omega), at_end, count_eq, Nat.sub_self,
        List.getElem?_cons_zero]
  | start =>
    cases resolved
    exact ⟨0, View.start_boundary norm⟩
  | finish =>
    cases resolved
    exact ⟨_, View.end_boundary norm⟩
  | offset n => exact current.elim

theorem resolved_of_ok {v : View} {a : IndexArg} {i : Nat}
    (found : (match a.resolve v with
      | some i => Except.ok i
      | none => Except.error (Answer.error "bad_input" "component index out of range")) =
        (Except.ok i : Except Answer Nat)) :
    a.resolve v = some i := by
  split at found
  · cases found
    assumption
  · cases found

theorem Source.toView_fromPath {s : Source} {v : View} (made : s.toView = .ok v) : v.FromPath := by
  cases s with
  | names ns =>
    simp only [Source.toView] at made
    split at made
    · rename_i built
      cases made
      -- the names are joined onto the empty view, at its end
      have edited := View.withNames_of_replaceRange View.empty_fromPath.normalized
        (View.end_boundary View.empty_fromPath.normalized)
        (View.end_boundary View.empty_fromPath.normalized) built
      exact View.empty_fromPath.of_withNames edited
    · cases made
  | path bytes =>
    simp only [Source.toView] at made
    split at made
    · rename_i p built
      cases made
      exact (FilePath.ofBytes_normalized built).view
    · cases made
  | nothing =>
    cases made
    exact View.empty_fromPath

/-! ### One edit, and a run of edits -/

theorem lifted_ok {x : Except Fault View} {c : Report} {v' : View} {r : Report}
    (ran : (x.mapError faultAnswer >>= fun w => pure (w, c)) = .ok (v', r)) : x = .ok v' := by
  obtain ⟨w, lifted, done⟩ := bind_ok ran
  cases done
  exact mapError_ok lifted

theorem indexed_ok {v : View} (norm : v.Normalized) {a : IndexArg} (current : a.FromView)
    {β : Type} {f : Nat → Except Answer β} {b : β}
    (ran : (match a.resolve v with
      | some i => Except.ok i
      | none => Except.error (Answer.error "bad_input" "component index out of range")) >>= f =
        .ok b) :
    ∃ k i : Nat, v.boundaries[k]? = some i ∧ f i = .ok b := by
  obtain ⟨i, found, rest⟩ := bind_ok ran
  obtain ⟨k, at_k⟩ := a.resolve_boundary norm current (resolved_of_ok found)
  exact ⟨k, i, at_k, rest⟩

theorem applyEdit_fromPath {v v' : View} {e : PathEdit} {r : Report} (src : v.FromPath)
    (current : e.FromView) (ran : applyEdit v e = .ok (v', r)) : v'.FromPath := by
  have norm := src.normalized
  have at_start := View.start_boundary norm
  have at_end := View.end_boundary norm
  cases e with
  | push name => exact src.replaceRange at_end at_end (lifted_ok ran)
  | insert a name =>
    obtain ⟨k, i, at_k, rest⟩ := indexed_ok norm current ran
    exact src.replaceRange at_k at_k (lifted_ok rest)
  | remove a =>
    obtain ⟨k, i, at_k, rest⟩ := indexed_ok norm current ran
    obtain ⟨⟨w, removed⟩, lifted, done⟩ := bind_ok rest
    cases done
    -- the component at `i` goes with the index after it
    obtain ⟨name, -, rest⟩ := bind_ok (mapError_ok lifted)
    obtain ⟨next, after, rest⟩ := bind_ok rest
    obtain ⟨w', cut, done⟩ := bind_ok rest
    cases done
    exact src.replaceRange at_k (View.indexAfter_of_boundary norm at_k after) cut
  | pop =>
    obtain ⟨popped, lifted, done⟩ := bind_ok ran
    cases done
    obtain ⟨w, pop_eq, edited⟩ := View.pop_withNames norm
    rw [mapError_ok lifted] at pop_eq
    cases pop_eq
    exact src.of_withNames edited
  | replaceRange lo hi N =>
    obtain ⟨k, i, at_k, rest⟩ := indexed_ok norm current.1 ran
    obtain ⟨m, j, at_m, rest⟩ := indexed_ok norm current.2 rest
    exact src.replaceRange at_k at_m (lifted_ok rest)
  | removeRange lo hi =>
    obtain ⟨k, i, at_k, rest⟩ := indexed_ok norm current.1 ran
    obtain ⟨m, j, at_m, rest⟩ := indexed_ok norm current.2 rest
    exact src.replaceRange at_k at_m (lifted_ok rest)
  | clear =>
    have cleared : v.clear = .ok v' := lifted_ok ran
    exact src.replaceRange at_start at_end (N := []) cleared
  | retain kinds names =>
    have kept : v.retain _ = .ok v' := lifted_ok ran
    exact src.replaceRange at_start at_end kept
  | extend names =>
    have extended : v.extend names = .ok v' := lifted_ok ran
    exact src.replaceRange at_end at_end extended
  | assign source =>
    obtain ⟨w, made, done⟩ := bind_ok ran
    cases done
    exact Source.toView_fromPath made
  | get a =>
    obtain ⟨i, -, rest⟩ := bind_ok ran
    obtain ⟨_, -, done⟩ := bind_ok rest
    cases done
    exact src
  | indexAfter a =>
    obtain ⟨i, -, rest⟩ := bind_ok ran
    obtain ⟨_, -, done⟩ := bind_ok rest
    cases done
    exact src
  | indexBefore a =>
    obtain ⟨i, -, rest⟩ := bind_ok ran
    obtain ⟨_, -, done⟩ := bind_ok rest
    cases done
    exact src
  | view =>
    cases ran
    exact src
  | peek =>
    cases ran
    exact src

theorem applyEdits_fromPath {v : View} (src : v.FromPath) {edits : List PathEdit}
    (current : ∀ e ∈ edits, e.FromView) : (applyEdits v edits).1.FromPath := by
  induction edits generalizing v with
  | nil => exact src
  | cons e rest ih =>
    unfold applyEdits
    split
    · exact src
    · rename_i v' r ran
      exact ih (applyEdit_fromPath src (current e List.mem_cons_self) ran)
        (fun e' mem => current e' (List.mem_cons_of_mem e mem))

theorem ofView_reattach {v : View} (src : v.FromPath) (root : Bool) :
    (FilePath.ofView (!v.hasRoot && root) v).Normalized ∧
      (FilePath.ofView (!v.hasRoot && root) v).isAbsolute = (root || v.hasRoot) ∧
      (FilePath.ofView (!v.hasRoot && root) v).view.names = v.names := by
  obtain ⟨norm, absolute, names⟩ := ofView_normalized src (!v.hasRoot && root)
  refine ⟨norm, ?_, names⟩
  rw [absolute]
  cases v.hasRoot <;> cases root <;> rfl

/-- **Edits at component indices splice the list of names.** A replacement between two component
indices of a normalized view splices its names, so the edits built on it act on the names as on a
list, and a path edited through its view stays normalized. -/
theorem edits_splice_names :
    (∀ (v : View) (k m : Nat) (N : List (List UInt8)), v.Normalized → k ≤ m →
      m ≤ v.names.length → (∀ n ∈ N, isValidName n = true) →
      ∃ lo hi v', v.boundaries[k]? = some lo ∧ v.boundaries[m]? = some hi ∧
        v.replaceRange lo hi N = .ok v' ∧
        View.WithNames v (v.names.take k ++ N ++ v.names.drop m) v') ∧
    (∀ (v : View) (name : List UInt8), v.Normalized → isValidName name = true →
      ∃ v', v.push name = .ok v' ∧ View.WithNames v (v.names ++ [name]) v') ∧
    (∀ (v : View) (N : List (List UInt8)), v.Normalized → (∀ n ∈ N, isValidName n = true) →
      ∃ v', v.extend N = .ok v' ∧ View.WithNames v (v.names ++ N) v') ∧
    (∀ (v : View) (k : Nat) (name : List UInt8), v.Normalized → k ≤ v.names.length →
      isValidName name = true →
      ∃ i v', v.boundaries[k]? = some i ∧ v.insert i name = .ok v' ∧
        View.WithNames v (v.names.take k ++ name :: v.names.drop k) v') ∧
    (∀ (v : View) (k : Nat) (inside : k < v.names.length), v.Normalized →
      ∃ i v', v.boundaries[k]? = some i ∧ v.remove i = .ok (v', v.names[k]) ∧
        View.WithNames v (v.names.eraseIdx k) v') ∧
    (∀ v : View, v.Normalized →
      ∃ v', v.pop = .ok (v', v.names.getLast?) ∧ View.WithNames v v.names.dropLast v') ∧
    (∀ (v : View) (k m : Nat), v.Normalized → k ≤ m → m ≤ v.names.length →
      ∃ lo hi v', v.boundaries[k]? = some lo ∧ v.boundaries[m]? = some hi ∧
        v.removeRange lo hi = .ok v' ∧ View.WithNames v (v.names.take k ++ v.names.drop m) v') ∧
    (∀ v : View, v.Normalized → ∃ v', v.clear = .ok v' ∧ View.WithNames v [] v') ∧
    (∀ (v : View) (keep : List UInt8 → Bool), v.Normalized →
      (∀ c ∈ v.names, isValidName c = true) →
      ∃ v', v.retain keep = .ok v' ∧ View.WithNames v (v.names.filter keep) v') ∧
    (∀ (p : FilePath) (edits : List PathEdit), p.Normalized → (∀ e ∈ edits, e.FromView) →
      (FilePath.writeBack p.isAbsolute (applyEdits p.view edits).1).1.Normalized ∧
      (FilePath.writeBack p.isAbsolute (applyEdits p.view edits).1).1.isAbsolute =
        (p.isAbsolute || (applyEdits p.view edits).1.hasRoot) ∧
      (FilePath.writeBack p.isAbsolute (applyEdits p.view edits).1).1.view.names =
        (applyEdits p.view edits).1.names) ∧
    (∀ (s : Source) (v : View), s.toView = .ok v → v.FromPath) ∧
    (∀ (p : FilePath) (v : View), v.FromPath →
      (p.setComponents v).Normalized ∧ (p.setComponents v).isAbsolute = (p.isAbsolute || v.hasRoot) ∧
      (p.setComponents v).view.names = v.names) ∧
    (∀ (root : Bool) (v : View), v.FromPath →
      (FilePath.ofView root v).Normalized ∧
      (FilePath.ofView root v).isAbsolute = (root || v.hasRoot) ∧
      (FilePath.ofView root v).view.names = v.names) := by
  refine ⟨fun v k m N norm le within valid => View.replaceRange_withNames norm le within valid,
    fun v name norm valid => View.push_withNames norm valid,
    fun v N norm valid => View.extend_withNames norm valid,
    fun v k name norm within valid => View.insert_withNames norm within valid,
    fun v k inside norm => View.remove_withNames norm inside,
    fun v norm => View.pop_withNames norm,
    fun v k m norm le within => View.removeRange_withNames norm le within,
    fun v norm => View.clear_withNames norm,
    fun v keep norm valid => View.retain_withNames norm valid keep,
    ?_, fun s v made => Source.toView_fromPath made,
    fun p v src => ofView_reattach src p.isAbsolute,
    fun root v src => ofView_normalized src root⟩
  intro p edits norm current
  exact ofView_reattach (applyEdits_fromPath norm.view current) p.isAbsolute

theorem push_onto_rooted_path :
    (FilePath.writeBack true (applyEdits ⟨[separator, 97], 1⟩ [.push [98]]).1).1.Normalized ∧
      (FilePath.writeBack true (applyEdits ⟨[separator, 97], 1⟩ [.push [98]]).1).1.isAbsolute =
        (true || (applyEdits ⟨[separator, 97], 1⟩ [.push [98]]).1.hasRoot) ∧
      (FilePath.writeBack true (applyEdits ⟨[separator, 97], 1⟩ [.push [98]]).1).1.view.names =
        (applyEdits ⟨[separator, 97], 1⟩ [.push [98]]).1.names :=
  edits_splice_names.2.2.2.2.2.2.2.2.2.1 ⟨[separator, 97]⟩ [.push [98]] (by decide)
    (by simp [PathEdit.FromView])

end SysBytes.Session
