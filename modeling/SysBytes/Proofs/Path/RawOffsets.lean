import SysBytes.Proofs.Path.Walks

/-!
Edits at raw offsets. The index check bounds an offset by the start and the end of the storage,
not by a component boundary, so an offset left over from an earlier edit may point inside a name
or at a separator. This module says exactly what the edits leave then.
-/
namespace SysBytes.Path

/-! ### Separated bytes, cut and joined -/

theorem doubled_append {x y : List UInt8} :
    [separator, separator] <:+: x ++ y ↔ [separator, separator] <:+: x ∨
      [separator, separator] <:+: y ∨ (x.getLast? = some separator ∧ y.head? = some separator) := by
  induction x with
  | nil => simp
  | cons w x ih =>
    rw [List.cons_append, doubled_cons, ih, doubled_cons]
    cases x with
    | nil => simp; tauto
    | cons z x => simp; tauto

theorem getLast?_take_of_pos {rel : List UInt8} {a : Nat} (pos : 0 < a) (within : a ≤ rel.length) :
    (rel.take a).getLast? = rel[a - 1]? := by
  rw [List.getLast?_take, if_neg (by omega), List.getElem?_eq_getElem (by omega), Option.some_or]

namespace Separated

variable {rel : List UInt8}

theorem take_not_doubled (sep : Separated rel) (a : Nat) :
    ¬ [separator, separator] <:+: rel.take a :=
  fun doubled => sep.2.2 (doubled.trans (List.take_prefix a rel).isInfix)

theorem drop_not_doubled (sep : Separated rel) (b : Nat) :
    ¬ [separator, separator] <:+: rel.drop b :=
  fun doubled => sep.2.2 (doubled.trans (List.drop_suffix b rel).isInfix)

theorem head?_take (sep : Separated rel) (a : Nat) : (rel.take a).head? ≠ some separator := by
  rw [List.head?_take]
  split
  · simp
  · exact sep.1

theorem getLast?_drop (sep : Separated rel) (b : Nat) : (rel.drop b).getLast? ≠ some separator := by
  rw [List.getLast?_drop]
  split
  · simp
  · exact sep.2.1

theorem cut_iff (sep : Separated rel) {a b : Nat} (le : a ≤ b) (inside : b < rel.length) :
    Separated (rel.take a ++ rel.drop b) ↔
      rel[b]? ≠ some separator ∨ (0 < a ∧ rel[a - 1]? ≠ some separator) := by
  have rest : rel.drop b ≠ [] := by simpa using inside
  have last : (rel.take a ++ rel.drop b).getLast? ≠ some separator := by
    rw [List.getLast?_append_of_ne_nil _ rest]
    exact sep.getLast?_drop b
  rcases Nat.eq_zero_or_pos a with rfl | pos
  · -- nothing is kept before the cut: the bytes after it come first
    rw [List.take_zero, List.nil_append]
    simp only [Nat.lt_irrefl, false_and, or_false]
    constructor
    · intro kept
      rw [← List.head?_drop]
      exact kept.1
    · intro first
      exact ⟨by rwa [List.head?_drop], sep.getLast?_drop b, sep.drop_not_doubled b⟩
  · have first : (rel.take a ++ rel.drop b).head? ≠ some separator := by
      have kept : rel.take a ≠ [] := by
        rw [Ne, List.take_eq_nil_iff, not_or]
        exact ⟨by omega, List.ne_nil_of_length_pos (by omega)⟩
      rw [List.head?_append_of_ne_nil _ kept]
      exact sep.head?_take a
    unfold Separated
    rw [doubled_append, getLast?_take_of_pos pos (by omega), List.head?_drop]
    simp only [first, last, sep.take_not_doubled a, sep.drop_not_doubled b, ne_eq,
      not_false_eq_true, true_and, false_or, pos]
    tauto

theorem trimEnd_take (sep : Separated rel) (R : List UInt8) (a : Nat) :
    ∃ X, View.trimEnd (R ++ rel.take a) R.length = R ++ X ∧ Separated X := by
  by_cases ends : (rel.take a).getLast? = some separator
  · have nonempty : rel.take a ≠ [] := fun empty => by simp [empty] at ends
    have split : rel.take a = (rel.take a).dropLast ++ [separator] := by
      conv_lhs => rw [← List.dropLast_concat_getLast nonempty]
      rw [← Option.some.inj ((List.getLast?_eq_some_getLast nonempty).symm.trans ends)]
    -- a separator before the last one would be doubled
    have before : (rel.take a).dropLast.getLast? ≠ some separator := by
      intro last
      apply sep.take_not_doubled a
      rw [split, doubled_append]
      exact .inr (.inr ⟨last, rfl⟩)
    refine ⟨(rel.take a).dropLast, ?_, ?_, before, ?_⟩
    · conv_lhs => rw [split]
      rw [← List.append_assoc, trimEnd_separator R _ before]
    · rw [List.head?_dropLast]
      split
      · exact sep.head?_take a
      · simp
    · exact fun doubled => sep.take_not_doubled a (doubled.trans (List.dropLast_prefix _).isInfix)
  · exact ⟨rel.take a, trimEnd_of_getLast R _ ends, sep.head?_take a, ends, sep.take_not_doubled a⟩

theorem head?_append_ne {x y : List UInt8} (front : x.head? ≠ some separator)
    (next : y.head? ≠ some separator) : (x ++ y).head? ≠ some separator := by
  cases x with
  | nil => simpa using next
  | cons w x => simpa using front

theorem take_append (sep : Separated rel) (a : Nat) {J : List UInt8} (joined : Separated J)
    (named : J ≠ []) : Separated (rel.take a ++ J) := by
  refine ⟨head?_append_ne (sep.head?_take a) joined.1, ?_, ?_⟩
  · rw [List.getLast?_append_of_ne_nil _ named]
    exact joined.2.1
  · rw [doubled_append]
    rintro (doubled | doubled | ⟨-, first⟩)
    · exact sep.take_not_doubled a doubled
    · exact joined.2.2 doubled
    · exact joined.1 first

theorem splice_iff (sep : Separated rel) (nonempty : rel ≠ []) {a b : Nat} (le : a ≤ b)
    (within : b ≤ rel.length) {J : List UInt8} (joined : Separated J) (named : J ≠ []) :
    Separated (rel.take a ++ ((if a = rel.length then [separator] else []) ++ J ++
        (if b ≠ rel.length then [separator] else [])) ++ rel.drop b) ↔
      rel[b]? ≠ some separator := by
  by_cases at_end : b = rel.length
  · -- the names go at the end: nothing follows them
    subst at_end
    rw [List.getElem?_eq_none (Nat.le_refl _), List.drop_length]
    simp only [ne_eq, not_true_eq_false, if_false, List.append_nil, reduceCtorEq,
      not_false_eq_true, iff_true]
    by_cases front : a = rel.length
    · -- after all the bytes, one separator and the names
      rw [if_pos front, List.take_of_length_le (by omega), List.singleton_append]
      obtain ⟨y, ys, rfl⟩ := List.exists_cons_of_ne_nil named
      refine ⟨by rw [List.head?_append_of_ne_nil _ nonempty]; exact sep.1, ?_,
        not_doubled_glue sep.2.2 sep.2.1 joined.1 joined.2.2⟩
      rw [List.getLast?_append_of_ne_nil _ (List.cons_ne_nil _ _), List.getLast?_cons_cons]
      exact joined.2.1
    · rw [if_neg front, List.nil_append]
      exact sep.take_append a joined named
  · -- bytes follow the names, after one separator
    have inside : b < rel.length := by omega
    have rest : rel.drop b ≠ [] := by simpa using inside
    rw [if_neg (by omega : a ≠ rel.length), if_pos at_end, List.nil_append, ← List.append_assoc]
    have front := sep.take_append a joined named
    constructor
    · intro spliced following
      apply spliced.2.2
      rw [doubled_append]
      refine .inr (.inr ⟨by simp, by rwa [List.head?_drop]⟩)
    · intro free
      have kept : rel.take a ++ J ≠ [] := by simp [named]
      refine ⟨?_, ?_, ?_⟩
      · rw [List.append_assoc, List.head?_append_of_ne_nil _ kept]
        exact front.1
      · rw [List.getLast?_append_of_ne_nil _ rest]
        exact sep.getLast?_drop b
      · rw [doubled_append, doubled_append]
        rintro ((doubled | doubled | ⟨last, -⟩) | doubled | ⟨-, following⟩)
        · exact front.2.2 doubled
        · exact absurd doubled.length_le (by simp)
        · exact front.2.1 last
        · exact sep.drop_not_doubled b doubled
        · exact free (by rwa [List.head?_drop] at following)

end Separated

/-! ### Replacing at raw offsets -/

namespace View

theorem normalized_root_append_iff (R X : List UInt8) :
    Normalized ⟨R ++ X, R.length⟩ ↔ Separated X := by
  rw [Normalized, relative, List.drop_left' rfl]
  exact ⟨fun norm => norm.2, fun sep => ⟨by simp, sep⟩⟩

section Rooted

/-! The view `⟨R ++ rel, R.length⟩` holds the names `rel` after its root `R`. A replacement at
offsets `a ≤ b ≤ rel.length` counted from the root passes its checks; each of its branches keeps
the root, and says on its own when the names it leaves are separated. -/

variable {R rel : List UInt8} {a b : Nat} {N : List (List UInt8)}

theorem replaceRange_rooted (ab : a ≤ b) (within : b ≤ rel.length)
    (valid : ∀ n ∈ N, isValidName n = true) :
    (⟨R ++ rel, R.length⟩ : View).replaceRange (R.length + a) (R.length + b) N =
      if isEmpty ⟨R ++ rel, R.length⟩ then .ok ⟨R ++ joinNames N, R.length⟩
      else if N.isEmpty then
        .ok ⟨if b = rel.length then trimEnd (R ++ rel.take a ++ rel.drop b) R.length
          else R ++ rel.take a ++ rel.drop b, R.length⟩
      else .ok ⟨R ++ rel.take a ++ ((if a = rel.length then [separator] else []) ++ joinNames N ++
          (if b ≠ rel.length then [separator] else [])) ++ rel.drop b, R.length⟩ := by
  have lo_ok := checkIndex_ok (v := ⟨R ++ rel, R.length⟩) (Nat.le_add_right R.length a)
    (by simp; omega)
  have hi_ok := checkIndex_ok (v := ⟨R ++ rel, R.length⟩) (Nat.le_add_right R.length b)
    (by simp; omega)
  have ends : ∀ c, R.length + c = endIndex ⟨R ++ rel, R.length⟩ ↔ c = rel.length := by
    intro c
    simp [endIndex]
  simp only [replaceRange, firstInvalid_eq_none valid, lo_ok, hi_ok, pure_bind,
    if_neg (Nat.not_lt.mpr (Nat.add_le_add_left ab R.length)), List.take_left,
    List.take_length_add_append, List.drop_length_add_append, ends, ne_eq]
  rfl

theorem rooted_names_normalized (valid : ∀ n ∈ N, isValidName n = true) :
    Normalized ⟨R ++ joinNames N, R.length⟩ :=
  (normalized_root_append_iff R _).mpr (separated_joinNames (names_of_valid valid))

theorem trimmed_cut_normalized (sep : Separated rel) (R : List UInt8) (a : Nat) :
    ∃ X, trimEnd (R ++ rel.take a ++ rel.drop rel.length) R.length = R ++ X ∧
      Normalized ⟨R ++ X, R.length⟩ := by
  obtain ⟨X, trimmed, clean⟩ := sep.trimEnd_take R a
  rw [List.drop_length, List.append_nil, trimmed]
  exact ⟨X, rfl, (normalized_root_append_iff R X).mpr clean⟩

theorem cut_normalized_iff (sep : Separated rel) (ab : a ≤ b) (inside : b < rel.length) :
    Normalized ⟨R ++ rel.take a ++ rel.drop b, R.length⟩ ↔
      rel[b]? ≠ some separator ∨ (0 < a ∧ rel[a - 1]? ≠ some separator) := by
  rw [List.append_assoc, normalized_root_append_iff]
  exact sep.cut_iff ab inside

theorem splice_normalized_iff (sep : Separated rel) (nonempty : rel ≠ []) (ab : a ≤ b)
    (within : b ≤ rel.length) (valid : ∀ n ∈ N, isValidName n = true) (named : N ≠ []) :
    Normalized ⟨R ++ rel.take a ++ ((if a = rel.length then [separator] else []) ++ joinNames N ++
        (if b ≠ rel.length then [separator] else [])) ++ rel.drop b, R.length⟩ ↔
      rel[b]? ≠ some separator := by
  have names := names_of_valid valid
  rw [List.append_assoc R, List.append_assoc R, normalized_root_append_iff]
  refine sep.splice_iff nonempty ab within (separated_joinNames names) ?_
  rwa [Ne, joinNames_eq_nil names]

end Rooted

/-- A replacement at any two offsets the index check accepts, in order, keeps the root; the view
stays normalized exactly when no separator is left doubled or in front. -/
theorem replaceRange_at_offsets {v : View} (norm : v.Normalized) {lo hi : Nat}
    (lower : v.start ≤ lo) (le : lo ≤ hi) (upper : hi ≤ v.bytes.length) {N : List (List UInt8)}
    (valid : ∀ n ∈ N, isValidName n = true) :
    ∃ v', v.replaceRange lo hi N = .ok v' ∧ v'.start = v.start ∧
      v'.bytes.take v.start = v.bytes.take v.start ∧
      (v'.Normalized ↔ v.bytes[hi]? ≠ some separator ∨
        (N = [] ∧ v.start < lo ∧ v.bytes[lo - 1]? ≠ some separator)) := by
  obtain ⟨R, cs, good, -, rfl⟩ := exists_of_normalized norm
  have empty_iff : isEmpty ⟨R ++ joinNames cs, R.length⟩ = true ↔ joinNames cs = [] :=
    (isEmpty_joinNames R cs good).trans (joinNames_eq_nil good).symm
  have sep := separated_joinNames good
  generalize joinNames cs = rel at empty_iff sep upper ⊢
  -- offsets counted from the root
  obtain ⟨a, rfl⟩ : ∃ a, lo = R.length + a := ⟨lo - R.length, by simp at lower; omega⟩
  obtain ⟨b, rfl⟩ : ∃ b, hi = R.length + b := ⟨hi - R.length, by omega⟩
  simp only [List.length_append] at upper
  have ab : a ≤ b := by omega
  have within : b ≤ rel.length := by omega
  have at_hi : (R ++ rel)[R.length + b]? = rel[b]? := by
    rw [List.getElem?_append_right (by omega), Nat.add_sub_cancel_left]
  have before : (R.length < R.length + a ∧ (R ++ rel)[R.length + a - 1]? ≠ some separator) ↔
      (0 < a ∧ rel[a - 1]? ≠ some separator) := by
    rw [Nat.lt_add_right_iff_pos]
    refine and_congr_right fun pos => ?_
    rw [show R.length + a - 1 = R.length + (a - 1) by omega,
      List.getElem?_append_right (by omega), Nat.add_sub_cancel_left]
  have rooted : ∀ X, (R ++ X).take R.length = (R ++ rel).take R.length := by simp
  rw [replaceRange_rooted ab within valid, at_hi, before]
  by_cases empty : rel = []
  · subst empty
    have none_after : b = 0 := by simpa using within
    rw [if_pos (empty_iff.mpr rfl)]
    exact ⟨_, rfl, rfl, rooted _,
      iff_of_true (rooted_names_normalized valid) (.inl (by simp [none_after]))⟩
  rw [if_neg (fun e => empty (empty_iff.mp e))]
  by_cases removal : N = []
  · subst removal
    rw [List.isEmpty_nil, if_pos rfl]
    by_cases last : b = rel.length
    · subst last
      obtain ⟨X, trimmed, normal⟩ := trimmed_cut_normalized sep R a
      rw [if_pos rfl, trimmed]
      exact ⟨_, rfl, rfl, rooted X, iff_of_true normal (.inl (by simp))⟩
    · rw [if_neg last, List.append_assoc R]
      refine ⟨_, rfl, rfl, rooted _, ?_⟩
      rw [← List.append_assoc R, cut_normalized_iff sep ab (by omega)]
      simp
  · rw [if_neg (by simpa using removal)]
    refine ⟨_, rfl, rfl, by rw [List.append_assoc R, List.append_assoc R, rooted], ?_⟩
    rw [splice_normalized_iff sep empty ab within valid removal]
    simp [removal]

/-! ### Reading and removing at raw offsets -/

theorem le_nextStart (bytes : List UInt8) (i : Nat) : i ≤ nextStart bytes i := by
  rw [nextStart_eq]
  omega

theorem getElem?_nextStart_ne (bytes : List UInt8) (i : Nat) :
    bytes[nextStart bytes i]? ≠ some separator := by
  intro sep
  rw [← List.head?_drop, nextStart] at sep
  simpa [isSep] using head_drop_skipSeparators bytes (componentEnd bytes i) separator sep

theorem separator_not_mem_takeWhile (l : List UInt8) :
    separator ∉ l.takeWhile fun b => !isSep b := by
  intro mem
  simpa [isSep] using List.mem_takeWhile_imp mem

theorem takeWhile_name_eq_nil_iff {bytes : List UInt8} {i : Nat} (below : i < bytes.length) :
    (bytes.drop i).takeWhile (fun b => !isSep b) = [] ↔ bytes[i]? = some separator := by
  obtain ⟨b, rest, split⟩ := List.exists_cons_of_ne_nil (by simpa using below : bytes.drop i ≠ [])
  rw [← List.head?_drop, split, List.takeWhile_cons]
  by_cases sep : b = separator <;> simp [sep, isSep]

section Offset

variable {v : View} {i : Nat} (lower : v.start ≤ i)

include lower in
theorem indexAfter_eq (below : i < v.bytes.length) :
    v.indexAfter i = .ok (nextStart v.bytes i) := by
  rw [indexAfter, checkIndex, if_pos ⟨lower, below.le⟩]
  simp only [endIndex, Nat.ne_of_lt below, if_false]
  rfl

include lower in
theorem insert_at_offset (norm : v.Normalized) (upper : i ≤ v.bytes.length) {name : List UInt8}
    (valid : isValidName name = true) :
    ∃ v', v.insert i name = .ok v' ∧ (v'.Normalized ↔ v.bytes[i]? ≠ some separator) := by
  obtain ⟨v', edited, -, -, normal⟩ :=
    replaceRange_at_offsets norm lower (Nat.le_refl i) upper (N := [name]) (by simpa using valid)
  exact ⟨v', edited, by simpa using normal⟩

include lower in
theorem remove_at_offset (norm : v.Normalized) (below : i < v.bytes.length) :
    ∃ v', v.remove i = .ok (v', (v.bytes.drop i).takeWhile fun b => !isSep b) ∧
      v'.Normalized := by
  obtain ⟨v', edited, -, -, normal⟩ := replaceRange_at_offsets norm lower (le_nextStart v.bytes i)
    (nextStart_le below.le) (N := []) (fun n mem => absurd mem List.not_mem_nil)
  refine ⟨v', ?_, normal.mpr (.inl (getElem?_nextStart_ne v.bytes i))⟩
  rw [remove, get_eq_takeWhile lower below, indexAfter_eq lower below, ok_bind, ok_bind,
    removeRange, edited, ok_bind]
  rfl

end Offset

end View

open View

/-- **Edits at raw offsets.** On a normalized view every edit at offsets the index check accepts
succeeds; a replacement keeps the view normalized exactly when it leaves no separator doubled or in
front, and removing hands back what reading there gives. -/
theorem edits_at_raw_offsets (v : View) (norm : v.Normalized) :
    (∀ (lo hi : Nat) (N : List (List UInt8)), v.start ≤ lo → lo ≤ hi → hi ≤ v.bytes.length →
      (∀ n ∈ N, isValidName n = true) →
      ∃ v', v.replaceRange lo hi N = .ok v' ∧ v'.start = v.start ∧
        v'.bytes.take v.start = v.bytes.take v.start ∧
        (v'.Normalized ↔ v.bytes[hi]? ≠ some separator ∨
          (N = [] ∧ v.start < lo ∧ v.bytes[lo - 1]? ≠ some separator))) ∧
    (∀ lo hi : Nat, v.start ≤ lo → lo ≤ hi → hi ≤ v.bytes.length →
      ∃ v', v.removeRange lo hi = .ok v' ∧
        (v'.Normalized ↔ v.bytes[hi]? ≠ some separator ∨
          (v.start < lo ∧ v.bytes[lo - 1]? ≠ some separator))) ∧
    (∀ (i : Nat) (name : List UInt8), v.start ≤ i → i ≤ v.bytes.length →
      isValidName name = true →
      ∃ v', v.insert i name = .ok v' ∧ (v'.Normalized ↔ v.bytes[i]? ≠ some separator)) ∧
    (∀ i : Nat, v.start ≤ i → i < v.bytes.length →
      ∃ v' name, v.get i = .ok name ∧ v.remove i = .ok (v', name) ∧ v'.Normalized ∧
        separator ∉ name ∧ (name = [] ↔ v.bytes[i]? = some separator)) := by
  refine ⟨fun lo hi N lower le upper valid => replaceRange_at_offsets norm lower le upper valid,
    fun lo hi lower le upper => ?_,
    fun i name lower upper valid => insert_at_offset lower norm upper valid,
    fun i lower below => ?_⟩
  · obtain ⟨v', removed, -, -, normal⟩ :=
      replaceRange_at_offsets norm lower le upper (N := [])
        (fun n mem => absurd mem List.not_mem_nil)
    exact ⟨v', removed, by simpa using normal⟩
  · obtain ⟨v', removed, normal⟩ := remove_at_offset lower norm below
    exact ⟨v', _, get_eq_takeWhile lower below, removed, normal, separator_not_mem_takeWhile _,
      takeWhile_name_eq_nil_iff below⟩

/-- Inserting at offset 3 of `/ab/cd`, which holds the separator, leaves two separators in a
row. -/
theorem inserting_at_a_separator_doubles_it :
    ∃ v', View.insert ⟨[47, 97, 98, 47, 99, 100], 1⟩ 3 [78] = .ok v' ∧ ¬ v'.Normalized := by
  obtain ⟨v', inserted, normal⟩ := (edits_at_raw_offsets ⟨[47, 97, 98, 47, 99, 100], 1⟩
    (by decide)).2.2.1 3 [78] (by decide) (by decide) (by decide)
  exact ⟨v', inserted, fun norm => normal.mp norm rfl⟩

/-- Offsets that are not component boundaries are accepted: inserting `N` at offset 3 of
`/ab/cd` gives `/abN//cd`, and removing at offset 2 of `ab/cd` merges its two names into `abcd`
and hands back an empty name, which is not a valid one. -/
theorem stale_offsets_break_the_form :
    View.Normalized ⟨[47, 97, 98, 47, 99, 100], 1⟩ ∧
    View.insert ⟨[47, 97, 98, 47, 99, 100], 1⟩ 3 [78] =
      .ok ⟨[47, 97, 98, 78, 47, 47, 99, 100], 1⟩ ∧
    ¬ View.Normalized ⟨[47, 97, 98, 78, 47, 47, 99, 100], 1⟩ ∧
    View.Normalized ⟨[97, 98, 47, 99, 100], 0⟩ ∧
    View.remove ⟨[97, 98, 47, 99, 100], 0⟩ 2 = .ok (⟨[97, 98, 99, 100], 0⟩, []) ∧
    isValidName [] = false :=
  ⟨by decide, rfl, by decide, by decide, rfl, rfl⟩

end SysBytes.Path
