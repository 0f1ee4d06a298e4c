import Mathlib
import SysBytes.Path.View

/-!
Views over normalized bytes: after its root, names joined by single separators. On them the
view reads the list of those names, its component indices are where each name starts, and
`replaceRange` between two indices splices the list, in each of its three branches.
-/
namespace SysBytes.Path

/-- Bytes with no separator at either end and none doubled. -/
def Separated (bytes : List UInt8) : Prop :=
  bytes.head? ≠ some separator ∧ bytes.getLast? ≠ some separator ∧
    ¬ [separator, separator] <:+: bytes

instance (bytes : List UInt8) : Decidable (Separated bytes) :=
  inferInstanceAs (Decidable (_ ∧ _ ∧ _))

/-- Names as a view reads them between separators: non-empty, without a separator. -/
def Names (cs : List (List UInt8)) : Prop := ∀ c ∈ cs, c ≠ [] ∧ separator ∉ c

namespace View

/-- A view whose bytes after the root have one separator per boundary and none at either end. -/
def Normalized (v : View) : Prop := v.start ≤ v.bytes.length ∧ Separated v.relative

instance (v : View) : Decidable v.Normalized := inferInstanceAs (Decidable (_ ∧ _))

def boundaries (v : View) : List Nat := v.indices ++ [v.endIndex]

end View

/-! ### Joined names -/

theorem names_append {a b : List (List UInt8)} : Names (a ++ b) ↔ Names a ∧ Names b := by
  simp only [Names, List.mem_append]
  constructor
  · intro all
    exact ⟨fun c mem => all c (Or.inl mem), fun c mem => all c (Or.inr mem)⟩
  · rintro ⟨left, right⟩ c (mem | mem)
    · exact left c mem
    · exact right c mem

theorem names_cons {c : List UInt8} {cs : List (List UInt8)} :
    Names (c :: cs) ↔ (c ≠ [] ∧ separator ∉ c) ∧ Names cs := by
  simp [Names]

theorem Names.tail {c : List UInt8} {cs : List (List UInt8)} (names : Names (c :: cs)) :
    Names cs :=
  (names_cons.mp names).2

@[simp] theorem joinNames_nil : joinNames [] = [] := rfl

@[simp] theorem joinNames_singleton (c : List UInt8) : joinNames [c] = c := by
  simp [joinNames]

theorem joinNames_cons_cons (c d : List UInt8) (cs : List (List UInt8)) :
    joinNames (c :: d :: cs) = c ++ separator :: joinNames (d :: cs) := by
  simp [joinNames]

theorem joinNames_append_of_ne_nil {a b : List (List UInt8)} (left : a ≠ []) (right : b ≠ []) :
    joinNames (a ++ b) = joinNames a ++ separator :: joinNames b := by
  induction a with
  | nil => exact absurd rfl left
  | cons c a ih =>
    cases a with
    | nil =>
      obtain ⟨d, b, rfl⟩ := List.exists_cons_of_ne_nil right
      simp [joinNames_cons_cons]
    | cons c' a =>
      rw [List.cons_append, List.cons_append, joinNames_cons_cons, ← List.cons_append,
        ih (List.cons_ne_nil _ _), joinNames_cons_cons]
      simp

def lead (a b : List (List UInt8)) : List UInt8 :=
  if a = [] ∨ b = [] then joinNames a else joinNames a ++ [separator]

theorem joinNames_append (a b : List (List UInt8)) :
    joinNames (a ++ b) = lead a b ++ joinNames b := by
  unfold lead
  by_cases left : a = []
  · simp [left]
  by_cases right : b = []
  · simp [right]
  rw [if_neg (by tauto), joinNames_append_of_ne_nil left right]
  simp

theorem lead_nil_left (b : List (List UInt8)) : lead [] b = [] := by
  simp [lead]

theorem lead_nil_right (a : List (List UInt8)) : lead a [] = joinNames a := by
  simp [lead]

theorem lead_of_ne_nil (a : List (List UInt8)) {b b' : List (List UInt8)} (hb : b ≠ [])
    (hb' : b' ≠ []) : lead a b = lead a b' := by
  simp [lead, hb, hb']

theorem lead_append (a b c : List (List UInt8)) :
    lead (a ++ b) c = lead a (b ++ c) ++ lead b c := by
  have whole := joinNames_append (a ++ b) c
  rw [List.append_assoc, joinNames_append a (b ++ c), joinNames_append b c] at whole
  exact List.append_cancel_right (whole.symm.trans (List.append_assoc _ _ _).symm)

theorem head?_joinNames {c : List UInt8} {cs : List (List UInt8)} (nonempty : c ≠ []) :
    (joinNames (c :: cs)).head? = c.head? := by
  rw [← List.singleton_append, joinNames_append, lead]
  cases cs with
  | nil => simp
  | cons d cs =>
    obtain ⟨x, c, rfl⟩ := List.exists_cons_of_ne_nil nonempty
    simp

theorem joinNames_eq_nil {cs : List (List UInt8)} (names : Names cs) :
    joinNames cs = [] ↔ cs = [] := by
  constructor
  · intro empty
    cases cs with
    | nil => rfl
    | cons c cs =>
      have nonempty := (names c List.mem_cons_self).1
      have first : (joinNames (c :: cs)).head? = c.head? := head?_joinNames nonempty
      rw [empty, List.head?_nil, eq_comm, List.head?_eq_none_iff] at first
      exact absurd first nonempty
  · rintro rfl
    rfl

theorem head?_ne_separator {c : List UInt8} (sep : separator ∉ c) : c.head? ≠ some separator := by
  cases c with
  | nil => simp
  | cons x c =>
    intro first
    simp only [List.head?_cons, Option.some.injEq] at first
    exact sep (first ▸ List.mem_cons_self)

theorem getLast?_ne_separator {c : List UInt8} (sep : separator ∉ c) :
    c.getLast? ≠ some separator := by
  intro last
  exact sep (List.mem_of_getLast? last)

theorem doubled_cons {x : UInt8} {l : List UInt8} :
    [separator, separator] <:+: x :: l ↔
      (x = separator ∧ l.head? = some separator) ∨ [separator, separator] <:+: l := by
  rw [List.infix_cons_iff]
  cases l with
  | nil => simp
  | cons y l =>
    simp only [List.cons_prefix_cons, List.nil_prefix, and_true, List.head?_cons,
      Option.some.injEq]
    rw [@eq_comm _ separator x, @eq_comm _ separator y]

theorem not_doubled_glue {x y : List UInt8} (x_ok : ¬ [separator, separator] <:+: x)
    (x_last : x.getLast? ≠ some separator) (y_head : y.head? ≠ some separator)
    (y_ok : ¬ [separator, separator] <:+: y) : ¬ [separator, separator] <:+: x ++ separator :: y := by
  induction x with
  | nil =>
    rw [List.nil_append, doubled_cons]
    rintro (⟨-, first⟩ | inner)
    · exact y_head first
    · exact y_ok inner
  | cons b x ih =>
    rw [List.cons_append, doubled_cons]
    rw [doubled_cons] at x_ok
    rintro (⟨rfl, first⟩ | inner)
    · cases x with
      | nil => exact x_last rfl
      | cons b' x =>
        simp only [List.cons_append, List.head?_cons] at first
        exact x_ok (Or.inl ⟨rfl, by simpa using first⟩)
    · refine ih (fun inner' => x_ok (Or.inr inner')) ?_ inner
      cases x with
      | nil => simp
      | cons b' x => simpa using x_last

theorem separated_joinNames {cs : List (List UInt8)} (names : Names cs) :
    Separated (joinNames cs) := by
  induction cs with
  | nil => exact ⟨by simp, by simp, by simp⟩
  | cons c cs ih =>
    obtain ⟨⟨nonempty, sep⟩, rest⟩ := names_cons.mp names
    obtain ⟨_, rest_last, rest_ok⟩ := ih rest
    cases cs with
    | nil =>
      rw [joinNames_singleton]
      refine ⟨head?_ne_separator sep, getLast?_ne_separator sep, ?_⟩
      intro doubled
      obtain ⟨s, t, glue⟩ := doubled
      exact sep (glue ▸ List.mem_append_left _ (List.mem_append_right _ List.mem_cons_self))
    | cons d cs =>
      obtain ⟨d_nonempty, d_sep⟩ := rest d List.mem_cons_self
      rw [joinNames_cons_cons]
      refine ⟨?_, ?_, ?_⟩
      · obtain ⟨x, c, rfl⟩ := List.exists_cons_of_ne_nil nonempty
        simpa using head?_ne_separator sep
      · have joined : joinNames (d :: cs) ≠ [] := fun empty =>
          List.cons_ne_nil _ _ ((joinNames_eq_nil rest).mp empty)
        rw [← List.singleton_append, ← List.append_assoc, List.getLast?_append]
        cases last : (joinNames (d :: cs)).getLast? with
        | none => exact absurd (List.getLast?_eq_none_iff.mp last) joined
        | some w =>
          rw [last] at rest_last
          simpa using rest_last
      · apply not_doubled_glue _ (getLast?_ne_separator sep)
          ((head?_joinNames d_nonempty).symm ▸ head?_ne_separator d_sep) rest_ok
        intro doubled
        obtain ⟨s, t, glue⟩ := doubled
        exact sep (glue ▸ List.mem_append_left _ (List.mem_append_right _ List.mem_cons_self))

theorem exists_names_of_separated {bytes : List UInt8} (separated : Separated bytes) :
    ∃ cs, Names cs ∧ bytes = joinNames cs := by
  obtain ⟨n, short⟩ : ∃ n, bytes.length ≤ n := ⟨_, Nat.le_refl _⟩
  induction n generalizing bytes with
  | zero =>
    rw [List.eq_nil_of_length_eq_zero (Nat.le_zero.mp short)]
    exact ⟨[], by simp [Names], rfl⟩
  | succ n ih =>
    obtain ⟨first, last, single⟩ := separated
    cases bytes with
    | nil => exact ⟨[], by simp [Names], rfl⟩
    | cons x l =>
      have x_ne : x ≠ separator := fun eq => first (by rw [eq]; rfl)
      cases l with
      | nil =>
        refine ⟨[[x]], ?_, rfl⟩
        simp [Names, x_ne.symm]
      | cons y l =>
        simp only [List.length_cons] at short
        by_cases y_sep : y = separator
        · -- a separator after the first byte: the rest after it is separated on its own
          subst y_sep
          have l_head : l.head? ≠ some separator := fun head =>
            single (List.infix_cons (List.IsPrefix.isInfix (by cases l <;> simp_all)))
          have l_last : l.getLast? ≠ some separator := by
            cases l with
            | nil => simp at last
            | cons z l => simpa using last
          have l_ok : ¬ [separator, separator] <:+: l := fun inner =>
            single (List.infix_cons (List.infix_cons inner))
          obtain ⟨cs, names, rfl⟩ := ih ⟨l_head, l_last, l_ok⟩ (by omega)
          have nonempty : cs ≠ [] := by
            rintro rfl
            simp at last
          obtain ⟨d, cs, rfl⟩ := List.exists_cons_of_ne_nil nonempty
          refine ⟨[x] :: d :: cs, ?_, by simp [joinNames_cons_cons]⟩
          exact names_cons.mpr ⟨⟨by simp, by simp [x_ne.symm]⟩, names⟩
        · -- a name continues: it takes the first byte in front
          have rest : Separated (y :: l) := by
            refine ⟨by simpa using y_sep, by simpa using last, fun inner => single ?_⟩
            exact List.infix_cons inner
          obtain ⟨cs, names, glue⟩ := ih rest (by simp only [List.length_cons]; omega)
          cases cs with
          | nil => simp at glue
          | cons c cs =>
            obtain ⟨⟨nonempty, sep⟩, names'⟩ := names_cons.mp names
            refine ⟨(x :: c) :: cs, names_cons.mpr ⟨⟨by simp, ?_⟩, names'⟩, ?_⟩
            · simp [x_ne.symm, sep]
            · obtain ⟨z, c, rfl⟩ := List.exists_cons_of_ne_nil nonempty
              rw [glue]
              simp [joinNames]

/-! ### Reading joined names -/

theorem takeWhile_isSep_of_head {l : List UInt8} (first : l.head? ≠ some separator) :
    l.takeWhile isSep = [] := by
  cases l with
  | nil => rfl
  | cons x l =>
    have not_sep : isSep x = false := by simpa [isSep] using first
    simp [List.takeWhile, not_sep]

theorem takeWhile_not_isSep_of_head {l : List UInt8} (ends : ∀ x ∈ l.head?, x = separator) :
    l.takeWhile (fun b => !isSep b) = [] := by
  cases l with
  | nil => rfl
  | cons x l =>
    have sep : x = separator := ends x rfl
    simp [List.takeWhile, sep, isSep]

theorem skipSeparators_of_head {bytes : List UInt8} {i : Nat}
    (first : (bytes.drop i).head? ≠ some separator) : skipSeparators bytes i = i := by
  rw [skipSeparators, takeWhile_isSep_of_head first, List.length_nil, Nat.add_zero]

theorem skipSeparators_of_separator {bytes rest : List UInt8} {i : Nat}
    (at_sep : bytes.drop i = separator :: rest) (first : rest.head? ≠ some separator) :
    skipSeparators bytes i = i + 1 := by
  have once : (separator :: rest).takeWhile isSep = [separator] := by
    rw [List.takeWhile_cons_of_pos (by simp [isSep]), takeWhile_isSep_of_head first]
  rw [skipSeparators, at_sep, once, List.length_singleton]

theorem componentEnd_of_name {bytes c rest : List UInt8} {i : Nat}
    (at_name : bytes.drop i = c ++ rest) (sep : separator ∉ c)
    (ends : ∀ x ∈ rest.head?, x = separator) : componentEnd bytes i = i + c.length := by
  have inside : ∀ x ∈ c, (!isSep x) = true := by
    intro x mem
    have ne : x ≠ separator := fun eq => sep (eq ▸ mem)
    simpa [isSep] using ne
  rw [componentEnd, at_name, List.takeWhile_append_of_pos inside,
    takeWhile_not_isSep_of_head ends, List.append_nil]

theorem joinNames_cons (c : List UInt8) (cs : List (List UInt8)) :
    joinNames (c :: cs) = c ++ if cs = [] then [] else separator :: joinNames cs := by
  cases cs with
  | nil => simp
  | cons d cs => simp [joinNames_cons_cons]

theorem separator_after (cs : List (List UInt8)) :
    ∀ x ∈ (if cs = [] then [] else separator :: joinNames cs).head?, x = separator := by
  intro x mem
  split at mem
  · cases mem
  · simpa using mem.symm

theorem drop_lead (R : List UInt8) (a b : List (List UInt8)) :
    (R ++ joinNames (a ++ b)).drop (R.length + (lead a b).length) = joinNames b := by
  rw [joinNames_append, ← List.append_assoc, List.drop_left' (by simp)]

theorem take_lead (R : List UInt8) (a b : List (List UInt8)) :
    (R ++ joinNames (a ++ b)).take (R.length + (lead a b).length) = R ++ lead a b := by
  rw [joinNames_append, ← List.append_assoc, List.take_left' (by simp)]

theorem length_joinNames (R : List UInt8) (a b : List (List UInt8)) :
    (R ++ joinNames (a ++ b)).length = R.length + (lead a b).length + (joinNames b).length := by
  rw [joinNames_append]
  simp [Nat.add_assoc]

theorem length_lead_snoc (a : List (List UInt8)) (c : List UInt8) (b : List (List UInt8)) :
    (lead (a ++ [c]) b).length =
      (lead a (c :: b)).length + c.length + if b = [] then 0 else 1 := by
  rw [lead_append, List.singleton_append]
  by_cases empty : b = []
  · simp [empty, lead]
  · simp [empty, lead, Nat.add_assoc]

section Reading

variable (R : List UInt8) (a : List (List UInt8)) (c : List UInt8) (b : List (List UInt8))

theorem nameAt_lead (names : Names (a ++ c :: b)) :
    View.nameAt ⟨R ++ joinNames (a ++ c :: b), R.length⟩ (R.length + (lead a (c :: b)).length) = c := by
  have sep := ((names_append.mp names).2 c List.mem_cons_self).2
  have at_name := drop_lead R a (c :: b)
  rw [joinNames_cons] at at_name
  unfold View.nameAt
  dsimp only
  rw [componentEnd_of_name at_name sep (separator_after b),
    Nat.add_sub_cancel_left, at_name, List.take_left' rfl]

theorem nextStart_lead (names : Names (a ++ c :: b)) :
    nextStart (R ++ joinNames (a ++ c :: b)) (R.length + (lead a (c :: b)).length) =
      R.length + (lead (a ++ [c]) b).length := by
  have tail := (names_append.mp names).2
  have sep := (tail c List.mem_cons_self).2
  have at_name := drop_lead R a (c :: b)
  rw [joinNames_cons] at at_name
  have past : (R ++ joinNames (a ++ c :: b)).drop (R.length + (lead a (c :: b)).length + c.length) =
      if b = [] then [] else separator :: joinNames b := by
    rw [← List.drop_drop, at_name, List.drop_left' rfl]
  rw [nextStart, componentEnd_of_name at_name sep (separator_after b),
    length_lead_snoc]
  by_cases empty : b = []
  · rw [if_pos empty] at past ⊢
    rw [skipSeparators_of_head (by rw [past]; simp)]
    omega
  · rw [if_neg empty] at past ⊢
    obtain ⟨d, b, rfl⟩ := List.exists_cons_of_ne_nil empty
    have d_names := tail.tail d List.mem_cons_self
    rw [skipSeparators_of_separator past
      ((head?_joinNames d_names.1).symm ▸ head?_ne_separator d_names.2)]
    omega

end Reading

theorem forwardFrom_lead (R : List UInt8) (a b : List (List UInt8)) (names : Names (a ++ b)) :
    View.forwardFrom (R ++ joinNames (a ++ b)) (R.length + (lead a b).length) =
      (List.range b.length).map fun j => R.length + (lead (a ++ b.take j) (b.drop j)).length := by
  induction b generalizing a with
  | nil =>
    rw [View.forwardFrom, dif_neg (by rw [length_joinNames]; simp)]
    rfl
  | cons c b ih =>
    have nonempty := ((names_append.mp names).2 c List.mem_cons_self).1
    have inside : R.length + (lead a (c :: b)).length < (R ++ joinNames (a ++ c :: b)).length := by
      rw [length_joinNames, joinNames_cons]
      have : 0 < c.length := List.length_pos_iff.mpr nonempty
      simp only [List.length_append]
      omega
    have names' : Names ((a ++ [c]) ++ b) := by simpa using names
    rw [View.forwardFrom, dif_pos inside, nextStart_lead R a c b names]
    have rest := ih (a ++ [c]) names'
    rw [List.append_assoc, List.singleton_append] at rest
    rw [rest, List.length_cons, List.range_succ_eq_map, List.map_cons, List.map_map]
    simp only [List.take_zero, List.append_nil, List.drop_zero, Function.comp_def,
      List.take_succ_cons, List.drop_succ_cons, List.append_assoc, List.singleton_append]

namespace View

section Joined

variable (R : List UInt8) (cs : List (List UInt8))

theorem startIndex_joinNames (good : Names cs) :
    startIndex ⟨R ++ joinNames cs, R.length⟩ = R.length := by
  apply skipSeparators_of_head
  rw [List.drop_left' rfl]
  exact (separated_joinNames good).1

theorem endIndex_joinNames :
    endIndex ⟨R ++ joinNames cs, R.length⟩ = R.length + (joinNames cs).length := by
  simp [endIndex]

theorem indices_joinNames (good : Names cs) :
    indices ⟨R ++ joinNames cs, R.length⟩ =
      (List.range cs.length).map fun j => R.length + (lead (cs.take j) (cs.drop j)).length := by
  have walk := forwardFrom_lead R [] cs (by simpa using good)
  simp only [List.nil_append, lead_nil_left, List.length_nil, Nat.add_zero] at walk
  rw [indices, startIndex_joinNames R cs good]
  exact walk

theorem nameAt_boundary (good : Names cs) {j : Nat} (inside : j < cs.length) :
    nameAt ⟨R ++ joinNames cs, R.length⟩ (R.length + (lead (cs.take j) (cs.drop j)).length) =
      cs[j] := by
  have split : cs.drop j = cs[j] :: cs.drop (j + 1) := List.drop_eq_getElem_cons inside
  have read := nameAt_lead R (cs.take j) cs[j] (cs.drop (j + 1))
    (by rw [← split, List.take_append_drop]; exact good)
  rwa [← split, List.take_append_drop] at read

theorem names_joinNames (good : Names cs) : names ⟨R ++ joinNames cs, R.length⟩ = cs := by
  rw [names, indices_joinNames R cs good, List.map_map]
  apply List.ext_getElem (by simp)
  intro j inside _
  simp only [List.getElem_map, List.getElem_range, Function.comp_apply]
  exact nameAt_boundary R cs good (by simpa using inside)

theorem boundaries_joinNames (good : Names cs) :
    boundaries ⟨R ++ joinNames cs, R.length⟩ =
      (List.range (cs.length + 1)).map fun j => R.length + (lead (cs.take j) (cs.drop j)).length := by
  rw [boundaries, indices_joinNames R cs good, endIndex_joinNames, List.range_succ,
    List.map_append, List.map_singleton, List.take_length, List.drop_length, lead_nil_right]

theorem isEmpty_joinNames (good : Names cs) :
    isEmpty ⟨R ++ joinNames cs, R.length⟩ = true ↔ cs = [] := by
  rw [isEmpty, startIndex_joinNames R cs good, endIndex_joinNames, beq_iff_eq,
    ← joinNames_eq_nil good, ← List.length_eq_zero_iff]
  omega

end Joined

theorem exists_of_normalized {v : View} (norm : v.Normalized) :
    ∃ R cs, Names cs ∧ R.length = v.start ∧ v = ⟨R ++ joinNames cs, R.length⟩ := by
  obtain ⟨within, separated⟩ := norm
  obtain ⟨cs, good, relative⟩ := exists_names_of_separated separated
  refine ⟨v.bytes.take v.start, cs, good, by simp [within], ?_⟩
  have length : (v.bytes.take v.start).length = v.start := by simp [within]
  cases v with
  | mk bytes start =>
    change bytes.drop start = joinNames cs at relative
    have length' : (bytes.take start).length = start := length
    rw [length', ← relative, List.take_append_drop]

theorem normalized_joinNames (R : List UInt8) {cs : List (List UInt8)} (good : Names cs) :
    Normalized ⟨R ++ joinNames cs, R.length⟩ := by
  refine ⟨by simp, ?_⟩
  rw [relative, List.drop_left' rfl]
  exact separated_joinNames good

end View

/-! ### Replacing a range of names -/

theorem names_of_valid {N : List (List UInt8)} (valid : ∀ n ∈ N, isValidName n = true) :
    Names N := by
  intro n mem
  have checked := valid n mem
  simp only [isValidName, Bool.and_eq_true, Bool.not_eq_eq_eq_not, Bool.not_true,
    List.isEmpty_eq_false_iff, List.any_eq_false, Bool.or_eq_true, beq_iff_eq, not_or] at checked
  exact ⟨checked.1, fun mem_sep => (checked.2 separator mem_sep).1 rfl⟩

theorem firstInvalid_eq_none {N : List (List UInt8)} (valid : ∀ n ∈ N, isValidName n = true) :
    View.firstInvalid N = none := by
  rw [View.firstInvalid, List.find?_eq_none]
  intro n mem
  simp [valid n mem]

theorem View.checkIndex_ok {v : View} {i : Nat} (lower : v.start ≤ i) (upper : i ≤ v.bytes.length) :
    v.checkIndex i = pure () := by
  simp [checkIndex, lower, upper]
  rfl

theorem trimEnd_of_getLast (R x : List UInt8) (last : x.getLast? ≠ some separator) :
    View.trimEnd (R ++ x) R.length = R ++ x := by
  have none : ((R ++ x).drop R.length).reverse.takeWhile isSep = [] := by
    apply takeWhile_isSep_of_head
    rwa [List.drop_left' rfl, List.head?_reverse]
  rw [View.trimEnd, none, List.length_nil, Nat.sub_zero, List.take_length]

theorem trimEnd_separator (R x : List UInt8) (last : x.getLast? ≠ some separator) :
    View.trimEnd (R ++ x ++ [separator]) R.length = R ++ x := by
  have one : ((R ++ x ++ [separator]).drop R.length).reverse.takeWhile isSep = [separator] := by
    rw [List.append_assoc, List.drop_left' rfl, List.reverse_append, List.reverse_singleton,
      List.singleton_append, List.takeWhile_cons_of_pos (by simp [isSep]),
      takeWhile_isSep_of_head (by rwa [List.head?_reverse])]
  rw [View.trimEnd, one, List.length_singleton, List.length_append, List.length_singleton,
    Nat.add_sub_cancel, List.take_left' rfl]

/-- **Replacing names is splicing**: between the starts of two names, `replaceRange` splices the
list of names. -/
theorem replaceRange_splice (R : List UInt8) {A B C N : List (List UInt8)}
    (good : Names (A ++ B ++ C)) (valid : ∀ n ∈ N, isValidName n = true) :
    View.replaceRange ⟨R ++ joinNames (A ++ B ++ C), R.length⟩ (R.length + (lead A (B ++ C)).length)
        (R.length + (lead (A ++ B) C).length) N =
      .ok ⟨R ++ joinNames (A ++ N ++ C), R.length⟩ := by
  have fresh := names_of_valid valid
  obtain ⟨goodAB, goodC⟩ := names_append.mp good
  obtain ⟨goodA, goodB⟩ := names_append.mp goodAB
  have regroup : A ++ B ++ C = A ++ (B ++ C) := List.append_assoc _ _ _
  have take_lo : (R ++ joinNames (A ++ B ++ C)).take (R.length + (lead A (B ++ C)).length) =
      R ++ lead A (B ++ C) := by
    rw [regroup]
    exact take_lead R A (B ++ C)
  have drop_hi := drop_lead R (A ++ B) C
  have total := length_joinNames R (A ++ B) C
  have total' : (R ++ joinNames (A ++ B ++ C)).length =
      R.length + (lead A (B ++ C)).length + (joinNames (B ++ C)).length := by
    rw [regroup]
    exact length_joinNames R A (B ++ C)
  have order : (lead A (B ++ C)).length ≤ (lead (A ++ B) C).length := by
    rw [lead_append, List.length_append]
    exact Nat.le_add_right _ _
  have hi_end : R.length + (lead (A ++ B) C).length =
      View.endIndex ⟨R ++ joinNames (A ++ B ++ C), R.length⟩ ↔ C = [] := by
    rw [View.endIndex, total, ← joinNames_eq_nil goodC, ← List.length_eq_zero_iff]
    omega
  have lo_end : R.length + (lead A (B ++ C)).length =
      View.endIndex ⟨R ++ joinNames (A ++ B ++ C), R.length⟩ ↔ B ++ C = [] := by
    rw [View.endIndex, total', ← joinNames_eq_nil (names_append.mpr ⟨goodB, goodC⟩),
      ← List.length_eq_zero_iff]
    omega
  have lo_ok : View.checkIndex ⟨R ++ joinNames (A ++ B ++ C), R.length⟩
      (R.length + (lead A (B ++ C)).length) = pure () :=
    View.checkIndex_ok (Nat.le_add_right _ _) (by rw [total]; omega)
  have hi_ok : View.checkIndex ⟨R ++ joinNames (A ++ B ++ C), R.length⟩
      (R.length + (lead (A ++ B) C).length) = pure () :=
    View.checkIndex_ok (Nat.le_add_right _ _) (by rw [total]; omega)
  have not_reversed : ¬ R.length + (lead (A ++ B) C).length < R.length + (lead A (B ++ C)).length := by
    omega
  simp only [View.replaceRange, firstInvalid_eq_none valid, lo_ok, hi_ok, pure_bind, not_reversed,
    if_false]
  by_cases empty : A ++ B ++ C = []
  · -- no names at all: the new names are the whole content
    rw [if_pos ((View.isEmpty_joinNames R _ good).mpr empty)]
    obtain ⟨⟨rfl, rfl⟩, rfl⟩ := (List.append_eq_nil_iff.mp empty).imp_left List.append_eq_nil_iff.mp
    simp
    rfl
  rw [if_neg (fun e => empty ((View.isEmpty_joinNames R _ good).mp e))]
  by_cases removal : N = []
  · -- removing: the names after the range follow those before it
    subst removal
    rw [if_pos List.isEmpty_nil, take_lo, drop_hi]
    by_cases at_end : C = []
    · subst at_end
      rw [if_pos (hi_end.mpr rfl), joinNames_nil, List.append_nil, List.append_nil, lead]
      split_ifs
      · rw [trimEnd_of_getLast R _ (separated_joinNames goodA).2.1, List.append_nil,
          List.append_nil]
        rfl
      · rw [← List.append_assoc, trimEnd_separator R _ (separated_joinNames goodA).2.1,
          List.append_nil, List.append_nil]
        rfl
    · rw [if_neg (fun e => at_end (hi_end.mp e)), List.append_nil, joinNames_append A C,
        lead_of_ne_nil A (by simpa using fun _ => at_end) at_end, List.append_assoc]
      rfl
  · -- inserting: one separator at each boundary the new names create
    rw [if_neg (by simpa using removal), take_lo, drop_hi,
      show A ++ N ++ C = A ++ (N ++ C) from List.append_assoc _ _ _, joinNames_append A (N ++ C),
      joinNames_append N C]
    by_cases tail_empty : B ++ C = []
    · obtain ⟨rfl, rfl⟩ := List.append_eq_nil_iff.mp tail_empty
      have nonempty : A ≠ [] := by simpa using empty
      rw [if_pos (lo_end.mpr rfl), if_neg (fun ne => ne (hi_end.mpr rfl))]
      simp [lead, nonempty, removal]
      rfl
    · rw [if_neg (fun e => tail_empty (lo_end.mp e)),
        lead_of_ne_nil A tail_empty (by simpa using removal)]
      by_cases at_end : C = []
      · subst at_end
        rw [if_neg (fun ne => ne (hi_end.mpr rfl))]
        simp [lead, removal]
        rfl
      · rw [if_pos (fun e => at_end (hi_end.mp e))]
        simp [lead, removal, at_end]
        rfl

/-! ### Edits at component indices -/

theorem ok_bind {ε α β : Type} (x : α) (f : α → Except ε β) : (Except.ok x >>= f) = f x := rfl

theorem throw_bind {ε α β : Type} (e : ε) (f : α → Except ε β) :
    (throw e >>= f : Except ε β) = .error e := rfl

theorem take_append_drop_of_le (cs : List (List UInt8)) {k m : Nat} (le : k ≤ m) :
    (cs.drop k).take (m - k) ++ cs.drop m = cs.drop k := by
  conv_rhs => rw [← List.take_append_drop (m - k) (cs.drop k)]
  rw [List.drop_drop, Nat.add_sub_cancel' le]

theorem take_append_take_drop (cs : List (List UInt8)) {k m : Nat} (le : k ≤ m) :
    cs.take k ++ (cs.drop k).take (m - k) = cs.take m := by
  rw [← List.take_add, Nat.add_sub_cancel' le]

theorem Names.sublist {cs cs' : List (List UInt8)} (good : Names cs) (sub : List.Sublist cs' cs) :
    Names cs' :=
  fun c mem => good c (sub.subset mem)

namespace View

/-- `v'` has the root of `v` and holds the names `ns` after it, normalized. -/
def WithNames (v : View) (ns : List (List UInt8)) (v' : View) : Prop :=
  v'.start = v.start ∧ v'.bytes.take v.start = v.bytes.take v.start ∧ v'.Normalized ∧ v'.names = ns

theorem withNames_joinNames (R : List UInt8) {cs ns : List (List UInt8)} (good : Names ns) :
    WithNames ⟨R ++ joinNames cs, R.length⟩ ns ⟨R ++ joinNames ns, R.length⟩ := by
  refine ⟨rfl, ?_, normalized_joinNames R good, names_joinNames R ns good⟩
  simp only [List.take_left' rfl]

section Joined

variable (R : List UInt8) {cs : List (List UInt8)}

theorem getElem?_boundaries (good : Names cs) {k : Nat} (within : k ≤ cs.length) :
    (boundaries ⟨R ++ joinNames cs, R.length⟩)[k]? =
      some (R.length + (lead (cs.take k) (cs.drop k)).length) := by
  rw [boundaries_joinNames R cs good, List.getElem?_map, List.getElem?_range (by omega)]
  rfl

theorem replaceRange_boundaries (good : Names cs) {k m : Nat} (le : k ≤ m)
    {N : List (List UInt8)} (valid : ∀ n ∈ N, isValidName n = true) :
    replaceRange ⟨R ++ joinNames cs, R.length⟩ (R.length + (lead (cs.take k) (cs.drop k)).length)
        (R.length + (lead (cs.take m) (cs.drop m)).length) N =
      .ok ⟨R ++ joinNames (cs.take k ++ N ++ cs.drop m), R.length⟩ := by
  have middle := take_append_drop_of_le cs le
  have front := take_append_take_drop cs le
  have whole : cs.take k ++ (cs.drop k).take (m - k) ++ cs.drop m = cs := by
    rw [front, List.take_append_drop]
  have splice := replaceRange_splice R (A := cs.take k) (B := (cs.drop k).take (m - k))
    (C := cs.drop m) (by rw [whole]; exact good) valid
  rwa [whole, middle, front] at splice

theorem startIndex_eq_boundary (good : Names cs) :
    startIndex ⟨R ++ joinNames cs, R.length⟩ =
      R.length + (lead (cs.take 0) (cs.drop 0)).length := by
  rw [startIndex_joinNames R cs good, List.take_zero, lead_nil_left, List.length_nil,
    Nat.add_zero]

theorem endIndex_eq_boundary :
    endIndex ⟨R ++ joinNames cs, R.length⟩ =
      R.length + (lead (cs.take cs.length) (cs.drop cs.length)).length := by
  rw [endIndex_joinNames, List.take_length, List.drop_length, lead_nil_right]

theorem boundary_lt_end (good : Names cs) {k : Nat} (inside : k < cs.length) :
    R.length + (lead (cs.take k) (cs.drop k)).length < (R ++ joinNames cs).length := by
  have total := length_joinNames R (cs.take k) (cs.drop k)
  rw [List.take_append_drop] at total
  have rest : joinNames (cs.drop k) ≠ [] := by
    rw [Ne, joinNames_eq_nil (fun c mem => good c (List.mem_of_mem_drop mem))]
    simpa using inside
  have positive := List.length_pos_iff.mpr rest
  omega

theorem get_boundary (good : Names cs) {k : Nat} (inside : k < cs.length) :
    get ⟨R ++ joinNames cs, R.length⟩ (R.length + (lead (cs.take k) (cs.drop k)).length) =
      .ok cs[k] := by
  have before := boundary_lt_end R good inside
  have not_end : R.length + (lead (cs.take k) (cs.drop k)).length ≠
      endIndex ⟨R ++ joinNames cs, R.length⟩ := Nat.ne_of_lt before
  simp only [get, checkIndex_ok (v := ⟨R ++ joinNames cs, R.length⟩) (Nat.le_add_right _ _)
    (Nat.le_of_lt before), pure_bind, if_neg not_end]
  exact congrArg Except.ok (nameAt_boundary R cs good inside)

theorem indexAfter_boundary (good : Names cs) {k : Nat} (inside : k < cs.length) :
    indexAfter ⟨R ++ joinNames cs, R.length⟩ (R.length + (lead (cs.take k) (cs.drop k)).length) =
      .ok (R.length + (lead (cs.take (k + 1)) (cs.drop (k + 1))).length) := by
  have before := boundary_lt_end R good inside
  have not_end : R.length + (lead (cs.take k) (cs.drop k)).length ≠
      endIndex ⟨R ++ joinNames cs, R.length⟩ := Nat.ne_of_lt before
  have split : cs.drop k = cs[k] :: cs.drop (k + 1) := List.drop_eq_getElem_cons inside
  have step := nextStart_lead R (cs.take k) cs[k] (cs.drop (k + 1))
    (by rw [← split, List.take_append_drop]; exact good)
  rw [← split, List.take_append_drop, List.take_concat_get' cs k inside] at step
  simp only [indexAfter, checkIndex_ok (v := ⟨R ++ joinNames cs, R.length⟩) (Nat.le_add_right _ _)
    (Nat.le_of_lt before), pure_bind, if_neg not_end]
  exact congrArg Except.ok step

theorem prevStart_end (a : List (List UInt8)) (c : List UInt8) (good : Names (a ++ [c])) :
    prevStart (R ++ joinNames (a ++ [c])) R.length (R.length + (joinNames (a ++ [c])).length) =
      R.length + (lead a [c]).length := by
  obtain ⟨nonempty, sep⟩ := good c (List.mem_append_right _ List.mem_cons_self)
  have layout : R ++ joinNames (a ++ [c]) = R ++ (lead a [c] ++ c) := by
    rw [joinNames_append, joinNames_singleton]
  have joined_len : (joinNames (a ++ [c])).length = (lead a [c]).length + c.length := by
    rw [joinNames_append, joinNames_singleton, List.length_append]
  have last : (c.reverse).head? ≠ some separator := by
    rw [List.head?_reverse]
    exact getLast?_ne_separator sep
  have name_bytes : ∀ x ∈ c.reverse, (!isSep x) = true := by
    intro x mem
    have ne : x ≠ separator := fun eq => sep (eq ▸ List.mem_reverse.mp mem)
    simpa [isSep] using ne
  have before_name : ((lead a [c]).reverse).takeWhile (fun b => !isSep b) = [] := by
    apply takeWhile_not_isSep_of_head
    unfold lead
    by_cases empty : a = []
    · simp [empty]
    · rw [if_neg (by simp [empty])]
      simp
  unfold prevStart
  dsimp only
  rw [layout, joined_len, List.take_of_length_le (by simp), List.drop_left' rfl, List.reverse_append,
    takeWhile_isSep_of_head (by rwa [List.head?_append_of_ne_nil _ (by simpa using nonempty)]),
    List.length_nil,
    List.drop_zero, List.takeWhile_append_of_pos name_bytes, before_name, List.append_nil,
    List.length_reverse]
  omega

theorem remove_boundary (good : Names cs) {k : Nat} (inside : k < cs.length) :
    remove ⟨R ++ joinNames cs, R.length⟩ (R.length + (lead (cs.take k) (cs.drop k)).length) =
      .ok (⟨R ++ joinNames (cs.eraseIdx k), R.length⟩, cs[k]) := by
  have cut := replaceRange_boundaries R good (Nat.le_succ k) (N := []) (by simp)
  rw [List.append_nil, ← List.eraseIdx_eq_take_drop_succ] at cut
  simp only [remove, removeRange, get_boundary R good inside, indexAfter_boundary R good inside,
    ok_bind, cut]
  rfl

end Joined

section Normalized

variable {v : View}

theorem replaceRange_withNames (norm : v.Normalized) {k m : Nat} (le : k ≤ m)
    (within : m ≤ v.names.length) {N : List (List UInt8)} (valid : ∀ n ∈ N, isValidName n = true) :
    ∃ lo hi v', v.boundaries[k]? = some lo ∧ v.boundaries[m]? = some hi ∧
      v.replaceRange lo hi N = .ok v' ∧ WithNames v (v.names.take k ++ N ++ v.names.drop m) v' := by
  obtain ⟨R, cs, good, -, rfl⟩ := exists_of_normalized norm
  rw [names_joinNames R cs good] at within ⊢
  refine ⟨_, _, _, getElem?_boundaries R good (by omega), getElem?_boundaries R good within,
    replaceRange_boundaries R good le valid, withNames_joinNames R ?_⟩
  exact names_append.mpr ⟨names_append.mpr ⟨good.sublist (List.take_sublist _ _),
    names_of_valid valid⟩, good.sublist (List.drop_sublist _ _)⟩

theorem extend_withNames (norm : v.Normalized) {N : List (List UInt8)}
    (valid : ∀ n ∈ N, isValidName n = true) :
    ∃ v', v.extend N = .ok v' ∧ WithNames v (v.names ++ N) v' := by
  obtain ⟨R, cs, good, -, rfl⟩ := exists_of_normalized norm
  have ran := replaceRange_boundaries R good (Nat.le_refl cs.length) valid
  rw [← endIndex_eq_boundary, List.take_length, List.drop_length, List.append_nil] at ran
  rw [names_joinNames R cs good]
  exact ⟨_, ran, withNames_joinNames R (names_append.mpr ⟨good, names_of_valid valid⟩)⟩

theorem push_withNames (norm : v.Normalized) {name : List UInt8} (valid : isValidName name = true) :
    ∃ v', v.push name = .ok v' ∧ WithNames v (v.names ++ [name]) v' :=
  extend_withNames norm (N := [name]) (by simpa using valid)

theorem insert_withNames (norm : v.Normalized) {k : Nat} (within : k ≤ v.names.length)
    {name : List UInt8} (valid : isValidName name = true) :
    ∃ i v', v.boundaries[k]? = some i ∧ v.insert i name = .ok v' ∧
      WithNames v (v.names.take k ++ name :: v.names.drop k) v' := by
  obtain ⟨lo, hi, v', at_lo, at_hi, ran, edited⟩ :=
    replaceRange_withNames norm (Nat.le_refl k) within (N := [name]) (by simpa using valid)
  rw [at_lo, Option.some.injEq] at at_hi
  subst at_hi
  exact ⟨lo, v', at_lo, ran, by simpa using edited⟩

theorem removeRange_withNames (norm : v.Normalized) {k m : Nat} (le : k ≤ m)
    (within : m ≤ v.names.length) :
    ∃ lo hi v', v.boundaries[k]? = some lo ∧ v.boundaries[m]? = some hi ∧
      v.removeRange lo hi = .ok v' ∧ WithNames v (v.names.take k ++ v.names.drop m) v' := by
  obtain ⟨lo, hi, v', at_lo, at_hi, ran, edited⟩ :=
    replaceRange_withNames norm le within (N := []) (by simp)
  rw [List.append_nil] at edited
  exact ⟨lo, hi, v', at_lo, at_hi, ran, edited⟩

theorem clear_withNames (norm : v.Normalized) : ∃ v', v.clear = .ok v' ∧ WithNames v [] v' := by
  obtain ⟨R, cs, good, -, rfl⟩ := exists_of_normalized norm
  have ran := replaceRange_boundaries R good (Nat.zero_le cs.length) (N := [])
    (by simp)
  rw [← startIndex_eq_boundary R good, ← endIndex_eq_boundary, List.take_zero,
    List.drop_length] at ran
  exact ⟨_, ran, withNames_joinNames R (by simp [Names])⟩

theorem retain_withNames (norm : v.Normalized) (valid : ∀ c ∈ v.names, isValidName c = true)
    (keep : List UInt8 → Bool) :
    ∃ v', v.retain keep = .ok v' ∧ WithNames v (v.names.filter keep) v' := by
  obtain ⟨R, cs, good, -, rfl⟩ := exists_of_normalized norm
  rw [names_joinNames R cs good] at valid ⊢
  -- the view never holds the root as a component, so the second filter keeps every name
  have no_root : (cs.filter keep).filter (fun n => Kind.of n ≠ .root) = cs.filter keep := by
    rw [List.filter_eq_self]
    intro c mem
    have sep := (good c (List.mem_of_mem_filter mem)).2
    have not_root : Kind.of c ≠ .root := by
      unfold Kind.of
      split_ifs with root
      · exact absurd (root ▸ List.mem_singleton_self separator) sep
      all_goals simp
    simpa using not_root
  have kept : ∀ n ∈ cs.filter keep, isValidName n = true :=
    fun n mem => valid n (List.mem_of_mem_filter mem)
  have ran := replaceRange_boundaries R good (Nat.zero_le cs.length) kept
  rw [← startIndex_eq_boundary R good, ← endIndex_eq_boundary, List.take_zero, List.drop_length,
    List.nil_append, List.append_nil] at ran
  refine ⟨_, ?_, withNames_joinNames R (good.sublist List.filter_sublist)⟩
  rw [retain, names_joinNames R cs good, no_root]
  exact ran

theorem remove_withNames (norm : v.Normalized) {k : Nat} (inside : k < v.names.length) :
    ∃ i v', v.boundaries[k]? = some i ∧ v.remove i = .ok (v', v.names[k]) ∧
      WithNames v (v.names.eraseIdx k) v' := by
  obtain ⟨R, cs, good, -, rfl⟩ := exists_of_normalized norm
  have read := names_joinNames R cs good
  have inside' : k < cs.length := by rwa [read] at inside
  refine ⟨_, ⟨R ++ joinNames (cs.eraseIdx k), R.length⟩,
    getElem?_boundaries R good (Nat.le_of_lt inside'), ?_, ?_⟩
  · rw [remove_boundary R good inside']
    simp only [read]
  · rw [read]
    exact withNames_joinNames R (good.sublist (List.eraseIdx_sublist _ _))

theorem pop_withNames (norm : v.Normalized) :
    ∃ v', v.pop = .ok (v', v.names.getLast?) ∧ WithNames v v.names.dropLast v' := by
  obtain ⟨R, cs, good, -, rfl⟩ := exists_of_normalized norm
  rw [names_joinNames R cs good]
  by_cases empty : cs = []
  · subst empty
    refine ⟨_, ?_, rfl, rfl, norm, names_joinNames R [] good⟩
    simp only [pop, if_pos ((isEmpty_joinNames R [] good).mpr rfl)]
    rfl
  -- the last index is the start of the last name; removing there drops it
  have positive : 0 < cs.length := List.length_pos_iff.mpr empty
  have whole : cs.dropLast ++ [cs.getLast empty] = cs := List.dropLast_append_getLast empty
  have before : prevStart (R ++ joinNames cs) R.length (R.length + (joinNames cs).length) =
      R.length + (lead (cs.take (cs.length - 1)) (cs.drop (cs.length - 1))).length := by
    have step := prevStart_end R cs.dropLast (cs.getLast empty) (by rw [whole]; exact good)
    rwa [whole, List.dropLast_eq_take, ← List.drop_length_sub_one empty] at step
  have not_first : ¬ endIndex ⟨R ++ joinNames cs, R.length⟩ ≤
      startIndex ⟨R ++ joinNames cs, R.length⟩ := by
    rw [startIndex_joinNames R cs good, endIndex_joinNames, Nat.not_le,
      Nat.lt_add_right_iff_pos, List.length_pos_iff, Ne, joinNames_eq_nil good]
    exact empty
  have end_ok : checkIndex ⟨R ++ joinNames cs, R.length⟩ (endIndex ⟨R ++ joinNames cs, R.length⟩) =
      pure () :=
    checkIndex_ok (by simp [endIndex]) (Nat.le_refl _)
  have removed := remove_boundary R good (Nat.sub_lt positive Nat.zero_lt_one)
  rw [List.eraseIdx_length_sub_one] at removed
  refine ⟨_, ?_, withNames_joinNames R (good.sublist (List.dropLast_sublist _))⟩
  simp only [pop, if_neg (fun e => empty ((isEmpty_joinNames R cs good).mp e)), indexBefore,
    end_ok, pure_bind, if_neg not_first]
  rw [endIndex_joinNames, before, removed, List.getLast?_eq_getElem?,
    List.getElem?_eq_getElem (Nat.sub_lt positive Nat.zero_lt_one)]
  rfl

end Normalized

end View

end SysBytes.Path
