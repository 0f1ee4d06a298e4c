import SysBytes.Proofs.Path.Canonical

/-!
Pushing and popping components. On normalized paths pushing appends names, unless the other path
is absolute; popping goes through the view, drops the last name and keeps the root, so a name
pushed and popped leaves the path as it was, byte for byte.
-/
namespace SysBytes.Path

namespace FilePath

theorem hasRoot_view (p : FilePath) : p.view.hasRoot = p.isAbsolute := by
  unfold view View.hasRoot rootLen
  cases p.isAbsolute <;> rfl

section Joined

variable (absolute : Bool) {cs ds : List (List UInt8)}

theorem isEmpty_joined (good : Names ds) : (joined false ds).isEmpty = true ↔ ds = [] := by
  rw [isEmpty, joined, rootBytes, if_neg Bool.false_ne_true, List.nil_append, List.isEmpty_iff,
    joinNames_eq_nil good]

theorem rootLen_lt_joined (good : Names cs) :
    (joined absolute cs).rootLen < (joined absolute cs).bytes.length ↔ cs ≠ [] := by
  rw [rootLen_joined absolute good, joined, List.length_append, Nat.lt_add_right_iff_pos,
    List.length_pos_iff, Ne, joinNames_eq_nil good]

theorem push_joined (good : Names cs) (good' : Names ds) :
    (joined absolute cs).push (joined false ds) = joined absolute (cs ++ ds) := by
  unfold push
  rw [isAbsolute_joined false good', if_neg Bool.false_ne_true]
  by_cases none : ds = []
  · -- the empty path changes nothing
    subst none
    rw [if_pos ((isEmpty_joined good').mpr rfl), List.append_nil]
  rw [if_neg (fun empty => none ((isEmpty_joined good').mp empty))]
  by_cases named : cs = []
  · -- after the root alone, or nothing, the names follow without a separator
    subst named
    rw [if_neg (fun lt => ((rootLen_lt_joined absolute good).mp lt) rfl)]
    simp [joined, rootBytes]
  · rw [if_pos ((rootLen_lt_joined absolute good).mpr named)]
    simp [joined, rootBytes, joinNames_append_of_ne_nil named none]

theorem pop_joined (good : Names cs) :
    (joined absolute cs).pop.1 = .ok (joined absolute cs.dropLast, cs.getLast?.isSome) := by
  have norm := joined_normalized absolute good
  obtain ⟨v', popped, edited⟩ := View.pop_withNames norm
  rw [names_joined absolute good] at popped edited
  have src := norm.view.of_withNames edited
  -- the view keeps the root it started with, so writing back puts none in front
  have root : v'.hasRoot = absolute := by
    rw [View.hasRoot, edited.1, ← View.hasRoot, hasRoot_view, isAbsolute_joined absolute good]
  obtain ⟨back_norm, back_root, back_names⟩ := Session.ofView_reattach src absolute
  have good' := good.sublist (List.dropLast_sublist cs)
  have back : ofView (!v'.hasRoot && absolute) v' = joined absolute cs.dropLast :=
    eq_of_names back_norm (joined_normalized absolute good')
      (by rw [back_root, root, Bool.or_self, isAbsolute_joined absolute good'])
      (by rw [back_names, edited.2.2.2, names_joined absolute good'])
  simp only [pop, popped, writeBack, isAbsolute_joined absolute good, back]

end Joined

theorem ofBytes_name {c : List UInt8} (valid : isValidName c = true) :
    ofBytes c = .ok (joined false [c]) := by
  have single : Names [c] := names_of_valid (by simpa using valid)
  have clean : ∀ d ∈ [c], (0 : UInt8) ∉ d := by
    intro d listed nul
    rw [List.mem_singleton.mp listed] at nul
    simp only [isValidName, Bool.and_eq_true, Bool.not_eq_eq_eq_not, Bool.not_true,
      List.any_eq_false, Bool.or_eq_true, beq_iff_eq, not_or] at valid
    exact (valid.2 0 nul).2 rfl
  have built := ofBytes_joined false single clean
  rwa [show (joined false [c]).bytes = c by simp [joined, rootBytes]] at built

theorem components_eq_root_iff (p : FilePath) :
    p.components = (if p.isAbsolute then [[separator]] else []) ↔ p.view.names = [] := by
  rw [components_eq_names]
  simp

section Normalized

variable {p q : FilePath}

theorem push_relative (p_norm : p.Normalized) (q_norm : q.Normalized)
    (relative : q.isAbsolute = false) :
    p.push q = joined p.isAbsolute (p.view.names ++ q.view.names) := by
  obtain ⟨good, p_eq⟩ := eq_joined p_norm
  obtain ⟨good', q_eq⟩ := eq_joined q_norm
  rw [relative] at q_eq
  rw [p_eq, q_eq, push_joined _ good good', isAbsolute_joined _ good, names_joined _ good,
    names_joined _ good']

theorem components_push_relative (p_norm : p.Normalized) (q_norm : q.Normalized)
    (relative : q.isAbsolute = false) :
    (p.push q).components = p.components ++ q.components := by
  obtain ⟨good, -⟩ := eq_joined p_norm
  obtain ⟨good', -⟩ := eq_joined q_norm
  rw [push_relative p_norm q_norm relative, components_joined _ (names_append.mpr ⟨good, good'⟩),
    components_eq_names p, components_eq_names q, relative]
  simp

theorem pop_normalized (p_norm : p.Normalized) :
    p.pop.1 = .ok (joined p.isAbsolute p.view.names.dropLast, p.view.names.getLast?.isSome) := by
  obtain ⟨good, p_eq⟩ := eq_joined p_norm
  have popped := pop_joined p.isAbsolute good
  rwa [← p_eq] at popped

theorem pop_unchanged_iff (p_norm : p.Normalized) :
    p.pop.1 = .ok (p, false) ↔ p.view.names = [] := by
  rw [pop_normalized p_norm]
  constructor
  · intro same
    obtain ⟨-, last⟩ := Prod.mk.inj (Except.ok.inj same)
    simpa using last
  · intro none
    have empty : p = joined p.isAbsolute [] := by
      obtain ⟨-, p_eq⟩ := eq_joined p_norm
      rwa [none] at p_eq
    rw [none, List.dropLast_nil, ← empty]
    rfl

end Normalized

end FilePath

open FilePath

/-- **Pushing and popping.** Pushing keeps paths normalized, a relative path appending its
components; popping never fails and drops exactly the last component, so pushing one valid name and
popping restores the path. -/
theorem pushing_then_popping_restores :
    (∀ p q : FilePath, p.Normalized → q.Normalized →
      (p.push q).Normalized ∧
      (p.push q).components =
        (if q.isAbsolute then q.components else p.components ++ q.components) ∧
      (q.isAbsolute = false → (p.push q).startsWith p = true)) ∧
    (∀ p : FilePath, p.Normalized →
      (p.pop.1 = .ok (p, false) ↔ p.components = (if p.isAbsolute then [[separator]] else [])) ∧
      (p.components ≠ (if p.isAbsolute then [[separator]] else []) →
        ∃ q, p.pop.1 = .ok (q, true) ∧ q.Normalized ∧ q.isAbsolute = p.isAbsolute ∧
          q.components = p.components.dropLast)) ∧
    (∀ (p : FilePath) (c : List UInt8), p.Normalized → isValidName c = true →
      ∃ q, ofBytes c = .ok q ∧ (p.push q).pop.1 = .ok (p, true)) := by
  refine ⟨fun p q p_norm q_norm => ?_, fun p p_norm => ?_, fun p c p_norm valid => ?_⟩
  · by_cases absolute : q.isAbsolute = true
    · -- an absolute path replaces the one it is pushed onto
      have replaced : p.push q = q := by simp [push, absolute]
      rw [replaced, if_pos absolute]
      exact ⟨q_norm, rfl, fun relative => absurd absolute (by rw [relative]; decide)⟩
    · have relative : q.isAbsolute = false := by simpa using absolute
      have both := names_append.mpr ⟨(eq_joined p_norm).1, (eq_joined q_norm).1⟩
      have components := components_push_relative p_norm q_norm relative
      refine ⟨push_relative p_norm q_norm relative ▸ joined_normalized _ both,
        by rw [if_neg absolute, components], fun _ => ?_⟩
      rw [startsWith, components, List.isPrefixOf_iff_prefix]
      exact List.prefix_append _ _
  · refine ⟨(pop_unchanged_iff p_norm).trans (components_eq_root_iff p).symm, fun named => ?_⟩
    have some_name : p.view.names ≠ [] := fun none => named ((components_eq_root_iff p).mpr none)
    have good' := (eq_joined p_norm).1.sublist (List.dropLast_sublist p.view.names)
    have last : p.view.names.getLast?.isSome = true :=
      Option.isSome_iff_ne_none.mpr (by simpa using some_name)
    refine ⟨_, by rw [pop_normalized p_norm, last], joined_normalized _ good',
      isAbsolute_joined _ good', ?_⟩
    rw [components_joined _ good', components_eq_names, List.dropLast_append_of_ne_nil some_name]
  · -- the pushed name is the last one, and popping takes exactly it
    obtain ⟨good, p_eq⟩ := eq_joined p_norm
    have single : Names [c] := names_of_valid (by simpa using valid)
    refine ⟨_, ofBytes_name valid, ?_⟩
    rw [p_eq, push_joined _ good single, pop_joined _ (names_append.mpr ⟨good, single⟩),
      List.dropLast_concat, List.getLast?_concat]
    rfl

/-- Pushing `bin` onto `/usr` and popping gives `/usr` back. -/
theorem push_then_pop_usr_bin :
    ∃ q, ofBytes [98, 105, 110] = .ok q ∧
      ((FilePath.mk [47, 117, 115, 114]).push q).pop.1 = .ok (⟨[47, 117, 115, 114]⟩, true) :=
  pushing_then_popping_restores.2.2 ⟨[47, 117, 115, 114]⟩ [98, 105, 110] (by decide) (by decide)

end SysBytes.Path
