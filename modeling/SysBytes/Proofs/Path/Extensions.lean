import Mathlib.Data.List.Find
import Mathlib.Data.List.Induction
import SysBytes.Proofs.Path.Lexical

/-!
Kinds, stems and extensions of components. The search for the last dot runs from the back, so
it is described by what one more byte at the end does; a name with a dot splits at its last one.
-/
namespace SysBytes.Path

/-! ### Kinds of valid names -/

theorem kind_eq_currentDir {name : List UInt8} : Kind.of name = .currentDir ↔ name = [46] := by
  unfold Kind.of
  split_ifs <;> simp_all [separator]

theorem kind_ne_root {name : List UInt8} (valid : isValidName name = true) :
    Kind.of name ≠ .root := by
  have no_separator : separator ∉ name :=
    (names_of_valid (N := [name]) (by simpa using valid) name (List.mem_singleton_self name)).2
  unfold Kind.of
  split_ifs with root
  · exact absurd (root ▸ List.mem_singleton_self separator) no_separator
  all_goals simp

theorem kind_eq_normal {name : List UInt8} (valid : isValidName name = true) :
    Kind.of name = .normal ↔ name ≠ [46] ∧ name ≠ [46, 46] := by
  rw [Ne, Ne, ← kind_eq_currentDir, ← kind_eq_parentDir]
  cases kind : Kind.of name with
  | root => exact absurd kind (kind_ne_root valid)
  | currentDir | parentDir | normal => simp

/-! ### The last dot -/

theorem lastDot_append_singleton (l : List UInt8) (x : UInt8) :
    lastDot (l ++ [x]) = if x = 46 then some l.length else lastDot l := by
  unfold lastDot
  rw [List.length_append, List.length_singleton, List.range_succ, List.reverse_append,
    List.reverse_singleton, List.singleton_append]
  -- below the last position the longer list reads as `l`
  have below : ∀ i ∈ (List.range l.length).reverse,
      ((l ++ [x])[i]? == some 46) = (l[i]? == some 46) := by
    intro i mem
    rw [List.getElem?_append_left (by simpa using mem)]
  by_cases dot : x = 46
  · rw [if_pos dot, List.find?_cons_of_pos (by simp [dot])]
  · rw [if_neg dot, List.find?_cons_of_neg (by simp [dot]), List.find?_congr below]

theorem lastDot_append_of_not_mem (s : List UInt8) {e : List UInt8} (no_dot : 46 ∉ e) :
    lastDot (s ++ e) = lastDot s := by
  induction e using List.reverseRecOn with
  | nil => rw [List.append_nil]
  | append_singleton e x ih =>
    have x_ne : x ≠ 46 := fun same => no_dot (by simp [same])
    rw [← List.append_assoc, lastDot_append_singleton, if_neg x_ne]
    exact ih fun mem => no_dot (List.mem_append_left _ mem)

theorem lastDot_append_dot (s : List UInt8) {e : List UInt8} (no_dot : 46 ∉ e) :
    lastDot (s ++ 46 :: e) = some s.length := by
  rw [← List.singleton_append, ← List.append_assoc, lastDot_append_of_not_mem _ no_dot,
    lastDot_append_singleton, if_pos rfl]

theorem lastDot_of_not_mem {name : List UInt8} (no_dot : 46 ∉ name) : lastDot name = none := by
  have nothing : lastDot [] = none := rfl
  simpa [nothing] using lastDot_append_of_not_mem [] no_dot

theorem exists_last_dot {name : List UInt8} (mem : 46 ∈ name) :
    ∃ s e, name = s ++ 46 :: e ∧ 46 ∉ e := by
  obtain ⟨e', s', split, fresh⟩ := List.eq_append_cons_of_mem (List.mem_reverse.mpr mem)
  refine ⟨s'.reverse, e'.reverse, ?_, by simpa using fresh⟩
  rw [← List.reverse_reverse name, split]
  simp

/-! ### Stem and extension -/

/-- The split of a component at the dot that starts its extension. -/
def SplitsAtLastDot (name : List UInt8) : List UInt8 × Option (List UInt8) → Prop
  | (s, some e) => Kind.of name = .normal ∧ s ≠ [] ∧ 46 ∉ e ∧ s ++ 46 :: e = name
  | (s, none) => s = name ∧ (Kind.of name = .normal → ∀ k, 0 < k → name[k]? ≠ some 46)

theorem splitExtension_of_lastDot_zero {name : List UInt8} (at_front : lastDot name = some 0) :
    splitExtension name = (name, none) := by
  unfold splitExtension
  split_ifs <;> simp [at_front]

theorem splitExtension_splits (name : List UInt8) :
    SplitsAtLastDot name (splitExtension name) := by
  by_cases normal : Kind.of name = .normal
  swap
  · rw [splitExtension, if_pos normal]
    exact ⟨rfl, fun is_normal => absurd is_normal normal⟩
  by_cases dotted : 46 ∈ name
  swap
  · have none_found : splitExtension name = (name, none) := by
      simp [splitExtension, normal, lastDot_of_not_mem dotted]
    rw [none_found]
    exact ⟨rfl, fun _ k _ found => dotted (List.mem_of_getElem? found)⟩
  obtain ⟨s, e, rfl, no_dot⟩ := exists_last_dot dotted
  have last := lastDot_append_dot s no_dot
  cases s with
  | nil =>
    -- the only dot is the first byte, which starts no extension
    rw [splitExtension_of_lastDot_zero last]
    refine ⟨rfl, fun _ k after found => no_dot ?_⟩
    obtain ⟨k, rfl⟩ := Nat.exists_eq_add_of_lt after
    exact List.mem_of_getElem? (by simpa using found)
  | cons a s =>
    have split : splitExtension (a :: s ++ 46 :: e) = (a :: s, some e) := by
      rw [splitExtension, if_neg (not_not_intro normal), last, List.length_cons]
      simp
    rw [split]
    exact ⟨normal, List.cons_ne_nil a s, no_dot, rfl⟩

theorem splits_stem_extension (name : List UInt8) :
    SplitsAtLastDot name (stem name, extension name) :=
  splitExtension_splits name

theorem stem_dot_extension {name e : List UInt8} (found : extension name = some e) :
    46 ∉ e ∧ stem name ≠ [] ∧ stem name ++ 46 :: e = name := by
  have splits := splits_stem_extension name
  rw [found] at splits
  exact ⟨splits.2.2.1, splits.2.1, splits.2.2.2⟩

theorem stem_of_extension_eq_none {name : List UInt8} (missing : extension name = none) :
    stem name = name := by
  have splits := splits_stem_extension name
  rw [missing] at splits
  exact splits.1

theorem isSome_extension (name : List UInt8) :
    (extension name).isSome ↔ Kind.of name = .normal ∧ ∃ k, 0 < k ∧ name[k]? = some 46 := by
  have splits := splits_stem_extension name
  cases found : extension name with
  | none =>
    rw [found] at splits
    simp only [Option.isSome_none, Bool.false_eq_true, false_iff, not_and, not_exists]
    exact fun normal k after dot => splits.2 normal k after dot
  | some e =>
    rw [found] at splits
    obtain ⟨normal, stem_ne, -, whole⟩ := splits
    refine iff_of_true rfl ⟨normal, (stem name).length, List.length_pos_iff.mpr stem_ne, ?_⟩
    calc name[(stem name).length]? = (stem name ++ 46 :: e)[(stem name).length]? := by
          rw [whole]
      _ = some 46 := by simp

/-- **Kinds, stems and extensions of valid components.** A valid name is never the root, and it has
an extension exactly when it is normal with a dot after its first byte: the dot-free part after its
last dot. -/
theorem component_kinds_and_extensions (name : List UInt8) (valid : isValidName name = true) :
    Kind.of name ≠ .root ∧
    (Kind.of name = .currentDir ↔ name = [46]) ∧
    (Kind.of name = .parentDir ↔ name = [46, 46]) ∧
    (Kind.of name = .normal ↔ name ≠ [46] ∧ name ≠ [46, 46]) ∧
    ((extension name).isSome ↔ Kind.of name = .normal ∧ ∃ k, 0 < k ∧ name[k]? = some 46) ∧
    (∀ e, extension name = some e →
      46 ∉ e ∧ stem name ≠ [] ∧ stem name ++ 46 :: e = name) ∧
    (extension name = none → stem name = name) :=
  ⟨kind_ne_root valid, kind_eq_currentDir, kind_eq_parentDir, kind_eq_normal valid,
    isSome_extension name, fun _ found => stem_dot_extension found,
    fun missing => stem_of_extension_eq_none missing⟩

/-- `foo.tar.gz` splits at its last dot into `foo.tar` and `gz`. -/
theorem archive_name_splits_at_last_dot :
    isValidName [102, 111, 111, 46, 116, 97, 114, 46, 103, 122] = true ∧
      extension [102, 111, 111, 46, 116, 97, 114, 46, 103, 122] = some [103, 122] ∧
      stem [102, 111, 111, 46, 116, 97, 114, 46, 103, 122] ++ 46 :: [103, 122] =
        [102, 111, 111, 46, 116, 97, 114, 46, 103, 122] :=
  ⟨by decide, by decide,
    ((component_kinds_and_extensions _ (by decide)).2.2.2.2.2.1 _ (by decide)).2.2⟩

/-- `.bashrc` has no extension, `notes.` an empty one, and `...` is a normal name. -/
example : extension [46, 98, 97, 115, 104, 114, 99] = none ∧
    extension [110, 111, 116, 101, 115, 46] = some [] ∧ Kind.of [46, 46, 46] = .normal := by
  decide

end SysBytes.Path
