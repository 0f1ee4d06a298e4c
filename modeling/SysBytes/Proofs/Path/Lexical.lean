import SysBytes.Proofs.Path.Join

/-!
Lexical normalization as a fold of the components into a stack of kept names. The stacks it
builds are a run of `..` followed by normal names, and folding such a stack again gives it
back; so normalizing the base before a join changes nothing.
-/
namespace SysBytes.Path

theorem kind_eq_parentDir {c : List UInt8} : Kind.of c = .parentDir ↔ c = [46, 46] := by
  unfold Kind.of
  split_ifs <;> simp_all [separator]

namespace FilePath

/-- A stack of names as lexical normalization keeps it: no `..` above a normal name or under a root.
-/
structure Folded (absolute : Bool) (kept : List (List UInt8)) : Prop where
  names : Names kept
  kinds : ∀ c ∈ kept, Kind.of c = .normal ∨ (absolute = false ∧ Kind.of c = .parentDir)
  ordered : kept.Pairwise fun x y => Kind.of y = .parentDir → Kind.of x = .parentDir

section Folded

variable {absolute : Bool} {kept : List (List UInt8)} {c : List UInt8}

theorem Folded.nil (absolute : Bool) : Folded absolute [] :=
  ⟨by simp [Names], by simp, List.Pairwise.nil⟩

theorem Folded.sublist {kept' : List (List UInt8)} (folded : Folded absolute kept)
    (sub : List.Sublist kept' kept) : Folded absolute kept' :=
  ⟨folded.names.sublist sub, fun c mem => folded.kinds c (sub.subset mem),
    folded.ordered.sublist sub⟩

theorem Folded.all_parentDir (folded : Folded absolute kept)
    (top : (kept.getLast?.map Kind.of == some .normal) = false) :
    ∀ x ∈ kept, Kind.of x = .parentDir := by
  rcases List.eq_nil_or_concat kept with rfl | ⟨init, last, rfl⟩
  · simp
  rw [List.concat_eq_append] at folded top ⊢
  have last_kind : Kind.of last = .parentDir := by
    rcases folded.kinds last (by simp) with normal | ⟨-, parent⟩
    · simp [normal] at top
    · exact parent
  intro x mem
  rcases List.mem_append.mp mem with inner | listed
  · exact (List.pairwise_append.mp folded.ordered).2.2 x inner last (by simp) last_kind
  · rw [List.mem_singleton.mp listed]
    exact last_kind

theorem Folded.append_normal (folded : Folded absolute kept) (name : c ≠ [] ∧ separator ∉ c)
    (normal : Kind.of c = .normal) : Folded absolute (kept ++ [c]) := by
  refine ⟨names_append.mpr ⟨folded.names, by simpa [Names] using name⟩, ?_, ?_⟩
  · intro x mem
    rcases List.mem_append.mp mem with inner | listed
    · exact folded.kinds x inner
    · rw [List.mem_singleton.mp listed]
      exact .inl normal
  · refine List.pairwise_append.mpr ⟨folded.ordered, by simp, ?_⟩
    intro x _ y listed parent
    rw [List.mem_singleton.mp listed, normal] at parent
    cases parent

theorem Folded.append_parentDir (folded : Folded false kept)
    (all : ∀ x ∈ kept, Kind.of x = .parentDir) (name : c ≠ [] ∧ separator ∉ c)
    (parent : Kind.of c = .parentDir) : Folded false (kept ++ [c]) := by
  refine ⟨names_append.mpr ⟨folded.names, by simpa [Names] using name⟩, ?_, ?_⟩
  · intro x mem
    rcases List.mem_append.mp mem with inner | listed
    · exact folded.kinds x inner
    · rw [List.mem_singleton.mp listed]
      exact .inr ⟨rfl, parent⟩
  · exact List.pairwise_append.mpr ⟨folded.ordered, by simp, fun x inner _ _ _ => all x inner⟩

theorem keepStep_normal (normal : Kind.of c = .normal) :
    keepStep absolute kept c = kept ++ [c] := by
  simp [keepStep, normal]

theorem keepStep_parentDir (all : ∀ x ∈ kept, Kind.of x = .parentDir)
    (parent : Kind.of c = .parentDir) : keepStep false kept c = kept ++ [c] := by
  have top : (kept.getLast?.map Kind.of == some .normal) = false := by
    cases last : kept.getLast? with
    | none => rfl
    | some x => simp [all x (List.mem_of_getLast? last)]
  simp [keepStep, parent, top]

theorem Folded.keepStep (folded : Folded absolute kept) (name : c ≠ [] ∧ separator ∉ c) :
    Folded absolute (FilePath.keepStep absolute kept c) := by
  cases kind : Kind.of c with
  | root => simpa [FilePath.keepStep, kind] using folded
  | currentDir => simpa [FilePath.keepStep, kind] using folded
  | normal => rw [keepStep_normal kind]; exact folded.append_normal name kind
  | parentDir =>
    by_cases top : (kept.getLast?.map Kind.of == some .normal) = true
    · -- a normal name on top is taken back
      simpa [FilePath.keepStep, kind, top] using folded.sublist (List.dropLast_sublist kept)
    · have top' : (kept.getLast?.map Kind.of == some .normal) = false := by simpa using top
      cases absolute with
      | true => simpa [FilePath.keepStep, kind, top'] using folded
      | false =>
        -- nothing to take back: the stack is a run of `..`, and one more goes on it
        rw [keepStep_parentDir (folded.all_parentDir top') kind]
        exact folded.append_parentDir (folded.all_parentDir top') name kind

theorem foldl_keepStep_folded {cs : List (List UInt8)} (folded : Folded absolute kept)
    (good : Names cs) : Folded absolute (cs.foldl (FilePath.keepStep absolute) kept) := by
  induction cs generalizing kept with
  | nil => exact folded
  | cons c cs ih =>
    rw [List.foldl_cons]
    exact ih (folded.keepStep (good c List.mem_cons_self)) good.tail

theorem foldl_keepStep_of_folded {cs : List (List UInt8)} (folded : Folded absolute (kept ++ cs)) :
    cs.foldl (FilePath.keepStep absolute) kept = kept ++ cs := by
  induction cs generalizing kept with
  | nil => simp
  | cons c cs ih =>
    have pushed : FilePath.keepStep absolute kept c = kept ++ [c] := by
      rcases folded.kinds c (by simp) with normal | ⟨rfl, parent⟩
      · exact keepStep_normal normal
      · -- a `..` has only `..` below it
        have all : ∀ x ∈ kept, Kind.of x = .parentDir := fun x inner =>
          (List.pairwise_append.mp folded.ordered).2.2 x inner c (by simp) parent
        exact keepStep_parentDir all parent
    rw [List.foldl_cons, pushed, ih (by simpa using folded)]
    simp

theorem Folded.shape (folded : Folded absolute kept) :
    ∃ k rest, kept = List.replicate k [46, 46] ++ rest ∧ (∀ c ∈ rest, Kind.of c = .normal) ∧
      (absolute = true → k = 0) := by
  induction kept with
  | nil => exact ⟨0, [], rfl, by simp, fun _ => rfl⟩
  | cons x xs ih =>
    obtain ⟨k, rest, split, normal, rooted⟩ :=
      ih (folded.sublist (List.sublist_cons_self x xs))
    rcases folded.kinds x List.mem_cons_self with x_normal | ⟨relative, x_parent⟩
    · -- below a normal name there is no `..`, so every name is normal
      refine ⟨0, x :: xs, rfl, fun c mem => ?_, fun _ => rfl⟩
      rcases List.mem_cons.mp mem with rfl | later
      · exact x_normal
      · rcases folded.kinds c (List.mem_cons_of_mem x later) with c_normal | ⟨-, c_parent⟩
        · exact c_normal
        · have := (List.pairwise_cons.mp folded.ordered).1 c later c_parent
          rw [x_normal] at this
          cases this
    · refine ⟨k + 1, rest, ?_, normal,
        fun rooted' => absurd (rooted'.symm.trans relative) (by decide)⟩
      rw [kind_eq_parentDir.mp x_parent, split, List.replicate_succ, List.cons_append]

end Folded

/-! ### Normalizing paths -/

theorem lexicallyNormalize_joined (absolute : Bool) {cs : List (List UInt8)} (good : Names cs) :
    (joined absolute cs).lexicallyNormalize =
      joined absolute (cs.foldl (keepStep absolute) []) := by
  simp only [lexicallyNormalize, components_joined absolute good, isAbsolute_joined absolute good,
    List.foldl_append]
  cases absolute <;> rfl

theorem lexicallyNormalize_eq {p : FilePath} (norm : p.Normalized) :
    p.lexicallyNormalize = joined p.isAbsolute (p.view.names.foldl (keepStep p.isAbsolute) []) ∧
      Folded p.isAbsolute (p.view.names.foldl (keepStep p.isAbsolute) []) := by
  obtain ⟨good, p_eq⟩ := eq_joined norm
  refine ⟨?_, foldl_keepStep_folded (Folded.nil _) good⟩
  conv_lhs => rw [p_eq]
  exact lexicallyNormalize_joined _ good

theorem lexicallyNormalize_push_joined (absolute : Bool) {cs ds : List (List UInt8)}
    (good : Names cs) (good' : Names ds) :
    ((joined absolute cs).push (joined false ds)).lexicallyNormalize =
      ((joined absolute cs).lexicallyNormalize.push (joined false ds)).lexicallyNormalize := by
  have folded := foldl_keepStep_folded (Folded.nil absolute) good
  -- the folded base is a fixed point of the fold
  have fixed : (cs.foldl (keepStep absolute) []).foldl (keepStep absolute) [] =
      cs.foldl (keepStep absolute) [] := by
    have again := foldl_keepStep_of_folded
      (by rwa [List.nil_append] : Folded absolute ([] ++ cs.foldl (keepStep absolute) []))
    rwa [List.nil_append] at again
  rw [lexicallyNormalize_joined absolute good, push_joined absolute good good',
    push_joined absolute folded.names good',
    lexicallyNormalize_joined absolute (names_append.mpr ⟨good, good'⟩),
    lexicallyNormalize_joined absolute (names_append.mpr ⟨folded.names, good'⟩), List.foldl_append,
    List.foldl_append, fixed]

theorem lexicallyNormalize_push {p q : FilePath} (p_norm : p.Normalized) (q_norm : q.Normalized) :
    (p.push q).lexicallyNormalize = (p.lexicallyNormalize.push q).lexicallyNormalize := by
  by_cases absolute : q.isAbsolute = true
  · -- an absolute path replaces either base
    simp [push, absolute]
  obtain ⟨good, p_eq⟩ := eq_joined p_norm
  obtain ⟨good', q_eq⟩ := eq_joined q_norm
  rw [show q.isAbsolute = false by simpa using absolute] at q_eq
  rw [p_eq, q_eq]
  exact lexicallyNormalize_push_joined _ good good'

theorem push_empty (p : FilePath) : p.push FilePath.empty = p := by
  simp [push, FilePath.empty, isAbsolute, isEmpty]

end FilePath

open FilePath

/-- **Lexical normalization folds `name/..` away.** The result is normalized, has no `.`, and is a
run of `..` then normal names; normalizing the base first, or normalizing twice, changes nothing. -/
theorem lexical_normalization_folds :
    (∀ p : FilePath, p.Normalized →
      p.lexicallyNormalize.Normalized ∧ p.lexicallyNormalize.isAbsolute = p.isAbsolute ∧
      (∀ c ∈ p.lexicallyNormalize.components, Kind.of c ≠ .currentDir) ∧
      ∃ k rest, p.lexicallyNormalize.view.names = List.replicate k [46, 46] ++ rest ∧
        (∀ c ∈ rest, Kind.of c = .normal) ∧ (p.isAbsolute = true → k = 0)) ∧
    (∀ p q : FilePath, p.Normalized → q.Normalized →
      (p.push q).lexicallyNormalize = (p.lexicallyNormalize.push q).lexicallyNormalize) ∧
    (∀ p : FilePath, p.Normalized →
      p.lexicallyNormalize.lexicallyNormalize = p.lexicallyNormalize) := by
  refine ⟨fun p norm => ?_, fun p q => lexicallyNormalize_push, fun p norm => ?_⟩
  · obtain ⟨normalized, folded⟩ := lexicallyNormalize_eq norm
    obtain ⟨k, rest, split, normal, rooted⟩ := folded.shape
    refine ⟨normalized ▸ joined_normalized _ folded.names,
      by rw [normalized, isAbsolute_joined _ folded.names], ?_,
      ⟨k, rest, by rw [normalized, names_joined _ folded.names, split], normal, rooted⟩⟩
    intro c mem current
    rw [normalized, components_joined _ folded.names, List.mem_append] at mem
    rcases mem with root | kept
    · -- the root is no `.`
      cases absolute : p.isAbsolute <;> simp [absolute] at root
      rw [root] at current
      cases current
    · rcases folded.kinds c kept with kind | ⟨-, kind⟩ <;> rw [kind] at current <;> cases current
  · -- joining the empty path is the case of idempotence
    have law := lexicallyNormalize_push norm (by decide : FilePath.empty.Normalized)
    rw [push_empty, push_empty] at law
    exact law.symm

/-- `../a/./b/..` normalizes to `../a`, and normalizing that again changes nothing. -/
theorem relative_normalization_settles :
    (FilePath.mk [46, 46, 47, 97, 47, 46, 47, 98, 47, 46, 46]).lexicallyNormalize.lexicallyNormalize =
      (FilePath.mk [46, 46, 47, 97, 47, 46, 47, 98, 47, 46, 46]).lexicallyNormalize :=
  lexical_normalization_folds.2.2 _ (by decide)

end SysBytes.Path
