import SysBytes.Proofs.Path.Walks

/-!
Canonical paths. A normalized path is fixed by whether it is absolute and by its names, and
`FilePath.joined` builds it from those two; building a path from bytes gives that form, so it is
the identity on every path it builds.
-/
namespace SysBytes.Path

/-! ### Joined names as bytes -/

theorem mem_joinNames {x : UInt8} {cs : List (List UInt8)} (mem : x ∈ joinNames cs) :
    x = separator ∨ ∃ c ∈ cs, x ∈ c := by
  induction cs with
  | nil => simp at mem
  | cons c cs ih =>
    cases cs with
    | nil => exact .inr ⟨c, List.mem_singleton_self c, by simpa using mem⟩
    | cons d ds =>
      rw [joinNames_cons_cons, List.mem_append, List.mem_cons] at mem
      rcases mem with inner | rfl | rest
      · exact .inr ⟨c, List.mem_cons_self, inner⟩
      · exact .inl rfl
      · rcases ih rest with sep | ⟨e, listed, inner⟩
        · exact .inl sep
        · exact .inr ⟨e, List.mem_cons_of_mem c listed, inner⟩

theorem mem_joinNames_of_mem {x : UInt8} {c : List UInt8} {cs : List (List UInt8)}
    (listed : c ∈ cs) (mem : x ∈ c) : x ∈ joinNames cs := by
  induction cs with
  | nil => simp at listed
  | cons d cs ih =>
    cases cs with
    | nil =>
      rw [List.mem_singleton.mp listed] at mem
      simpa using mem
    | cons e es =>
      rw [joinNames_cons_cons, List.mem_append, List.mem_cons]
      rcases List.mem_cons.mp listed with rfl | later
      · exact .inl mem
      · exact .inr (.inr (ih later))

theorem mem_of_mem_nonEmptyParts {x : UInt8} {c bytes : List UInt8}
    (part : c ∈ nonEmptyParts bytes) (mem : x ∈ c) : x ∈ bytes := by
  have whole : joinNames (splitParts bytes) = bytes := List.intercalate_splitOn separator
  rw [← whole]
  exact mem_joinNames_of_mem (List.mem_of_mem_filter part) mem

theorem nonEmptyParts_joinNames {cs : List (List UInt8)} (good : Names cs) :
    nonEmptyParts (joinNames cs) = cs := by
  cases cs with
  | nil => rfl
  | cons c cs =>
    rw [nonEmptyParts, splitParts, joinNames,
      List.splitOn_intercalate separator (fun l mem => (good l mem).2) (List.cons_ne_nil c cs)]
    exact List.filter_eq_self.mpr fun l mem => by simpa using (good l mem).1

namespace FilePath

def rootBytes (absolute : Bool) : List UInt8 := if absolute then [separator] else []

/-- The path with a root when `absolute`, then the names joined by single separators. -/
def joined (absolute : Bool) (cs : List (List UInt8)) : FilePath :=
  ⟨rootBytes absolute ++ joinNames cs⟩

theorem take_rootLen (p : FilePath) : p.bytes.take p.rootLen = rootBytes p.isAbsolute := by
  unfold rootLen rootBytes isAbsolute
  cases bytes : p.bytes with
  | nil => simp
  | cons x rest =>
    by_cases root : x = separator
    · simp [root]
    · simp [root]

/-! ### The form of a normalized path -/

section Joined

variable (absolute : Bool) {cs : List (List UInt8)}

@[simp] theorem isAbsolute_joined (good : Names cs) :
    (joined absolute cs).isAbsolute = absolute := by
  cases absolute with
  | true => simp [joined, rootBytes, isAbsolute]
  | false =>
    -- joined names never begin with a separator
    simpa [joined, rootBytes, isAbsolute] using (separated_joinNames good).1

theorem rootLen_joined (good : Names cs) :
    (joined absolute cs).rootLen = (rootBytes absolute).length := by
  cases absolute <;> simp [rootLen, isAbsolute_joined _ good, rootBytes]

theorem view_joined (good : Names cs) :
    (joined absolute cs).view =
      ⟨rootBytes absolute ++ joinNames cs, (rootBytes absolute).length⟩ := by
  rw [view, rootLen_joined absolute good]
  rfl

@[simp] theorem names_joined (good : Names cs) : (joined absolute cs).view.names = cs := by
  rw [view_joined absolute good, View.names_joinNames _ cs good]

theorem joined_normalized (good : Names cs) : (joined absolute cs).Normalized := by
  rw [Normalized, view_joined absolute good]
  exact View.normalized_joinNames _ good

theorem components_joined (good : Names cs) :
    (joined absolute cs).components = (if absolute then [[separator]] else []) ++ cs := by
  rw [components_eq_names, isAbsolute_joined absolute good, names_joined absolute good]

end Joined

theorem eq_joined {p : FilePath} (norm : p.Normalized) :
    Names p.view.names ∧ p = joined p.isAbsolute p.view.names := by
  obtain ⟨cs, good, relative⟩ := exists_names_of_separated norm.2
  have names : p.view.names = cs := by
    rw [View.names_eq_nonEmptyParts, relative, nonEmptyParts_joinNames good]
  have split : p.bytes = rootBytes p.isAbsolute ++ joinNames cs := by
    rw [← take_rootLen, ← relative]
    exact (List.take_append_drop _ _).symm
  refine ⟨names ▸ good, ?_⟩
  rw [names]
  calc p = ⟨p.bytes⟩ := rfl
    _ = joined p.isAbsolute cs := congrArg FilePath.mk split

theorem eq_of_names {p q : FilePath} (p_norm : p.Normalized) (q_norm : q.Normalized)
    (root : p.isAbsolute = q.isAbsolute) (names : p.view.names = q.view.names) : p = q := by
  rw [(eq_joined p_norm).2, (eq_joined q_norm).2, root, names]

/-! ### Building from bytes -/

theorem ofBytes_eq_error_iff (bytes : List UInt8) :
    ofBytes bytes = .error .interiorNul ↔ 0 ∈ bytes := by
  unfold ofBytes
  split
  · rename_i nul
    simpa using nul
  · rename_i clean
    simpa using clean

theorem ofBytes_of_not_mem {bytes : List UInt8} (clean : 0 ∉ bytes) :
    ofBytes bytes = .ok (joined (bytes.head? == some separator) (nonEmptyParts bytes)) := by
  have unchecked : bytes.contains 0 = false := by simpa using clean
  simp only [ofBytes, unchecked, Bool.false_eq_true, if_false]
  rfl

theorem not_mem_joined (absolute : Bool) {cs : List (List UInt8)} (clean : ∀ c ∈ cs, 0 ∉ c) :
    0 ∉ (joined absolute cs).bytes := by
  intro mem
  rcases List.mem_append.mp mem with root | named
  · cases absolute <;> simp [rootBytes, separator] at root
  · rcases mem_joinNames named with sep | ⟨c, listed, inner⟩
    · exact absurd sep (by decide)
    · exact clean c listed inner

theorem ofBytes_joined (absolute : Bool) {cs : List (List UInt8)} (good : Names cs)
    (clean : ∀ c ∈ cs, 0 ∉ c) : ofBytes (joined absolute cs).bytes = .ok (joined absolute cs) := by
  have root : ((joined absolute cs).bytes.head? == some separator) = absolute :=
    isAbsolute_joined absolute good
  have parts : nonEmptyParts (joined absolute cs).bytes = cs := by
    cases absolute with
    | true =>
      rw [joined, rootBytes, if_pos rfl, List.singleton_append, nonEmptyParts_sep_cons rfl,
        nonEmptyParts_joinNames good]
    | false =>
      rw [joined, rootBytes, if_neg Bool.false_ne_true, List.nil_append,
        nonEmptyParts_joinNames good]
  rw [ofBytes_of_not_mem (not_mem_joined absolute clean), root, parts]

end FilePath

open FilePath

/-- **Paths built from bytes are canonical.** Building refuses exactly the bytes holding a NUL;
otherwise it keeps the root, joins the non-empty parts by single separators, and gives back its own
bytes. -/
theorem paths_from_bytes_are_canonical (bytes : List UInt8) :
    (ofBytes bytes = .error .interiorNul ↔ 0 ∈ bytes) ∧
    (0 ∉ bytes → ∃ p, ofBytes bytes = .ok p ∧
      p.bytes = (if bytes.head? = some separator then [separator] else []) ++
        joinNames (nonEmptyParts bytes) ∧
      p.Normalized ∧ ofBytes p.bytes = .ok p ∧
      p.components = (if bytes.head? = some separator then [[separator]] else []) ++
        nonEmptyParts bytes) := by
  refine ⟨ofBytes_eq_error_iff bytes, fun clean => ?_⟩
  have good := names_nonEmptyParts bytes
  have parts_clean : ∀ c ∈ nonEmptyParts bytes, 0 ∉ c :=
    fun c part mem => clean (mem_of_mem_nonEmptyParts part mem)
  -- the root flag the building reads, as a proposition
  have root : (bytes.head? == some separator) = decide (bytes.head? = some separator) := by
    by_cases first : bytes.head? = some separator <;> simp [first]
  refine ⟨_, ofBytes_of_not_mem clean, ?_, joined_normalized _ good,
    ofBytes_joined _ good parts_clean, ?_⟩
  · rw [joined, rootBytes, root]
    by_cases first : bytes.head? = some separator <;> simp [first]
  · rw [components_joined _ good, root]
    by_cases first : bytes.head? = some separator <;> simp [first]

/-- Runs of separators collapse: `//u///l/` builds `/u/l`. -/
theorem separator_runs_collapse :
    ∃ p, ofBytes [47, 47, 117, 47, 47, 47, 108, 47] = .ok p ∧ p.bytes = [47, 117, 47, 108] := by
  obtain ⟨p, built, bytes, -⟩ :=
    (paths_from_bytes_are_canonical [47, 47, 117, 47, 47, 47, 108, 47]).2 (by decide)
  exact ⟨p, built, by rw [bytes]; decide⟩

end SysBytes.Path
