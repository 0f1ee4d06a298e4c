import SysBytes.Proofs.Path.Edits

/-!
Stepping through a view's components over any storage. The components are the runs of name
bytes after the start; stepping forward and stepping backward are two loops with different edge
cases, and both visit exactly the offsets where those runs begin.
-/
namespace SysBytes.Path

/-- The offsets where runs of name bytes begin in `l`, read from offset `o`. -/
def runStarts (fresh : Bool) (o : Nat) : List UInt8 → List Nat
  | [] => []
  | b :: rest => (if fresh && !isSep b then [o] else []) ++ runStarts (isSep b) (o + 1) rest

def freshAfter (fresh : Bool) (l : List UInt8) : Bool := l.foldl (fun _ b => isSep b) fresh

section Runs

variable {fresh : Bool} {o : Nat} {l : List UInt8}

theorem runStarts_append (fresh : Bool) (o : Nat) (l₁ l₂ : List UInt8) :
    runStarts fresh o (l₁ ++ l₂) =
      runStarts fresh o l₁ ++ runStarts (freshAfter fresh l₁) (o + l₁.length) l₂ := by
  induction l₁ generalizing fresh o with
  | nil => simp [runStarts, freshAfter]
  | cons b rest ih =>
    simp only [List.cons_append, runStarts, ih, List.append_assoc, freshAfter, List.foldl_cons,
      List.length_cons]
    rw [Nat.add_assoc, Nat.add_comm 1]

theorem runStarts_of_seps (seps : ∀ b ∈ l, isSep b = true) : runStarts fresh o l = [] := by
  induction l generalizing fresh o with
  | nil => rfl
  | cons b rest ih =>
    have sep : isSep b = true := seps b List.mem_cons_self
    simp [runStarts, sep, ih fun x mem => seps x (List.mem_cons_of_mem b mem)]

theorem freshAfter_of_seps (seps : ∀ b ∈ l, isSep b = true) : freshAfter true l = true := by
  induction l with
  | nil => rfl
  | cons b rest ih =>
    have sep : isSep b = true := seps b List.mem_cons_self
    simpa [freshAfter, sep] using ih fun x mem => seps x (List.mem_cons_of_mem b mem)

theorem runStarts_of_name (name : ∀ b ∈ l, isSep b = false) (nonempty : l ≠ []) :
    runStarts fresh o l = (if fresh then [o] else []) ∧ freshAfter fresh l = false := by
  induction l generalizing fresh o with
  | nil => exact absurd rfl nonempty
  | cons b rest ih =>
    have not_sep : isSep b = false := name b List.mem_cons_self
    have later : ∀ x ∈ rest, isSep x = false := fun x mem => name x (List.mem_cons_of_mem b mem)
    cases rest with
    | nil => simp [runStarts, freshAfter, not_sep]
    | cons c rest' =>
      obtain ⟨starts, after⟩ := @ih false (o + 1) later (List.cons_ne_nil c rest')
      refine ⟨?_, ?_⟩
      · rw [runStarts, not_sep, starts]
        simp
      · rw [freshAfter, List.foldl_cons, not_sep]
        exact after

theorem mem_runStarts {x : Nat} (mem : x ∈ runStarts fresh o l) :
    o ≤ x ∧ ∃ b, l[x - o]? = some b ∧ isSep b = false := by
  induction l generalizing fresh o with
  | nil => cases mem
  | cons b rest ih =>
    rw [runStarts, List.mem_append] at mem
    rcases mem with here | later
    · have starts : fresh = true ∧ isSep b = false := by
        by_cases begins : fresh = true ∧ isSep b = false
        · exact begins
        · simp_all
      rw [starts.1, starts.2] at here
      rw [show x = o by simpa using here]
      exact ⟨Nat.le_refl o, b, by simp, starts.2⟩
    · obtain ⟨above, b', found, name⟩ := ih later
      refine ⟨by omega, b', ?_, name⟩
      rw [show x - o = (x - (o + 1)) + 1 by omega, List.getElem?_cons_succ]
      exact found

theorem mem_runStarts_iff {x : Nat} :
    x ∈ runStarts fresh o l ↔
      o ≤ x ∧ (l[x - o]?.any fun b => !isSep b) = true ∧
        (fresh :: l.map isSep)[x - o]? = some true := by
  induction l generalizing fresh o with
  | nil => simp [runStarts]
  | cons b rest ih =>
    rw [runStarts, List.mem_append, ih]
    by_cases here : x = o
    · subst here
      have not_later : ¬ x + 1 ≤ x := Nat.not_succ_le_self x
      cases fresh <;> cases isSep_b : isSep b <;> simp [isSep_b, not_later]
    · have later : x - o = (x - (o + 1)) + 1 ∨ x < o := by omega
      rcases later with later | below
      · rw [later, List.getElem?_cons_succ, List.map_cons, List.getElem?_cons_succ]
        have : o + 1 ≤ x ↔ o ≤ x := by omega
        simp [here, this]
      · have not_above : ¬ o ≤ x := by omega
        have not_above' : ¬ o + 1 ≤ x := by omega
        simp [here, not_above, not_above']

theorem runStarts_skip (o : Nat) (l : List UInt8) :
    runStarts true o l = runStarts true (o + (l.takeWhile isSep).length) (l.dropWhile isSep) := by
  have seps : ∀ b ∈ l.takeWhile isSep, isSep b = true := fun b mem => List.mem_takeWhile_imp mem
  conv_lhs => rw [← List.takeWhile_append_dropWhile (p := isSep) (l := l)]
  rw [runStarts_append, runStarts_of_seps seps, freshAfter_of_seps seps, List.nil_append]

theorem runStarts_after_name {rest : List UInt8} (ends : ∀ b ∈ rest.head?, isSep b = true) :
    runStarts false o rest =
      runStarts true (o + (rest.takeWhile isSep).length) (rest.dropWhile isSep) := by
  cases rest with
  | nil => rfl
  | cons b t =>
    have sep : isSep b = true := ends b rfl
    rw [runStarts, sep, runStarts_skip, List.takeWhile_cons_of_pos sep,
      List.dropWhile_cons_of_pos sep, List.length_cons]
    simp only [Bool.false_and, Bool.false_eq_true, if_false, List.nil_append]
    rw [Nat.add_assoc, Nat.add_comm 1]

end Runs

/-! ### Stepping forward -/

theorem drop_length_takeWhile {α : Type} (p : α → Bool) (l : List α) :
    l.drop (l.takeWhile p).length = l.dropWhile p := by
  conv_lhs => arg 2; rw [← List.takeWhile_append_dropWhile (p := p) (l := l)]
  exact List.drop_left

theorem take_length_takeWhile {α : Type} (p : α → Bool) (l : List α) :
    l.take (l.takeWhile p).length = l.takeWhile p := by
  conv_lhs => arg 2; rw [← List.takeWhile_append_dropWhile (p := p) (l := l)]
  exact List.take_left

theorem drop_skipSeparators (bytes : List UInt8) (i : Nat) :
    bytes.drop (skipSeparators bytes i) = (bytes.drop i).dropWhile isSep := by
  rw [skipSeparators, ← List.drop_drop, drop_length_takeWhile]

theorem drop_componentEnd (bytes : List UInt8) (i : Nat) :
    bytes.drop (componentEnd bytes i) = (bytes.drop i).dropWhile fun b => !isSep b := by
  rw [componentEnd, ← List.drop_drop, drop_length_takeWhile]

theorem nextStart_eq (bytes : List UInt8) (i : Nat) :
    nextStart bytes i = i + ((bytes.drop i).takeWhile fun b => !isSep b).length +
      (((bytes.drop i).dropWhile fun b => !isSep b).takeWhile isSep).length := by
  rw [nextStart, skipSeparators, drop_componentEnd, componentEnd]

theorem drop_nextStart (bytes : List UInt8) (i : Nat) :
    bytes.drop (nextStart bytes i) =
      ((bytes.drop i).dropWhile fun b => !isSep b).dropWhile isSep := by
  rw [nextStart, drop_skipSeparators, drop_componentEnd]

theorem head_dropWhile_sep (l : List UInt8) :
    ∀ b ∈ (l.dropWhile isSep).head?, isSep b = false := by
  intro b mem
  have stop := List.head?_dropWhile_not isSep l
  rw [mem] at stop
  exact stop

theorem head_drop_skipSeparators (bytes : List UInt8) (i : Nat) :
    ∀ b ∈ (bytes.drop (skipSeparators bytes i)).head?, isSep b = false := by
  rw [drop_skipSeparators]
  exact head_dropWhile_sep _

theorem head_dropWhile_name (l : List UInt8) :
    ∀ b ∈ (l.dropWhile fun b => !isSep b).head?, isSep b = true := by
  intro b mem
  have stop := List.head?_dropWhile_not (fun b => !isSep b) l
  rw [mem] at stop
  simpa using stop

theorem takeWhile_name_ne_nil {l : List UInt8} (first : ∀ b ∈ l.head?, isSep b = false)
    (nonempty : l ≠ []) : l.takeWhile (fun b => !isSep b) ≠ [] := by
  obtain ⟨b, rest, rfl⟩ := List.exists_cons_of_ne_nil nonempty
  rw [List.takeWhile_cons_of_pos (by simp [first b rfl])]
  exact List.cons_ne_nil _ _

theorem forwardFrom_eq_runStarts (bytes : List UInt8) (i : Nat)
    (first : ∀ b ∈ (bytes.drop i).head?, isSep b = false) :
    View.forwardFrom bytes i = runStarts true i (bytes.drop i) := by
  fun_induction View.forwardFrom bytes i with
  | case1 i inside ih =>
    have name_nonempty := takeWhile_name_ne_nil first (by simpa using inside)
    have name_run : runStarts true i ((bytes.drop i).takeWhile fun b => !isSep b) = [i] ∧
        freshAfter true ((bytes.drop i).takeWhile fun b => !isSep b) = false :=
      runStarts_of_name (fun x mem => by simpa using List.mem_takeWhile_imp mem) name_nonempty
    -- the name at `i` begins a run, and the rest is read fresh past its separators
    conv_rhs =>
      rw [← List.takeWhile_append_dropWhile (p := fun b => !isSep b) (l := bytes.drop i)]
    rw [runStarts_append, name_run.1, name_run.2, runStarts_after_name (head_dropWhile_name _),
      ih (head_drop_skipSeparators _ _), drop_nextStart, nextStart_eq, List.singleton_append]
  | case2 i outside =>
    rw [List.drop_eq_nil_of_le (Nat.le_of_not_lt outside)]
    rfl

theorem indices_eq_runStarts (v : View) : v.indices = runStarts true v.start v.relative := by
  rw [View.indices, View.startIndex, forwardFrom_eq_runStarts _ _ (head_drop_skipSeparators _ _),
    View.relative, drop_skipSeparators]
  conv_rhs => rw [runStarts_skip]
  rfl

/-! ### Stepping backward -/

def beforeLastName (l : List UInt8) : List UInt8 :=
  ((l.reverse.dropWhile isSep).dropWhile fun b => !isSep b).reverse

theorem freshAfter_append_singleton (fresh : Bool) (l : List UInt8) (b : UInt8) :
    freshAfter fresh (l ++ [b]) = isSep b := by
  simp [freshAfter, List.foldl_append]

theorem freshAfter_beforeLastName (l : List UInt8) :
    freshAfter true (beforeLastName l) = true := by
  have ends := head_dropWhile_name (l.reverse.dropWhile isSep)
  unfold beforeLastName
  generalize (l.reverse.dropWhile isSep).dropWhile (fun b => !isSep b) = r at ends ⊢
  cases r with
  | nil => rfl
  | cons c t =>
    rw [List.reverse_cons, freshAfter_append_singleton]
    exact ends c rfl

theorem eq_beforeLastName_append (l : List UInt8) :
    l = beforeLastName l ++ ((l.reverse.dropWhile isSep).takeWhile fun b => !isSep b).reverse ++
      (l.reverse.takeWhile isSep).reverse := by
  apply List.reverse_injective
  simp only [beforeLastName, List.reverse_append, List.reverse_reverse, List.append_assoc,
    List.takeWhile_append_dropWhile]

theorem runStarts_beforeLastName (o : Nat) {l : List UInt8} (named : ∃ b ∈ l, isSep b = false) :
    runStarts true o l =
      runStarts true o (beforeLastName l) ++ [o + (beforeLastName l).length] := by
  obtain ⟨c, t, rest⟩ : ∃ c t, l.reverse.dropWhile isSep = c :: t := by
    apply List.exists_cons_of_ne_nil
    intro none
    obtain ⟨b, mem, name⟩ := named
    rw [List.dropWhile_eq_nil_iff] at none
    simp [none b (List.mem_reverse.mpr mem)] at name
  have first : isSep c = false := head_dropWhile_sep l.reverse c (by rw [rest]; rfl)
  have name_bytes : ∀ b ∈ ((l.reverse.dropWhile isSep).takeWhile fun b => !isSep b).reverse,
      isSep b = false := fun b mem => by
    simpa using List.mem_takeWhile_imp (List.mem_reverse.mp mem)
  have name_nonempty :
      ((l.reverse.dropWhile isSep).takeWhile fun b => !isSep b).reverse ≠ [] := by
    rw [rest, List.takeWhile_cons_of_pos (by simp [first])]
    simp
  have seps : ∀ b ∈ (l.reverse.takeWhile isSep).reverse, isSep b = true := fun b mem =>
    List.mem_takeWhile_imp (List.mem_reverse.mp mem)
  conv_lhs => rw [eq_beforeLastName_append l]
  rw [runStarts_append, runStarts_append, freshAfter_beforeLastName,
    (runStarts_of_name name_bytes name_nonempty).1, runStarts_of_seps seps, List.append_nil]
  rfl

section Back

variable {bytes : List UInt8} {start i : Nat}

theorem prevStart_eq (le : start ≤ i) (inside : i ≤ bytes.length) :
    prevStart bytes start i = start + (beforeLastName ((bytes.take i).drop start)).length := by
  have parts := congrArg List.length (eq_beforeLastName_append ((bytes.take i).drop start))
  simp only [List.length_append, List.length_reverse, List.length_drop, List.length_take] at parts
  unfold prevStart
  dsimp only
  rw [drop_length_takeWhile]
  omega

theorem drop_take_prevStart (le : start ≤ i) (inside : i ≤ bytes.length) :
    (bytes.take (prevStart bytes start i)).drop start =
      beforeLastName ((bytes.take i).drop start) := by
  have parts := eq_beforeLastName_append ((bytes.take i).drop start)
  have below : prevStart bytes start i ≤ i := by
    have lengths := congrArg List.length parts
    simp only [List.length_append, List.length_reverse, List.length_drop, List.length_take]
      at lengths
    rw [prevStart_eq le inside]
    omega
  rw [← Nat.min_eq_left below, ← List.take_take, List.drop_take, prevStart_eq le inside,
    Nat.add_sub_cancel_left]
  generalize beforeLastName ((bytes.take i).drop start) = before at parts ⊢
  rw [parts, List.append_assoc]
  exact List.take_left

theorem seps_of_le_takeWhile {D : List UInt8} {k : Nat} (le : k ≤ (D.takeWhile isSep).length) :
    ∀ b ∈ D.take k, isSep b = true := by
  intro b mem
  have prefix_seps : D.take k = (D.takeWhile isSep).take k := by
    conv_lhs => rw [← List.takeWhile_append_dropWhile (p := isSep) (l := D)]
    exact List.take_append_of_le_length le
  rw [prefix_seps] at mem
  exact List.mem_takeWhile_imp (List.mem_of_mem_take mem)

theorem name_of_takeWhile_lt {D : List UInt8} {k : Nat} (lt : (D.takeWhile isSep).length < k)
    (le : k ≤ D.length) : ∃ b ∈ D.take k, isSep b = false := by
  have whole := List.takeWhile_append_dropWhile (p := isSep) (l := D)
  obtain ⟨c, t, rest⟩ : ∃ c t, D.dropWhile isSep = c :: t := by
    apply List.exists_cons_of_ne_nil
    intro none
    have lengths := congrArg List.length whole
    rw [none, List.append_nil] at lengths
    omega
  have first : isSep c = false := head_dropWhile_sep D c (by rw [rest]; rfl)
  refine ⟨c, ?_, first⟩
  rw [← whole, rest, List.take_append, List.mem_append]
  right
  obtain ⟨m, more⟩ : ∃ m, k - (D.takeWhile isSep).length = m + 1 := ⟨_, (Nat.sub_one_add_one
    (by omega)).symm⟩
  rw [more, List.take_succ_cons]
  exact List.mem_cons_self

theorem backwardFrom_eq_runStarts (inside : i ≤ bytes.length) :
    View.backwardFrom bytes start (skipSeparators bytes start) i =
      (runStarts true start ((bytes.take i).drop start)).reverse := by
  fun_induction View.backwardFrom bytes start (skipSeparators bytes start) i with
  | case1 i above back ih =>
    obtain ⟨named_before, root_before, inside⟩ := above
    have named : ∃ b ∈ (bytes.take i).drop start, isSep b = false := by
      rw [List.drop_take]
      apply name_of_takeWhile_lt
      · unfold skipSeparators at named_before
        omega
      · simp only [List.length_drop]
        omega
    have lower := prevStart_lt root_before inside
    rw [runStarts_beforeLastName start named, ← prevStart_eq root_before.le inside,
      ← drop_take_prevStart root_before.le inside, ih (by omega), List.reverse_append]
    rfl
  | case2 i outside =>
    have within : i - start ≤ ((bytes.drop start).takeWhile isSep).length := by
      unfold skipSeparators at outside
      omega
    rw [List.drop_take, runStarts_of_seps (seps_of_le_takeWhile within)]
    rfl

end Back

theorem indicesRev_eq_reverse (v : View) : v.indicesRev = v.indices.reverse := by
  rw [View.indicesRev, View.endIndex, View.startIndex, backwardFrom_eq_runStarts (Nat.le_refl _),
    List.take_length,
    indices_eq_runStarts, View.relative]

/-! ### Reading the components -/

theorem View.nameAt_eq (v : View) (i : Nat) :
    v.nameAt i = (v.bytes.drop i).takeWhile fun b => !isSep b := by
  rw [View.nameAt, componentEnd, Nat.add_sub_cancel_left, take_length_takeWhile]

theorem View.get_eq_takeWhile {v : View} {i : Nat} (lower : v.start ≤ i)
    (below : i < v.bytes.length) :
    v.get i = .ok ((v.bytes.drop i).takeWhile fun b => !isSep b) := by
  rw [View.get, View.checkIndex, if_pos ⟨lower, below.le⟩]
  simp only [View.endIndex, Nat.ne_of_lt below, if_false]
  rw [← View.nameAt, View.nameAt_eq]
  rfl

theorem View.get_of_mem_indices {v : View} {i : Nat} (mem : i ∈ v.indices) :
    v.get i = .ok ((v.bytes.drop i).takeWhile fun b => !isSep b) := by
  rw [indices_eq_runStarts] at mem
  obtain ⟨above, b, found, -⟩ := mem_runStarts mem
  have below : i < v.bytes.length := by
    have := (List.getElem?_eq_some_iff.mp found).1
    simp only [View.relative, List.length_drop] at this
    omega
  exact View.get_eq_takeWhile above below

theorem nonEmptyParts_sep_cons {b : UInt8} (sep : isSep b = true) (l : List UInt8) :
    nonEmptyParts (b :: l) = nonEmptyParts l := by
  rw [nonEmptyParts, splitParts, List.splitOn_cons_eq_if_modifyHead,
    if_pos (show (b == separator) = true from sep)]
  rfl

theorem nonEmptyParts_seps_append {s : List UInt8} (seps : ∀ b ∈ s, isSep b = true)
    (l : List UInt8) : nonEmptyParts (s ++ l) = nonEmptyParts l := by
  induction s with
  | nil => rfl
  | cons b s ih =>
    rw [List.cons_append, nonEmptyParts_sep_cons (seps b List.mem_cons_self)]
    exact ih fun x mem => seps x (List.mem_cons_of_mem b mem)

theorem nonEmptyParts_name_append {n rest : List UInt8} (name : ∀ b ∈ n, isSep b = false)
    (nonempty : n ≠ []) (ends : ∀ b ∈ rest.head?, isSep b = true) :
    nonEmptyParts (n ++ rest) = n :: nonEmptyParts rest := by
  have no_sep : separator ∉ n := fun mem => by simpa [isSep] using name separator mem
  have kept : (!n.isEmpty) = true := by simpa using nonempty
  cases rest with
  | nil =>
    rw [List.append_nil, nonEmptyParts, splitParts, List.splitOn_eq_singleton no_sep,
      List.filter_cons_of_pos (p := fun p : List UInt8 => !p.isEmpty) kept]
    rfl
  | cons c r =>
    have sep : c = separator := by simpa [isSep] using ends c rfl
    rw [sep, nonEmptyParts_sep_cons (by simp [isSep]), nonEmptyParts, splitParts,
      List.splitOn_append_cons_self_of_not_mem no_sep,
      List.filter_cons_of_pos (p := fun p : List UInt8 => !p.isEmpty) kept]
    rfl

theorem forwardFrom_names (bytes : List UInt8) (i : Nat)
    (first : ∀ b ∈ (bytes.drop i).head?, isSep b = false) :
    (View.forwardFrom bytes i).map (fun j => (bytes.drop j).takeWhile fun b => !isSep b) =
      nonEmptyParts (bytes.drop i) := by
  fun_induction View.forwardFrom bytes i with
  | case1 i inside ih =>
    -- the bytes are the name, the separators after it, and the bytes from the next index
    have rest := List.takeWhile_append_dropWhile (p := isSep)
      (l := (bytes.drop i).dropWhile fun b => !isSep b)
    rw [← drop_nextStart] at rest
    conv_rhs =>
      rw [← List.takeWhile_append_dropWhile (p := fun b => !isSep b) (l := bytes.drop i)]
    rw [nonEmptyParts_name_append (fun x mem => by simpa using List.mem_takeWhile_imp mem)
        (takeWhile_name_ne_nil first (by simpa using inside)) (head_dropWhile_name _), ← rest,
      nonEmptyParts_seps_append (fun x mem => List.mem_takeWhile_imp mem), List.map_cons,
      ih (head_drop_skipSeparators _ _)]
  | case2 i outside =>
    rw [List.drop_eq_nil_of_le (Nat.le_of_not_lt outside)]
    rfl

theorem View.names_eq_nonEmptyParts (v : View) : v.names = nonEmptyParts v.relative := by
  have skipped := List.takeWhile_append_dropWhile (p := isSep) (l := v.relative)
  rw [View.names, funext v.nameAt_eq, View.indices, View.startIndex,
    forwardFrom_names _ _ (head_drop_skipSeparators _ _), drop_skipSeparators, ← View.relative]
  conv_rhs => rw [← skipped]
  rw [nonEmptyParts_seps_append (fun x mem => List.mem_takeWhile_imp mem)]

theorem View.namesRev_eq_reverse (v : View) : v.namesRev = v.names.reverse := by
  rw [View.namesRev, View.names, indicesRev_eq_reverse, List.map_reverse]

end SysBytes.Path
