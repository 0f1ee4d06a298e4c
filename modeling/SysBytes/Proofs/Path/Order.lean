import SysBytes.Proofs.Path.Join

/-!
The order of paths: the lexicographic order of their lists of components, the root as `/`.
A normalized path is fixed by its components, so on normalized paths the order is antisymmetric.
-/
namespace SysBytes.Path

theorem isLE_compareLex_of_prefix {α : Type} {cmp : α → α → Ordering} [Std.ReflCmp cmp] :
    ∀ {l₁ l₂ : List α}, l₁ <+: l₂ → (List.compareLex cmp l₁ l₂).isLE
  | [], _, _ => List.isLE_compareLex_nil_left
  | _ :: _, [], pre => absurd (List.eq_nil_of_prefix_nil pre) (List.cons_ne_nil _ _)
  | x :: xs, _ :: ys, pre => by
    obtain ⟨rfl, rest⟩ := List.cons_prefix_cons.mp pre
    have same : cmp x x = .eq := Std.ReflCmp.compare_self
    rw [List.compareLex_cons_cons, same, Ordering.eq_then]
    exact isLE_compareLex_of_prefix rest

namespace FilePath

/-! ### The order is the lexicographic one -/

theorem compareBytes_eq_compare : ∀ a b : List UInt8, compareBytes a b = compare a b
  | [], [] => rfl
  | [], _ :: _ => rfl
  | _ :: _, [] => rfl
  | x :: xs, y :: ys => by
    rw [compareBytes, List.compare_cons_cons, compareBytes_eq_compare xs ys]
    cases compare x y <;> rfl

theorem compareParts_eq_compare :
    ∀ as bs : List (List UInt8), compareParts as bs = compare as bs
  | [], [] => rfl
  | [], _ :: _ => rfl
  | _ :: _, [] => rfl
  | a :: as, b :: bs => by
    rw [compareParts, List.compare_cons_cons, compareParts_eq_compare as bs,
      compareBytes_eq_compare]
    cases compare a b <;> rfl

theorem order_eq_compare (p q : FilePath) : p.order q = compare p.components q.components :=
  compareParts_eq_compare _ _

instance : Std.TransCmp order where
  eq_swap {p q} := by
    rw [order_eq_compare, order_eq_compare]
    exact Std.OrientedCmp.eq_swap
  isLE_trans {p q r} first second := by
    rw [order_eq_compare] at first second ⊢
    exact Std.TransCmp.isLE_trans first second

instance : Std.ReflCmp order where
  compare_self {p} := by
    rw [order_eq_compare]
    exact Std.ReflCmp.compare_self

theorem order_eq_eq_iff_components (p q : FilePath) :
    p.order q = .eq ↔ p.components = q.components := by
  rw [order_eq_compare]
  exact Std.LawfulEqOrd.compare_eq_iff_eq

/-! ### Normalized paths are fixed by their components -/

theorem isAbsolute_eq_of_components {p q : FilePath} (same : p.components = q.components) :
    p.isAbsolute = q.isAbsolute := by
  have first : p.bytes.head? = some separator ↔ q.bytes.head? = some separator := by
    rw [← head?_components, ← head?_components, same]
  unfold isAbsolute
  by_cases root : p.bytes.head? = some separator
  · simp [root, first.mp root]
  · have other : q.bytes.head? ≠ some separator := fun q_root => root (first.mpr q_root)
    simp [root, other]

theorem eq_of_components {p q : FilePath} (p_norm : p.Normalized) (q_norm : q.Normalized)
    (same : p.components = q.components) : p = q := by
  have root := isAbsolute_eq_of_components same
  rw [components_eq_names, components_eq_names, root] at same
  exact eq_of_names p_norm q_norm root (List.append_cancel_left same)

theorem order_eq_eq_iff {p q : FilePath} (p_norm : p.Normalized) (q_norm : q.Normalized) :
    p.order q = .eq ↔ p = q := by
  rw [order_eq_eq_iff_components]
  constructor
  · exact eq_of_components p_norm q_norm
  · rintro rfl
    rfl

theorem eq_of_order_isLE {p q : FilePath} (p_norm : p.Normalized) (q_norm : q.Normalized)
    (below : (p.order q).isLE) (above : (q.order p).isLE) : p = q :=
  (order_eq_eq_iff p_norm q_norm).mp (Std.OrientedCmp.isLE_antisymm below above)

theorem order_isLE_of_startsWith {p base : FilePath} (starts : p.startsWith base = true) :
    (base.order p).isLE := by
  rw [order_eq_compare]
  exact isLE_compareLex_of_prefix (List.isPrefixOf_iff_prefix.mp starts)

end FilePath

open FilePath

/-- **Paths are ordered by their components.** The order is lexicographic on components, the root as
`/`; it says equal only of equal normalized paths, and a path never sorts before a path it starts
with. -/
theorem paths_order_by_components :
    (∀ p q : FilePath, p.Normalized → q.Normalized → (p.order q = .eq ↔ p = q)) ∧
    (∀ (a b : List UInt8) (p q : FilePath), ofBytes a = .ok p → ofBytes b = .ok q →
      (p.order q = .eq ↔ p = q)) ∧
    (∀ p : FilePath, p.order p = .eq) ∧
    (∀ p q : FilePath, q.order p = (p.order q).swap) ∧
    (∀ p q : FilePath, p.Normalized → q.Normalized → (p.order q).isLE → (q.order p).isLE →
      p = q) ∧
    (∀ p q r : FilePath, (p.order q).isLE → (q.order r).isLE → (p.order r).isLE) ∧
    (∀ p q r : FilePath, p.order q = .lt → q.order r = .lt → p.order r = .lt) ∧
    (∀ p base : FilePath, p.startsWith base = true → (base.order p).isLE) ∧
    (∀ p q : FilePath, p.order q = compare p.components q.components) :=
  ⟨fun _ _ p_norm q_norm => order_eq_eq_iff p_norm q_norm,
    fun _ _ _ _ built_p built_q =>
      order_eq_eq_iff (ofBytes_normalized built_p) (ofBytes_normalized built_q),
    fun _ => Std.ReflCmp.compare_self, fun _ _ => Std.OrientedCmp.eq_swap,
    fun _ _ p_norm q_norm => eq_of_order_isLE p_norm q_norm,
    fun _ _ _ => Std.TransCmp.isLE_trans, fun _ _ _ => Std.TransCmp.lt_trans,
    fun _ _ => order_isLE_of_startsWith, order_eq_compare⟩

/-- `/a/b` sorts before `/a-b`, and the two compare equal only if they were the same path. -/
theorem nested_name_sorts_first :
    FilePath.order ⟨[47, 97, 47, 98]⟩ ⟨[47, 97, 45, 98]⟩ = .lt ∧
      (FilePath.order ⟨[47, 97, 47, 98]⟩ ⟨[47, 97, 45, 98]⟩ = .eq ↔
        (⟨[47, 97, 47, 98]⟩ : FilePath) = ⟨[47, 97, 45, 98]⟩) :=
  ⟨by decide, paths_order_by_components.1 _ _ (by decide) (by decide)⟩

example : FilePath.order ⟨[46]⟩ ⟨[47]⟩ = .lt := by decide

end SysBytes.Path
