import DalvikStores.Descriptor.Reader
import DalvikStores.Hierarchy.Assignable
import Mathlib.Tactic.Common

/-!
# The rules of assignability

`Assignable` gives one rule for each reason why a reference of one type may be stored where
another is expected. The test of the library succeeds exactly when one of the rules applies. It
has an answer whenever both types are `Dimensioned`, that is, have no array without a dimension
at any depth, and every type read from a text is.
-/

namespace DalvikStores

namespace Descriptor

/-- No array of the type counts zero dimensions. -/
def Dimensioned : Descriptor → Prop
  | array n inner => n ≠ 0 ∧ inner.Dimensioned
  | _ => True

theorem Dimensioned.element {t u : Descriptor} (ht : t.Dimensioned) (hu : t.element = .ok u) :
    u.Dimensioned := by
  unfold Descriptor.element at hu
  split at hu
  · cases hu
  · cases hu; exact ht.2
  · cases hu; exact ⟨Nat.succ_ne_zero _, ht.2⟩
  · cases hu

theorem Dimensioned.exists_element {n : ℕ} {inner : Descriptor}
    (ht : (array n inner).Dimensioned) : ∃ u, (array n inner).element = .ok u := by
  match n, ht with
  | 0, ht => exact absurd rfl ht.1
  | 1, _ => exact ⟨inner, rfl⟩
  | n + 2, _ => exact ⟨array (n + 1) inner, rfl⟩

theorem dimensioned_of_ofLeaf {cs : List Char} {t : Descriptor} (h : ofLeaf cs = some t) :
    t.Dimensioned := by
  unfold ofLeaf at h
  split at h
  case h_9 =>
    split_ifs at h
    cases h
    trivial
  all_goals cases h
  all_goals trivial

theorem dimensioned_of_ofText {cs : List Char} {t : Descriptor} (h : ofText cs = .ok t) :
    t.Dimensioned := by
  unfold ofText at h
  split_ifs at h with hv
  · cases h; trivial
  · dsimp only at h
    rw [ite_eq_iff] at h
    obtain ⟨-, h⟩ | ⟨-, h⟩ := h
    · cases h
    · cases hl : ofLeaf (cs.dropWhile isBracket) with
      | none => rw [hl] at h; cases h
      | some u =>
        have hu := dimensioned_of_ofLeaf hl
        rw [hl, Except.ok.injEq, ite_eq_iff] at h
        obtain ⟨-, rfl⟩ | ⟨hz, rfl⟩ := h
        · exact hu
        · exact ⟨hz, hu⟩

end Descriptor

namespace Hierarchy

variable (h : Hierarchy)

/-- A reference of the first type may be stored where the second is expected. -/
inductive Assignable : Descriptor → Descriptor → Prop
  | refl (t : Descriptor) : Assignable t t
  | root {s : Descriptor} (hs : s.isReference = true) :
      Assignable s (.ofClass Descriptor.rootClass)
  | interface (m : ℕ) (s : Descriptor) {t : String} (ht : t ∈ arrayInterfaces) :
      Assignable (.array m s) (.ofClass t)
  | covariant {m n : ℕ} {s t s' t' : Descriptor} (hs : (Descriptor.array m s).element = .ok s')
      (ht : (Descriptor.array n t).element = .ok t') (hs' : s'.isReference = true)
      (ht' : t'.isReference = true) (ha : Assignable s' t') :
      Assignable (.array m s) (.array n t)
  | ancestor {c t : String} (hc : h.isSubclass c t = true) :
      Assignable (.ofClass c) (.ofClass t)

variable {h}

theorem Assignable.elements {m n : ℕ} {s t s' t' : Descriptor}
    (ha : h.Assignable (.array m s) (.array n t)) (hne : Descriptor.array m s ≠ .array n t)
    (hs : (Descriptor.array m s).element = .ok s')
    (ht : (Descriptor.array n t).element = .ok t') :
    (s'.isReference = true ∧ t'.isReference = true) ∧ h.Assignable s' t' := by
  cases ha with
  | refl => exact absurd rfl hne
  | covariant hs₁ ht₁ hs' ht' ha =>
    cases hs.symm.trans hs₁
    cases ht.symm.trans ht₁
    exact ⟨⟨hs', ht'⟩, ha⟩

theorem assignable_eq_some_true_iff (s t : Descriptor) :
    h.assignable s t = some true ↔ h.Assignable s t := by
  fun_induction h.assignable s t with
  | case1 t => exact iff_of_true rfl (.refl t)
  | case2 m s n t s' t' hs ht hr hne ih =>
    rw [Bool.and_eq_true] at hr
    rw [ih]
    exact ⟨.covariant hs ht hr.1 hr.2, fun ha => (ha.elements hne hs ht).2⟩
  | case3 m s n t s' t' hs ht hr hne =>
    rw [Bool.and_eq_true] at hr
    exact iff_of_false (by simp) (fun ha => hr (ha.elements hne hs ht).1)
  | case4 m s n t hno hne =>
    refine iff_of_false (by simp) (fun ha => ?_)
    cases ha with
    | refl => exact hne rfl
    | covariant hs ht => exact hno _ _ hs ht
  | case5 s hne =>
    rw [Option.some_inj]
    refine ⟨.root, fun ha => ?_⟩
    cases ha with
    | refl => rfl
    | root hs => exact hs
    | interface => rfl
    | ancestor => rfl
  | case6 t hroot m s hne =>
    rw [Option.some_inj, List.contains_iff_mem]
    refine ⟨.interface m s, fun ha => ?_⟩
    cases ha with
    | root => exact absurd rfl hroot
    | interface _ _ ht => exact ht
  | case7 t hroot c hne =>
    rw [Option.some_inj]
    refine ⟨.ancestor, fun ha => ?_⟩
    cases ha with
    | refl => exact absurd rfl hne
    | root => exact absurd rfl hroot
    | ancestor hc => exact hc
  | case8 s t hroot harray hclass hne =>
    refine iff_of_false (by simp) (fun ha => ?_)
    cases ha with
    | refl => exact hne rfl
    | root => exact hroot rfl
    | interface m s => exact harray _ _ rfl
    | ancestor => exact hclass _ rfl
  | case9 s t hne hclass harrays =>
    refine iff_of_false (by simp) (fun ha => ?_)
    cases ha with
    | refl => exact hne rfl
    | root => exact hclass _ rfl
    | interface => exact hclass _ rfl
    | covariant => exact harrays _ _ _ _ rfl rfl
    | ancestor => exact hclass _ rfl

/-- The test always has an answer on types in which every array has a dimension. -/
theorem assignable_ne_none {s t : Descriptor} (hs : s.Dimensioned) (ht : t.Dimensioned) :
    h.assignable s t ≠ none := by
  fun_induction h.assignable s t with
  | case2 m s n t s' t' hs' ht' hr hne ih => exact ih (hs.element hs') (ht.element ht')
  | case4 m s n t hno hne =>
    obtain ⟨s', hs'⟩ := hs.exists_element
    obtain ⟨t', ht'⟩ := ht.exists_element
    exact absurd (hno s' t' hs' ht') id
  | _ => exact Option.some_ne_none _

end Hierarchy

end DalvikStores
