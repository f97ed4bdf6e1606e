import DalvikStores.Proofs.Assignability

/-!
# Dimensions and leaves

However its arrays are nested, a type comes down to a number of dimensions over a leaf that is no
array. Taking an element takes one dimension away and keeps the leaf, so that types which are
nested differently but have the same dimensions and the same leaf stand for each other.

The test for assignability takes elements of both types as long as it can. What it finds depends on
the two numbers of dimensions and the two leaves only, and `Conforms` says how.
-/

namespace DalvikStores

namespace Descriptor

variable {t u : Descriptor}

/-- All dimensions of a type, those of nested arrays taken together. -/
def dimensions : Descriptor → ℕ
  | array n inner => n + inner.dimensions
  | _ => 0

def leaf : Descriptor → Descriptor
  | array _ inner => inner.leaf
  | t => t

theorem leaf_ne_array (t : Descriptor) (n : ℕ) (inner : Descriptor) : t.leaf ≠ array n inner := by
  induction t with
  | array _ _ ih => exact ih
  | _ => exact Descriptor.noConfusion

theorem dimensions_eq_of_element (hu : t.element = .ok u) : t.dimensions = u.dimensions + 1 := by
  unfold element at hu
  split at hu
  · cases hu
  · cases hu
    exact Nat.add_comm _ _
  · cases hu
    simp only [dimensions]
    omega
  · cases hu

theorem leaf_eq_of_element (hu : t.element = .ok u) : t.leaf = u.leaf := by
  unfold element at hu
  split at hu
  · cases hu
  · cases hu; rfl
  · cases hu; rfl
  · cases hu

theorem eq_array_one_of_element (hu : t.element = .ok u) (hr : u.isReference = false) :
    t = array 1 u := by
  unfold element at hu
  split at hu
  · cases hu
  · cases hu; rfl
  · cases hu; cases hr
  · cases hu

theorem Dimensioned.leaf_eq_self (ht : t.Dimensioned) (hz : t.dimensions = 0) : t.leaf = t := by
  cases t with
  | array n inner =>
    have hn : n ≠ 0 := ht.1
    simp only [dimensions] at hz
    omega
  | _ => rfl

theorem Dimensioned.eq_array (ht : t.Dimensioned) (hd : t.dimensions ≠ 0) :
    ∃ n inner, t = array n inner ∧ ∃ u, t.element = .ok u := by
  cases t with
  | array n inner => exact ⟨n, inner, rfl, ht.exists_element⟩
  | _ => exact absurd rfl hd

theorem Dimensioned.dimensions_ne_zero {n : ℕ} {inner : Descriptor}
    (ht : (array n inner).Dimensioned) : (array n inner).dimensions ≠ 0 := by
  have hn : n ≠ 0 := ht.1
  simp only [dimensions]
  omega

theorem Dimensioned.isReference_iff (ht : t.Dimensioned) :
    t.isReference = true ↔ t.dimensions ≠ 0 ∨ ∃ c, t = ofClass c := by
  cases t with
  | array => exact iff_of_true rfl (.inl ht.dimensions_ne_zero)
  | ofClass c => exact iff_of_true rfl (.inr ⟨c, rfl⟩)
  | _ => exact iff_of_false (by simp [isReference]) (by simp [dimensions])

end Descriptor

namespace Hierarchy

open Descriptor

variable (h : Hierarchy)

/-- The leaves over which `m` dimensions above the leaf `F` may stand for `n` dimensions. -/
inductive Conforms (m : ℕ) (F : Descriptor) (n : ℕ) : Descriptor → Prop
  | same (hm : m = n) : Conforms m F n F
  | rootArray (hm : n < m) : Conforms m F n (.ofClass rootClass)
  | rootObject {c : String} (hm : m = n) (hF : F = .ofClass c) : Conforms m F n (.ofClass rootClass)
  | interface {t : String} (hm : n < m)
      (ht : t = "java/lang/Cloneable" ∨ t = "java/io/Serializable") : Conforms m F n (.ofClass t)
  | ancestor {c t : String} (hm : m = n) (hF : F = .ofClass c) (hc : h.isSubclass c t = true) :
      Conforms m F n (.ofClass t)

variable {h} {m n : ℕ} {F T s t : Descriptor}

theorem Conforms.le (hc : h.Conforms m F n T) : n ≤ m := by
  cases hc <;> omega

theorem conforms_succ_iff : h.Conforms (m + 1) F (n + 1) T ↔ h.Conforms m F n T := by
  constructor
  · intro hc
    cases hc with
    | same hm => exact .same (Nat.succ.inj hm)
    | rootArray hm => exact .rootArray (Nat.lt_of_succ_lt_succ hm)
    | rootObject hm hF => exact .rootObject (Nat.succ.inj hm) hF
    | interface hm ht => exact .interface (Nat.lt_of_succ_lt_succ hm) ht
    | ancestor hm hF hc => exact .ancestor (Nat.succ.inj hm) hF hc
  · intro hc
    cases hc with
    | same hm => exact .same (congrArg Nat.succ hm)
    | rootArray hm => exact .rootArray (Nat.succ_lt_succ hm)
    | rootObject hm hF => exact .rootObject (congrArg Nat.succ hm) hF
    | interface hm ht => exact .interface (Nat.succ_lt_succ hm) ht
    | ancestor hm hF hc => exact .ancestor (congrArg Nat.succ hm) hF hc

theorem conforms_iff_of_elements {s' t' : Descriptor} (hs : s.element = .ok s')
    (ht : t.element = .ok t') :
    h.Conforms s.dimensions s.leaf t.dimensions t.leaf ↔
      h.Conforms s'.dimensions s'.leaf t'.dimensions t'.leaf := by
  rw [dimensions_eq_of_element hs, dimensions_eq_of_element ht, leaf_eq_of_element hs,
    leaf_eq_of_element ht, conforms_succ_iff]

theorem Assignable.eq_or_isReference (ha : h.Assignable s t) :
    s = t ∨ s.isReference = true ∧ t.isReference = true := by
  cases ha with
  | refl => exact .inl rfl
  | root hs => exact .inr ⟨hs, rfl⟩
  | interface => exact .inr ⟨rfl, rfl⟩
  | covariant => exact .inr ⟨rfl, rfl⟩
  | ancestor => exact .inr ⟨rfl, rfl⟩

/-- Elements that can be assigned make arrays that can be, also where they are no references: the
arrays are the same then. -/
theorem Assignable.of_elements {s' t' : Descriptor} {k l : ℕ}
    (hs : (array k s).element = .ok s') (ht : (array l t).element = .ok t')
    (ha : h.Assignable s' t') : h.Assignable (array k s) (array l t) := by
  rcases ha.eq_or_isReference with rfl | ⟨hs', ht'⟩
  · cases hr : s'.isReference with
    | true => exact .covariant hs ht hr hr ha
    | false =>
      rw [eq_array_one_of_element hs hr, eq_array_one_of_element ht hr]
      exact .refl _
  · exact .covariant hs ht hs' ht' ha

theorem Assignable.conforms (ha : h.Assignable s t) (hs : s.Dimensioned) (ht : t.Dimensioned) :
    h.Conforms s.dimensions s.leaf t.dimensions t.leaf := by
  induction ha with
  | refl => exact .same rfl
  | @root s hr =>
    rcases hs.isReference_iff.mp hr with hd | ⟨c, rfl⟩
    · exact .rootArray (Nat.pos_of_ne_zero hd)
    · exact .rootObject rfl rfl
  | interface m s hi =>
    have hd : (array m s).dimensions ≠ 0 := hs.dimensions_ne_zero
    exact .interface (Nat.pos_of_ne_zero hd) (by simpa [arrayInterfaces] using hi)
  | covariant hs' ht' _ _ _ ih =>
    rw [conforms_iff_of_elements hs' ht']
    exact ih (hs.element hs') (ht.element ht')
  | ancestor hc => exact .ancestor rfl rfl hc

theorem Assignable.of_conforms_of_leaf (hs : s.Dimensioned) (ht : t.Dimensioned)
    (hz : t.dimensions = 0) (hc : h.Conforms s.dimensions s.leaf t.dimensions t.leaf) :
    h.Assignable s t := by
  rw [hz, ht.leaf_eq_self hz] at hc
  cases hc with
  | same hm =>
    rw [hs.leaf_eq_self hm]
    exact .refl s
  | rootArray hm => exact .root (hs.isReference_iff.mpr (.inl (Nat.ne_of_gt hm)))
  | rootObject hm hF =>
    rw [hs.leaf_eq_self hm] at hF
    exact .root (hs.isReference_iff.mpr (.inr ⟨_, hF⟩))
  | interface hm hi =>
    obtain ⟨m, inner, rfl, -⟩ := hs.eq_array (Nat.ne_of_gt hm)
    exact .interface m inner (by simpa [arrayInterfaces] using hi)
  | ancestor hm hF hc =>
    rw [hs.leaf_eq_self hm] at hF
    rw [hF]
    exact .ancestor hc

theorem Assignable.of_conforms (hs : s.Dimensioned) (ht : t.Dimensioned)
    (hc : h.Conforms s.dimensions s.leaf t.dimensions t.leaf) : h.Assignable s t := by
  -- the target gives up its dimensions one by one, and the source has at least as many
  induction hn : t.dimensions generalizing s t with
  | zero => exact of_conforms_of_leaf hs ht hn hc
  | succ n ih =>
    have hle : t.dimensions ≤ s.dimensions := hc.le
    obtain ⟨l, _, rfl, t', ht'⟩ := ht.eq_array (by omega)
    obtain ⟨k, _, rfl, s', hs'⟩ := hs.eq_array (by omega)
    have hd := dimensions_eq_of_element ht'
    rw [conforms_iff_of_elements hs' ht'] at hc
    exact of_elements hs' ht' (ih (hs.element hs') (ht.element ht') hc (by omega))

/-- On types without an empty dimension the test has an answer, and it is decided by the
dimensions and the leaves. -/
theorem exists_assignable_iff_conforms (h : Hierarchy) (hs : s.Dimensioned) (ht : t.Dimensioned) :
    ∃ b, h.assignable s t = some b ∧
      (b = true ↔ h.Conforms s.dimensions s.leaf t.dimensions t.leaf) := by
  obtain ⟨b, hb⟩ := Option.ne_none_iff_exists'.mp (assignable_ne_none (h := h) hs ht)
  refine ⟨b, hb, ?_⟩
  constructor
  · rintro rfl
    exact ((assignable_eq_some_true_iff s t).mp hb).conforms hs ht
  · intro hc
    have ha := (assignable_eq_some_true_iff s t).mpr (.of_conforms hs ht hc)
    exact Option.some.inj (hb.symm.trans ha)

/-- Three dimensions nested in one way are more than two nested in another. -/
theorem assignable_nested_serializable :
    let s : Descriptor := array 1 (array 2 (.ofClass "A"))
    let t : Descriptor := array 1 (array 1 (.ofClass "java/io/Serializable"))
    s.Dimensioned ∧ t.Dimensioned ∧ empty.assignable s t = some true := by
  intro s t
  have hs : s.Dimensioned := ⟨by decide, by decide, trivial⟩
  have ht : t.Dimensioned := ⟨by decide, by decide, trivial⟩
  obtain ⟨b, hb, hiff⟩ := exists_assignable_iff_conforms empty hs ht
  have hc : empty.Conforms 3 (.ofClass "A") 2 (.ofClass "java/io/Serializable") :=
    .interface (by decide) (.inr rfl)
  exact ⟨hs, ht, hb.trans (congrArg some (hiff.mpr hc))⟩

end Hierarchy

end DalvikStores
