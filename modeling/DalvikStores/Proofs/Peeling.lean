import DalvikStores.Proofs.BracketLimit
import DalvikStores.Proofs.Dimensions

/-!
# Peeling the dimensions off a type

Taking the element of an array type takes one bracket away from the front of its text. There is
none of a type that is no array, and the count of an array without a dimension overflows. When
elements are taken over and over, a type in which every array has a dimension comes down to its
leaf after as many steps as its text has brackets in front, in whichever way its arrays are nested.
Any other type comes to an array without a dimension.
-/

namespace DalvikStores.Descriptor

variable {t u : Descriptor} {k : ℕ}

theorem element_eq_notArray_iff :
    t.element = .error .notArray ↔ ∀ n inner, t ≠ array n inner := by
  constructor
  · rintro ht n inner rfl
    match n, ht with
    | 0, ht => cases ht
    | 1, ht => cases ht
    | n + 2, ht => cases ht
  · intro ht
    cases t with
    | array n inner => exact absurd rfl (ht n inner)
    | _ => rfl

theorem element_eq_noDimension_iff :
    t.element = .error .noDimension ↔ ∃ inner, t = array 0 inner := by
  constructor
  · intro ht
    unfold element at ht
    split at ht
    · exact ⟨_, rfl⟩
    all_goals cases ht
  · rintro ⟨inner, rfl⟩
    rfl

theorem exists_element_iff :
    (∃ u, t.element = .ok u) ↔ ∃ n inner, t = array (n + 1) inner := by
  constructor
  · rintro ⟨u, hu⟩
    unfold element at hu
    split at hu
    · cases hu
    · exact ⟨0, _, rfl⟩
    · exact ⟨_, _, rfl⟩
    · cases hu
  · rintro ⟨n, inner, rfl⟩
    cases n with
    | zero => exact ⟨inner, rfl⟩
    | succ n => exact ⟨array (n + 1) inner, rfl⟩

theorem render_eq_of_element (hu : t.element = .ok u) : t.render = "[" ++ u.render := by
  rw [← String.toList_inj, String.toList_append]
  unfold element at hu
  split at hu
  · cases hu
  · cases hu
    rw [toList_render_array]
    rfl
  · cases hu
    rw [toList_render_array, toList_render_array]
    rfl
  · cases hu

section Brackets

/-- How many brackets stand in front of the text of a type. -/
def brackets (t : Descriptor) : ℕ := (t.render.toList.takeWhile isBracket).length

theorem toList_render_eq (t : Descriptor) :
    t.render.toList = List.replicate t.dimensions '[' ++ t.leaf.render.toList := by
  induction t with
  | array n inner ih =>
    rw [toList_render_array, ih, dimensions, leaf, ← List.append_assoc,
      List.replicate_append_replicate]
  | _ => rfl

theorem takeWhile_render_of_ne_array (ht : ∀ n inner, t ≠ array n inner) :
    t.render.toList.takeWhile isBracket = [] := by
  cases t with
  | array n inner => exact absurd rfl (ht n inner)
  | ofClass name =>
    rw [render, String.toList_append, String.toList_append]
    rfl
  | _ => rfl

/-- The text does not tell how the arrays are nested. -/
theorem brackets_eq_dimensions (t : Descriptor) : t.brackets = t.dimensions := by
  rw [brackets, toList_render_eq, List.takeWhile_append_of_pos isBracket_of_mem,
    takeWhile_render_of_ne_array t.leaf_ne_array, List.append_nil, List.length_replicate]

end Brackets

/-- The element of the element, and so on, so many times. -/
def peel : ℕ → Descriptor → Except ElementError Descriptor
  | 0, t => .ok t
  | k + 1, t => t.element >>= peel k

theorem peel_of_element (hu : t.element = .ok u) : peel (k + 1) t = peel k u := by
  rw [peel, hu]
  rfl

theorem peel_of_element_eq_error {e : ElementError} (he : t.element = .error e) :
    peel (k + 1) t = .error e := by
  rw [peel, he]
  rfl

theorem peel_add (j k : ℕ) (t : Descriptor) : peel (j + k) t = peel j t >>= peel k := by
  induction j generalizing t with
  | zero =>
    rw [Nat.zero_add]
    rfl
  | succ j ih =>
    rw [Nat.succ_add]
    cases hu : t.element with
    | error e =>
      rw [peel_of_element_eq_error hu, peel_of_element_eq_error hu]
      rfl
    | ok u => rw [peel_of_element hu, peel_of_element hu, ih]

theorem peel_array (n : ℕ) (inner : Descriptor) :
    peel (n + 1) (array (n + 1) inner) = .ok inner := by
  induction n with
  | zero => rfl
  | succ n ih => exact ih

namespace Dimensioned

/-- Each step gives up one dimension and keeps the leaf. -/
theorem exists_peel (ht : t.Dimensioned) (hk : k ≤ t.dimensions) :
    ∃ u, peel k t = .ok u ∧ u.Dimensioned ∧ u.dimensions + k = t.dimensions ∧
      u.leaf = t.leaf := by
  induction k generalizing t with
  | zero => exact ⟨t, rfl, ht, rfl, rfl⟩
  | succ k ih =>
    -- there is still a dimension to give, and the induction goes on with the element
    obtain ⟨n, inner, rfl, u, hu⟩ := ht.eq_array (by omega)
    have hd := dimensions_eq_of_element hu
    obtain ⟨w, hw, hwd, hsum, hleaf⟩ := ih (ht.element hu) (by omega)
    refine ⟨w, (peel_of_element hu).trans hw, hwd, by omega, ?_⟩
    rw [hleaf, leaf_eq_of_element hu]

theorem peel_eq_array (ht : t.Dimensioned) (hk : k < t.dimensions) :
    ∃ n inner, peel k t = .ok (array n inner) := by
  obtain ⟨u, hu, hd, hsum, -⟩ := ht.exists_peel (Nat.le_of_lt hk)
  obtain ⟨n, inner, rfl, -⟩ := hd.eq_array (by omega)
  exact ⟨n, inner, hu⟩

theorem peel_dimensions (ht : t.Dimensioned) : peel t.dimensions t = .ok t.leaf := by
  obtain ⟨u, hu, hd, hsum, hleaf⟩ := ht.exists_peel (Nat.le_refl _)
  have hz : u.dimensions = 0 := by omega
  rw [hu, ← hleaf, hd.leaf_eq_self hz]

theorem peel_eq_notArray (ht : t.Dimensioned) (hk : t.dimensions < k) :
    peel k t = .error .notArray := by
  obtain ⟨j, rfl⟩ := Nat.exists_eq_add_of_lt hk
  rw [Nat.add_assoc, peel_add, ht.peel_dimensions]
  exact peel_of_element_eq_error (element_eq_notArray_iff.mpr t.leaf_ne_array)

theorem peel_ne_noDimension (ht : t.Dimensioned) (k : ℕ) : peel k t ≠ .error .noDimension := by
  obtain hlt | hle := Nat.lt_or_ge t.dimensions k
  · rw [ht.peel_eq_notArray hlt]
    exact nofun
  · obtain ⟨u, hu, -⟩ := ht.exists_peel hle
    rw [hu]
    exact nofun

end Dimensioned

theorem exists_peel_eq_noDimension (ht : ¬ t.Dimensioned) :
    ∃ k, peel k t = .error .noDimension := by
  induction t with
  | array n inner ih =>
    cases n with
    | zero => exact ⟨1, rfl⟩
    | succ n =>
      -- the outer dimensions come off first, and what they hide is met afterwards
      obtain ⟨k, hk⟩ := ih (fun hi => ht ⟨Nat.succ_ne_zero n, hi⟩)
      refine ⟨n + 1 + k, ?_⟩
      rw [peel_add, peel_array]
      exact hk
  | _ => exact absurd trivial ht

theorem dimensioned_iff_peel_ne_noDimension :
    t.Dimensioned ↔ ∀ k, peel k t ≠ .error .noDimension := by
  constructor
  · exact Dimensioned.peel_ne_noDimension
  · intro hne
    by_contra ht
    obtain ⟨k, hk⟩ := exists_peel_eq_noDimension ht
    exact hne k hk

/-- The element of a type is what stands behind the first bracket of its text. Taking elements goes
on to the leaf exactly if no array is without a dimension, and takes as many steps as there are
brackets. -/
theorem element_and_peel_brackets (t : Descriptor) :
    (t.element = .error .notArray ↔ ∀ n inner, t ≠ array n inner) ∧
      (t.element = .error .noDimension ↔ ∃ inner, t = array 0 inner) ∧
      ((∃ u, t.element = .ok u) ↔ ∃ n inner, t = array (n + 1) inner) ∧
      (∀ u, t.element = .ok u → t.render = "[" ++ u.render) ∧
      (t.Dimensioned ↔ ∀ k, peel k t ≠ .error .noDimension) ∧
      (t.Dimensioned →
        (∀ k, k < t.brackets → ∃ n inner, peel k t = .ok (array n inner)) ∧
        (peel t.brackets t = .ok t.leaf ∧ ∀ n inner, t.leaf ≠ array n inner) ∧
        ∀ k, t.brackets < k → peel k t = .error .notArray) := by
  refine ⟨element_eq_notArray_iff, element_eq_noDimension_iff, exists_element_iff,
    fun u => render_eq_of_element, dimensioned_iff_peel_ne_noDimension, fun ht => ?_⟩
  rw [brackets_eq_dimensions]
  exact ⟨fun k => ht.peel_eq_array, ⟨ht.peel_dimensions, t.leaf_ne_array⟩,
    fun k => ht.peel_eq_notArray⟩

/-- Nested arrays are peeled like one array of all their dimensions. -/
theorem element_and_peel_brackets_nested :
    let t : Descriptor := array 1 (array 2 (ofClass "A"))
    t.element = .ok (array 2 (ofClass "A")) ∧ t.render = "[" ++ (array 2 (ofClass "A")).render ∧
      t.Dimensioned ∧ t.brackets = 3 ∧ peel 3 t = .ok (ofClass "A") ∧
      peel 4 t = .error .notArray := by
  intro t
  have ht : t.Dimensioned := ⟨by decide, by decide, trivial⟩
  have hb : t.brackets = 3 := t.brackets_eq_dimensions
  have hu : t.element = .ok (array 2 (ofClass "A")) := rfl
  obtain ⟨-, -, -, hrender, -, hpeel⟩ := element_and_peel_brackets t
  obtain ⟨-, ⟨hleaf, -⟩, hpast⟩ := hpeel ht
  rw [hb] at hleaf
  exact ⟨hu, hrender _ hu, ht, hb, hleaf, hpast 4 (hb ▸ by decide)⟩

/-- What is left behind the first bracket has no dimension to give. -/
example : peel 2 (array 1 (array 0 int)) = .error .noDimension := rfl

end DalvikStores.Descriptor
