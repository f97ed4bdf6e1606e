import DalvikStores.Proofs.Spelling

/-!
# How many brackets can be read

An array type shows its element type behind a bracket for each of its dimensions. Reading this text
gives the type back up to 254 dimensions. From 255 on neither way of reading looks at the element
type: the brackets alone are too many, whatever stands behind them.
-/

namespace DalvikStores.Descriptor

/-- A primitive type, or a class with a name that a descriptor can hold. -/
def IsElement : Descriptor → Prop
  | void => False
  | array _ _ => False
  | ofClass name => name ≠ "" ∧ ';' ∉ name.toList
  | _ => True

variable {t : Descriptor} {cs leaf : List Char} {n : ℕ}

theorem IsElement.spellsLeaf (ht : t.IsElement) : SpellsLeaf t.render.toList t := by
  cases t with
  | void => exact absurd ht id
  | array => exact absurd ht id
  | ofClass name =>
    have hne : name.toList ≠ [] := fun he => ht.1 (String.toList_eq_nil_iff.mp he)
    have hspells := SpellsLeaf.ofClass hne ht.2
    rw [String.ofList_toList] at hspells
    rwa [render, String.toList_append, String.toList_append]
  | boolean => exact .boolean
  | byte => exact .byte
  | short => exact .short
  | char => exact .char
  | int => exact .int
  | long => exact .long
  | float => exact .float
  | double => exact .double

theorem IsElement.parse_render (ht : t.IsElement) : parse t.render = .ok t :=
  parse_eq_ok_iff.mpr (.leaf ht.spellsLeaf)

theorem toList_render_array (n : ℕ) (t : Descriptor) :
    (array n t).render.toList = List.replicate n '[' ++ t.render.toList := by
  rw [render, String.toList_append, String.toList_ofList]

theorem spells_render_array (ht : t.IsElement) (hz : n ≠ 0) (hn : n < 255) :
    Spells (array n t).render.toList (array n t) := by
  rw [toList_render_array]
  exact .array hz hn ht.spellsLeaf

theorem ofText_eq_badDimensions (hb : 255 ≤ (cs.takeWhile isBracket).length) :
    ofText cs = .error (.badDimensions cs) := by
  have hv : cs ≠ ['V'] := by
    rintro rfl
    exact absurd hb (by decide)
  unfold ofText
  rw [if_neg hv]
  exact if_pos (.inr hb)

theorem ofText_replicate_append_eq_error (hn : 255 ≤ n) (leaf : List Char) :
    ofText (List.replicate n '[' ++ leaf) =
      .error (.badDimensions (List.replicate n '[' ++ leaf)) := by
  apply ofText_eq_badDimensions
  rw [List.takeWhile_append_of_pos isBracket_of_mem, List.length_append, List.length_replicate]
  exact Nat.le_add_right_of_le hn

/-- The extent of a descriptor is found without counting, and so the reader hands over all of it. -/
theorem parse_render_array_eq_error (ht : t.IsElement) (hn : 255 ≤ n) :
    parse (array n t).render = .error (.badDimensions (array n t).render.toList) := by
  have hread := read_replicate_append_eq n ht.spellsLeaf []
  rw [ofText_replicate_append_eq_error hn, List.append_nil, ← toList_render_array] at hread
  rw [parse, Reader.whole, hread]
  rfl

/-- An array of elements is read again from its text exactly up to 254 dimensions. -/
theorem ofText_and_parse_render_array (t : Descriptor) (ht : t.IsElement) (n : ℕ) (hn : 1 ≤ n) :
    let text := (array n t).render
    let outcome : Except ReadError Descriptor :=
      if n ≤ 254 then .ok (array n t) else .error (.badDimensions text.toList)
    ofText text.toList = outcome ∧ parse text = outcome := by
  intro text outcome
  by_cases hle : n ≤ 254
  · have hspells : Spells text.toList (array n t) :=
      spells_render_array ht (Nat.ne_of_gt hn) (Nat.lt_succ_of_le hle)
    have hok : outcome = .ok (array n t) := if_pos hle
    rw [hok]
    exact ⟨ofText_eq_ok_iff.mpr hspells, parse_eq_ok_iff.mpr hspells⟩
  · have hge : 255 ≤ n := Nat.lt_of_not_le hle
    have herror : outcome = .error (.badDimensions text.toList) := if_neg hle
    rw [herror]
    refine ⟨?_, parse_render_array_eq_error ht hge⟩
    rw [toList_render_array]
    exact ofText_replicate_append_eq_error hge _

theorem parse_render_array_254 :
    let t : Descriptor := ofClass "java/lang/String"
    t.IsElement ∧ parse (array 254 t).render = .ok (array 254 t) := by
  intro t
  have ht : t.IsElement := ⟨by decide, by decide⟩
  obtain ⟨-, hparse⟩ := ofText_and_parse_render_array t ht 254 (by decide)
  exact ⟨ht, hparse.trans (if_pos (Nat.le_refl 254))⟩

/-- Of two arrays of ints that only differ in one dimension, the deeper one cannot be read. -/
theorem parse_render_array_255 :
    let text := (array 255 int).render
    int.IsElement ∧ ofText text.toList = .error (.badDimensions text.toList) ∧
      parse text = .error (.badDimensions text.toList) ∧
      parse (array 254 int).render = .ok (array 254 int) := by
  intro text
  have ht : int.IsElement := trivial
  refine ⟨ht, ?_, parse_render_array_eq_error ht (Nat.le_refl 255), ?_⟩
  · simp only [text, toList_render_array]
    exact ofText_replicate_append_eq_error (Nat.le_refl 255) _
  · exact parse_eq_ok_iff.mpr (spells_render_array ht (by decide) (by decide))

end DalvikStores.Descriptor
