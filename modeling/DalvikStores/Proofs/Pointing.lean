import DalvikStores.Proofs.AssignmentSpelling
import DalvikStores.Proofs.InstructionSpelling

/-!
# Where misread texts point

A reader that finds something else than it looks for says what was left of the text there, and
this is an end of the text. Only the reader of a whole text looks for its end. Where it misses that,
everything in front of the place is a text of its own: a descriptor, an instruction or an assignment
is read in the same way when the text stops behind it.
-/

namespace DalvikStores

open Reader

namespace Reader

/-- The rest is an end of the text. Where nothing but the end of the text was missing, there is
something left, and the text is accepted as far as it has been read. -/
def Marks (accepts : List Char → Prop) (cs rest : List Char) (wanted : Expectation) : Prop :=
  ∃ front, cs = front ++ rest ∧ (wanted = .endOfText → rest ≠ [] ∧ accepts front)

variable {α : Type} {read : Reader α} {p : Char → Bool} {cs rest : List Char}
  {wanted wanted' : Expectation}

/-- What is read is read alone in the same way, and an error is found inside of the text. -/
structure IsLocal (read : Reader α) : Prop where
  exists_front {cs rest : List Char} {a : α} (hr : read cs = .ok (a, rest)) :
    ∃ front, cs = front ++ rest ∧ read front = .ok (a, [])
  suffix {cs rest : List Char} {wanted : Expectation}
    (he : read cs = .error (.unexpected rest wanted)) : rest <:+ cs ∧ wanted ≠ .endOfText

theorem suffix_of_someWhile (he : someWhile p wanted cs = .error (.unexpected rest wanted'))
    (hw : wanted ≠ .endOfText) : rest <:+ cs ∧ wanted' ≠ .endOfText := by
  cases someWhile_eq_error he
  exact ⟨List.suffix_rfl, hw⟩

theorem suffix_skipBlanks (cs : List Char) : skipBlanks cs <:+ cs := List.dropWhile_suffix _

theorem IsLocal.marks_whole (hr : IsLocal read)
    (he : whole read cs = .error (.unexpected rest wanted)) :
    Marks (fun front => ∃ a, whole read front = .ok a) cs rest wanted := by
  unfold whole at he
  split at he
  · rename_i hread
    cases he
    obtain ⟨⟨front, hfront⟩, hw⟩ := hr.suffix hread
    exact ⟨front, hfront.symm, fun he => absurd he hw⟩
  · cases he
  · rename_i a _ hne hread
    cases he
    obtain ⟨front, hcs, hfront⟩ := hr.exists_front hread
    exact ⟨front, hcs, fun _ => ⟨hne, a, whole_eq_ok_iff.mpr hfront⟩⟩

end Reader

namespace Register

variable {cs rest : List Char} {wanted : Expectation}

theorem isLocal_read : IsLocal read where
  exists_front hr := by
    obtain ⟨text, ht, -, rfl⟩ := read_eq_ok_iff.mp hr
    exact ⟨text, rfl, read_eq_ok_iff.mpr ⟨text, ht, rfl, (List.append_nil _).symm⟩⟩
  suffix he := by
    unfold read at he
    split at he
    · cases he
      exact ⟨List.suffix_rfl, nofun⟩
    · split_ifs at he
      · obtain hd | ⟨p, -, he⟩ := bind_eq_error_iff.mp he
        · obtain ⟨hs, hw⟩ := suffix_of_someWhile hd nofun
          exact ⟨hs.trans (List.suffix_cons _ _), hw⟩
        · obtain ho | ⟨r, -, hp⟩ := bind_eq_error_iff.mp he
          · cases ofDigits_eq_error ho
          · cases hp
      · cases he
        exact ⟨List.suffix_rfl, nofun⟩

theorem suffix_of_readList (he : readList cs = .error (.unexpected rest wanted)) :
    rest <:+ cs ∧ wanted ≠ .endOfText := by
  unfold readList at he
  obtain hr | ⟨_, -, hp⟩ := bind_eq_error_iff.mp he
  · exact isLocal_read.suffix hr
  · cases hp

end Register

namespace Descriptor

variable {cs rest : List Char} {wanted : Expectation} {e : ReadError}

theorem suffix_of_leafExtent (he : leafExtent cs = .error (.unexpected rest wanted)) :
    rest <:+ cs ∧ wanted ≠ .endOfText := by
  unfold leafExtent at he
  split at he
  · cases he
    exact ⟨List.suffix_rfl, nofun⟩
  · rename_i c cs'
    split_ifs at he
    · obtain hn | ⟨⟨name, after⟩, -, he⟩ := bind_eq_error_iff.mp he
      · obtain ⟨hs, hw⟩ := suffix_of_someWhile hn nofun
        exact ⟨hs.trans (List.suffix_cons _ _), hw⟩
      · cases after with
        | nil =>
          cases he
          exact ⟨List.nil_suffix, nofun⟩
        | cons => cases he
    · cases he
      exact ⟨List.suffix_rfl, nofun⟩

/-- A text that is no type is not searched for a place where it goes wrong. -/
theorem ofText_ne_unexpected : ofText cs ≠ .error (.unexpected rest wanted) := by
  intro he
  unfold ofText at he
  split at he
  · cases he
  · dsimp only at he
    split at he
    · cases he
    · split at he <;> cases he

theorem isLocal_read : IsLocal read where
  exists_front hr := by
    obtain ⟨text, ht, rfl⟩ := read_eq_ok_iff.mp hr
    exact ⟨text, rfl, read_eq_ok_iff.mpr ⟨text, ht, (List.append_nil _).symm⟩⟩
  suffix {cs _ _} he := by
    rw [read_eq] at he
    split at he
    · rename_i hl
      cases he
      obtain ⟨hs, hw⟩ := suffix_of_leafExtent hl
      exact ⟨hs.trans (List.dropWhile_suffix _), hw⟩
    · split at he
      · rename_i ho
        cases he
        exact absurd ho ofText_ne_unexpected
      · cases he

end Descriptor

namespace Instruction

theorem isLocal_readParts : IsLocal readParts where
  exists_front hp := by
    obtain ⟨text, ht, he⟩ := exists_spells hp
    exact ⟨text, he, ht.readParts_eq⟩
  suffix {cs _ _} he := by
    unfold readParts at he
    have hskip := suffix_skipBlanks cs
    obtain hm | ⟨⟨m, afterMnemonic⟩, hm, he⟩ := bind_eq_error_iff.mp he
    · obtain ⟨hs, hw⟩ := suffix_of_someWhile hm nofun
      exact ⟨hs.trans hskip, hw⟩
    · have hafter : afterMnemonic <:+ cs := by
        obtain ⟨-, -, -, hcs⟩ := someWhile_eq_ok_iff.mp hm
        exact .trans ⟨m, hcs.symm⟩ hskip
      obtain hb | ⟨⟨b, operands⟩, hb, he⟩ := bind_eq_error_iff.mp he
      · obtain ⟨hs, hw⟩ := suffix_of_someWhile hb nofun
        exact ⟨hs.trans hafter, hw⟩
      · have hoperands : operands <:+ cs := by
          obtain ⟨-, -, -, hcs⟩ := someWhile_eq_ok_iff.mp hb
          exact .trans ⟨b, hcs.symm⟩ hafter
        obtain hl | ⟨_, -, hp⟩ := bind_eq_error_iff.mp he
        · obtain ⟨hs, hw⟩ := Register.suffix_of_readList hl
          exact ⟨hs.trans hoperands, hw⟩
        · cases hp

end Instruction

/-- Where no word is read, the text is taken for a register. -/
theorem Literal.isLocal_read : IsLocal Literal.read where
  exists_front hr := by
    obtain ⟨text, ht, he⟩ := exists_spells hr
    exact ⟨text, he, ht.read_eq⟩
  suffix he := by
    unfold read at he
    split at he
    · cases he
    · obtain hr | ⟨_, -, hp⟩ := bind_eq_error_iff.mp he
      · exact Register.isLocal_read.suffix hr
      · cases hp

theorem Assignment.isLocal_read : IsLocal Assignment.read where
  exists_front {_ _ a} hr := by
    obtain ⟨r, l⟩ := a
    obtain ⟨text, ds, ht, hl, rfl⟩ := read_eq_ok_iff.mp hr
    obtain ⟨front, rfl, hfront⟩ := Literal.isLocal_read.exists_front hl
    refine ⟨text ++ '=' :: front, by rw [List.append_assoc, List.cons_append], ?_⟩
    exact read_eq_ok_iff.mpr ⟨text, front, ht, hfront, rfl⟩
  suffix {cs _ _} he := by
    unfold read at he
    obtain hr | ⟨⟨r, after⟩, hr, he⟩ := bind_eq_error_iff.mp he
    · exact Register.isLocal_read.suffix hr
    · have hafter : after <:+ cs := by
        obtain ⟨text, -, -, rfl⟩ := Register.read_eq_ok_iff.mp hr
        exact List.suffix_append _ _
      dsimp only at he
      split at he
      · obtain hl | ⟨_, -, hp⟩ := bind_eq_error_iff.mp he
        · obtain ⟨hs, hw⟩ := Literal.isLocal_read.suffix hl
          exact ⟨(hs.trans (List.suffix_cons _ _)).trans hafter, hw⟩
        · cases hp
      · cases he
        exact ⟨hafter, nofun⟩

/-- A descriptor, an instruction or an assignment that is misread points to an end of its text, and
to what is left over where the text goes on behind something that is accepted alone. -/
theorem parse_marks (text : String) (rest : List Char) (wanted : Expectation) :
    (Descriptor.parse text = .error (.unexpected rest wanted) →
      Marks (fun front => ∃ t, Descriptor.parse (String.ofList front) = .ok t)
        text.toList rest wanted) ∧
      (∀ address, Instruction.parse address text = .error (.unexpected rest wanted) →
        Marks (fun front => ∃ parts, whole Instruction.readParts front = .ok parts)
          text.toList rest wanted) ∧
      (Assignment.parse text = .error (.unexpected rest wanted) →
        Marks (fun front => ∃ p, Assignment.parse (String.ofList front) = .ok p)
          text.toList rest wanted) := by
  refine ⟨fun he => ?_, fun address he => ?_, fun he => ?_⟩
  · simp only [Descriptor.parse, String.toList_ofList]
    exact Descriptor.isLocal_read.marks_whole he
  · obtain he | ⟨_, _, -, hu⟩ := Instruction.parse_eq_error_iff.mp he
    · exact Instruction.isLocal_readParts.marks_whole he
    · cases (Instruction.units_eq_error_iff.mp hu).2
  · simp only [Assignment.parse, String.toList_ofList]
    exact Assignment.isLocal_read.marks_whole he

theorem parse_marks_leftover :
    Descriptor.parse "[IJ" = .error (.unexpected ['J'] .endOfText) ∧
      Marks (fun front => ∃ t, Descriptor.parse (String.ofList front) = .ok t)
        "[IJ".toList ['J'] .endOfText ∧
      Instruction.parse ⟨0⟩ "aput v1 , v2 ,v65536" =
        .error (.unexpected ",v65536".toList .endOfText) ∧
      Marks (fun front => ∃ parts, whole Instruction.readParts front = .ok parts)
        "aput v1 , v2 ,v65536".toList ",v65536".toList .endOfText ∧
      Assignment.parse "v0=null5" = .error (.unexpected ['5'] .endOfText) ∧
      Marks (fun front => ∃ p, Assignment.parse (String.ofList front) = .ok p)
        "v0=null5".toList ['5'] .endOfText := by
  have hd : Descriptor.parse "[IJ" = .error (.unexpected ['J'] .endOfText) := by decide
  have hi : Instruction.parse ⟨0⟩ "aput v1 , v2 ,v65536" =
      .error (.unexpected ",v65536".toList .endOfText) := by decide +kernel
  have ha : Assignment.parse "v0=null5" = .error (.unexpected ['5'] .endOfText) := by decide
  obtain ⟨hdescriptor, -, -⟩ := parse_marks "[IJ" ['J'] .endOfText
  obtain ⟨-, hinstruction, -⟩ := parse_marks "aput v1 , v2 ,v65536" ",v65536".toList .endOfText
  obtain ⟨-, -, hassignment⟩ := parse_marks "v0=null5" ['5'] .endOfText
  exact ⟨hd, hdescriptor hd, hi, hinstruction ⟨0⟩ hi, ha, hassignment ha⟩

end DalvikStores
