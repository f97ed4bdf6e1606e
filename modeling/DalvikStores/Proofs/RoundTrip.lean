import DalvikStores.Proofs.Effect
import DalvikStores.Proofs.InstructionSpelling

/-!
# Reading what was written

The text of an instruction is its mnemonic, one blank, and its registers with a comma and a blank
between them. The decimal digits of a register spell its number again, and so the text spells the
instruction, with either letter in front of the digits. Reading it at the same address gives the
instruction back, and the text of an operation, which has the other letter, gives the operation.
-/

namespace DalvikStores

namespace Register

theorem spells_render (r : Register) : Spells r.render.toList r := by
  rw [render, String.toList_append]
  exact .intro (.inl rfl) (Numeral.spells_toString r.index)

theorem spells_operand (r : Register) : Spells (Aput.operand r).toList r := by
  rw [Aput.operand, String.toList_append]
  exact .intro (.inr rfl) (Numeral.spells_toString r.index)

theorem SpellsList.cons {text cs : List Char} {r : Register} {rs : List Register}
    (hr : Spells text r) (hl : SpellsList cs rs) :
    SpellsList (text ++ (", ".toList ++ cs)) (r :: rs) := by
  cases hl with
  | intro hr' hrs => exact .intro hr (.cons Reader.isBlanks_nil Reader.isBlanks_space hr' hrs)

theorem spellsList_separated {write : Register → String}
    (hw : ∀ r, Spells (write r).toList r) (r : Register) (rs : List Register) :
    SpellsList (Text.separated ((r :: rs).map write)).toList (r :: rs) := by
  induction rs generalizing r with
  | nil =>
    have hl := SpellsList.intro (hw r) .nil
    rwa [List.append_nil] at hl
  | cons r' rs ih =>
    rw [List.map_cons, List.map_cons, Text.separated_cons_cons, String.append_assoc,
      String.toList_append, String.toList_append]
    exact (ih r').cons (hw r)

end Register

namespace Instruction

variable {address : Address} {cs : List Char} {mnemonic text : String} {rs : List Register}
  {i : Instruction}

theorem Spells.isMnemonic (hs : Spells cs mnemonic rs) : IsMnemonic mnemonic.toList := by
  cases hs with
  | intro _ hm =>
    rw [String.toList_ofList]
    exact hm

theorem spells_append {operands : String} (hm : IsMnemonic mnemonic.toList)
    (hl : Register.SpellsList operands.toList rs) :
    Spells (mnemonic ++ " " ++ operands).toList mnemonic rs := by
  have hs := Spells.intro Reader.isBlanks_nil hm Reader.isBlanks_space (List.cons_ne_nil _ _) hl
    Reader.isBlanks_nil
  rw [String.ofList_toList, List.append_nil, List.nil_append] at hs
  rwa [String.append_assoc, String.toList_append, String.toList_append]

theorem spells_render (hm : IsMnemonic i.mnemonic.toList) (hr : i.registers ≠ []) :
    Spells i.render.toList i.mnemonic i.registers := by
  unfold render
  cases hrs : i.registers with
  | nil => exact absurd hrs hr
  | cons r rs => exact spells_append hm (Register.spellsList_separated Register.spells_render r rs)

theorem parse_render (hm : IsMnemonic i.mnemonic.toList)
    (hu : units i.registers.length = .ok i.size) : parse i.address i.render = .ok i := by
  have hr : i.registers ≠ [] := by
    intro hr
    rw [hr] at hu
    cases hu
  exact parse_eq_ok_iff.mpr ⟨spells_render hm hr, hu, rfl⟩

theorem parse_render_of_parse (hi : parse address text = .ok i) :
    parse i.address i.render = .ok i := by
  obtain ⟨hs, hu, -⟩ := parse_eq_ok_iff.mp hi
  exact parse_render hs.isMnemonic hu

end Instruction

namespace Aput

variable {address : Address} {text : String} {op : Aput}

/-- The text of an operation reads as the instruction that it was made from. -/
theorem ofText_render (ho : ofText address text = .ok op) :
    ofText op.address op.render = .ok op := by
  obtain ⟨i, hi, hc⟩ := exists_create_of_ofText ho
  obtain ⟨ha, hn, hr⟩ := of_create hc
  obtain ⟨hs, hu, -⟩ := Instruction.parse_eq_ok_iff.mp hi
  have hoperands := Register.spellsList_separated Register.spells_operand op.value
    [op.array, op.index]
  have hrender : Instruction.Spells op.render.toList i.mnemonic i.registers := by
    rw [hr, render, ← hn]
    exact Instruction.spells_append hs.isMnemonic hoperands
  have hparse : Instruction.parse op.address op.render = .ok i :=
    Instruction.parse_eq_ok_iff.mpr ⟨hrender, hu, ha⟩
  rw [ofText_of_parse hparse, hc]

/-- The text of an instruction is read as this instruction, at the same address. The text of an
operation that came from a text is read as this operation, so that executing it is executing the
operation. -/
theorem parse_render_and_ofText_render :
    (∀ i : Instruction, Instruction.IsMnemonic i.mnemonic.toList →
        (i.registers.length, i.size) ∈ [(1, 1), (2, 1), (3, 2)] →
        Instruction.parse i.address i.render = .ok i) ∧
      (∀ address text i, Instruction.parse address text = .ok i →
        i.address = address ∧ Instruction.parse address i.render = .ok i) ∧
      ∀ address text op, ofText address text = .ok op →
        ofText op.address op.render = .ok op ∧
          ∀ h s, Execution.ofText h op.address op.render s = op.execute h s := by
  refine ⟨fun i hm hsize => ?_, fun address text i hi => ?_, fun address text op ho => ?_⟩
  · apply Instruction.parse_render hm
    simp only [List.mem_cons, Prod.mk.injEq, List.not_mem_nil, or_false] at hsize
    rcases hsize with ⟨hr, hs⟩ | ⟨hr, hs⟩ | ⟨hr, hs⟩
    all_goals
      rw [hr, hs]
      rfl
  · obtain rfl : i.address = address := (Instruction.parse_eq_ok_iff.mp hi).2.2
    exact ⟨rfl, Instruction.parse_render_of_parse hi⟩
  · have hrender := ofText_render ho
    refine ⟨hrender, fun h s => ?_⟩
    rw [Execution.ofText_eq, hrender]

/-- Blanks and leading zeros are not written again. -/
theorem parse_render_and_ofText_render_spaced :
    let i : Instruction := ⟨⟨7⟩, "const/4", 1, [⟨3⟩]⟩
    let op : Aput := ⟨⟨7⟩, "aput-char", .char, ⟨9⟩, ⟨3⟩, ⟨12⟩, ⟨65535⟩⟩
    Instruction.IsMnemonic i.mnemonic.toList ∧
      Instruction.parse ⟨7⟩ "const/4 v3" = .ok i ∧
      Instruction.parse ⟨7⟩ "\tconst/4  r003 " = .ok i ∧
      ofText ⟨7⟩ " aput-char v3,v00012 , r65535\t" = .ok op ∧
      ofText ⟨7⟩ "aput-char r3, r12, r65535" = .ok op := by
  intro i op
  have hi : Instruction.parse ⟨7⟩ "\tconst/4  r003 " = .ok i := by decide +kernel +revert
  have ho : ofText ⟨7⟩ " aput-char v3,v00012 , r65535\t" = .ok op := by decide +kernel +revert
  have hrender : op.render = "aput-char r3, r12, r65535" := by decide +kernel +revert
  have hm : Instruction.IsMnemonic i.mnemonic.toList :=
    (Instruction.parse_eq_ok_iff.mp hi).1.isMnemonic
  obtain ⟨hwritten, -, hoperation⟩ := parse_render_and_ofText_render
  obtain ⟨hop, -⟩ := hoperation ⟨7⟩ _ op ho
  rw [hrender] at hop
  exact ⟨hm, hwritten i hm (by decide), hi, ho, hop⟩

end Aput

end DalvikStores
