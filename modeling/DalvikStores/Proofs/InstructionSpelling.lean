import DalvikStores.Instruction
import DalvikStores.Proofs.Reading

/-!
# How instructions are spelled

`Spells` says which texts are instructions, with how many registers so ever. The reader accepts
exactly these, with the mnemonic and the registers that they spell, as long as there are at most
three registers. More registers than that are an error of their own, and every other text is
misread. The greedy readers of blanks, mnemonics and digits cannot take too much, since a run of
each of these is followed by a character of another kind, and a list of registers cannot end too
early, since no register follows the blanks at the end of the text.
-/

namespace DalvikStores

namespace Reader

variable {cs b rest : List Char}

def IsBlanks (cs : List Char) : Prop := ∀ c ∈ cs, c = ' ' ∨ c = '\t'

theorem isBlanks_nil : IsBlanks [] := by simp [IsBlanks]

theorem isBlanks_space : IsBlanks [' '] := by simp [IsBlanks]

theorem isBlank_iff {c : Char} : isBlank c = true ↔ c = ' ' ∨ c = '\t' := by
  rw [isBlank, Bool.or_eq_true, beq_iff_eq, beq_iff_eq]

theorem isBlanks_iff : IsBlanks cs ↔ ∀ c ∈ cs, isBlank c = true := by
  simp only [IsBlanks, isBlank_iff]

theorem skipBlanks_append (hb : IsBlanks b) (hr : rest.takeWhile isBlank = []) :
    skipBlanks (b ++ rest) = rest := dropWhile_append (isBlanks_iff.mp hb) hr

theorem skipBlanks_of_isBlanks (hb : IsBlanks b) : skipBlanks b = [] := by
  rw [← List.append_nil b]
  exact skipBlanks_append hb rfl

theorem takeWhile_isDigit_of_isBlanks (hb : IsBlanks b) : b.takeWhile Char.isDigit = [] := by
  cases b with
  | nil => rfl
  | cons c b => rcases hb c List.mem_cons_self with rfl | rfl <;> rfl

/-- What is skipped are blanks, and what is left starts with none. -/
theorem exists_blanks (cs : List Char) : ∃ b, IsBlanks b ∧ cs = b ++ skipBlanks cs := by
  refine ⟨cs.takeWhile isBlank, ?_, List.takeWhile_append_dropWhile.symm⟩
  rw [isBlanks_iff]
  exact fun c hc => List.mem_takeWhile_imp hc

end Reader

open Reader

namespace Register

variable {cs text rest : List Char} {r : Register} {rs : List Register}

/-- Registers behind the first one, each with a comma in front of it. -/
inductive SpellsFurther : List Char → List Register → Prop
  | nil : SpellsFurther [] []
  | cons {b b' text cs : List Char} {r : Register} {rs : List Register} (hb : IsBlanks b)
      (hb' : IsBlanks b') (hr : Spells text r) (hrs : SpellsFurther cs rs) :
      SpellsFurther (b ++ ',' :: (b' ++ (text ++ cs))) (r :: rs)

/-- Registers with commas between them. -/
inductive SpellsList : List Char → List Register → Prop
  | intro {text cs : List Char} {r : Register} {rs : List Register} (hr : Spells text r)
      (hrs : SpellsFurther cs rs) : SpellsList (text ++ cs) (r :: rs)

theorem Spells.takeWhile_isBlank (hr : Spells text r) (cs : List Char) :
    (text ++ cs).takeWhile isBlank = [] := by
  cases hr with
  | intro hc => rcases hc with rfl | rfl <;> rfl

theorem SpellsFurther.takeWhile_isDigit (hrs : SpellsFurther cs rs)
    (hr : rest.takeWhile Char.isDigit = []) : (cs ++ rest).takeWhile Char.isDigit = [] := by
  cases hrs with
  | nil => exact hr
  | @cons b _ _ _ _ _ hb =>
    cases b with
    | nil => rfl
    | cons c b => rcases hb c List.mem_cons_self with rfl | rfl <;> rfl

theorem readNext_eq_some_iff :
    readNext cs = some (r, rest) ↔ ∃ b b' text, IsBlanks b ∧ IsBlanks b' ∧ Spells text r ∧
      rest.takeWhile Char.isDigit = [] ∧ cs = b ++ ',' :: (b' ++ (text ++ rest)) := by
  constructor
  · intro hn
    unfold readNext at hn
    split at hn
    · rename_i ds hds
      cases hr : read (skipBlanks ds) with
      | error e => rw [hr] at hn; cases hn
      | ok p =>
        rw [hr] at hn
        cases hn
        obtain ⟨text, htext, hstop, he⟩ := read_eq_ok_iff.mp hr
        obtain ⟨b, hb, hcs⟩ := exists_blanks cs
        obtain ⟨b', hb', hds'⟩ := exists_blanks ds
        refine ⟨b, b', text, hb, hb', htext, hstop, ?_⟩
        rw [← he, ← hds', ← hds, ← hcs]
    · cases hn
  · rintro ⟨b, b', text, hb, hb', htext, hstop, rfl⟩
    have hcomma : skipBlanks (b ++ ',' :: (b' ++ (text ++ rest))) =
        ',' :: (b' ++ (text ++ rest)) := skipBlanks_append hb rfl
    have hregister : skipBlanks (b' ++ (text ++ rest)) = text ++ rest :=
      skipBlanks_append hb' (htext.takeWhile_isBlank rest)
    have hr : read (text ++ rest) = .ok (r, rest) :=
      read_eq_ok_iff.mpr ⟨text, htext, hstop, rfl⟩
    simp only [readNext, hcomma, hregister, hr]
    rfl

theorem readNext_of_isBlanks (hb : IsBlanks cs) : readNext cs = none := by
  simp only [readNext, skipBlanks_of_isBlanks hb]

theorem readFurther_of_readNext_eq_none (hn : readNext cs = none) : readFurther cs = ([], cs) := by
  rw [readFurther]
  split
  · rename_i hs
    cases hn.symm.trans hs
  · rfl

theorem readFurther_of_readNext (hn : readNext cs = some (r, rest)) :
    readFurther cs = (r :: (readFurther rest).1, (readFurther rest).2) := by
  rw [readFurther]
  split
  · rename_i hs
    cases hn.symm.trans hs
    rfl
  · rename_i hs
    cases hn.symm.trans hs

/-- Registers are read as long as one follows. -/
theorem readFurther_append (hrs : SpellsFurther cs rs) (hb : IsBlanks rest) :
    readFurther (cs ++ rest) = (rs, rest) := by
  have hstop := takeWhile_isDigit_of_isBlanks hb
  induction hrs with
  -- The last round skips the blanks at the end, finds no comma, and gives them back.
  | nil => exact readFurther_of_readNext_eq_none (readNext_of_isBlanks hb)
  | @cons b b' text cs r rs hb hb' hr hrs ih =>
    have hn : readNext (b ++ ',' :: (b' ++ (text ++ cs)) ++ rest) = some (r, cs ++ rest) := by
      apply readNext_eq_some_iff.mpr
      refine ⟨b, b', text, hb, hb', hr, hrs.takeWhile_isDigit hstop, ?_⟩
      simp only [List.append_assoc, List.cons_append]
    rw [readFurther_of_readNext hn, ih]

theorem exists_spellsFurther (cs : List Char) :
    ∃ text, SpellsFurther text (readFurther cs).1 ∧ cs = text ++ (readFurther cs).2 := by
  induction cs using readFurther.induct with
  | case1 cs r rest hn _ _ _ ih =>
    obtain ⟨text, htext, he⟩ := ih
    obtain ⟨b, b', text', hb, hb', hr, -, hcs⟩ := readNext_eq_some_iff.mp hn
    rw [readFurther_of_readNext hn]
    refine ⟨b ++ ',' :: (b' ++ (text' ++ text)), .cons hb hb' hr htext, ?_⟩
    simp only [List.append_assoc, List.cons_append, ← he, ← hcs]
  | case2 cs hn =>
    rw [readFurther_of_readNext_eq_none hn]
    exact ⟨[], .nil, rfl⟩

theorem readList_eq_ok_iff :
    readList cs = .ok (rs, rest) ↔ ∃ r ds, read cs = .ok (r, ds) ∧
      rs = r :: (readFurther ds).1 ∧ rest = (readFurther ds).2 := by
  unfold readList
  rw [bind_eq_ok_iff]
  constructor
  · rintro ⟨⟨r, ds⟩, hr, he⟩
    cases he
    exact ⟨r, ds, hr, rfl, rfl⟩
  · rintro ⟨r, ds, hr, rfl, rfl⟩
    exact ⟨(r, ds), hr, rfl⟩

theorem exists_spellsList (hl : readList cs = .ok (rs, rest)) :
    ∃ text, SpellsList text rs ∧ cs = text ++ rest := by
  obtain ⟨r, ds, hr, rfl, rfl⟩ := readList_eq_ok_iff.mp hl
  obtain ⟨text, htext, -, rfl⟩ := read_eq_ok_iff.mp hr
  obtain ⟨further, hfurther, he⟩ := exists_spellsFurther ds
  exact ⟨text ++ further, .intro htext hfurther, by rw [List.append_assoc, ← he]⟩

theorem isMisreading_of_readList {e : ReadError} (he : readList cs = .error e) :
    e.IsMisreading := by
  unfold readList at he
  obtain hr | ⟨_, -, hp⟩ := bind_eq_error_iff.mp he
  · exact isMisreading_of_read hr
  · cases hp

theorem SpellsList.takeWhile_isBlank (hl : SpellsList text rs) (cs : List Char) :
    (text ++ cs).takeWhile isBlank = [] := by
  cases hl with
  | intro hr =>
    rw [List.append_assoc]
    exact hr.takeWhile_isBlank _

theorem readList_append (hl : SpellsList cs rs) (hb : IsBlanks rest) :
    readList (cs ++ rest) = .ok (rs, rest) := by
  cases hl with
  | @intro text further r rs hr hrs =>
    have hstop := hrs.takeWhile_isDigit (takeWhile_isDigit_of_isBlanks hb)
    have hread : read (text ++ further ++ rest) = .ok (r, further ++ rest) :=
      read_eq_ok_iff.mpr ⟨text, hr, hstop, List.append_assoc _ _ _⟩
    rw [readList_eq_ok_iff]
    exact ⟨r, further ++ rest, hread, by rw [readFurther_append hrs hb], by
      rw [readFurther_append hrs hb]⟩

end Register

namespace Instruction

variable {address : Address} {cs m b rest : List Char} {mnemonic : String} {rs : List Register}
  {i : Instruction} {e : ReadError} {n k : ℕ} {text : String}

/-- Mnemonics are made of small letters, digits, dashes and slashes. -/
def IsMnemonic (m : List Char) : Prop :=
  m ≠ [] ∧ ∀ c ∈ m, ('a' ≤ c ∧ c ≤ 'z') ∨ ('0' ≤ c ∧ c ≤ '9') ∨ c = '-' ∨ c = '/'

/-- The texts that are instructions, each with its mnemonic and its registers. -/
inductive Spells : List Char → String → List Register → Prop
  | intro {b m b' operands b'' : List Char} {rs : List Register} (hb : IsBlanks b)
      (hm : IsMnemonic m) (hb' : IsBlanks b') (hne : b' ≠ [])
      (hrs : Register.SpellsList operands rs) (hb'' : IsBlanks b'') :
      Spells (b ++ (m ++ (b' ++ (operands ++ b'')))) (String.ofList m) rs

theorem isMnemonicChar_iff {c : Char} : isMnemonicChar c = true ↔
    ('a' ≤ c ∧ c ≤ 'z') ∨ ('0' ≤ c ∧ c ≤ '9') ∨ c = '-' ∨ c = '/' := by
  have hlower : c.isLower = true ↔ 'a' ≤ c ∧ c ≤ 'z' := by
    change (decide ('a' ≤ c) && decide (c ≤ 'z')) = true ↔ _
    rw [Bool.and_eq_true, decide_eq_true_iff, decide_eq_true_iff]
  simp only [isMnemonicChar, Bool.or_eq_true, hlower, Numeral.isDigit_iff, beq_iff_eq, or_assoc]

theorem isMnemonic_iff : IsMnemonic m ↔ m ≠ [] ∧ ∀ c ∈ m, isMnemonicChar c = true := by
  simp only [IsMnemonic, isMnemonicChar_iff]

theorem IsMnemonic.takeWhile_isBlank (hm : IsMnemonic m) (cs : List Char) :
    (m ++ cs).takeWhile isBlank = [] := by
  obtain ⟨hne, hall⟩ := isMnemonic_iff.mp hm
  cases m with
  | nil => exact absurd rfl hne
  | cons c m =>
    have hc : isBlank c = false := by
      rw [Bool.eq_false_iff, ne_eq, isBlank_iff]
      rintro (rfl | rfl)
      · cases hall ' ' List.mem_cons_self
      · cases hall '\t' List.mem_cons_self
    exact List.takeWhile_cons_of_neg (Bool.not_eq_true _ ▸ hc)

theorem takeWhile_isMnemonicChar (hb : IsBlanks b) (hne : b ≠ []) (cs : List Char) :
    (b ++ cs).takeWhile isMnemonicChar = [] := by
  cases b with
  | nil => exact absurd rfl hne
  | cons c b => rcases hb c List.mem_cons_self with rfl | rfl <;> rfl

theorem exists_spells (hp : readParts cs = .ok ((mnemonic, rs), rest)) :
    ∃ text, Spells text mnemonic rs ∧ cs = text ++ rest := by
  unfold readParts at hp
  obtain ⟨⟨m, afterMnemonic⟩, hm, hp⟩ := bind_eq_ok_iff.mp hp
  obtain ⟨⟨b', operands⟩, hb', hp⟩ := bind_eq_ok_iff.mp hp
  obtain ⟨⟨rs', afterOperands⟩, hrs, he⟩ := bind_eq_ok_iff.mp hp
  cases he
  obtain ⟨hne, hall, -, hcs⟩ := someWhile_eq_ok_iff.mp hm
  obtain ⟨hne', hall', -, rfl⟩ := someWhile_eq_ok_iff.mp hb'
  obtain ⟨text, htext, rfl⟩ := Register.exists_spellsList hrs
  obtain ⟨b, hb, hskip⟩ := exists_blanks cs
  obtain ⟨b'', hb'', hskip'⟩ := exists_blanks afterOperands
  refine ⟨b ++ (m ++ (b' ++ (text ++ b''))), ?_, ?_⟩
  · exact .intro hb (isMnemonic_iff.mpr ⟨hne, hall⟩) (isBlanks_iff.mpr hall') hne' htext hb''
  · simp only [List.append_assoc, ← hskip', ← hcs, ← hskip]

theorem Spells.readParts_eq (hs : Spells cs mnemonic rs) :
    readParts cs = .ok ((mnemonic, rs), []) := by
  cases hs with
  | @intro b m b' operands b'' _ hb hm hb' hne hrs hb'' =>
    have hskip : skipBlanks (b ++ (m ++ (b' ++ (operands ++ b'')))) =
        m ++ (b' ++ (operands ++ b'')) := skipBlanks_append hb (hm.takeWhile_isBlank _)
    have hmnemonic : someWhile isMnemonicChar .someOf (m ++ (b' ++ (operands ++ b''))) =
        .ok (m, b' ++ (operands ++ b'')) := by
      obtain ⟨hne', hall⟩ := isMnemonic_iff.mp hm
      exact someWhile_eq_ok_iff.mpr ⟨hne', hall, takeWhile_isMnemonicChar hb' hne _, rfl⟩
    have hblanks : someWhile isBlank .blanks (b' ++ (operands ++ b'')) =
        .ok (b', operands ++ b'') := by
      refine someWhile_eq_ok_iff.mpr ⟨hne, isBlanks_iff.mp hb', ?_, rfl⟩
      exact hrs.takeWhile_isBlank b''
    have hoperands := Register.readList_append hrs hb''
    simp only [readParts, hskip, hmnemonic, hblanks, hoperands, bind, Except.bind,
      skipBlanks_of_isBlanks hb'']
    rfl

theorem whole_readParts_eq_ok_iff :
    whole readParts cs = .ok (mnemonic, rs) ↔ Spells cs mnemonic rs := by
  rw [whole_eq_ok_iff]
  constructor
  · intro hp
    obtain ⟨text, ht, he⟩ := exists_spells hp
    rwa [he, List.append_nil]
  · exact Spells.readParts_eq

theorem isMisreading_of_readParts (he : readParts cs = .error e) : e.IsMisreading := by
  unfold readParts at he
  obtain hm | ⟨_, -, he⟩ := bind_eq_error_iff.mp he
  · exact .inl ⟨_, _, someWhile_eq_error hm⟩
  · obtain hb | ⟨_, -, he⟩ := bind_eq_error_iff.mp he
    · exact .inl ⟨_, _, someWhile_eq_error hb⟩
    · obtain hrs | ⟨_, -, hp⟩ := bind_eq_error_iff.mp he
      · exact Register.isMisreading_of_readList hrs
      · cases hp

theorem Spells.length_ne_zero (hs : Spells cs mnemonic rs) : rs.length ≠ 0 := by
  cases hs with
  | intro _ _ _ _ hrs =>
    cases hrs with
    | intro => exact Nat.succ_ne_zero _

theorem units_eq_ok_iff : units n = .ok k ↔ (n ≠ 0 ∧ n ≤ 3) ∧ k = if n ≤ 2 then 1 else 2 := by
  match n with
  | 0 => simp [units]
  | 1 => simp [units, eq_comm]
  | 2 => simp [units, eq_comm]
  | 3 => simp [units, eq_comm]
  | n + 4 => simp [units]

theorem units_eq_error_iff : units n = .error e ↔ (n = 0 ∨ 4 ≤ n) ∧ e = .operandCount := by
  match n with
  | 0 => simp [units, eq_comm]
  | 1 => simp [units]
  | 2 => simp [units]
  | 3 => simp [units]
  | n + 4 => simp [units, eq_comm]

theorem parse_eq_ok_iff :
    parse address text = .ok i ↔ Spells text.toList i.mnemonic i.registers ∧
      units i.registers.length = .ok i.size ∧ i.address = address := by
  simp only [parse, bind_eq_ok_iff, Prod.exists, whole_readParts_eq_ok_iff]
  constructor
  · rintro ⟨mnemonic, rs, hs, size, hsize, he⟩
    cases he
    exact ⟨hs, hsize, rfl⟩
  · rintro ⟨hs, hsize, rfl⟩
    exact ⟨_, _, hs, _, hsize, rfl⟩

theorem parse_eq_error_iff :
    parse address text = .error e ↔ whole readParts text.toList = .error e ∨
      ∃ mnemonic rs, Spells text.toList mnemonic rs ∧ units rs.length = .error e := by
  simp only [parse, bind_eq_error_iff, Prod.exists, whole_readParts_eq_ok_iff, pure, Except.pure,
    reduceCtorEq, and_false, exists_false, or_false]

theorem isMisreading_of_whole_readParts (he : whole readParts cs = .error e) : e.IsMisreading :=
  isMisreading_of_whole (fun _ => isMisreading_of_readParts) he

theorem not_isMisreading_operandCount : ¬ ReadError.operandCount.IsMisreading := by
  rintro (⟨_, _, he⟩ | he) <;> cases he

/-- Instructions with up to three registers are read. -/
theorem parse_eq_ok_iff_length_le :
    parse address text = .ok i ↔
      Spells text.toList i.mnemonic i.registers ∧ i.registers.length ≤ 3 ∧ i.address = address ∧
        i.size = if i.registers.length ≤ 2 then 1 else 2 := by
  rw [parse_eq_ok_iff, units_eq_ok_iff]
  constructor
  · rintro ⟨hs, ⟨⟨-, hn⟩, hsize⟩, ha⟩
    exact ⟨hs, hn, ha, hsize⟩
  · rintro ⟨hs, hn, ha, hsize⟩
    exact ⟨hs, ⟨⟨hs.length_ne_zero, hn⟩, hsize⟩, ha⟩

/-- Only too many registers are counted as such, whatever the mnemonic. -/
theorem parse_eq_operandCount_iff :
    parse address text = .error .operandCount ↔
      ∃ mnemonic rs, Spells text.toList mnemonic rs ∧ 4 ≤ rs.length := by
  rw [parse_eq_error_iff]
  constructor
  · rintro (he | ⟨mnemonic, rs, hs, hn⟩)
    · exact absurd (isMisreading_of_whole_readParts he) not_isMisreading_operandCount
    · have hor := (units_eq_error_iff.mp hn).1
      exact ⟨mnemonic, rs, hs, hor.resolve_left hs.length_ne_zero⟩
  · rintro ⟨mnemonic, rs, hs, hn⟩
    exact .inr ⟨mnemonic, rs, hs, units_eq_error_iff.mpr ⟨.inr hn, rfl⟩⟩

/-- A text that is misread is no instruction, with however many registers. -/
theorem exists_isMisreading_iff :
    (∃ e, parse address text = .error e ∧ e.IsMisreading) ↔
      ∀ mnemonic rs, ¬ Spells text.toList mnemonic rs := by
  constructor
  · rintro ⟨e, he, hmis⟩ mnemonic rs hs
    obtain hw | ⟨_, rs', -, hn⟩ := parse_eq_error_iff.mp he
    · cases hw.symm.trans (whole_readParts_eq_ok_iff.mpr hs)
    · rw [(units_eq_error_iff.mp hn).2] at hmis
      exact not_isMisreading_operandCount hmis
  · intro hn
    cases hw : whole readParts text.toList with
    | error e =>
      exact ⟨e, parse_eq_error_iff.mpr (.inl hw), isMisreading_of_whole_readParts hw⟩
    | ok p => exact absurd (whole_readParts_eq_ok_iff.mp hw) (hn p.1 p.2)

-- `v65536` is no register, so that the list ends in front of its comma.
example : parse ⟨0⟩ "aput v0, v65536" =
    .error (.unexpected ", v65536".toList .endOfText) := by cbv

/-- Reading an instruction tells apart the texts that spell one with up to three registers, those
that spell one with more, and all others. -/
theorem parse_eq_iff_spells (address : Address) (text : String) :
    (∀ i, parse address text = .ok i ↔
      Spells text.toList i.mnemonic i.registers ∧ i.registers.length ≤ 3 ∧ i.address = address ∧
        i.size = if i.registers.length ≤ 2 then 1 else 2) ∧
      (parse address text = .error .operandCount ↔
        ∃ mnemonic rs, Spells text.toList mnemonic rs ∧ 4 ≤ rs.length) ∧
      ((∃ e, parse address text = .error e ∧ e.IsMisreading) ↔
        ∀ mnemonic rs, ¬ Spells text.toList mnemonic rs) :=
  ⟨fun _ => parse_eq_ok_iff_length_le, parse_eq_operandCount_iff, exists_isMisreading_iff⟩

end Instruction

end DalvikStores
