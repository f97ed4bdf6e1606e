import DalvikStores.Proofs.AssignmentSpelling

/-!
# Numbers out of range

A literal whose number does not fit the word in front of it is no literal, and the alternatives of
the reader go on behind it. The last of them is a register, which begins with another letter than
any word does, and its error is the one that is kept: it points to the literal and says nothing
about the number. That a number is too large is therefore only reported of a register, assigned or
shared.
-/

namespace DalvikStores

namespace Register

variable {cs : List Char}

/-- The text begins with a letter and a number that is too large for a register. -/
inductive StartsTooLarge : List Char → Prop
  | intro {c : Char} {ds rest : List Char} {n : ℕ} (hc : c = 'v' ∨ c = 'r')
      (hd : Numeral.Spells ds n) (hn : UInt16.size ≤ n) (hr : rest.takeWhile Char.isDigit = []) :
      StartsTooLarge (c :: (ds ++ rest))

theorem ofDigits_eq_error_iff {ds : List Char} :
    ofDigits ds = .error .numberTooLarge ↔ UInt16.size ≤ Numeral.value ds := by
  unfold ofDigits
  split_ifs with hn
  · exact iff_of_false nofun (Nat.not_le_of_lt hn)
  · exact iff_of_true rfl (Nat.le_of_not_lt hn)

theorem read_eq_numberTooLarge_iff : read cs = .error .numberTooLarge ↔ StartsTooLarge cs := by
  constructor
  · intro he
    unfold read at he
    split at he
    · cases he
    · split_ifs at he with hc
      · obtain hd | ⟨⟨ds, rest⟩, hd, he⟩ := bind_eq_error_iff.mp he
        · cases Reader.someWhile_eq_error hd
        · obtain ho | ⟨r, -, hp⟩ := bind_eq_error_iff.mp he
          · obtain ⟨hds, hstop, rfl⟩ := Numeral.digits_eq_ok_iff.mp hd
            exact .intro hc hds (ofDigits_eq_error_iff.mp ho) hstop
          · cases hp
      · cases he
  · intro hs
    cases hs with
    | @intro c ds rest n hc hd hn hr =>
      have hvalue := hd.value_eq.symm
      subst hvalue
      rw [read_cons hc, bind_eq_error_iff]
      refine .inr ⟨(ds, rest), Numeral.digits_eq_ok_iff.mpr ⟨hd, hr, rfl⟩, ?_⟩
      exact bind_eq_error_iff.mpr (.inl (ofDigits_eq_error_iff.mpr hn))

end Register

namespace Literal

variable {cs ds literal number : List Char} {word : String} {bound n : ℕ} {x : ℤ}
  {make : ℤ → Value} {t : Descriptor}

/-- The words in front of a number with a sign, each with the bound of its numbers. -/
def signedWords : List (String × ℕ) :=
  [("int:", 2147483648), ("long:", 9223372036854775808), ("byte:", 128), ("short:", 32768)]

/-- The texts that would be literals if their numbers were not out of range. -/
inductive OutOfRange : List Char → Prop
  | signed {word : String} {bound : ℕ} {ds : List Char} {x : ℤ}
      (hw : (word, bound) ∈ signedWords) (hd : Numeral.SpellsSigned ds x)
      (hx : x < -bound ∨ bound ≤ x) : OutOfRange (word.toList ++ ds)
  | char {ds : List Char} {n : ℕ} (hd : Numeral.Spells ds n) (hn : UInt16.size ≤ n) :
      OutOfRange ("char:".toList ++ ds)
  | array {ds number : List Char} {t : Descriptor} {n : ℕ} (ht : Descriptor.ofText ds = .ok t)
      (hd : Numeral.Spells number n) (hn : UInt64.size ≤ n) :
      OutOfRange ("array:".toList ++ (ds ++ ':' :: number))

theorem readSigned_eq_none (hb : 0 < bound) (hd : Numeral.SpellsSigned ds x)
    (hx : x < -bound ∨ bound ≤ x) : readSigned word bound make (word.toList ++ ds) = none := by
  rw [Option.eq_none_iff_forall_ne_some]
  rintro ⟨l, rest⟩ hs
  obtain ⟨ds', x', hd', hx', hr, -, he⟩ := (readSigned_eq_some_iff hb).mp hs
  obtain rfl := hd.eq_of_append hd' hr (List.append_cancel_left he)
  omega

theorem readChar_eq_none (hd : Numeral.Spells ds n) (hn : UInt16.size ≤ n) :
    readChar ("char:".toList ++ ds) = none := by
  rw [Option.eq_none_iff_forall_ne_some]
  rintro ⟨l, rest⟩ hs
  obtain ⟨ds', n', hd', hn', hr, -, he⟩ := readChar_eq_some_iff.mp hs
  obtain rfl := hd.eq_of_append hd' hr (List.append_cancel_left he)
  omega

theorem readArray_eq_none (ht : Descriptor.ofText ds = .ok t) (hd : Numeral.Spells number n)
    (hn : UInt64.size ≤ n) : readArray ("array:".toList ++ (ds ++ ':' :: number)) = none := by
  rw [Option.eq_none_iff_forall_ne_some]
  rintro ⟨l, rest⟩ hs
  obtain ⟨ds', number', t', n', ht', hd', hn', hr, -, he⟩ := readArray_eq_some_iff.mp hs
  obtain ⟨-, hcolon⟩ := (Descriptor.ofText_eq_ok_iff.mp ht).append_inj
    (Descriptor.ofText_eq_ok_iff.mp ht') (List.append_cancel_left he)
  have hnumber : number = number' ++ rest := List.tail_eq_of_cons_eq hcolon
  obtain rfl := hd.eq_of_append hd' hr hnumber
  omega

theorem OutOfRange.readWorded_eq (ho : OutOfRange literal) : readWorded literal = none := by
  cases ho with
  | @signed word bound ds x hw hd hx =>
    simp only [signedWords, List.mem_cons, Prod.mk.injEq, List.not_mem_nil, or_false] at hw
    obtain ⟨rfl, rfl⟩ | ⟨rfl, rfl⟩ | ⟨rfl, rfl⟩ | ⟨rfl, rfl⟩ := hw
    all_goals
      rw [readWorded, readSigned_eq_none (by decide) hd hx]
      rfl
  | char hd hn =>
    rw [readWorded, readChar_eq_none hd hn]
    rfl
  | array ht hd hn =>
    rw [readWorded, readArray_eq_none ht hd hn]
    rfl

theorem OutOfRange.register_read_eq (ho : OutOfRange literal) :
    Register.read literal = .error (.unexpected literal .oneOf) := by
  cases ho with
  | @signed word bound ds x hw =>
    simp only [signedWords, List.mem_cons, Prod.mk.injEq, List.not_mem_nil, or_false] at hw
    obtain ⟨rfl, -⟩ | ⟨rfl, -⟩ | ⟨rfl, -⟩ | ⟨rfl, -⟩ := hw
    all_goals rfl
  | char => rfl
  | array => rfl

theorem OutOfRange.read_eq (ho : OutOfRange literal) :
    read literal = .error (.unexpected literal .oneOf) := by
  rw [read, ho.readWorded_eq, ho.register_read_eq]
  rfl

theorem read_eq_numberTooLarge_iff :
    read cs = .error .numberTooLarge ↔ Register.StartsTooLarge cs := by
  rw [← Register.read_eq_numberTooLarge_iff]
  constructor
  · intro he
    unfold read at he
    split at he
    · cases he
    · obtain hr | ⟨_, -, hp⟩ := bind_eq_error_iff.mp he
      · exact hr
      · cases hp
  · intro he
    have hw : readWorded cs = none := by
      cases Register.read_eq_numberTooLarge_iff.mp he with
      | intro hc => rcases hc with rfl | rfl <;> rfl
    rw [read, hw]
    exact bind_eq_error_iff.mpr (.inl he)

end Literal

namespace Assignment

variable {cs register literal : List Char} {r : Register} {e : ReadError}

theorem read_append (hr : Register.Spells register r) (literal : List Char) :
    read (register ++ '=' :: literal) = (Literal.read literal).map fun p => ((r, p.1), p.2) := by
  have hread : Register.read (register ++ '=' :: literal) = .ok (r, '=' :: literal) :=
    Register.read_eq_ok_iff.mpr ⟨register, hr, rfl, rfl⟩
  rw [read, hread]
  cases hl : Literal.read literal <;> simp [bind, Except.bind, hl, pure, Except.pure, Except.map]

theorem read_eq_numberTooLarge_iff :
    read cs = .error .numberTooLarge ↔ Register.StartsTooLarge cs ∨
      ∃ register r literal, Register.Spells register r ∧ Register.StartsTooLarge literal ∧
        cs = register ++ '=' :: literal := by
  constructor
  · intro he
    unfold read at he
    obtain hr | ⟨⟨r, after⟩, hr, hl⟩ := bind_eq_error_iff.mp he
    · exact .inl (Register.read_eq_numberTooLarge_iff.mp hr)
    · obtain ⟨register, hs, -, hcs⟩ := Register.read_eq_ok_iff.mp hr
      dsimp only at hl
      split at hl
      · rename_i literal
        obtain hl | ⟨_, -, hp⟩ := bind_eq_error_iff.mp hl
        · exact .inr ⟨register, r, literal, hs, Literal.read_eq_numberTooLarge_iff.mp hl, hcs⟩
        · cases hp
      · cases hl
  · rintro (hs | ⟨register, r, literal, hr, hs, rfl⟩)
    · exact bind_eq_error_iff.mpr (.inl (Register.read_eq_numberTooLarge_iff.mpr hs))
    · rw [read_append hr, Literal.read_eq_numberTooLarge_iff.mpr hs]
      rfl

theorem parse_eq_error_of_read {text : String} (hr : Register.Spells register r)
    (he : Literal.read literal = .error e) (ht : text.toList = register ++ '=' :: literal) :
    parse text = .error e := by
  rw [parse, Reader.whole, ht, read_append hr, he]
  rfl

/-- A number that does not fit the word in front of it is reported as text that is no register. The
only numbers that are reported for their size are those of registers. -/
theorem parse_outOfRange_and_numberTooLarge_iff (text : String) :
    (∀ register r literal, Register.Spells register r → Literal.OutOfRange literal →
        text.toList = register ++ '=' :: literal →
          parse text = .error (.unexpected literal .oneOf)) ∧
      (parse text = .error .numberTooLarge ↔ Register.StartsTooLarge text.toList ∨
        ∃ register r literal, Register.Spells register r ∧ Register.StartsTooLarge literal ∧
          text.toList = register ++ '=' :: literal) := by
  refine ⟨fun register r literal hr ho ht => parse_eq_error_of_read hr ho.read_eq ht, ?_⟩
  rw [parse, Reader.whole_eq_numberTooLarge_iff, read_eq_numberTooLarge_iff]

theorem parse_outOfRange_array :
    let length := "18446744073709551616".toList
    let literal := "array:".toList ++ ("[La:1;".toList ++ ':' :: length)
    Register.Spells "r65535".toList ⟨65535⟩ ∧ Literal.OutOfRange literal ∧
      parse "r65535=array:[La:1;:18446744073709551616" = .error (.unexpected literal .oneOf) ∧
      parse "r65535=r65536" = .error .numberTooLarge := by
  intro length literal
  have hr : Register.Spells "r65535".toList ⟨65535⟩ :=
    .intro (.inr rfl) (Numeral.spells_toString 65535)
  have hl : Numeral.Spells length UInt64.size := Numeral.spells_toString UInt64.size
  have ht : Descriptor.ofText "[La:1;".toList = .ok (.array 1 (.ofClass "a:1")) := by decide
  have ho : Literal.OutOfRange literal := .array ht hl (Nat.le_refl _)
  have hn : Register.StartsTooLarge ('r' :: ("65536".toList ++ [])) :=
    .intro (.inr rfl) (Numeral.spells_toString 65536) (Nat.le_refl 65536) rfl
  obtain ⟨hout, -⟩ :=
    parse_outOfRange_and_numberTooLarge_iff "r65535=array:[La:1;:18446744073709551616"
  obtain ⟨-, hlarge⟩ := parse_outOfRange_and_numberTooLarge_iff "r65535=r65536"
  exact ⟨hr, ho, hout _ _ _ hr ho rfl, hlarge.mpr (.inr ⟨_, _, _, hr, hn, rfl⟩)⟩

/-- A byte that is one too large is not reported as a number. -/
theorem parse_byte_128 :
    Register.Spells "v0".toList ⟨0⟩ ∧ Literal.OutOfRange "byte:128".toList ∧
      parse "v0=byte:128" = .error (.unexpected "byte:128".toList .oneOf) ∧
      parse "v0=byte:128" ≠ .error .numberTooLarge := by
  have hp : parse "v0=byte:128" = .error (.unexpected "byte:128".toList .oneOf) := by decide
  have hr : Register.Spells "v0".toList ⟨0⟩ := .intro (.inl rfl) (Numeral.spells_toString 0)
  have hd : Numeral.Spells "128".toList 128 := Numeral.spells_toString 128
  have hw : ("byte:", 128) ∈ Literal.signedWords := by decide
  have ho : Literal.OutOfRange "byte:128".toList := .signed hw (.plain hd) (.inr (Int.le_refl 128))
  refine ⟨hr, ho, hp, ?_⟩
  rw [hp]
  nofun

end Assignment

end DalvikStores
