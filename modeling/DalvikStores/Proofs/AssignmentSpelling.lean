import DalvikStores.Assignment.Literal
import DalvikStores.Proofs.Reading
import DalvikStores.Proofs.Spelling
import Mathlib.Data.Option.Basic

/-!
# How assignments are spelled

`Literal.Spells` says which texts are literals, and of which values. The alternatives of the
reader are tried in their order, and the first one that can read something is kept. Nothing is
lost by this, since no literal begins with the word of another one and no word begins like a
register. The type of an array literal ends where a descriptor ends, even when the name of its
class has a colon in it.
-/

namespace DalvikStores

namespace Literal

variable {cs ds rest text : List Char} {word : String} {bound n : ℕ} {x : ℤ} {l : Literal}
  {make : ℤ → Value} {v : Value} {t : Descriptor}

/-- The texts that are literals, each with what it stands for. The bounds of the numbers are those
of the words that hold them. -/
inductive Spells : List Char → Literal → Prop
  | int {ds : List Char} {n : Int32} (hd : Numeral.SpellsSigned ds n.toInt) :
      Spells ("int:".toList ++ ds) (.value (.int n))
  | long {ds : List Char} {n : Int64} (hd : Numeral.SpellsSigned ds n.toInt) :
      Spells ("long:".toList ++ ds) (.value (.long n))
  | byte {ds : List Char} {n : Int8} (hd : Numeral.SpellsSigned ds n.toInt) :
      Spells ("byte:".toList ++ ds) (.value (.byte n))
  | short {ds : List Char} {n : Int16} (hd : Numeral.SpellsSigned ds n.toInt) :
      Spells ("short:".toList ++ ds) (.value (.short n))
  | char {ds : List Char} {c : UInt16} (hd : Numeral.Spells ds c.toNat) :
      Spells ("char:".toList ++ ds) (.value (.char c))
  | true : Spells "bool:true".toList (.value (.boolean true))
  | false : Spells "bool:false".toList (.value (.boolean false))
  | null : Spells "null".toList (.value .null)
  | unknown {ds : List Char} {t : Descriptor} (ht : Descriptor.ofText ds = .ok t) :
      Spells ("unknown:".toList ++ ds) (.value (.unknown (String.ofList ds)))
  | array {ds number : List Char} {t : Descriptor} {length : ℕ}
      (ht : Descriptor.ofText ds = .ok t) (hn : Numeral.Spells number length)
      (hlt : length < UInt64.size) :
      Spells ("array:".toList ++ (ds ++ ':' :: number)) (.array t length)
  | object {ds : List Char} {t : Descriptor} (ht : Descriptor.ofText ds = .ok t) :
      Spells ("object:".toList ++ ds) (.object t)
  | register {text : List Char} {r : Register} (hr : Register.Spells text r) :
      Spells text (.register r)

theorem afterWord_eq_some_iff : afterWord word cs = some rest ↔ cs = word.toList ++ rest := by
  unfold afterWord
  constructor
  · intro ha
    split_ifs at ha with hw
    cases ha
    exact (List.prefix_iff_eq_append.mp (List.isPrefixOf_iff_prefix.mp hw)).symm
  · rintro rfl
    rw [if_pos (List.isPrefixOf_iff_prefix.mpr (List.prefix_append _ _)), List.drop_left]

theorem readSigned_eq_some_iff (hb : 0 < bound) :
    readSigned word bound make cs = some (l, rest) ↔
      ∃ ds x, Numeral.SpellsSigned ds x ∧ (-bound ≤ x ∧ x < bound) ∧
        rest.takeWhile Char.isDigit = [] ∧ l = .value (make x) ∧
        cs = word.toList ++ (ds ++ rest) := by
  simp only [readSigned, bind, Option.bind_eq_some_iff, afterWord_eq_some_iff, Prod.exists,
    Numeral.signed_eq_some_iff hb, pure, Option.some.injEq, Prod.mk.injEq]
  constructor
  · rintro ⟨_, rfl, x, _, ⟨ds, hd, hx, hr, rfl⟩, rfl, rfl⟩
    exact ⟨ds, x, hd, hx, hr, rfl, rfl⟩
  · rintro ⟨ds, x, hd, hx, hr, rfl, rfl⟩
    exact ⟨_, rfl, x, _, ⟨ds, hd, hx, hr, rfl⟩, rfl, rfl⟩

theorem readChar_eq_some_iff :
    readChar cs = some (l, rest) ↔ ∃ ds n, Numeral.Spells ds n ∧ n < UInt16.size ∧
      rest.takeWhile Char.isDigit = [] ∧ l = .value (.char (UInt16.ofNat n)) ∧
      cs = "char:".toList ++ (ds ++ rest) := by
  simp only [readChar, bind, Option.bind_eq_some_iff, afterWord_eq_some_iff, Prod.exists,
    Numeral.unsigned_eq_some_iff, pure, Option.some.injEq, Prod.mk.injEq]
  constructor
  · rintro ⟨_, rfl, n, _, ⟨ds, hd, hn, hr, rfl⟩, rfl, rfl⟩
    exact ⟨ds, n, hd, hn, hr, rfl, rfl⟩
  · rintro ⟨ds, n, hd, hn, hr, rfl, rfl⟩
    exact ⟨_, rfl, n, _, ⟨ds, hd, hn, hr, rfl⟩, rfl, rfl⟩

theorem readConstant_eq_some_iff :
    readConstant word v cs = some (l, rest) ↔ l = .value v ∧ cs = word.toList ++ rest := by
  simp only [readConstant, bind, Option.bind_eq_some_iff, afterWord_eq_some_iff, pure,
    Option.some.injEq, Prod.mk.injEq]
  constructor
  · rintro ⟨_, rfl, rfl, rfl⟩
    exact ⟨rfl, rfl⟩
  · rintro ⟨rfl, rfl⟩
    exact ⟨_, rfl, rfl, rfl⟩

theorem toOption_read_eq_some_iff :
    (Descriptor.read cs).toOption = some (t, rest) ↔
      ∃ ds, Descriptor.ofText ds = .ok t ∧ cs = ds ++ rest := by
  simp only [Descriptor.ofText_eq_ok_iff, ← Descriptor.read_eq_ok_iff]
  cases Descriptor.read cs <;> simp [Except.toOption]

theorem readUnknown_eq_some_iff :
    readUnknown cs = some (l, rest) ↔ ∃ ds t, Descriptor.ofText ds = .ok t ∧
      l = .value (.unknown (String.ofList ds)) ∧ cs = "unknown:".toList ++ (ds ++ rest) := by
  simp only [readUnknown, bind, Option.bind_eq_some_iff, afterWord_eq_some_iff, Prod.exists,
    toOption_read_eq_some_iff, pure, Option.some.injEq, Prod.mk.injEq, Value.ofUnknown]
  constructor
  · rintro ⟨_, rfl, t, _, ⟨ds, ht, rfl⟩, rfl, rfl⟩
    exact ⟨ds, t, ht, by rw [(Descriptor.ofText_eq_ok_iff.mp ht).render_eq], rfl⟩
  · rintro ⟨ds, t, ht, rfl, rfl⟩
    refine ⟨_, rfl, t, _, ⟨ds, ht, rfl⟩, ?_, rfl⟩
    rw [(Descriptor.ofText_eq_ok_iff.mp ht).render_eq]

theorem readArray_eq_some_iff :
    readArray cs = some (l, rest) ↔ ∃ ds number t n, Descriptor.ofText ds = .ok t ∧
      Numeral.Spells number n ∧ n < UInt64.size ∧ rest.takeWhile Char.isDigit = [] ∧
      l = .array t n ∧ cs = "array:".toList ++ (ds ++ ':' :: (number ++ rest)) := by
  simp only [readArray, bind, Option.bind_eq_some_iff, afterWord_eq_some_iff, Prod.exists,
    toOption_read_eq_some_iff, Numeral.unsigned_eq_some_iff, pure, Option.some.injEq,
    Prod.mk.injEq]
  constructor
  · rintro ⟨_, rfl, t, _, ⟨ds, ht, rfl⟩, _, rfl, n, _, ⟨number, hn, hlt, hr, rfl⟩, rfl, rfl⟩
    exact ⟨ds, number, t, n, ht, hn, hlt, hr, rfl, rfl⟩
  · rintro ⟨ds, number, t, n, ht, hn, hlt, hr, rfl, rfl⟩
    exact ⟨_, rfl, t, _, ⟨ds, ht, rfl⟩, _, rfl, n, _, ⟨number, hn, hlt, hr, rfl⟩, rfl, rfl⟩

theorem readObject_eq_some_iff :
    readObject cs = some (l, rest) ↔ ∃ ds t, Descriptor.ofText ds = .ok t ∧
      l = .object t ∧ cs = "object:".toList ++ (ds ++ rest) := by
  simp only [readObject, bind, Option.bind_eq_some_iff, afterWord_eq_some_iff, Prod.exists,
    toOption_read_eq_some_iff, pure, Option.some.injEq, Prod.mk.injEq]
  constructor
  · rintro ⟨_, rfl, t, _, ⟨ds, ht, rfl⟩, rfl, rfl⟩
    exact ⟨ds, t, ht, rfl, rfl⟩
  · rintro ⟨ds, t, ht, rfl, rfl⟩
    exact ⟨_, rfl, t, _, ⟨ds, ht, rfl⟩, rfl, rfl⟩

/-- A reader that takes only literals from the front of a text. -/
def IsSound (read : List Char → Option (Literal × List Char)) : Prop :=
  ∀ cs l rest, read cs = some (l, rest) → ∃ text, Spells text l ∧ cs = text ++ rest

theorem IsSound.orElse {read read' : List Char → Option (Literal × List Char)}
    (hr : IsSound read) (hr' : IsSound read') : IsSound fun cs => read cs <|> read' cs := by
  intro cs l rest ho
  obtain ho | ⟨-, ho⟩ := (Option.orElse_eq_some _ _ _).mp ho
  · exact hr cs l rest ho
  · exact hr' cs l rest ho

theorem isSound_readSigned (hb : 0 < bound) (hmake : ∀ {ds : List Char} {x : ℤ},
      Numeral.SpellsSigned ds x → -bound ≤ x → x < bound →
        Spells (word.toList ++ ds) (.value (make x))) :
    IsSound (readSigned word bound make) := by
  intro cs l rest hs
  obtain ⟨ds, x, hd, hx, -, rfl, rfl⟩ := (readSigned_eq_some_iff hb).mp hs
  exact ⟨_, hmake hd hx.1 hx.2, (List.append_assoc _ _ _).symm⟩

theorem isSound_readConstant (hv : Spells word.toList (.value v)) :
    IsSound (readConstant word v) := by
  intro cs l rest hc
  obtain ⟨rfl, rfl⟩ := readConstant_eq_some_iff.mp hc
  exact ⟨_, hv, rfl⟩

theorem isSound_readChar : IsSound readChar := by
  intro cs l rest hc
  obtain ⟨ds, n, hd, hn, -, rfl, rfl⟩ := readChar_eq_some_iff.mp hc
  refine ⟨_, .char ?_, (List.append_assoc _ _ _).symm⟩
  rwa [UInt16.toNat_ofNat_of_lt' hn]

theorem isSound_readUnknown : IsSound readUnknown := by
  intro cs l rest hu
  obtain ⟨ds, t, ht, rfl, rfl⟩ := readUnknown_eq_some_iff.mp hu
  exact ⟨_, .unknown ht, (List.append_assoc _ _ _).symm⟩

theorem isSound_readArray : IsSound readArray := by
  intro cs l rest ha
  obtain ⟨ds, number, t, n, ht, hn, hlt, -, rfl, rfl⟩ := readArray_eq_some_iff.mp ha
  exact ⟨_, .array ht hn hlt, by simp only [List.append_assoc, List.cons_append]⟩

theorem isSound_readObject : IsSound readObject := by
  intro cs l rest ho
  obtain ⟨ds, t, ht, rfl, rfl⟩ := readObject_eq_some_iff.mp ho
  exact ⟨_, .object ht, (List.append_assoc _ _ _).symm⟩

theorem isSound_readWorded : IsSound readWorded := by
  refine .orElse (isSound_readSigned (by decide) fun hd hl hu => .int ?_) <|
    .orElse (isSound_readSigned (by decide) fun hd hl hu => .long ?_) <|
    .orElse (isSound_readConstant .true) <|
    .orElse (isSound_readConstant .false) <|
    .orElse (isSound_readSigned (by decide) fun hd hl hu => .byte ?_) <|
    .orElse isSound_readChar <|
    .orElse (isSound_readSigned (by decide) fun hd hl hu => .short ?_) <|
    .orElse (isSound_readConstant .null) <|
    .orElse isSound_readUnknown <|
    .orElse isSound_readArray isSound_readObject
  · rwa [Int32.toInt_ofInt_of_le hl hu]
  · rwa [Int64.toInt_ofInt_of_le hl hu]
  · rwa [Int8.toInt_ofInt_of_le hl hu]
  · rwa [Int16.toInt_ofInt_of_le hl hu]

theorem exists_spells (hr : read cs = .ok (l, rest)) :
    ∃ text, Spells text l ∧ cs = text ++ rest := by
  unfold read at hr
  split at hr
  · rename_i hw
    cases hr
    exact isSound_readWorded cs l rest hw
  · obtain ⟨⟨r, _⟩, hreg, he⟩ := bind_eq_ok_iff.mp hr
    cases he
    obtain ⟨text, ht, -, rfl⟩ := Register.read_eq_ok_iff.mp hreg
    exact ⟨text, .register ht, rfl⟩

theorem readSigned_append (hb : 0 < bound) (hd : Numeral.SpellsSigned ds x) (hl : -bound ≤ x)
    (hu : x < bound) :
    readSigned word bound make (word.toList ++ ds) = some (.value (make x), []) :=
  (readSigned_eq_some_iff hb).mpr ⟨ds, x, hd, ⟨hl, hu⟩, rfl, rfl, by rw [List.append_nil]⟩

/-- No word begins another one, so that the alternative of its own word reads a literal. -/
theorem Spells.readWorded_eq (hs : Spells text l) (hl : ∀ r, l ≠ .register r) :
    readWorded text = some (l, []) := by
  cases hs with
  | @int ds n hd =>
    have hr : readSigned "int:" 2147483648 (fun n => .int (Int32.ofInt n))
        ("int:".toList ++ ds) = some (.value (.int n), []) := by
      rw [readSigned_append (by decide) hd n.le_toInt n.toInt_lt, Int32.ofInt_toInt]
    rw [readWorded, hr]
    rfl
  -- The alternatives in front of this one fail at a letter of its word, for any digits.
  | @long ds n hd =>
    have hr : readSigned "long:" 9223372036854775808 (fun n => .long (Int64.ofInt n))
        ("long:".toList ++ ds) = some (.value (.long n), []) := by
      rw [readSigned_append (by decide) hd n.le_toInt n.toInt_lt, Int64.ofInt_toInt]
    rw [readWorded, hr]
    rfl
  | @byte ds n hd =>
    have hr : readSigned "byte:" 128 (fun n => .byte (Int8.ofInt n))
        ("byte:".toList ++ ds) = some (.value (.byte n), []) := by
      rw [readSigned_append (by decide) hd n.le_toInt n.toInt_lt, Int8.ofInt_toInt]
    rw [readWorded, hr]
    rfl
  | @short ds n hd =>
    have hr : readSigned "short:" 32768 (fun n => .short (Int16.ofInt n))
        ("short:".toList ++ ds) = some (.value (.short n), []) := by
      rw [readSigned_append (by decide) hd n.le_toInt n.toInt_lt, Int16.ofInt_toInt]
    rw [readWorded, hr]
    rfl
  | @char ds c hd =>
    have hr : readChar ("char:".toList ++ ds) = some (.value (.char c), []) :=
      readChar_eq_some_iff.mpr ⟨ds, c.toNat, hd, c.toNat_lt, rfl, by rw [UInt16.ofNat_toNat],
        by rw [List.append_nil]⟩
    rw [readWorded, hr]
    rfl
  | true => rfl
  | false => rfl
  | null => rfl
  | @unknown ds t ht =>
    have hr : readUnknown ("unknown:".toList ++ ds) =
        some (.value (.unknown (String.ofList ds)), []) :=
      readUnknown_eq_some_iff.mpr ⟨ds, t, ht, rfl, by rw [List.append_nil]⟩
    rw [readWorded, hr]
    rfl
  | @array ds number t n ht hn hlt =>
    have hr : readArray ("array:".toList ++ (ds ++ ':' :: number)) = some (.array t n, []) :=
      readArray_eq_some_iff.mpr ⟨ds, number, t, n, ht, hn, hlt, rfl, rfl, by rw [List.append_nil]⟩
    rw [readWorded, hr]
    rfl
  | @object ds t ht =>
    have hr : readObject ("object:".toList ++ ds) = some (.object t, []) :=
      readObject_eq_some_iff.mpr ⟨ds, t, ht, rfl, by rw [List.append_nil]⟩
    rw [readWorded, hr]
    rfl
  | register => exact absurd rfl (hl _)

theorem readWorded_of_register {r : Register} (hr : Register.Spells text r) :
    readWorded text = none := by
  cases hr with
  | intro hc => rcases hc with rfl | rfl <;> rfl

theorem Spells.read_eq (hs : Spells text l) : read text = .ok (l, []) := by
  by_cases hl : ∃ r, l = .register r
  · obtain ⟨r, rfl⟩ := hl
    cases hs with
    | register hr =>
      have hread : Register.read text = .ok (r, []) :=
        Register.read_eq_ok_iff.mpr ⟨text, hr, rfl, (List.append_nil _).symm⟩
      simp only [read, readWorded_of_register hr, hread]
      rfl
  · rw [read, hs.readWorded_eq (not_exists.mp hl)]

/-- Whether a text is a literal does not depend on the order of the alternatives. -/
theorem read_eq_ok_nil_iff : read cs = .ok (l, []) ↔ Spells cs l := by
  constructor
  · intro hr
    obtain ⟨text, ht, he⟩ := exists_spells hr
    rwa [he, List.append_nil]
  · exact Spells.read_eq

-- The colon in the name of the class does not end the type.
example : read "array:[La:1;:2".toList = .ok (.array (.array 1 (.ofClass "a:1")) 2, []) := by
  decide

end Literal

namespace Assignment

variable {cs rest : List Char} {r : Register} {l : Literal}

theorem read_eq_ok_iff :
    read cs = .ok ((r, l), rest) ↔
      ∃ text ds, Register.Spells text r ∧ Literal.read ds = .ok (l, rest) ∧
        cs = text ++ '=' :: ds := by
  unfold read
  simp only [bind_eq_ok_iff, Prod.exists, Register.read_eq_ok_iff]
  constructor
  · rintro ⟨r', _, ⟨text, ht, -, rfl⟩, hr⟩
    split at hr
    · rename_i ds
      obtain ⟨⟨l', _⟩, hl, he⟩ := bind_eq_ok_iff.mp hr
      cases he
      exact ⟨text, ds, ht, hl, rfl⟩
    · cases hr
  · rintro ⟨text, ds, ht, hl, rfl⟩
    refine ⟨r, '=' :: ds, ⟨text, ht, rfl, rfl⟩, ?_⟩
    exact bind_eq_ok_iff.mpr ⟨(l, rest), hl, rfl⟩

theorem exists_spells_of_parse {text : String} (hp : parse text = .ok (r, l)) :
    ∃ cs, Literal.Spells cs l := by
  rw [parse, Reader.whole_eq_ok_iff, read_eq_ok_iff] at hp
  obtain ⟨_, ds, _, hl, _⟩ := hp
  exact ⟨ds, Literal.read_eq_ok_nil_iff.mp hl⟩

/-- An assignment is a register, an equals sign and a literal, with nothing around them. -/
theorem parse_eq_ok_iff_spells (text : String) (r : Register) (l : Literal) :
    parse text = .ok (r, l) ↔
      ∃ register literal, text.toList = register ++ '=' :: literal ∧
        Register.Spells register r ∧ Literal.Spells literal l := by
  rw [parse, Reader.whole_eq_ok_iff, read_eq_ok_iff]
  simp only [Literal.read_eq_ok_nil_iff]
  constructor
  · rintro ⟨register, literal, hr, hl, he⟩
    exact ⟨register, literal, he, hr, hl⟩
  · rintro ⟨register, literal, he, hr, hl⟩
    exact ⟨register, literal, hr, hl, he⟩

end Assignment

end DalvikStores
