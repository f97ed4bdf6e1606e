import DalvikStores.Register
import Mathlib.Data.List.TakeWhile
import Mathlib.Data.Nat.Notation
import Mathlib.Data.Int.Notation
import Mathlib.Order.Basic
import Mathlib.Tactic.Common

/-!
# What readers take from the front of a text

A run of characters is taken as far as it goes, so that what is left does not go on with it. A
numeral is such a run of digits, and a register is a numeral behind a letter. `Spells` says which
texts are numerals and registers, and each reader takes from the front of a text exactly these. A
text that must be used up is read when nothing is left of it.
-/

namespace DalvikStores

/-- The error of a text that cannot be read for what it is: there is something else at a place, or
a number that is too large. -/
def ReadError.IsMisreading (e : ReadError) : Prop :=
  (∃ rest wanted, e = .unexpected rest wanted) ∨ e = .numberTooLarge

section Inversion

variable {α β ε : Type} {x : Except ε α} {k : α → Except ε β} {b : β} {e : ε}

theorem bind_eq_ok_iff : x >>= k = .ok b ↔ ∃ a, x = .ok a ∧ k a = .ok b := by
  cases x with
  | error e' => simp [bind, Except.bind]
  | ok a => simp [bind, Except.bind]

/-- A computation fails in its first part, or after it. -/
theorem bind_eq_error_iff :
    x >>= k = .error e ↔ x = .error e ∨ ∃ a, x = .ok a ∧ k a = .error e := by
  cases x with
  | error e' => simp [bind, Except.bind]
  | ok a => simp [bind, Except.bind]

end Inversion

namespace Reader

variable {α : Type} {p : Char → Bool} {wanted : Expectation} {cs text rest : List Char} {a : α}
  {read : Reader α} {e : ReadError}

theorem takeWhile_dropWhile (p : Char → Bool) (cs : List Char) :
    (cs.dropWhile p).takeWhile p = [] := by
  rw [List.takeWhile_eq_nil_iff]
  exact List.dropWhile_get_zero_not p cs

/-- A run is taken in full where it is put in front of something that does not go on with it. -/
theorem takeWhile_append (ht : ∀ c ∈ text, p c = true) (hr : rest.takeWhile p = []) :
    (text ++ rest).takeWhile p = text := by
  rw [List.takeWhile_append_of_pos ht, hr, List.append_nil]

theorem dropWhile_append (ht : ∀ c ∈ text, p c = true) (hr : rest.takeWhile p = []) :
    (text ++ rest).dropWhile p = rest := by
  have hsplit := List.takeWhile_append_dropWhile (p := p) (l := rest)
  rw [hr, List.nil_append] at hsplit
  rw [List.dropWhile_append_of_pos ht, hsplit]

theorem someWhile_eq_ok_iff :
    someWhile p wanted cs = .ok (text, rest) ↔
      text ≠ [] ∧ (∀ c ∈ text, p c = true) ∧ rest.takeWhile p = [] ∧ cs = text ++ rest := by
  unfold someWhile
  constructor
  · intro hs
    split_ifs at hs with hne
    cases hs
    refine ⟨hne, fun c hc => List.mem_takeWhile_imp hc, takeWhile_dropWhile p cs, ?_⟩
    exact List.takeWhile_append_dropWhile.symm
  · rintro ⟨hne, ht, hr, rfl⟩
    rw [takeWhile_append ht hr, dropWhile_append ht hr, if_neg hne]

theorem someWhile_eq_error (he : someWhile p wanted cs = .error e) : e = .unexpected cs wanted := by
  unfold someWhile at he
  split_ifs at he
  cases he
  rfl

theorem whole_eq_ok_iff : whole read cs = .ok a ↔ read cs = .ok (a, []) := by
  unfold whole
  cases read cs with
  | error e => simp
  | ok p =>
    obtain ⟨b, rest⟩ := p
    cases rest <;> simp

theorem whole_eq_numberTooLarge_iff :
    whole read cs = .error .numberTooLarge ↔ read cs = .error .numberTooLarge := by
  unfold whole
  cases read cs with
  | error e => simp only [Except.error.injEq]
  | ok p =>
    obtain ⟨a, rest⟩ := p
    cases rest <;> exact iff_of_false nofun nofun

theorem isMisreading_of_whole (hread : ∀ e, read cs = .error e → e.IsMisreading)
    (he : whole read cs = .error e) : e.IsMisreading := by
  unfold whole at he
  split at he
  · rename_i hr
    cases he
    exact hread _ hr
  · cases he
  · cases he
    exact .inl ⟨_, _, rfl⟩

end Reader

namespace Numeral

variable {cs ds ds' rest : List Char} {n n' bound : ℕ} {x x' : ℤ}

/-- A numeral without a sign, and the number that it stands for. -/
structure Spells (ds : List Char) (n : ℕ) : Prop where
  ne_nil : ds ≠ []
  digit : ∀ d ∈ ds, '0' ≤ d ∧ d ≤ '9'
  value_eq : Nat.ofDigitChars 10 ds 0 = n

/-- A numeral that may have a sign. -/
inductive SpellsSigned : List Char → ℤ → Prop
  | plain {ds : List Char} {n : ℕ} (hd : Spells ds n) : SpellsSigned ds n
  | minus {ds : List Char} {n : ℕ} (hd : Spells ds n) : SpellsSigned ('-' :: ds) (-n)

theorem isDigit_iff {c : Char} : c.isDigit = true ↔ '0' ≤ c ∧ c ≤ '9' := by
  rw [Char.isDigit, Bool.and_eq_true, decide_eq_true_iff, decide_eq_true_iff]
  rfl

theorem spells_iff :
    Spells ds n ↔ ds ≠ [] ∧ (∀ d ∈ ds, d.isDigit = true) ∧ value ds = n := by
  simp only [isDigit_iff]
  exact ⟨fun hd => ⟨hd.ne_nil, hd.digit, hd.value_eq⟩, fun ⟨hne, hd, hv⟩ => ⟨hne, hd, hv⟩⟩

theorem spells_toString (n : ℕ) : Spells (toString n).toList n := by
  have hdigits : (toString n).toList = Nat.toDigits 10 n := by
    rw [Nat.toString_eq_ofList_toDigits, String.toList_ofList]
  rw [hdigits, spells_iff]
  refine ⟨Nat.toDigits_ne_nil, fun d hd => ?_, Nat.ofDigitChars_ten_toDigits⟩
  exact Nat.isDigit_of_mem_toDigits (by decide) (by decide) hd

theorem Spells.exists_cons (hd : Spells ds n) : ∃ d cs, ds = d :: cs ∧ d.isDigit = true := by
  cases ds with
  | nil => exact absurd rfl hd.ne_nil
  | cons d cs => exact ⟨d, cs, rfl, isDigit_iff.mpr (hd.digit d List.mem_cons_self)⟩

theorem digits_eq_ok_iff :
    Reader.digits cs = .ok (ds, rest) ↔
      Spells ds (value ds) ∧ rest.takeWhile Char.isDigit = [] ∧ cs = ds ++ rest := by
  rw [Reader.digits, Reader.someWhile_eq_ok_iff, spells_iff]
  simp only [and_true, and_assoc]

theorem unsigned_eq_some_iff :
    unsigned bound cs = some (n, rest) ↔ ∃ ds, Spells ds n ∧ n < bound ∧
      rest.takeWhile Char.isDigit = [] ∧ cs = ds ++ rest := by
  unfold unsigned
  constructor
  · intro hu
    dsimp only at hu
    split_ifs at hu with hd
    cases hu
    refine ⟨cs.takeWhile Char.isDigit, spells_iff.mpr ⟨hd.1, ?_, rfl⟩, hd.2, ?_, ?_⟩
    · exact fun d hd => List.mem_takeWhile_imp hd
    · exact Reader.takeWhile_dropWhile _ cs
    · exact List.takeWhile_append_dropWhile.symm
  · rintro ⟨ds, hd, hn, hr, rfl⟩
    obtain ⟨hne, hdigit, rfl⟩ := spells_iff.mp hd
    simp only [Reader.takeWhile_append hdigit hr, Reader.dropWhile_append hdigit hr]
    rw [if_pos ⟨hne, hn⟩]

theorem signed_minus : signed bound ('-' :: cs) =
    (unsigned (bound + 1) cs).map fun (n, rest) => (-(n : ℤ), rest) := rfl

theorem signed_of_ne {c : Char} (hc : c ≠ '-') : signed bound (c :: cs) =
    (unsigned bound (c :: cs)).map fun (n, rest) => ((n : ℤ), rest) := by
  unfold signed
  split
  · rename_i he
    exact absurd (List.cons.inj he).1 hc
  · rfl

/-- With a sign there is room for one more number. -/
theorem signed_eq_some_iff (hb : 0 < bound) :
    signed bound cs = some (x, rest) ↔ ∃ text, SpellsSigned text x ∧ (-bound ≤ x ∧ x < bound) ∧
      rest.takeWhile Char.isDigit = [] ∧ cs = text ++ rest := by
  constructor
  · intro hs
    unfold signed at hs
    split at hs
    · obtain ⟨⟨n, _⟩, hu, he⟩ := Option.map_eq_some_iff.mp hs
      cases he
      obtain ⟨ds, hd, hn, hr, rfl⟩ := unsigned_eq_some_iff.mp hu
      exact ⟨'-' :: ds, .minus hd, by omega, hr, rfl⟩
    · obtain ⟨⟨n, _⟩, hu, he⟩ := Option.map_eq_some_iff.mp hs
      cases he
      obtain ⟨ds, hd, hn, hr, rfl⟩ := unsigned_eq_some_iff.mp hu
      exact ⟨ds, .plain hd, by omega, hr, rfl⟩
  · rintro ⟨text, ht, hx, hr, rfl⟩
    cases ht with
    | @plain _ n hd =>
      have hu := unsigned_eq_some_iff.mpr ⟨text, hd, Int.ofNat_lt.mp hx.2, hr, rfl⟩
      obtain ⟨d, cs, rfl, hdigit⟩ := hd.exists_cons
      have hne : d ≠ '-' := by
        rintro rfl
        cases hdigit
      rw [List.cons_append] at hu ⊢
      rw [signed_of_ne hne, hu, Option.map_some]
    | @minus ds n hd =>
      have hn : n < bound + 1 := by omega
      have hu := unsigned_eq_some_iff.mpr ⟨ds, hd, hn, hr, rfl⟩
      rw [List.cons_append, signed_minus, hu, Option.map_some]

/-- A numeral is read in one way only. -/
theorem Spells.eq_of_append (hd : Spells ds n) (hd' : Spells ds' n')
    (hr : rest.takeWhile Char.isDigit = []) (he : ds = ds' ++ rest) : n = n' := by
  have hall : unsigned (n + n' + 1) ds = some (n, []) :=
    unsigned_eq_some_iff.mpr ⟨ds, hd, by omega, rfl, (List.append_nil ds).symm⟩
  have hfront : unsigned (n + n' + 1) ds = some (n', rest) :=
    unsigned_eq_some_iff.mpr ⟨ds', hd', by omega, hr, he⟩
  exact congrArg Prod.fst (Option.some.inj (hall.symm.trans hfront))

theorem SpellsSigned.eq_of_append (hd : SpellsSigned ds x) (hd' : SpellsSigned ds' x')
    (hr : rest.takeWhile Char.isDigit = []) (he : ds = ds' ++ rest) : x = x' := by
  have hb : 0 < x.natAbs + x'.natAbs + 1 := Nat.succ_pos _
  have hall : signed (x.natAbs + x'.natAbs + 1) ds = some (x, []) :=
    (signed_eq_some_iff hb).mpr ⟨ds, hd, by omega, rfl, (List.append_nil ds).symm⟩
  have hfront : signed (x.natAbs + x'.natAbs + 1) ds = some (x', rest) :=
    (signed_eq_some_iff hb).mpr ⟨ds', hd', by omega, hr, he⟩
  exact congrArg Prod.fst (Option.some.inj (hall.symm.trans hfront))

end Numeral

namespace Register

variable {cs ds text rest : List Char} {r : Register} {e : ReadError}

/-- A register is a letter and its number. -/
inductive Spells : List Char → Register → Prop
  | intro {c : Char} {ds : List Char} {r : Register} (hc : c = 'v' ∨ c = 'r')
      (hd : Numeral.Spells ds r.index) : Spells (c :: ds) r

theorem eq_of_index_eq {r r' : Register} (hi : r.index = r'.index) : r = r' := by
  cases r
  cases r'
  exact congrArg Register.mk (UInt16.toNat_inj.mp hi)

theorem ofDigits_eq_ok_iff : ofDigits ds = .ok r ↔ Numeral.value ds = r.index := by
  unfold ofDigits
  constructor
  · intro ho
    split_ifs at ho with hn
    cases ho
    exact (UInt16.toNat_ofNat_of_lt' hn).symm
  · intro hv
    have hn : r.index < UInt16.size := r.number.toNat_lt
    rw [hv, if_pos hn, index, UInt16.ofNat_toNat]

theorem ofDigits_eq_error (he : ofDigits ds = .error e) : e = .numberTooLarge := by
  unfold ofDigits at he
  split_ifs at he
  cases he
  rfl

theorem read_cons {c : Char} (hc : c = 'v' ∨ c = 'r') :
    read (c :: cs) = (do
      let (ds, rest) ← Reader.digits cs
      let r ← ofDigits ds
      return (r, rest)) := if_pos hc

theorem read_eq_ok_iff :
    read cs = .ok (r, rest) ↔
      ∃ text, Spells text r ∧ rest.takeWhile Char.isDigit = [] ∧ cs = text ++ rest := by
  constructor
  · intro hr
    unfold read at hr
    split at hr
    · cases hr
    · rename_i c cs
      split_ifs at hr with hc
      obtain ⟨⟨ds, rest'⟩, hd, hr⟩ := bind_eq_ok_iff.mp hr
      obtain ⟨r', ho, he⟩ := bind_eq_ok_iff.mp hr
      cases he
      obtain ⟨hds, hstop, rfl⟩ := Numeral.digits_eq_ok_iff.mp hd
      rw [ofDigits_eq_ok_iff.mp ho] at hds
      exact ⟨c :: ds, .intro hc hds, hstop, rfl⟩
  · rintro ⟨text, ht, hstop, rfl⟩
    cases ht with
    | @intro c ds _ hc hd =>
      have hv : Numeral.value ds = r.index := hd.value_eq
      rw [List.cons_append, read_cons hc, bind_eq_ok_iff]
      refine ⟨(ds, rest), Numeral.digits_eq_ok_iff.mpr ⟨hv ▸ hd, hstop, rfl⟩, ?_⟩
      rw [bind_eq_ok_iff]
      exact ⟨r, ofDigits_eq_ok_iff.mpr hv, rfl⟩

theorem isMisreading_of_read (he : read cs = .error e) : e.IsMisreading := by
  unfold read at he
  split at he
  · cases he
    exact .inl ⟨_, _, rfl⟩
  · split_ifs at he
    · obtain hd | ⟨p, -, he⟩ := bind_eq_error_iff.mp he
      · exact .inl ⟨_, _, Reader.someWhile_eq_error hd⟩
      · obtain ho | ⟨r, -, hp⟩ := bind_eq_error_iff.mp he
        · exact .inr (ofDigits_eq_error ho)
        · cases hp
    · cases he
      exact .inl ⟨_, _, rfl⟩

end Register

end DalvikStores
