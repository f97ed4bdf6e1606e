import DalvikStores.Coercion
import Mathlib.Data.Int.ModEq

/-!
# Coercion as arithmetic

An integral value of at most 32 bits stands for an integer, its `number`. `Coerces` says what each
variant of the store makes of a value, in terms of numbers: byte, char and short stores keep the
number modulo the size of their type, plain and wide stores keep the number itself. The coercion
of the library is exactly this relation, so a value outside of the domain of a variant is one that
the relation takes to nothing.
-/

namespace DalvikStores

theorem toInt8_eq_iff (n : Int32) (m : Int8) : n.toInt8 = m ↔ m.toInt ≡ n.toInt [ZMOD 256] := by
  have hm := m.toInt_lt
  have hm' := m.le_toInt
  rw [← Int8.toInt_inj, Int32.toInt_toInt8, Int.ModEq, Int.bmod_def]
  split <;> omega

theorem toInt16_eq_iff (n : Int32) (m : Int16) :
    n.toInt16 = m ↔ m.toInt ≡ n.toInt [ZMOD 65536] := by
  have hm := m.toInt_lt
  have hm' := m.le_toInt
  rw [← Int16.toInt_inj, Int32.toInt_toInt16, Int.ModEq, Int.bmod_def]
  split <;> omega

/-- The low half of the bits is the number modulo `2 ^ 16`, also for a negative number. -/
theorem toUInt16_eq_iff (n : Int32) (c : UInt16) :
    n.toUInt32.toUInt16 = c ↔ (c.toNat : ℤ) ≡ n.toInt [ZMOD 65536] := by
  have hc := c.toNat_lt
  have hn : n.toInt = (n.toUInt32.toNat : ℤ).bmod 4294967296 := BitVec.toInt_eq_toNat_bmod _
  rw [← UInt16.toNat_inj, UInt32.toNat_toUInt16, hn, Int.ModEq, Int.bmod_def]
  split <;> omega

namespace Value

/-- The number of an integral value of at most 32 bits. -/
def number : Value → Option ℤ
  | int n => some n.toInt
  | short n => some n.toInt
  | byte n => some n.toInt
  | char c => some c.toNat
  | _ => none

theorem number_eq_map_widen (v : Value) : v.number = v.widen.map Int32.toInt := by
  cases v with
  | char c =>
    have hc : (Int32.ofNat c.toNat).toInt = c.toNat :=
      Int32.toInt_ofNat_of_lt (c.toNat_lt.trans (by decide))
    simp only [number, widen, Option.map_some, hc]
  | _ => simp [number, widen]

theorem number_eq_some_iff (v : Value) (x : ℤ) :
    v.number = some x ↔ ∃ n, v.widen = some n ∧ n.toInt = x := by
  rw [number_eq_map_widen, Option.map_eq_some_iff]

theorem number_eq_toInt_iff (v : Value) (n : Int32) :
    v.number = some n.toInt ↔ v.widen = some n := by
  rw [number_eq_some_iff]
  constructor
  · rintro ⟨m, hm, he⟩
    rw [hm, Int32.toInt_inj.mp he]
  · intro hn
    exact ⟨n, hn, rfl⟩

theorem number_eq_none_iff (v : Value) : v.number = none ↔ v.widen = none := by
  rw [number_eq_map_widen, Option.map_eq_none_iff]

end Value

namespace Variant

/-- The value that a variant of the store makes of another. -/
inductive Coerces : Variant → Value → Value → Prop
  | wideLong (n : Int64) : Coerces wide (.long n) (.long n)
  | wideInt {n : Int32} {m : Int64} (hm : m.toInt = n.toInt) : Coerces wide (.int n) (.long m)
  | booleanZero : Coerces boolean (.int 0) (.boolean false)
  | booleanOne : Coerces boolean (.int 1) (.boolean true)
  | boolean (b : Bool) : Coerces boolean (.boolean b) (.boolean b)
  | byte {v : Value} {x : ℤ} {n : Int8} (hv : v.number = some x)
      (hn : n.toInt ≡ x [ZMOD 256]) : Coerces byte v (.byte n)
  | char {v : Value} {x : ℤ} {c : UInt16} (hv : v.number = some x)
      (hc : c.toNat ≡ x [ZMOD 65536]) : Coerces char v (.char c)
  | short {v : Value} {x : ℤ} {n : Int16} (hv : v.number = some x)
      (hn : n.toInt ≡ x [ZMOD 65536]) : Coerces short v (.short n)
  | plain {v : Value} {n : Int32} (hv : v.number = some n.toInt) : Coerces plain v (.int n)
  | object {v : Value} (hv : v.isReference = true) : Coerces object v v

theorem coerces_of_admitted {variant : Variant} {v w : Value}
    (h : variant.admitted v = some w) : variant.Coerces v w := by
  cases variant with
  | plain =>
    obtain ⟨n, hn, rfl⟩ := Option.map_eq_some_iff.mp h
    exact .plain ((v.number_eq_toInt_iff n).mpr hn)
  | byte =>
    obtain ⟨n, hn, rfl⟩ := Option.map_eq_some_iff.mp h
    exact .byte ((v.number_eq_toInt_iff n).mpr hn) ((toInt8_eq_iff n _).mp rfl)
  | char =>
    obtain ⟨n, hn, rfl⟩ := Option.map_eq_some_iff.mp h
    exact .char ((v.number_eq_toInt_iff n).mpr hn) ((toUInt16_eq_iff n _).mp rfl)
  | short =>
    obtain ⟨n, hn, rfl⟩ := Option.map_eq_some_iff.mp h
    exact .short ((v.number_eq_toInt_iff n).mpr hn) ((toInt16_eq_iff n _).mp rfl)
  | wide =>
    cases v with
    | int n => cases h; exact .wideInt n.toInt_toInt64
    | long n => cases h; exact .wideLong n
    | _ => cases h
  | boolean =>
    cases v with
    | int n =>
      simp only [admitted] at h
      split_ifs at h with h0 h1
      · cases h; subst h0; exact .booleanZero
      · cases h; subst h1; exact .booleanOne
    | boolean b => cases h; exact .boolean b
    | _ => cases h
  | object =>
    simp only [admitted] at h
    split_ifs at h with hv
    cases h
    exact .object hv

theorem admitted_of_coerces {variant : Variant} {v w : Value}
    (h : variant.Coerces v w) : variant.admitted v = some w := by
  cases h with
  | wideLong n => rfl
  | wideInt hm =>
    rename_i n m
    have he : n.toInt64 = m := Int64.toInt_inj.mp (n.toInt_toInt64.trans hm.symm)
    simp only [admitted, he]
  | booleanZero => rfl
  | booleanOne => rfl
  | boolean b => rfl
  | byte hv hn =>
    obtain ⟨n, hw, rfl⟩ := (v.number_eq_some_iff _).mp hv
    simp only [admitted, hw, Option.map_some, narrow, (toInt8_eq_iff n _).mpr hn]
  | char hv hc =>
    obtain ⟨n, hw, rfl⟩ := (v.number_eq_some_iff _).mp hv
    simp only [admitted, hw, Option.map_some, narrow, (toUInt16_eq_iff n _).mpr hc]
  | short hv hn =>
    obtain ⟨n, hw, rfl⟩ := (v.number_eq_some_iff _).mp hv
    simp only [admitted, hw, Option.map_some, narrow, (toInt16_eq_iff n _).mpr hn]
  | plain hv =>
    rw [Value.number_eq_toInt_iff] at hv
    simp only [admitted, hv, Option.map_some, narrow]
  | object hv => simp only [admitted, if_pos hv]

theorem admitted_eq_some_iff (variant : Variant) (v w : Value) :
    variant.admitted v = some w ↔ variant.Coerces v w :=
  ⟨coerces_of_admitted, admitted_of_coerces⟩

theorem Coerces.unique {variant : Variant} {v w w' : Value} (hw : variant.Coerces v w)
    (hw' : variant.Coerces v w') : w = w' := by
  rw [← admitted_eq_some_iff] at hw hw'
  exact Option.some.inj (hw.symm.trans hw')

theorem coerce_eq_ok_iff (variant : Variant) (v w : Value) :
    variant.coerce v = .ok w ↔ variant.Coerces v w := by
  rw [← admitted_eq_some_iff, coerce]
  cases variant.admitted v <;> simp

/-- Coercion fails exactly outside of the domain of the variant, and names both. -/
theorem coerce_eq_error_iff (variant : Variant) (v : Value) (e : CoercionError) :
    variant.coerce v = .error e ↔ e = ⟨variant, v⟩ ∧ ∀ w, ¬ variant.Coerces v w := by
  simp only [← admitted_eq_some_iff, coerce]
  cases variant.admitted v <;> simp [eq_comm]

/-- Only the object store yields a reference, and it keeps it as it is. -/
theorem Coerces.eq_of_isReference {variant : Variant} {v w : Value} (h : variant.Coerces v w)
    (hw : w.isReference = true) : w = v := by
  cases h with
  | object => rfl
  | _ => cases hw

end Variant

end DalvikStores
