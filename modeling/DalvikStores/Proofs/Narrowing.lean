import DalvikStores.Proofs.Coercion
import Mathlib.Tactic.FinCases

/-!
# Narrowing as modular arithmetic

The plain, byte, char and short stores keep a number up to multiples of the size of their type,
and of all numbers with this property the type has exactly one. A wide store keeps the number
itself. Therefore a coerced value coerces to itself, and a coercion that keeps more of the number
does not show behind one that keeps less: a char or a short can be stored as a byte, or as each
other, for the number that it was made from.
-/

namespace DalvikStores

/-- As many integers as `count`, from `least` on. -/
structure NumberRange where
  least : ℤ
  count : ℤ

namespace NumberRange

variable {g : NumberRange} {x y : ℤ}

def Contains (g : NumberRange) (x : ℤ) : Prop := g.least ≤ x ∧ x < g.least + g.count

theorem Contains.eq_of_modEq (hx : g.Contains x) (hy : g.Contains y)
    (hxy : x ≡ y [ZMOD g.count]) : x = y := by
  have hlt : |y - x| < g.count := by
    obtain ⟨hx₁, hx₂⟩ := hx
    obtain ⟨hy₁, hy₂⟩ := hy
    rw [abs_lt]
    omega
  have hzero : y - x = 0 := Int.eq_zero_of_abs_lt_dvd hxy.dvd hlt
  omega

end NumberRange

theorem Value.contains_of_number {v : Value} {x : ℤ} (hv : v.number = some x) :
    (NumberRange.mk (-2 ^ 31) (2 ^ 32)).Contains x := by
  obtain ⟨n, -, rfl⟩ := (v.number_eq_some_iff x).mp hv
  have hlow := n.le_toInt
  have hhigh := n.toInt_lt
  simp only [NumberRange.Contains]
  omega

namespace Variant

variable {variant wider narrower : Variant} {g g' : NumberRange} {v w : Value} {x y : ℤ}

def numbers : Variant → Option NumberRange
  | plain => some ⟨-2 ^ 31, 2 ^ 32⟩
  | byte => some ⟨-2 ^ 7, 2 ^ 8⟩
  | char => some ⟨0, 2 ^ 16⟩
  | short => some ⟨-2 ^ 15, 2 ^ 16⟩
  | _ => none

/-- The value of the type of an integral variant that has a number. -/
inductive Represents : Variant → ℤ → Value → Prop
  | plain {n : Int32} {x : ℤ} (hn : n.toInt = x) : Represents plain x (.int n)
  | byte {n : Int8} {x : ℤ} (hn : n.toInt = x) : Represents byte x (.byte n)
  | char {c : UInt16} {x : ℤ} (hc : c.toNat = x) : Represents char x (.char c)
  | short {n : Int16} {x : ℤ} (hn : n.toInt = x) : Represents short x (.short n)

theorem Represents.number (hw : variant.Represents x w) : w.number = some x := by
  cases hw with
  | plain hn | byte hn | char hn | short hn => exact congrArg some hn

theorem Represents.contains (hw : variant.Represents x w) (hg : variant.numbers = some g) :
    g.Contains x := by
  cases hw with
  | @plain n _ hn =>
    cases hg
    have hlow := n.le_toInt
    have hhigh := n.toInt_lt
    simp only [NumberRange.Contains]
    omega
  | @byte n _ hn =>
    cases hg
    have hlow := n.le_toInt
    have hhigh := n.toInt_lt
    simp only [NumberRange.Contains]
    omega
  | @char c _ hc =>
    cases hg
    have hhigh := c.toNat_lt
    simp only [NumberRange.Contains]
    omega
  | @short n _ hn =>
    cases hg
    have hlow := n.le_toInt
    have hhigh := n.toInt_lt
    simp only [NumberRange.Contains]
    omega

theorem coerces_iff_represents (hg : variant.numbers = some g) (hv : v.number = some x) :
    variant.Coerces v w ↔ ∃ y, variant.Represents y w ∧ y ≡ x [ZMOD g.count] := by
  constructor
  · intro hw
    cases hw with
    | plain hn =>
      cases hv.symm.trans hn
      exact ⟨_, .plain rfl, rfl⟩
    | byte hn hm =>
      cases hg
      cases hv.symm.trans hn
      exact ⟨_, .byte rfl, by simpa using hm⟩
    | char hn hm =>
      cases hg
      cases hv.symm.trans hn
      exact ⟨_, .char rfl, by simpa using hm⟩
    | short hn hm =>
      cases hg
      cases hv.symm.trans hn
      exact ⟨_, .short rfl, by simpa using hm⟩
    | wideLong | wideInt | booleanZero | booleanOne | boolean | object => cases hg
  · rintro ⟨y, hw, hy⟩
    cases hw with
    | @plain n _ hn =>
      cases hg
      -- The number before is one of 32 bits itself, so that only it is congruent.
      have hx : x = y := (Value.contains_of_number hv).eq_of_modEq
        ((Represents.plain hn).contains rfl) hy.symm
      rw [hx, ← hn] at hv
      exact .plain hv
    | byte hn =>
      cases hg
      subst hn
      exact .byte hv (by simpa using hy)
    | char hn =>
      cases hg
      subst hn
      exact .char hv (by simpa using hy)
    | short hn =>
      cases hg
      subst hn
      exact .short hv (by simpa using hy)

theorem exists_coerces (hg : variant.numbers = some g) (hv : v.number = some x) :
    ∃ w, variant.Coerces v w := by
  obtain ⟨n, hn, -⟩ := (v.number_eq_some_iff x).mp hv
  refine ⟨variant.narrow n, coerces_of_admitted ?_⟩
  cases variant with
  | plain | byte | char | short => simp only [admitted, hn, Option.map_some]
  | wide | boolean | object => cases hg

theorem exists_coerce_represents (hg : variant.numbers = some g) (hv : v.number = some x) :
    ∃ w y, variant.coerce v = .ok w ∧ variant.Represents y w ∧
      ∀ z, z = y ↔ g.Contains z ∧ z ≡ x [ZMOD g.count] := by
  obtain ⟨w, hw⟩ := exists_coerces hg hv
  obtain ⟨y, hy, hmod⟩ := (coerces_iff_represents hg hv).mp hw
  refine ⟨w, y, (coerce_eq_ok_iff _ _ _).mpr hw, hy, fun z => ?_⟩
  constructor
  · rintro rfl
    exact ⟨hy.contains hg, hmod⟩
  · rintro ⟨hz, hzx⟩
    exact hz.eq_of_modEq (hy.contains hg) (hzx.trans hmod.symm)

theorem Coerces.again (hw : variant.Coerces v w) : variant.Coerces w w := by
  cases hw with
  | wideLong n => exact .wideLong n
  | wideInt => exact .wideLong _
  | booleanZero => exact .boolean false
  | booleanOne => exact .boolean true
  | boolean b => exact .boolean b
  | byte => exact .byte rfl rfl
  | char => exact .char rfl rfl
  | short => exact .short rfl rfl
  | plain => exact .plain rfl
  | object hv => exact .object hv

/-- A number that is kept up to multiples of `g.count` is enough to keep it up to multiples of
what divides `g.count`. -/
theorem exists_coerce_coerce (hg : wider.numbers = some g) (hg' : narrower.numbers = some g')
    (hd : g'.count ∣ g.count) (hv : v.number = some x) :
    ∃ u, wider.coerce v = .ok u ∧ narrower.coerce u = narrower.coerce v := by
  obtain ⟨u, hu⟩ := exists_coerces hg hv
  obtain ⟨y, hy, hyx⟩ := (coerces_iff_represents hg hv).mp hu
  obtain ⟨w, hw⟩ := exists_coerces hg' hy.number
  obtain ⟨z, hz, hzy⟩ := (coerces_iff_represents hg' hy.number).mp hw
  have hzx : z ≡ x [ZMOD g'.count] := hzy.trans (hyx.of_dvd hd)
  have hw' : narrower.Coerces v w := (coerces_iff_represents hg' hv).mpr ⟨z, hz, hzx⟩
  refine ⟨u, (coerce_eq_ok_iff _ _ _).mpr hu, ?_⟩
  rw [(coerce_eq_ok_iff _ _ _).mpr hw, (coerce_eq_ok_iff _ _ _).mpr hw']

/-- The coercions of integral values, on their numbers. A plain, byte, char or short store takes
every value of at most 32 bits to the one number of its type that is congruent to the number of the
value. A wide store keeps the number. No coercion changes what it has made, and a plain, char or
short store does not change what a byte, char or short store makes afterwards. -/
theorem coerce_modEq_and_coerce_coerce :
    (∀ variant g v x, numbers variant = some g → v.number = some x →
        ∃ w y, variant.coerce v = .ok w ∧ variant.Represents y w ∧
          ∀ z, z = y ↔ g.Contains z ∧ z ≡ x [ZMOD g.count]) ∧
      (∀ n : Int32, ∃ m : Int64, wide.coerce (.int n) = .ok (.long m) ∧ m.toInt = n.toInt) ∧
      (∀ n : Int64, wide.coerce (.long n) = .ok (.long n)) ∧
      (∀ variant v w, coerce variant v = .ok w → variant.coerce w = .ok w) ∧
      ∀ wider ∈ [plain, char, short], ∀ narrower ∈ [byte, char, short],
        ∀ v x, v.number = some x →
          ∃ u, wider.coerce v = .ok u ∧ narrower.coerce u = narrower.coerce v := by
  refine ⟨fun variant g v x hg hv => exists_coerce_represents hg hv, fun n => ?_, fun n => rfl,
    fun variant v w hw => ?_, fun wider hwider narrower hnarrower v x hv => ?_⟩
  · exact ⟨n.toInt64, rfl, n.toInt_toInt64⟩
  · rw [coerce_eq_ok_iff] at hw ⊢
    exact hw.again
  · have hdvd : ∃ g g', wider.numbers = some g ∧ narrower.numbers = some g' ∧
        g'.count ∣ g.count := by
      fin_cases hwider <;> fin_cases hnarrower <;> exact ⟨_, _, rfl, rfl, by decide⟩
    obtain ⟨g, g', hg, hg', hd⟩ := hdvd
    exact exists_coerce_coerce hg hg' hd hv

theorem coerce_modEq_and_coerce_coerce_negative :
    (Value.int (-1)).number = some (-1) ∧ char.coerce (.int (-1)) = .ok (.char 65535) ∧
      (∀ z, z = 65535 ↔ (0 ≤ z ∧ z < 0 + 2 ^ 16) ∧ z ≡ -1 [ZMOD 2 ^ 16]) ∧
      char.coerce (.char 65535) = .ok (.char 65535) ∧
      short.coerce (.char 65535) = short.coerce (.int (-1)) := by
  obtain ⟨hnumber, -, -, hagain, hladder⟩ := coerce_modEq_and_coerce_coerce
  have hc : char.coerce (.int (-1)) = .ok (.char 65535) := rfl
  obtain ⟨w, y, hw, hy, hz⟩ := hnumber char _ (.int (-1)) (-1) rfl rfl
  cases hc.symm.trans hw
  have hy : y = 65535 := (Option.some.inj hy.number).symm
  subst hy
  obtain ⟨u, hu, hshort⟩ := hladder char (by decide) short (by decide) (.int (-1)) (-1) rfl
  cases hc.symm.trans hu
  exact ⟨rfl, hc, hz, hagain char _ _ hc, hshort⟩

end Variant

end DalvikStores
