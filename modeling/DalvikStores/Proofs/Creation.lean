import DalvikStores.Aput.Basic
import Mathlib.Data.List.Basic

/-!
# Making operations from instructions

A mnemonic names a variant when it is the family alone, for the plain variant, or the family, a
dash and the name of another variant. The names have no dashes, so that such a mnemonic falls apart
where the name begins, and a mnemonic with further dashes names nothing.

An operation is made of every instruction that has such a mnemonic, three registers, and an address
behind it, and it carries what the instruction says. Of these instructions none is refused for the
beginning of its mnemonic, and so it makes no difference whether that is looked at first.
-/

namespace DalvikStores

namespace Variant

/-- How an array store of the variant is written. -/
def mnemonic : Variant → String
  | plain => "aput"
  | v => "aput-" ++ v.name

section LastDash

variable {cs front suffix : List Char}

theorem atLastDash_eq_none_iff : atLastDash cs = none ↔ '-' ∉ cs := by
  induction cs with
  | nil => exact iff_of_true rfl List.not_mem_nil
  | cons c cs ih =>
    rw [atLastDash, List.mem_cons, not_or]
    -- a dash of the tail is later than the head, which only counts when the tail has none
    cases hs : atLastDash cs with
    | some parts =>
      have hmem : ¬ '-' ∉ cs := by
        rw [← ih, hs]
        exact Option.some_ne_none parts
      exact iff_of_false (Option.some_ne_none _) (fun hn => hmem hn.2)
    | none =>
      have hmem : '-' ∉ cs := ih.mp hs
      by_cases hc : c = '-'
      · simp [hc]
      · simp [hc, hmem, Ne.symm hc]

theorem eq_append_of_atLastDash (hd : atLastDash cs = some (front, suffix)) :
    cs = front ++ '-' :: suffix ∧ '-' ∉ suffix := by
  induction cs generalizing front with
  | nil => cases hd
  | cons c cs ih =>
    rw [atLastDash] at hd
    split at hd
    · rename_i front suffix hs
      cases hd
      obtain ⟨rfl, hn⟩ := ih hs
      exact ⟨rfl, hn⟩
    · rename_i hs
      split_ifs at hd with hc
      cases hd
      rw [hc]
      exact ⟨rfl, atLastDash_eq_none_iff.mp hs⟩

theorem atLastDash_append (front : List Char) (hn : '-' ∉ suffix) :
    atLastDash (front ++ '-' :: suffix) = some (front, suffix) := by
  induction front with
  | nil =>
    rw [List.nil_append, atLastDash, atLastDash_eq_none_iff.mpr hn]
    rfl
  | cons c front ih => rw [List.cons_append, atLastDash, ih]

end LastDash

variable {v : Variant} {m s : String}

theorem mnemonic_of_ne (hv : v ≠ plain) : v.mnemonic = "aput-" ++ v.name := by
  cases v with
  | plain => exact absurd rfl hv
  | _ => rfl

theorem dash_not_mem_name (v : Variant) : '-' ∉ v.name.toList := by
  cases v <;> decide

theorem ofSuffix_eq_some_iff : ofSuffix s = some v ↔ v ≠ plain ∧ s = v.name := by
  constructor
  · intro hs
    unfold ofSuffix at hs
    split at hs <;> cases hs
    all_goals exact ⟨Variant.noConfusion, rfl⟩
  · rintro ⟨hv, rfl⟩
    cases v with
    | plain => exact absurd rfl hv
    | _ => rfl

theorem toList_mnemonic (hv : v ≠ plain) :
    v.mnemonic.toList = family.toList ++ '-' :: v.name.toList := by
  rw [mnemonic_of_ne hv, String.toList_append]
  rfl

theorem named_mnemonic (v : Variant) : named v.mnemonic = some v := by
  by_cases hv : v = plain
  · subst hv
    rfl
  · rw [named, toList_mnemonic hv, atLastDash_append _ v.dash_not_mem_name]
    simp only [String.ofList_toList, if_true]
    exact ofSuffix_eq_some_iff.mpr ⟨hv, rfl⟩

theorem eq_mnemonic_of_named (hm : named m = some v) : m = v.mnemonic := by
  unfold named at hm
  split at hm
  · split_ifs at hm with hf
    cases hm
    exact hf
  · rename_i front suffix hd
    split_ifs at hm with hf
    obtain ⟨hv, hs⟩ := ofSuffix_eq_some_iff.mp hm
    obtain ⟨happ, -⟩ := eq_append_of_atLastDash hd
    rw [← String.toList_inj, toList_mnemonic hv, ← hs, ← hf, String.toList_ofList,
      String.toList_ofList, happ]

theorem ofMnemonic_eq_ok_iff : ofMnemonic m = .ok v ↔ m = v.mnemonic := by
  unfold ofMnemonic
  constructor
  · intro hm
    split at hm
    · rename_i w hw
      cases hm
      exact eq_mnemonic_of_named hw
    · cases hm
  · rintro rfl
    rw [named_mnemonic]

/-- A mnemonic that only ends like one of the family is none. -/
example : ofMnemonic "aput-object-wide" = .error (.notArrayStore "aput-object-wide") := by decide

theorem exists_eq_mnemonic_iff :
    (∃ v : Variant, m = v.mnemonic) ↔
      m = "aput" ∨ ∃ v : Variant, v ≠ plain ∧ m = "aput-" ++ v.name := by
  constructor
  · rintro ⟨v, rfl⟩
    by_cases hv : v = plain
    · exact .inl (congrArg mnemonic hv)
    · exact .inr ⟨v, hv, mnemonic_of_ne hv⟩
  · rintro (rfl | ⟨v, hv, rfl⟩)
    · exact ⟨plain, rfl⟩
    · exact ⟨v, (mnemonic_of_ne hv).symm⟩

end Variant

theorem Address.advance_eq_some_iff {a b : Address} {n : ℕ} :
    a.advance n = some b ↔ b.offset.toNat = a.offset.toNat + n := by
  unfold advance
  constructor
  · intro hb
    split_ifs at hb with hn
    cases hb
    exact UInt64.toNat_ofNat_of_lt' hn
  · intro hb
    rw [← hb, if_pos (UInt64.toNat_lt_size _), UInt64.ofNat_toNat]

namespace Aput

/-- The operation says what the instruction says, and goes on behind it. -/
structure Carries (op : Aput) (i : Instruction) : Prop where
  address : op.address = i.address
  name : op.name = i.mnemonic
  mnemonic : i.mnemonic = op.variant.mnemonic
  registers : i.registers = [op.value, op.array, op.index]
  successor : op.successor.offset.toNat = i.address.offset.toNat + i.size

variable {i : Instruction} {op : Aput}

theorem new_eq_ok_iff {address successor : Address} {name : String}
    {value array index : Register} :
    new address name successor value array index = .ok op ↔
      ∃ v : Variant, name = v.mnemonic ∧
        op = ⟨address, name, v, successor, value, array, index⟩ := by
  simp only [← Variant.ofMnemonic_eq_ok_iff, new]
  cases Variant.ofMnemonic name with
  | error e => simp [bind, Except.bind]
  | ok v => simp [bind, Except.bind, pure, Except.pure, eq_comm]

theorem ofInstruction_eq_ok_iff : ofInstruction i = .ok op ↔ op.Carries i := by
  unfold ofInstruction
  constructor
  · intro ho
    split at ho
    · rename_i value array index hr
      split at ho
      · cases ho
      · rename_i successor hn
        cases hnew : new i.address i.mnemonic successor value array index with
        | error e =>
          rw [hnew] at ho
          cases ho
        | ok op' =>
          rw [hnew] at ho
          cases ho
          obtain ⟨v, hv, rfl⟩ := new_eq_ok_iff.mp hnew
          exact ⟨rfl, rfl, hv, hr, Address.advance_eq_some_iff.mp hn⟩
    · cases ho
  · intro hc
    have hnext : i.next = some op.successor := Address.advance_eq_some_iff.mpr hc.successor
    have hnew : new i.address i.mnemonic op.successor op.value op.array op.index = .ok op := by
      rw [new_eq_ok_iff]
      refine ⟨op.variant, hc.mnemonic, ?_⟩
      rw [← hc.address, ← hc.name]
    rw [hc.registers]
    simp only [hnext, hnew]
    rfl

theorem inFamily_mnemonic (v : Variant) : inFamily v.mnemonic = true := by
  cases v <;> decide

/-- What is made without looking at the beginning of the mnemonic is made all the same. -/
theorem create_eq_ok_iff : create i = .ok op ↔ op.Carries i := by
  rw [← ofInstruction_eq_ok_iff, create]
  split_ifs with hf
  · rfl
  · refine iff_of_false (by simp) (fun ho => hf ?_)
    rw [(ofInstruction_eq_ok_iff.mp ho).mnemonic]
    exact inFamily_mnemonic _

theorem exists_carries_iff :
    (∃ op : Aput, op.Carries i) ↔
      i.registers.length = 3 ∧ (∃ v : Variant, i.mnemonic = v.mnemonic) ∧
        i.address.offset.toNat + i.size < UInt64.size := by
  constructor
  · rintro ⟨op, ho⟩
    refine ⟨by rw [ho.registers]; rfl, ⟨op.variant, ho.mnemonic⟩, ?_⟩
    rw [← ho.successor]
    exact op.successor.offset.toNat_lt
  · rintro ⟨hr, ⟨v, hv⟩, hn⟩
    obtain ⟨value, array, index, hr⟩ := List.length_eq_three.mp hr
    have hsuccessor : (UInt64.ofNat (i.address.offset.toNat + i.size)).toNat =
        i.address.offset.toNat + i.size := UInt64.toNat_ofNat_of_lt' hn
    exact ⟨⟨i.address, i.mnemonic, v, ⟨_⟩, value, array, index⟩, rfl, rfl, hv, hr, hsuccessor⟩

/-- Both ways of making an operation succeed on the same instructions, with the same operation. -/
theorem create_and_ofInstruction_eq_ok_iff :
    (∀ (m : String) (v : Variant), Variant.ofMnemonic m = .ok v ↔ m = v.mnemonic) ∧
      ∀ i : Instruction,
        ((∃ op, create i = .ok op) ↔ ∃ op, ofInstruction i = .ok op) ∧
        ((∃ op, ofInstruction i = .ok op) ↔
          i.registers.length = 3 ∧
            (i.mnemonic = "aput" ∨
              ∃ v : Variant, v ≠ .plain ∧ i.mnemonic = "aput-" ++ v.name) ∧
            i.address.offset.toNat + i.size < UInt64.size) ∧
        ∀ op, (create i = .ok op ↔ op.Carries i) ∧ (ofInstruction i = .ok op ↔ op.Carries i) := by
  refine ⟨fun m v => Variant.ofMnemonic_eq_ok_iff, fun i => ⟨?_, ?_, fun op => ?_⟩⟩
  · simp only [create_eq_ok_iff, ofInstruction_eq_ok_iff]
  · simp only [ofInstruction_eq_ok_iff]
    rw [exists_carries_iff, Variant.exists_eq_mnemonic_iff]
  · exact ⟨create_eq_ok_iff, ofInstruction_eq_ok_iff⟩

end Aput

end DalvikStores
