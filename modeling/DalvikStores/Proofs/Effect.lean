import DalvikStores.Proofs.Creation
import DalvikStores.Proofs.Transfer

/-!
# The effect of an execution

A successful step can change the array register and one slot, and nothing else. It makes no new
array and leads to no array that the state did not reach before, so that every array keeps the
type and the length that belong to its reference. A text that is not executed, for whatever
reason, has no effect at all.
-/

namespace DalvikStores

/-- An array that a register holds, or a slot of an array that is reached. -/
inductive State.Reaches (s : State) : ArrayRef → Prop
  | register {ref : ArrayRef} (hr : Value.array ref ∈ s.frame.registers) : Reaches s ref
  | slot {r ref : ArrayRef} {j : ℕ} (hr : Reaches s r) (hj : j < r.length)
      (hv : s.heap.slot r j = .array ref) : Reaches s ref

namespace Aput.Step

variable {op : Aput} {h : Hierarchy} {s t : State} {v : Value} {ref : ArrayRef} {i j : ℕ}

theorem getElem?_of_ne (hs : op.Step h s t) (hi : i ≠ op.array.index) :
    t.frame.registers[i]? = s.frame.registers[i]? := by
  cases hs with
  | leave => rfl
  | taint => exact List.getElem?_set_ne hi.symm
  | write => rfl

theorem size_eq (hs : op.Step h s t) : t.frame.size = s.frame.size := by
  cases hs with
  | leave => rfl
  | taint => exact List.length_set
  | write => rfl

theorem mem_registers (hs : op.Step h s t) (hv : v ∈ t.frame.registers) :
    v ∈ s.frame.registers ∨ v.isUnknown = true := by
  cases hs with
  | leave => exact .inl hv
  | taint =>
    rcases List.mem_or_eq_of_mem_set hv with hv | rfl
    · exact .inl hv
    · exact .inr rfl
  | write => exact .inl hv

/-- A slot keeps its value, or takes that of the value operand under the variant. -/
theorem slot_eq_or_takes (hs : op.Step h s t) (ref : ArrayRef) (j : ℕ) :
    t.heap.slot ref j = s.heap.slot ref j ∨
      ∃ v i w, op.Reads s.frame v (.array ref) i ∧ v.isUnknown = false ∧
        op.variant.Coerces v w ∧ i.number = some (j : ℤ) ∧ j < ref.length ∧
        ref.element.Takes h w (t.heap.slot ref j) := by
  cases hs with
  | leave => exact .inl rfl
  | taint => exact .inl rfl
  | @write v i w r k c hr hv hw hj hl hu =>
    by_cases hk : ref = r ∧ j = k
    · obtain ⟨rfl, rfl⟩ := hk
      have hslot : (s.heap.write ref j c).slot ref j = c.value := Heap.write_slot_self _ _ _ _
      exact .inr ⟨v, i, w, hr, hv, hw, hj, hl, hslot.symm ▸ hu⟩
    · exact .inl (Heap.write_slot_of_ne s.heap r k c hk)

theorem exists_write {a b : Value} (hs : op.Step h s t) (hr : op.Reads s.frame a (.array ref) b)
    (ha : a.isUnknown = false) (hb : b.isUnknown = false) :
    ∃ (j : ℕ) (w : Value) (c : Cell ref.element), op.variant.Coerces a w ∧
      b.number = some (j : ℤ) ∧ j < ref.length ∧ ref.element.Takes h w c.value ∧
      t = { s with heap := s.heap.write ref j c } := by
  cases hs with
  | leave hr₁ => cases hr.array.symm.trans hr₁.array
  | taint hr₁ hu =>
    cases hr.value.symm.trans hr₁.value
    cases hr.index.symm.trans hr₁.index
    rw [ha, hb] at hu
    rcases hu with hu | hu <;> cases hu
  | write hr₁ _ hw hj hl hu =>
    cases hr.value.symm.trans hr₁.value
    cases hr.array.symm.trans hr₁.array
    cases hr.index.symm.trans hr₁.index
    exact ⟨_, _, _, hw, hj, hl, hu, rfl⟩

theorem of_slot_ne (hs : op.Step h s t) (hne : t.heap.slot ref j ≠ s.heap.slot ref j) :
    s.frame.registers[op.array.index]? = some (.array ref) ∧
      ∃ v, s.frame.registers[op.index.index]? = some v ∧ v.number = some (j : ℤ) := by
  obtain he | ⟨v, i, w, hr, -, -, hj, -⟩ := hs.slot_eq_or_takes ref j
  · exact absurd he hne
  · exact ⟨hr.array, i, hr.index, hj⟩

theorem slot_reference (hs : op.Step h s t) (hv : (t.heap.slot ref j).isReference = true) :
    t.heap.slot ref j = s.heap.slot ref j ∨ t.heap.slot ref j ∈ s.frame.registers := by
  obtain he | ⟨v, i, w, hr, -, hw, -, -, hu⟩ := hs.slot_eq_or_takes ref j
  · exact .inl he
  · have huw : t.heap.slot ref j = w := hu.eq_of_isReference hv
    have hwv : w = v := hw.eq_of_isReference (huw ▸ hv)
    right
    rw [huw, hwv]
    exact List.mem_of_getElem? hr.value

/-- No array comes into reach. -/
theorem reaches (hs : op.Step h s t) (hr : t.Reaches ref) : s.Reaches ref := by
  induction hr with
  | register hr =>
    rcases hs.mem_registers hr with hr | hu
    · exact .register hr
    · cases hu
  | @slot r ref j hr hj hv ih =>
    have href : (t.heap.slot r j).isReference = true := by rw [hv]; rfl
    rcases hs.slot_reference href with he | hm
    · exact .slot ih hj (he.symm.trans hv)
    · exact .register (hv ▸ hm)

end Aput.Step

theorem Aput.of_create {i : Instruction} {op : Aput} (hc : create i = .ok op) :
    i.address = op.address ∧ i.mnemonic = op.name ∧
      i.registers = [op.value, op.array, op.index] := by
  have hcarries := create_eq_ok_iff.mp hc
  exact ⟨hcarries.address.symm, hcarries.name.symm, hcarries.registers⟩

theorem Aput.ofText_of_parse {address : Address} {text : String} {i : Instruction}
    (hi : Instruction.parse address text = .ok i) : ofText address text = create i := by
  simp only [ofText, hi]
  rfl

theorem Aput.exists_create_of_ofText {address : Address} {text : String} {op : Aput}
    (ho : ofText address text = .ok op) :
    ∃ i, Instruction.parse address text = .ok i ∧ create i = .ok op := by
  cases hi : Instruction.parse address text with
  | error e =>
    simp only [ofText, hi] at ho
    cases ho
  | ok i => exact ⟨i, rfl, (ofText_of_parse hi).symm.trans ho⟩

theorem Aput.exists_parse_of_ofText {address : Address} {text : String} {op : Aput}
    (ho : ofText address text = .ok op) :
    ∃ i, Instruction.parse address text = .ok i ∧
      i.registers = [op.value, op.array, op.index] := by
  obtain ⟨i, hi, hc⟩ := exists_create_of_ofText ho
  obtain ⟨-, -, hregisters⟩ := of_create hc
  exact ⟨i, hi, hregisters⟩

namespace Execution

variable {h : Hierarchy} {address : Address} {text : String} {s t : State}

theorem ofText_eq (h : Hierarchy) (address : Address) (text : String) (s : State) :
    ofText h address text s = match Aput.ofText address text with
      | .error e => .error e s
      | .ok op => op.execute h s := by
  simp only [ofText, bind, EStateM.bind, ofExcept]
  cases Aput.ofText address text <;> rfl

theorem ofText_eq_ok_iff (successors : List Address) :
    ofText h address text s = .ok successors t ↔
      ∃ op, Aput.ofText address text = .ok op ∧ successors = [op.successor] ∧ op.Step h s t := by
  rw [ofText_eq]
  cases Aput.ofText address text with
  | error e => simp
  | ok op => simp [Aput.execute_eq_ok_iff]

theorem eq_of_ofText_eq_error {e : Fault} (he : ofText h address text s = .error e t) :
    t = s := by
  rw [ofText_eq] at he
  cases ho : Aput.ofText address text with
  | error e' => rw [ho] at he; cases he; rfl
  | ok op => rw [ho] at he; exact Aput.eq_of_execute_eq_error he

/-- A text that fails has no effect. One that succeeds can change the register of the array, and
the slot that the index gives of the array which that register held. -/
theorem ofText_effect (h : Hierarchy) (address : Address) (text : String) (s : State) :
    match ofText h address text s with
    | .error _ t => t = s
    | .ok _ t => ∃ i value array index, Instruction.parse address text = .ok i ∧
        i.registers = [value, array, index] ∧
        t.frame.size = s.frame.size ∧
        (∀ k, k ≠ array.index → t.frame.registers[k]? = s.frame.registers[k]?) ∧
        (∀ ref j, t.heap.slot ref j ≠ s.heap.slot ref j →
          s.frame.read array = .ok (.array ref) ∧
            ∃ v, s.frame.read index = .ok v ∧ v.number = some (j : ℤ)) ∧
        (∀ ref, t.Reaches ref → s.Reaches ref) ∧
        ∀ ref, (t.heap.contents ref).length = (s.heap.contents ref).length := by
  cases hr : ofText h address text s with
  | error e t => exact eq_of_ofText_eq_error hr
  | ok successors t =>
    obtain ⟨op, ho, -, hs⟩ := (ofText_eq_ok_iff successors).mp hr
    obtain ⟨i, hi, hregisters⟩ := Aput.exists_parse_of_ofText ho
    refine ⟨i, op.value, op.array, op.index, hi, hregisters, hs.size_eq,
      fun k hk => hs.getElem?_of_ne hk, fun ref j hne => ?_, fun ref => hs.reaches, fun ref => ?_⟩
    · obtain ⟨ha, v, hv, hn⟩ := hs.of_slot_ne hne
      exact ⟨Frame.read_eq_ok_iff.mpr ha, v, Frame.read_eq_ok_iff.mpr hv, hn⟩
    · simp only [Heap.contents, List.length_map]

end Execution

end DalvikStores
