import DalvikStores.Aput.Transfer
import DalvikStores.Proofs.Slot
import Mathlib.Tactic.Common

/-!
# The transfer of an array store

`Step` has one rule for each way in which an array store succeeds: an unknown array is left alone,
an unknown value or index makes the array register unknown, and otherwise one slot is written.
`Refuses` has one rule for each fault, and each rule excludes the causes that are looked for
before its own. An operation ends in a state exactly when `Step` leads there, and where all arrays
in the registers have `Dimensioned` types, it ends in a fault exactly when it is refused with it.

All other facts about executions follow from `execute_eq_ok_iff` and `eq_of_execute_eq_error`, and
do not look into the operation again.
-/

namespace DalvikStores

namespace Frame

variable {f : Frame} {r : Register} {v : Value}

theorem read_eq_ok_iff : f.read r = .ok v ↔ f.registers[r.index]? = some v := by
  unfold read
  cases f.registers[r.index]? <;> simp

theorem read_eq_error (hr : f.size ≤ r.index) :
    f.read r = .error (.violation (.outsideFrame r f.size)) := by
  have hn : f.registers[r.index]? = none := List.getElem?_eq_none hr
  simp only [read, hn]

theorem exists_getElem? (hr : r.index < f.size) : ∃ v, f.registers[r.index]? = some v :=
  ⟨_, List.getElem?_eq_getElem hr⟩

theorem lt_size_of_getElem? {i : ℕ} (hv : f.registers[i]? = some v) : i < f.size :=
  (List.getElem?_eq_some_iff.mp hv).1

theorem assign_getElem? (hv : f.registers[r.index]? = some v) : f.assign r v = .ok f := by
  obtain ⟨hr, rfl⟩ := List.getElem?_eq_some_iff.mp hv
  have hs : r.index < f.size := hr
  rw [assign, if_pos hs, List.set_getElem_self]

theorem assign_eq_ok (hr : r.index < f.size) (v : Value) :
    f.assign r v = .ok ⟨f.registers.set r.index v⟩ := if_pos hr

/-- The arrays in the registers have types that count no zero dimensions. -/
def Dimensioned (f : Frame) : Prop := ∀ v ∈ f.registers, v.Dimensioned

end Frame

namespace Aput

structure Reads (op : Aput) (f : Frame) (v a i : Value) : Prop where
  value : f.registers[op.value.index]? = some v
  array : f.registers[op.array.index]? = some a
  index : f.registers[op.index.index]? = some i

/-- The state that a successful operation makes of another. -/
inductive Step (op : Aput) (h : Hierarchy) (s : State) : State → Prop
  | leave {v i : Value} {d : String} (hr : op.Reads s.frame v (.unknown d) i) : Step op h s s
  | taint {v i : Value} {ref : ArrayRef} (hr : op.Reads s.frame v (.array ref) i)
      (hu : v.isUnknown = true ∨ i.isUnknown = true) :
      Step op h s { s with frame := ⟨s.frame.registers.set op.array.index (.ofUnknown ref.type)⟩ }
  | write {v i w : Value} {ref : ArrayRef} {j : ℕ} {c : Cell ref.element}
      (hr : op.Reads s.frame v (.array ref) i) (hv : v.isUnknown = false)
      (hw : op.variant.Coerces v w) (hj : i.number = some (j : ℤ)) (hl : j < ref.length)
      (hu : ref.element.Takes h w c.value) :
      Step op h s { s with heap := s.heap.write ref j c }

/-- The fault of an operation that fails: the first cause in the order of the rules. -/
inductive Refuses (op : Aput) (h : Hierarchy) (f : Frame) : Fault → Prop
  | valueOutside (hv : f.size ≤ op.value.index) :
      Refuses op h f (.violation (.outsideFrame op.value f.size))
  | arrayOutside (hv : op.value.index < f.size) (ha : f.size ≤ op.array.index) :
      Refuses op h f (.violation (.outsideFrame op.array f.size))
  | indexOutside (hv : op.value.index < f.size) (ha : op.array.index < f.size)
      (hi : f.size ≤ op.index.index) :
      Refuses op h f (.violation (.outsideFrame op.index f.size))
  | notAnArray {v a i : Value} (hr : op.Reads f v a i) (hu : a.isUnknown = false)
      (ha : ∀ ref, a ≠ .array ref) :
      Refuses op h f (.execution (.notAnArray op.render op.array a))
  | outsideDomain {v i : Value} {ref : ArrayRef} (hr : op.Reads f v (.array ref) i)
      (hv : v.isUnknown = false) (hi : i.isUnknown = false)
      (hw : ∀ w, ¬ op.variant.Coerces v w) :
      Refuses op h f (.coercion ⟨op.variant, v⟩)
  | indexNotInt {v i w : Value} {ref : ArrayRef} (hr : op.Reads f v (.array ref) i)
      (hv : v.isUnknown = false) (hi : i.isUnknown = false) (hw : op.variant.Coerces v w)
      (hn : i.number = none) :
      Refuses op h f (.execution (.indexNotInt op.render i))
  | outOfBounds {v i w : Value} {ref : ArrayRef} {n : Int32} (hr : op.Reads f v (.array ref) i)
      (hv : v.isUnknown = false) (hw : op.variant.Coerces v w) (hn : i.number = some n.toInt)
      (hb : n.toInt < 0 ∨ ref.length ≤ n.toInt) :
      Refuses op h f (.execution (.indexOutOfBounds n ref.length))
  | mismatch {v i w : Value} {ref : ArrayRef} {j : ℕ} (hr : op.Reads f v (.array ref) i)
      (hv : v.isUnknown = false) (hw : op.variant.Coerces v w) (hj : i.number = some (j : ℤ))
      (hl : j < ref.length) (hu : ∀ u, ¬ ref.element.Takes h w u) :
      Refuses op h f (.execution (.storeMismatch w ref.type))

section Action

variable {op : Aput} {f : Frame} {v a i w : Value} {ref : ArrayRef}

theorem action_leave {d : String} (hr : op.Reads f v (.unknown d) i) :
    op.action f = .ok (.leave d) := by
  simp only [action, Frame.read_eq_ok_iff.mpr hr.value, Frame.read_eq_ok_iff.mpr hr.array,
    Frame.read_eq_ok_iff.mpr hr.index, bind, Except.bind, pure, Except.pure]

theorem action_taint (hr : op.Reads f v (.array ref) i)
    (hu : v.isUnknown = true ∨ i.isUnknown = true) : op.action f = .ok (.taint ref) := by
  rw [← Bool.or_eq_true] at hu
  simp only [action, Frame.read_eq_ok_iff.mpr hr.value, Frame.read_eq_ok_iff.mpr hr.array,
    Frame.read_eq_ok_iff.mpr hr.index, bind, Except.bind, pure, Except.pure, if_pos hu]

theorem action_notAnArray (hr : op.Reads f v a i) (hu : a.isUnknown = false)
    (ha : ∀ ref, a ≠ .array ref) :
    op.action f = .error (.execution (.notAnArray op.render op.array a)) := by
  simp only [action, Frame.read_eq_ok_iff.mpr hr.value, Frame.read_eq_ok_iff.mpr hr.array,
    Frame.read_eq_ok_iff.mpr hr.index, bind, Except.bind]
  cases a with
  | unknown d => cases hu
  | array ref => exact absurd rfl (ha ref)
  | _ => rfl

/-- With all operands known, the value is coerced before the index is looked at. -/
theorem action_known (hr : op.Reads f v (.array ref) i) (hv : v.isUnknown = false)
    (hi : i.isUnknown = false) :
    op.action f = match op.variant.coerce v with
      | .error e => .error (.coercion e)
      | .ok w => match i.widen with
        | none => .error (.execution (.indexNotInt op.render i))
        | some n => .ok (.write ref n w) := by
  simp only [action, Frame.read_eq_ok_iff.mpr hr.value, Frame.read_eq_ok_iff.mpr hr.array,
    Frame.read_eq_ok_iff.mpr hr.index, hv, hi, bind, Except.bind, pure, Except.pure, coerced,
    position, Bool.or_self, Bool.false_eq_true, if_false]
  cases op.variant.coerce v with
  | error e => rfl
  | ok w => cases i.widen <;> rfl

theorem action_write {n : Int32} (hr : op.Reads f v (.array ref) i) (hv : v.isUnknown = false)
    (hw : op.variant.Coerces v w) (hn : i.number = some n.toInt) :
    op.action f = .ok (.write ref n w) := by
  have hi : i.isUnknown = false := by
    cases i with
    | unknown => cases hn
    | _ => rfl
  rw [action_known hr hv hi, (Variant.coerce_eq_ok_iff _ _ _).mpr hw,
    (i.number_eq_toInt_iff n).mp hn]

theorem action_outsideDomain (hr : op.Reads f v (.array ref) i) (hv : v.isUnknown = false)
    (hi : i.isUnknown = false) (hw : ∀ w, ¬ op.variant.Coerces v w) :
    op.action f = .error (.coercion ⟨op.variant, v⟩) := by
  rw [action_known hr hv hi, (Variant.coerce_eq_error_iff _ _ _).mpr ⟨rfl, hw⟩]

theorem action_indexNotInt (hr : op.Reads f v (.array ref) i) (hv : v.isUnknown = false)
    (hi : i.isUnknown = false) (hw : op.variant.Coerces v w) (hn : i.number = none) :
    op.action f = .error (.execution (.indexNotInt op.render i)) := by
  rw [action_known hr hv hi, (Variant.coerce_eq_ok_iff _ _ _).mpr hw,
    i.number_eq_none_iff.mp hn]

end Action

section Execute

variable {op : Aput} {h : Hierarchy} {s t : State} {e : Fault} {v i w u : Value} {ref : ArrayRef}

theorem execute_eq (op : Aput) (h : Hierarchy) (s : State) :
    op.execute h s = match op.action s.frame with
      | .error e => .error e s
      | .ok action => match perform h action s with
        | .error e t => .error e t
        | .ok _ t => match t.frame.assign op.array action.array with
          | .error e => .error e t
          | .ok frame => .ok [op.successor] { t with frame } := by
  change (Execution.ofExcept (op.action s.frame) >>= fun action => perform h action >>= fun _ =>
    Execution.assign op.array action.array >>= fun _ => pure [op.successor]) s = _
  simp only [bind, EStateM.bind, Execution.ofExcept]
  cases op.action s.frame with
  | error e => rfl
  | ok action =>
    dsimp only
    cases perform h action s with
    | error e t => rfl
    | ok _ t =>
      dsimp only [Execution.assign]
      cases t.frame.assign op.array action.array <;> rfl

theorem execute_of_action_error (ha : op.action s.frame = .error e) :
    op.execute h s = .error e s := by rw [execute_eq, ha]

theorem execute_of_action_write {n : Int32} (ha : op.action s.frame = .ok (.write ref n w))
    (hr : s.frame.registers[op.array.index]? = some (.array ref)) :
    op.execute h s = match s.heap.store h ref n w with
      | .error e => .error e s
      | .ok heap => .ok [op.successor] { s with heap } := by
  rw [execute_eq, ha]
  dsimp only [perform, Execution.store]
  cases s.heap.store h ref n w with
  | error e => rfl
  | ok heap =>
    -- the heap has been written, and the assignment that follows cannot fail any more
    simp only [Action.array, Frame.assign_getElem? hr]

theorem execute_of_step (hs : op.Step h s t) : op.execute h s = .ok [op.successor] t := by
  cases hs with
  | leave hr =>
    rw [execute_eq, action_leave hr]
    simp only [perform, pure, EStateM.pure, Action.array, Frame.assign_getElem? hr.array]
  | taint hr hu =>
    rw [execute_eq, action_taint hr hu]
    have ha := Frame.lt_size_of_getElem? hr.array
    simp only [perform, pure, EStateM.pure, Action.array, Frame.assign_eq_ok ha]
  | write hr hv hw hj hl hu =>
    obtain ⟨n, hn, hnj⟩ := (Value.number_eq_some_iff _ _).mp hj
    have hn' := (Value.number_eq_toInt_iff _ n).mpr hn
    rw [execute_of_action_write (action_write hr hv hw hn') hr.array,
      Heap.store_eq_of_position hnj hl, ArrayRef.stored_eq_ok_iff.mpr hu]
    rfl

/-- A refused operation fails without a change; the fault is the one of the rule unless two types
cannot be compared. -/
theorem exists_execute_eq_error (hf : op.Refuses h s.frame e) :
    ∃ e', op.execute h s = .error e' s ∧ (s.frame.Dimensioned → e' = e) := by
  cases hf with
  | valueOutside hv =>
    refine ⟨_, execute_of_action_error ?_, fun _ => rfl⟩
    simp only [action, Frame.read_eq_error hv, bind, Except.bind]
  | arrayOutside hv ha =>
    obtain ⟨v, hv⟩ := Frame.exists_getElem? hv
    refine ⟨_, execute_of_action_error ?_, fun _ => rfl⟩
    simp only [action, Frame.read_eq_ok_iff.mpr hv, Frame.read_eq_error ha, bind, Except.bind]
  | indexOutside hv ha hi =>
    obtain ⟨v, hv⟩ := Frame.exists_getElem? hv
    obtain ⟨a, ha⟩ := Frame.exists_getElem? ha
    refine ⟨_, execute_of_action_error ?_, fun _ => rfl⟩
    simp only [action, Frame.read_eq_ok_iff.mpr hv, Frame.read_eq_ok_iff.mpr ha,
      Frame.read_eq_error hi, bind, Except.bind]
  | notAnArray hr hu ha =>
    exact ⟨_, execute_of_action_error (action_notAnArray hr hu ha), fun _ => rfl⟩
  | outsideDomain hr hv hi hw =>
    exact ⟨_, execute_of_action_error (action_outsideDomain hr hv hi hw), fun _ => rfl⟩
  | indexNotInt hr hv hi hw hn =>
    exact ⟨_, execute_of_action_error (action_indexNotInt hr hv hi hw hn), fun _ => rfl⟩
  | outOfBounds hr hv hw hn hb =>
    refine ⟨_, ?_, fun _ => rfl⟩
    rw [execute_of_action_write (action_write hr hv hw hn) hr.array,
      Heap.store_eq_error_of_position hb]
  | @mismatch v i w ref j hr hv hw hj hl hu =>
    obtain ⟨n, hn, hnj⟩ := (i.number_eq_some_iff _).mp hj
    have hn' := (i.number_eq_toInt_iff n).mpr hn
    obtain ⟨e', he⟩ := ArrayRef.exists_stored_eq_error hu
    refine ⟨e', ?_, fun hd => ?_⟩
    · rw [execute_of_action_write (action_write hr hv hw hn') hr.array,
        Heap.store_eq_of_position hnj hl, he]
      rfl
    · have hdv : v.Dimensioned := hd v (List.mem_of_getElem? hr.value)
      have hda : ref.type.Dimensioned := hd _ (List.mem_of_getElem? hr.array)
      rw [ArrayRef.stored_eq_error hda (hw.dimensioned hdv) hu] at he
      exact (Except.error.inj he).symm

theorem exists_step_or_refuses (op : Aput) (h : Hierarchy) (s : State) :
    (∃ t, op.Step h s t) ∨ ∃ e, op.Refuses h s.frame e := by
  rcases Nat.lt_or_ge op.value.index s.frame.size with hv | hv
  swap
  · exact .inr ⟨_, .valueOutside hv⟩
  rcases Nat.lt_or_ge op.array.index s.frame.size with ha | ha
  swap
  · exact .inr ⟨_, .arrayOutside hv ha⟩
  rcases Nat.lt_or_ge op.index.index s.frame.size with hi | hi
  swap
  · exact .inr ⟨_, .indexOutside hv ha hi⟩
  obtain ⟨v, hv⟩ := Frame.exists_getElem? hv
  obtain ⟨a, ha⟩ := Frame.exists_getElem? ha
  obtain ⟨i, hi⟩ := Frame.exists_getElem? hi
  have hr : op.Reads s.frame v a i := ⟨hv, ha, hi⟩
  -- with all operands in the frame, the one of the array comes first
  cases a with
  | unknown d => exact .inl ⟨_, .leave hr⟩
  | array ref =>
    by_cases hu : v.isUnknown = true ∨ i.isUnknown = true
    · exact .inl ⟨_, .taint hr hu⟩
    · rw [not_or, Bool.not_eq_true, Bool.not_eq_true] at hu
      by_cases hw : ∃ w, op.variant.Coerces v w
      · obtain ⟨w, hw⟩ := hw
        cases hn : i.widen with
        | none => exact .inr ⟨_, .indexNotInt hr hu.1 hu.2 hw (i.number_eq_none_iff.mpr hn)⟩
        | some n =>
          have hn' := (i.number_eq_toInt_iff n).mpr hn
          by_cases hb : n.toInt < 0 ∨ ref.length ≤ n.toInt
          · exact .inr ⟨_, .outOfBounds hr hu.1 hw hn' hb⟩
          · have hj : n.toInt = n.toInt.toNat := by omega
            rw [hj] at hn'
            by_cases ht : ∃ u, ref.element.Takes h w u
            · obtain ⟨u, ht⟩ := ht
              obtain ⟨c, -, rfl⟩ := Descriptor.exists_ofValue?_of_takes ht
              exact .inl ⟨_, .write hr hu.1 hw hn' (by omega) ht⟩
            · exact .inr ⟨_, .mismatch hr hu.1 hw hn' (by omega) (not_exists.mp ht)⟩
      · exact .inr ⟨_, .outsideDomain hr hu.1 hu.2 (not_exists.mp hw)⟩
  | _ => exact .inr ⟨_, .notAnArray hr rfl (by simp)⟩

theorem execute_eq_ok_iff (successors : List Address) :
    op.execute h s = .ok successors t ↔ successors = [op.successor] ∧ op.Step h s t := by
  constructor
  · intro he
    obtain ⟨t', ht⟩ | ⟨e, hf⟩ := exists_step_or_refuses op h s
    · rw [execute_of_step ht] at he
      cases he
      exact ⟨rfl, ht⟩
    · obtain ⟨e', he', -⟩ := exists_execute_eq_error hf
      cases he'.symm.trans he
  · rintro ⟨rfl, ht⟩
    exact execute_of_step ht

theorem eq_of_execute_eq_error (he : op.execute h s = .error e t) : t = s := by
  obtain ⟨t', ht⟩ | ⟨e', hf⟩ := exists_step_or_refuses op h s
  · cases (execute_of_step ht).symm.trans he
  · obtain ⟨e'', he', -⟩ := exists_execute_eq_error hf
    cases he'.symm.trans he
    rfl

theorem execute_eq_error_iff (hd : s.frame.Dimensioned) :
    op.execute h s = .error e t ↔ t = s ∧ op.Refuses h s.frame e := by
  constructor
  · intro he
    obtain ⟨t', ht⟩ | ⟨e', hf⟩ := exists_step_or_refuses op h s
    · cases (execute_of_step ht).symm.trans he
    · obtain ⟨e'', he', hee⟩ := exists_execute_eq_error hf
      cases he'.symm.trans he
      exact ⟨rfl, hee hd ▸ hf⟩
  · rintro ⟨rfl, hf⟩
    obtain ⟨e', he, hee⟩ := exists_execute_eq_error hf
    rw [he, hee hd]

def serializableRows : ArrayRef where
  id := 0
  type := .array 2 (.ofClass "java/io/Serializable")
  element := .array 1 (.ofClass "java/io/Serializable")
  length := 3
  element_eq := rfl
  element_ne_void := by decide
  length_lt := by decide

def intRows : ArrayRef where
  id := 1
  type := .array 2 .int
  element := .array 1 .int
  length := 4
  element_eq := rfl
  element_ne_void := by decide
  length_lt := by decide

/-- All arrays are serializable, so that an array of arrays is a row. -/
theorem takes_serializableRows {h : Hierarchy} {v : Value} {t : Descriptor}
    (hv : v.isReference = true) (ht : v.HasType (.array 2 t)) :
    serializableRows.element.Takes h v v := by
  have ha : h.Assignable (.array 2 t) serializableRows.element :=
    .covariant rfl rfl rfl rfl (.interface 1 t (by decide))
  exact .reference rfl hv ht ha

end Execute

end Aput

end DalvikStores
