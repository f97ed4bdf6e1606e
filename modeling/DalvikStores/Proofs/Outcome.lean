import DalvikStores.Proofs.Transfer
import Mathlib.Tactic.FinCases

/-!
# The outcome of an array store

`Transfers` says which state a store leads to by what the two states show, register by register
and slot by slot. An unknown array leaves everything as it is, an unknown operand changes the
register of the array and nothing else, and otherwise one slot shows the value, coerced and
converted, while all registers and all other slots of all arrays stay. These are the states that
`Step` leads to, and so an operation either transfers or is refused.
-/

namespace DalvikStores

section Contents

variable {f f' : Frame} {heap heap' : Heap} {ref : ArrayRef} {c : Cell ref.element}
  {r : Register} {v : Value} {j : ℕ}

structure Frame.Assigned (f : Frame) (r : Register) (v : Value) (f' : Frame) : Prop where
  self : f'.registers[r.index]? = some v
  other (k : ℕ) (hk : k ≠ r.index) : f'.registers[k]? = f.registers[k]?

/-- The second heap shows the value in the slot, and in all others what the first one shows. -/
structure Heap.Written (heap : Heap) (ref : ArrayRef) (j : ℕ) (u : Value) (heap' : Heap) :
    Prop where
  self : heap'.get? ref j = some u
  other (r : ArrayRef) (k : ℕ) (hk : ¬ (r = ref ∧ k = j)) : heap'.slot r k = heap.slot r k
  next_eq : heap'.next = heap.next

theorem Frame.assigned_iff (hr : r.index < f.size) :
    f.Assigned r v f' ↔ f' = ⟨f.registers.set r.index v⟩ := by
  constructor
  · intro ha
    cases f'
    rw [Frame.mk.injEq]
    apply List.ext_getElem?
    intro k
    by_cases hk : k = r.index
    · rw [hk, ha.self, List.getElem?_set_self hr]
    · rw [ha.other k hk, List.getElem?_set_ne (Ne.symm hk)]
  · rintro rfl
    exact ⟨List.getElem?_set_self hr, fun k hk => List.getElem?_set_ne (Ne.symm hk)⟩

theorem Heap.written_iff (hj : j < ref.length) :
    heap.Written ref j c.value heap' ↔ heap' = heap.write ref j c := by
  constructor
  · intro hw
    refine Heap.eq_of hw.next_eq fun r k => ?_
    by_cases hk : r = ref ∧ k = j
    · obtain ⟨rfl, rfl⟩ := hk
      have hself := hw.self
      rw [Heap.get?, if_pos hj, Option.some_inj] at hself
      rw [hself, Heap.write_slot_self]
    · rw [hw.other r k hk, Heap.write_slot_of_ne heap ref j c hk]
  · rintro rfl
    refine ⟨?_, fun r k hk => Heap.write_slot_of_ne heap ref j c hk, rfl⟩
    rw [Heap.get?, if_pos hj, Heap.write_slot_self]

end Contents

namespace Aput

variable {op : Aput} {h : Hierarchy} {s t : State}

inductive Transfers (op : Aput) (h : Hierarchy) (s t : State) : Prop
  | leave {v i : Value} {d : String} (hr : op.Reads s.frame v (.unknown d) i)
      (hf : t.frame = s.frame) (hh : t.heap = s.heap)
  | taint {v i : Value} {ref : ArrayRef} (hr : op.Reads s.frame v (.array ref) i)
      (hu : v.isUnknown = true ∨ i.isUnknown = true)
      (hf : s.frame.Assigned op.array (.unknown ref.type.render) t.frame) (hh : t.heap = s.heap)
  | write {v i w u : Value} {ref : ArrayRef} {j : ℕ} (hr : op.Reads s.frame v (.array ref) i)
      (hv : v.isUnknown = false) (hw : op.variant.Coerces v w) (hj : i.number = some (j : ℤ))
      (hl : j < ref.length) (hu : ref.element.Takes h w u)
      (hf : t.frame = s.frame) (hh : s.heap.Written ref j u t.heap)

theorem transfers_of_step (hs : op.Step h s t) : op.Transfers h s t := by
  cases hs with
  | leave hr => exact .leave hr rfl rfl
  | taint hr hu =>
    have ha := Frame.lt_size_of_getElem? hr.array
    exact .taint hr hu ((Frame.assigned_iff ha).mpr rfl) rfl
  | write hr hv hw hj hl hu => exact .write hr hv hw hj hl hu rfl ((Heap.written_iff hl).mpr rfl)

theorem step_of_transfers (ht : op.Transfers h s t) : op.Step h s t := by
  cases t with
  | mk frame heap =>
    cases ht with
    | leave hr hf hh =>
      cases hf
      cases hh
      exact .leave hr
    | taint hr hu hf hh =>
      have ha := Frame.lt_size_of_getElem? hr.array
      cases (Frame.assigned_iff ha).mp hf
      cases hh
      exact .taint hr hu
    | write hr hv hw hj hl hu hf hh =>
      cases hf
      obtain ⟨c, -, rfl⟩ := Descriptor.exists_ofValue?_of_takes hu
      cases (Heap.written_iff hl).mp hh
      exact .write hr hv hw hj hl hu

/-- The outcomes of an operation are exactly those of the rules, as long as the types of the
arrays in the registers can be compared. -/
theorem execute_eq_iff_transfers_or_refuses (op : Aput) (h : Hierarchy) (s : State)
    (hd : s.frame.Dimensioned) (r : EStateM.Result Fault State (List Address)) :
    op.execute h s = r ↔
      (∃ t, r = .ok [op.successor] t ∧ op.Transfers h s t) ∨
        ∃ e, r = .error e s ∧ op.Refuses h s.frame e := by
  cases r with
  | ok successors t =>
    rw [execute_eq_ok_iff]
    constructor
    · rintro ⟨rfl, ht⟩
      exact .inl ⟨t, rfl, transfers_of_step ht⟩
    · rintro (⟨t', hr, ht⟩ | ⟨e, hr, -⟩)
      · cases hr
        exact ⟨rfl, step_of_transfers ht⟩
      · cases hr
  | error e t =>
    rw [execute_eq_error_iff hd]
    constructor
    · rintro ⟨rfl, he⟩
      exact .inr ⟨e, rfl, he⟩
    · rintro (⟨t', hr, -⟩ | ⟨e', hr, he⟩)
      · cases hr
      · cases hr
        exact ⟨rfl, he⟩

/-- Arrays of ints are serializable, and so a row of them is a row of serializable objects. The
array shows it in its second slot, and nothing in the other two. -/
theorem execute_covariant_store :
    let f : Frame := ⟨[.array serializableRows, .short 1, .array intRows]⟩
    let op : Aput := ⟨⟨0⟩, "aput-object", .object, ⟨2⟩, ⟨2⟩, ⟨0⟩, ⟨1⟩⟩
    f.Dimensioned ∧ ∃ t, op.execute .empty ⟨f, .empty⟩ = .ok [⟨2⟩] t ∧ t.frame = f ∧
      t.heap.contents serializableRows = [.null, .array intRows, .null] ∧
      t.heap.contents intRows = [.null, .null, .null, .null] := by
  intro f op
  have hd : f.Dimensioned := by
    intro v hv
    fin_cases hv
    · exact ⟨by decide, trivial⟩
    · trivial
    · exact ⟨by decide, trivial⟩
  let c : Cell serializableRows.element := .array rfl intRows
  let t : State := ⟨f, Heap.empty.write serializableRows 1 c⟩
  have ha : Hierarchy.empty.Assignable (.array 2 .int)
      (.array 1 (.ofClass "java/io/Serializable")) :=
    .covariant rfl rfl rfl rfl (.interface 1 .int (by decide))
  have hw : Heap.empty.Written serializableRows 1 c.value t.heap :=
    (Heap.written_iff (by decide)).mpr rfl
  have ht : op.Transfers .empty ⟨f, .empty⟩ t :=
    .write ⟨rfl, rfl, rfl⟩ rfl (.object rfl) rfl (by decide)
      (.reference rfl rfl (.array intRows) ha) rfl hw
  have hx : op.execute .empty ⟨f, .empty⟩ = .ok [⟨2⟩] t :=
    (execute_eq_iff_transfers_or_refuses op .empty ⟨f, .empty⟩ hd _).mpr (.inl ⟨t, rfl, ht⟩)
  exact ⟨hd, t, hx, rfl, rfl, rfl⟩

end Aput

end DalvikStores
