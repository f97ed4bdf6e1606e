import DalvikStores.Proofs.Assembly
import DalvikStores.Proofs.Run

/-!
# The laws of a slot

A slot would take what it shows, as it is. For a cell of numbers this needs no argument, since all
that it can show is of the element type. A cell of references shows `null`, or a reference that
came in under the hierarchy as it was; so here all stores into the array, be they by hand or in a
run, have to be under one hierarchy. To store what a slot shows changes nothing, the last of
several stores into a slot is the only one that counts, and whether it succeeds does not depend on
those before it.
-/

namespace DalvikStores

variable {h : Hierarchy} {ref : ArrayRef} {v w : Value}

namespace Descriptor

variable {e : Descriptor}

/-- The integral value of a wider type that has the number of the first. -/
inductive Widens : Descriptor → Value → Value → Prop
  | short {n : Int8} {m : Int16} (hm : m.toInt = n.toInt) : Widens short (.byte n) (.short m)
  | int {v : Value} {n : Int32} (hv : v.number = some n.toInt) : Widens int v (.int n)
  | long {v : Value} {n : Int64} (hv : v.number = some n.toInt) : Widens long v (.long n)

theorem Takes.eq_or_widens (hw : e.Takes h v w) : w = v ∨ e.Widens v w := by
  cases hw with
  | shortOfByte hm => exact .inr (.short hm)
  | int hv => exact .inr (.int hv)
  | longOfNumber hv => exact .inr (.long hv)
  | _ => exact .inl rfl

theorem HasZero.takes (hz : e.HasZero v) (hv : v.isReference = true) : e.Takes h v v := by
  cases hz with
  | reference he => exact .null he
  | _ => cases hv

theorem takes_value (c : Cell e) (hc : c.value.isReference = true → e.Takes h c.value c.value) :
    e.Takes h c.value c.value := by
  cases c with
  | boolean b => exact .boolean b
  | byte n => exact .byte n
  | char c => exact .char c
  | short n => exact .short n
  | int => exact .int rfl
  | long n => exact .long n
  | float => exact .float _
  | double => exact .double _
  | absent he => exact .null he
  | present _ _ hv => exact hc hv

end Descriptor

namespace Heap

variable {heap heap₀ heap₁ : Heap}

/-- The array would take the references that its slots hold. -/
def Retakes (h : Hierarchy) (ref : ArrayRef) (heap : Heap) : Prop :=
  ∀ j, (heap.slot ref j).isReference = true →
    ref.element.Takes h (heap.slot ref j) (heap.slot ref j)

/-- The heaps to which stores, new arrays and new objects lead. All stores into the array are under
one hierarchy. -/
inductive Filling (h : Hierarchy) (ref : ArrayRef) (heap₀ : Heap) : Heap → Prop
  | start : Filling h ref heap₀ heap₀
  | store {heap heap' : Heap} {h' : Hierarchy} {r : ArrayRef} {n : Int32} {v : Value}
      (hf : Filling h ref heap₀ heap) (hh : r = ref → h' = h)
      (hs : heap.store h' r n v = .ok heap') : Filling h ref heap₀ heap'
  | allocate {heap heap' : Heap} {t : Descriptor} {length : ℕ} {r : ArrayRef}
      (hf : Filling h ref heap₀ heap) (ha : heap.allocate t length = .ok (r, heap')) :
      Filling h ref heap₀ heap'
  | instantiate {heap heap' : Heap} {t : Descriptor} {o : ObjectRef}
      (hf : Filling h ref heap₀ heap) (ho : heap.instantiate t = .ok (o, heap')) :
      Filling h ref heap₀ heap'

theorem Retakes.takes (hr : heap.Retakes h ref) (j : ℕ) :
    ref.element.Takes h (heap.slot ref j) (heap.slot ref j) :=
  Descriptor.takes_value (heap.cell ref j) (hr j)

theorem retakes_enter (heap : Heap) (ref : ArrayRef) : (heap.enter ref).Retakes h ref :=
  fun j hj => (hasZero_enter heap ref j).takes hj

theorem Retakes.enter (hr : heap.Retakes h ref) (r : ArrayRef) : (heap.enter r).Retakes h ref := by
  by_cases he : ref = r
  · subst he
    exact retakes_enter heap ref
  · intro j
    rw [enter_slot_of_ne he]
    exact hr j

theorem Retakes.write {r : ArrayRef} {c : Cell r.element} (hr : heap.Retakes h ref) (k : ℕ)
    (hw : r = ref → r.element.Takes h v c.value) : (heap.write r k c).Retakes h ref := by
  intro j
  by_cases he : ref = r ∧ j = k
  · obtain ⟨rfl, rfl⟩ := he
    rw [write_slot_self]
    intro hc
    have htakes := hw rfl
    rwa [← htakes.eq_of_isReference hc] at htakes
  · rw [write_slot_of_ne heap r k c he]
    exact hr j

theorem Filling.retakes (hf : heap₀.Filling h ref heap) (hr : heap₀.Retakes h ref) :
    heap.Retakes h ref := by
  induction hf with
  | start => exact hr
  | @store _ _ _ r _ v _ hh hs ih =>
    obtain ⟨k, c, -, -, hc, rfl⟩ := (store_eq_ok_iff _ _ _ _ _ _).mp hs
    -- A store into another array may be under another hierarchy.
    have hw : r = ref → r.element.Takes h v c.value := fun he => hh he ▸ hc
    exact ih.write k hw
  | @allocate _ _ _ _ r _ ha ih =>
    obtain ⟨-, -, -, rfl⟩ := allocate_eq_ok_iff.mp ha
    exact ih.enter r
  | instantiate _ ho ih =>
    obtain ⟨-, -, rfl⟩ := instantiate_eq_ok_iff.mp ho
    exact ih

end Heap

theorem Aput.Step.retakes {op : Aput} {s t : State} (hs : op.Step h s t)
    (hr : s.heap.Retakes h ref) : t.heap.Retakes h ref := by
  cases hs with
  | leave => exact hr
  | taint => exact hr
  | write hr' hv hw hj hl hu => exact hr.write _ fun _ => hu

/-- After a run under one hierarchy, the slots of an array still hold what they would take. -/
theorem State.run_retakes {s : State} (calls : List Call) (hc : ∀ c ∈ calls, c.hierarchy = h)
    (hr : s.heap.Retakes h ref) : (s.run calls).heap.Retakes h ref := by
  apply run_preserves (P := fun s => s.heap.Retakes h ref) calls
  · intro c hmem op s t hs hr
    rw [hc c hmem] at hs
    exact hs.retakes hr
  · exact hr

namespace Execution

variable {s t : State} {n : Int32} {j : ℕ} {e : Fault}

theorem store_of_position (hn : n.toInt = j) (hj : j < ref.length) :
    store h ref n v s = match ref.stored h v with
      | .ok c => .ok () { s with heap := s.heap.write ref j c }
      | .error e => .error e s := by
  rw [store, Heap.store_eq_of_position hn hj]
  cases ref.stored h v <;> rfl

theorem eq_of_store_eq_error (he : store h ref n v s = .error e t) : t = s := by
  unfold store at he
  split at he
  · cases he
  · cases he
    rfl

theorem store_eq_ok_iff (hn : n.toInt = j) (hj : j < ref.length) :
    store h ref n v s = .ok () t ↔
      ∃ c : Cell ref.element, ref.element.Takes h v c.value ∧
        t = { s with heap := s.heap.write ref j c } := by
  simp only [store_of_position hn hj, ← ArrayRef.stored_eq_ok_iff]
  cases ref.stored h v with
  | error e => simp
  | ok c => simp [eq_comm]

theorem store_slot_eq_self (hr : s.heap.Retakes h ref) (hn : n.toInt = j) (hj : j < ref.length) :
    store h ref n (s.heap.slot ref j) s = .ok () s := by
  rw [store_eq_ok_iff hn hj]
  refine ⟨s.heap.cell ref j, hr.takes j, ?_⟩
  rw [Heap.write_slot_eq_self _ _ _ _ rfl]

/-- A store that succeeded does not show behind another one into the same slot. -/
theorem store_store (hs : store h ref n v s = .ok () t) (hn : n.toInt = j) (hj : j < ref.length)
    (w : Value) : match store h ref n w s with
      | .ok _ t' => store h ref n w t = .ok () t'
      | .error e _ => store h ref n w t = .error e t := by
  obtain ⟨u, -, rfl⟩ := (store_eq_ok_iff hn hj).mp hs
  -- Only the value and the element type decide whether a store succeeds, and not the slot.
  simp only [store_of_position hn hj]
  cases ref.stored h w with
  | error e => rfl
  | ok c => simp only [Heap.write_write]

/-- The slots of an array, from its allocation on, as long as all stores into it are under one
hierarchy. A store that fails changes nothing. Every slot has an index. What a slot holds can be
stored into it again, and this changes nothing. A store that succeeds leaves its value, widened to
the element type, in its slot and changes no other, and a further store into this slot goes as it
would have gone without it. -/
theorem store_get?_and_store_store {d : Descriptor} {length : ℕ} {heap₀ heap₁ : Heap}
    (ha : heap₀.allocate d length = .ok (ref, heap₁)) (hf : heap₁.Filling h ref s.heap) :
    (∀ n v e t, store h ref n v s = .error e t → t = s) ∧
      (∀ j < length, ∃ n : Int32, ref.position n = .ok j) ∧
      ∀ (n : Int32) (j : ℕ), n.toInt = j → j < length →
        (∃ u, s.heap.get? ref j = some u ∧ store h ref n u s = .ok () s) ∧
        ∀ v t, store h ref n v s = .ok () t →
          (∃ u, t.heap.get? ref j = some u ∧ (u = v ∨ ref.element.Widens v u)) ∧
          (∀ r k, ¬ (r = ref ∧ k = j) → t.heap.get? r k = s.heap.get? r k) ∧
          t.frame = s.frame ∧
          ∀ w, match store h ref n w s with
            | .ok _ t' => store h ref n w t = .ok () t'
            | .error e _ => store h ref n w t = .error e t := by
  obtain ⟨-, -, rfl, rfl⟩ := Heap.allocate_eq_ok_iff.mp ha
  have hr : s.heap.Retakes h ref := hf.retakes (Heap.retakes_enter heap₀ ref)
  refine ⟨fun n v e t he => eq_of_store_eq_error he, fun j hj => ?_, fun n j hn hj => ⟨?_, ?_⟩⟩
  · have hlength := ref.length_lt
    have hn : (Int32.ofNat j).toInt = j := Int32.toInt_ofNat_of_lt (hj.trans hlength)
    exact ⟨Int32.ofNat j, (ArrayRef.position_eq_ok_iff _ j).mpr ⟨hn, hj⟩⟩
  · exact ⟨s.heap.slot ref j, if_pos hj, store_slot_eq_self hr hn hj⟩
  · intro v t hs
    obtain ⟨c, hu, he⟩ := (store_eq_ok_iff hn hj).mp hs
    have hslot : t.heap.slot ref j = c.value := by rw [he, Heap.write_slot_self]
    refine ⟨⟨c.value, ?_, hu.eq_or_widens⟩, fun r k hne => ?_, by rw [he], store_store hs hn hj⟩
    · rw [Heap.get?, if_pos hj, hslot]
    · rw [he, Heap.get?, Heap.get?, Heap.write_slot_of_ne _ _ _ _ hne]

/-- A row of an unknown type is stored once more after it has been overwritten. -/
theorem store_get?_and_store_store_unknown :
    let ref := Aput.serializableRows
    let row : Value := .unknown "[[I"
    let s : State := ⟨⟨[]⟩, (Heap.empty.enter ref).write ref 1 (.present rfl row rfl nofun)⟩
    let t : State := ⟨⟨[]⟩, s.heap.write ref 1 (.absent rfl)⟩
    Heap.empty.allocate ref.type 3 = .ok (ref, Heap.empty.enter ref) ∧
      (Heap.empty.enter ref).Filling .empty ref s.heap ∧
      store .empty ref 1 row s = .ok () s ∧ store .empty ref 1 .null s = .ok () t ∧
      store .empty ref 1 row t = .ok () s := by
  intro ref row s t
  have ha : Heap.empty.allocate ref.type 3 = .ok (ref, Heap.empty.enter ref) :=
    Heap.allocate_eq_ok_iff.mpr ⟨rfl, rfl, rfl, rfl⟩
  have hrow : ref.element.Takes .empty row row :=
    Aput.takes_serializableRows rfl (.unknown (t := .array 2 .int) rfl)
  have hf : (Heap.empty.enter ref).Filling .empty ref s.heap :=
    .store .start (fun _ => rfl)
      ((Heap.store_eq_ok_iff _ _ _ 1 row _).mpr ⟨1, _, rfl, by decide, hrow, rfl⟩)
  have hnull : store .empty ref 1 .null s = .ok () t :=
    (store_eq_ok_iff (j := 1) rfl (by decide)).mpr ⟨.absent rfl, .null rfl, rfl⟩
  obtain ⟨-, -, hlaws⟩ := store_get?_and_store_store ha hf
  obtain ⟨⟨u, hu, hagain⟩, hafter⟩ := hlaws 1 1 rfl (by decide)
  cases hu
  obtain ⟨-, -, -, hlast⟩ := hafter .null t hnull
  have hlast := hlast row
  rw [show store .empty ref 1 row s = .ok () s from hagain] at hlast
  exact ⟨ha, hf, hagain, hnull, hlast⟩

end Execution

end DalvikStores
