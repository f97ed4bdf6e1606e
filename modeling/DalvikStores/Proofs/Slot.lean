import DalvikStores.Heap
import DalvikStores.Proofs.Assignability
import DalvikStores.Proofs.Coercion

/-!
# What a slot takes

`HasZero` says what a slot of a new array shows. `Takes` says which values a slot of an element
type takes, and what it shows afterwards: a value of the same kind, an integral value of a smaller
kind under its number, the bits of a float or double, `null`, or a reference whose type is
assignable to the element type. There is one cell for each of these, and the heap stores a value
exactly under this relation, at an index inside the array. An array of `Dimensioned` type refuses
everything else with a mismatch.
-/

namespace DalvikStores

namespace Value

/-- The type of what a reference other than `null` leads to. -/
inductive HasType : Value → Descriptor → Prop
  | array (r : ArrayRef) : HasType (.array r) r.type
  | object (o : ObjectRef) : HasType (.object o) o.type
  | unknown {d : String} {t : Descriptor} (ht : Descriptor.ofText d.toList = .ok t) :
      HasType (.unknown d) t

/-- A reference to an array leads to one of `Dimensioned` type. -/
def Dimensioned : Value → Prop
  | array r => r.type.Dimensioned
  | _ => True

theorem HasType.dimensioned {v : Value} {t : Descriptor} (ht : v.HasType t)
    (hv : v.Dimensioned) : t.Dimensioned := by
  cases ht with
  | array => exact hv
  | object => trivial
  | unknown ht => exact Descriptor.dimensioned_of_ofText ht

end Value

def Cell.array {e : Descriptor} (he : e.isReference = true) (r : ArrayRef) : Cell e :=
  present he (.array r) rfl nofun

theorem Variant.Coerces.dimensioned {variant : Variant} {v w : Value}
    (hw : variant.Coerces v w) (hv : v.Dimensioned) : w.Dimensioned := by
  cases hw with
  | object => exact hv
  | _ => trivial

namespace Descriptor

variable (h : Hierarchy)

/-- A slot of the element type takes the first value and then holds the second. -/
inductive Takes : Descriptor → Value → Value → Prop
  | boolean (b : Bool) : Takes boolean (.boolean b) (.boolean b)
  | byte (n : Int8) : Takes byte (.byte n) (.byte n)
  | char (c : UInt16) : Takes char (.char c) (.char c)
  | short (n : Int16) : Takes short (.short n) (.short n)
  | shortOfByte {n : Int8} {m : Int16} (hm : m.toInt = n.toInt) : Takes short (.byte n) (.short m)
  | int {v : Value} {n : Int32} (hv : v.number = some n.toInt) : Takes int v (.int n)
  | long (n : Int64) : Takes long (.long n) (.long n)
  | longOfNumber {v : Value} {n : Int64} (hv : v.number = some n.toInt) : Takes long v (.long n)
  | float (n : Int32) : Takes float (.int n) (.int n)
  | double (n : Int64) : Takes double (.long n) (.long n)
  | null {e : Descriptor} (he : e.isReference = true) : Takes e .null .null
  | reference {e t : Descriptor} {v : Value} (he : e.isReference = true)
      (hv : v.isReference = true) (ht : v.HasType t) (ha : h.Assignable t e) : Takes e v v

/-- A slot of a new array shows the value: false, the number zero, or null. -/
inductive HasZero : Descriptor → Value → Prop
  | boolean : HasZero boolean (.boolean false)
  | byte : HasZero byte (.byte 0)
  | char : HasZero char (.char 0)
  | short : HasZero short (.short 0)
  | int : HasZero int (.int 0)
  | long : HasZero long (.long 0)
  | float : HasZero float (.int 0)
  | double : HasZero double (.long 0)
  | reference {e : Descriptor} (he : e.isReference = true) : HasZero e .null

theorem hasZero_zero {e : Descriptor} (he : e ≠ void) : e.HasZero (Cell.zero e he).value := by
  cases e with
  | void => exact absurd rfl he
  | boolean => exact .boolean
  | byte => exact .byte
  | short => exact .short
  | char => exact .char
  | int => exact .int
  | long => exact .long
  | float => exact .float
  | double => exact .double
  | array => exact .reference rfl
  | ofClass => exact .reference rfl

variable {h} {e : Descriptor} {v w : Value}

theorem takes_of_ofValue? {c : Cell e} (hv : v.isReference = false)
    (hc : Cell.ofValue? e v = some c) : e.Takes h v c.value := by
  cases e with
  | boolean =>
    cases v with
    | boolean b => cases hc; exact .boolean b
    | _ => cases hc
  | byte =>
    cases v with
    | byte n => cases hc; exact .byte n
    | _ => cases hc
  | char =>
    cases v with
    | char c => cases hc; exact .char c
    | _ => cases hc
  | short =>
    cases v with
    | short n => cases hc; exact .short n
    | byte n => cases hc; exact .shortOfByte n.toInt_toInt16
    | _ => cases hc
  | int =>
    obtain ⟨n, hn, rfl⟩ := Option.map_eq_some_iff.mp hc
    exact .int ((v.number_eq_toInt_iff n).mpr hn)
  | long =>
    by_cases hl : ∃ n, v = .long n
    · obtain ⟨n, rfl⟩ := hl
      cases hc
      exact .long n
    · rw [Cell.ofValue?_long_of_ne (not_exists.mp hl)] at hc
      obtain ⟨n, hn, rfl⟩ := Option.map_eq_some_iff.mp hc
      refine .longOfNumber ?_
      rw [Int32.toInt_toInt64]
      exact (v.number_eq_toInt_iff n).mpr hn
  | float =>
    cases v with
    | int n =>
      cases hc
      rw [Cell.value, Int32.toInt32_toUInt32]
      exact .float n
    | _ => cases hc
  | double =>
    cases v with
    | long n =>
      cases hc
      rw [Cell.value, Int64.toInt64_toUInt64]
      exact .double n
    | _ => cases hc
  | array | ofClass =>
    have hn : v ≠ .null := by
      rintro rfl
      cases hv
    rw [Cell.ofValue?_of_isReference rfl, Cell.ofReference?_eq_none rfl hv hn] at hc
    cases hc
  | void => cases v <;> cases hc

theorem exists_ofValue?_of_takes (hw : e.Takes h v w) :
    ∃ c : Cell e, Cell.ofValue? e v = some c ∧ c.value = w := by
  cases hw with
  | boolean b => exact ⟨.boolean b, rfl, rfl⟩
  | byte n => exact ⟨.byte n, rfl, rfl⟩
  | char c => exact ⟨.char c, rfl, rfl⟩
  | short n => exact ⟨.short n, rfl, rfl⟩
  | @shortOfByte n m hm =>
    refine ⟨.short n.toInt16, rfl, congrArg Value.short ?_⟩
    exact Int16.toInt_inj.mp (n.toInt_toInt16.trans hm.symm)
  | @int _ n hv =>
    rw [Value.number_eq_toInt_iff] at hv
    exact ⟨.int n, congrArg (Option.map Cell.int) hv, rfl⟩
  | long n => exact ⟨.long n, rfl, rfl⟩
  | @longOfNumber _ m hv =>
    obtain ⟨n, hn, he⟩ := (v.number_eq_some_iff _).mp hv
    refine ⟨.long n.toInt64, ?_, congrArg Value.long ?_⟩
    · have hne : ∀ k, v ≠ .long k := by
        rintro k rfl
        cases hn
      rw [Cell.ofValue?_long_of_ne hne, hn, Option.map_some]
    · exact Int64.toInt_inj.mp (n.toInt_toInt64.trans he)
  | float n => exact ⟨.float n.toUInt32, rfl, congrArg Value.int n.toInt32_toUInt32⟩
  | double n => exact ⟨.double n.toUInt64, rfl, congrArg Value.long n.toInt64_toUInt64⟩
  | null he => exact ⟨.absent he, (Cell.absent he).ofValue?_value, rfl⟩
  | reference he hv ht =>
    have hn : v ≠ .null := by
      rintro rfl
      cases ht
    exact ⟨.present he v hv hn, (Cell.present he v hv hn).ofValue?_value, rfl⟩

theorem ofValue?_of_takes {c : Cell e} (hw : e.Takes h v c.value) :
    Cell.ofValue? e v = some c := by
  obtain ⟨c', hc, he⟩ := exists_ofValue?_of_takes hw
  rw [hc, Cell.eq_of_value_eq he]

theorem Takes.unique {w' : Value} (hw : e.Takes h v w) (hw' : e.Takes h v w') : w = w' := by
  obtain ⟨c, hc, rfl⟩ := exists_ofValue?_of_takes hw
  obtain ⟨c', hc', rfl⟩ := exists_ofValue?_of_takes hw'
  rw [hc, Option.some_inj] at hc'
  rw [hc']

theorem Takes.isReference_eq (hw : e.Takes h v w) (hv : v.isReference = true) :
    e.isReference = true ∧ w = v ∧ (v = .null ∨ ∃ t, v.HasType t ∧ h.Assignable t e) := by
  cases hw with
  | int hn | longOfNumber hn =>
    cases v with
    | int | short | byte | char => cases hv
    | _ => cases hn
  | null he => exact ⟨he, rfl, .inl rfl⟩
  | reference he hv ht ha => exact ⟨he, rfl, .inr ⟨_, ht, ha⟩⟩
  | _ => cases hv

/-- A slot only comes to hold a reference by taking it as it is. -/
theorem Takes.eq_of_isReference (hw : e.Takes h v w) (hr : w.isReference = true) : w = v := by
  cases hw with
  | null | reference => rfl
  | _ => cases hr

end Descriptor

namespace ArrayRef

variable {ref : ArrayRef} {h : Hierarchy} {v w : Value}

theorem element_dimensioned (ref : ArrayRef) (hd : ref.type.Dimensioned) :
    ref.element.Dimensioned := hd.element ref.element_eq

theorem accepts_eq_some_true_iff (hv : v.isReference = true) :
    ref.accepts h v = some true ↔ ref.element.isReference = true ∧
      (v = .null ∨ ∃ t, v.HasType t ∧ h.Assignable t ref.element) := by
  unfold accepts
  by_cases he : ref.element.isReference = true
  · rw [if_pos he]
    simp only [he, true_and]
    cases v with
    | null => simp
    | array r =>
      simp only [Hierarchy.assignable_eq_some_true_iff, reduceCtorEq, false_or]
      exact ⟨fun ha => ⟨_, .array r, ha⟩, fun ⟨_, .array _, ha⟩ => ha⟩
    | object o =>
      simp only [Hierarchy.assignable_eq_some_true_iff, reduceCtorEq, false_or]
      exact ⟨fun ha => ⟨_, .object o, ha⟩, fun ⟨_, .object _, ha⟩ => ha⟩
    | unknown d =>
      simp only [reduceCtorEq, false_or]
      cases ht : Descriptor.ofText d.toList with
      | ok t =>
        simp only [Hierarchy.assignable_eq_some_true_iff]
        refine ⟨fun ha => ⟨_, .unknown ht, ha⟩, fun ⟨_, .unknown hu, ha⟩ => ?_⟩
        cases ht.symm.trans hu
        exact ha
      | error e =>
        refine iff_of_false (by simp) (fun ⟨_, .unknown hu, _⟩ => ?_)
        cases ht.symm.trans hu
    | _ => cases hv
  · rw [if_neg he]
    simp [he]

theorem accepts_ne_none (hd : ref.type.Dimensioned) (hv : v.Dimensioned) :
    ref.accepts h v ≠ none := by
  have he := ref.element_dimensioned hd
  unfold accepts
  split_ifs
  · cases v with
    | array r => exact Hierarchy.assignable_ne_none hv he
    | object o => exact Hierarchy.assignable_ne_none trivial he
    | unknown d =>
      dsimp only
      cases ht : Descriptor.ofText d.toList with
      | ok t => exact Hierarchy.assignable_ne_none (Descriptor.dimensioned_of_ofText ht) he
      | error e => exact Option.some_ne_none _
    | _ => exact Option.some_ne_none _
  · exact Option.some_ne_none _

theorem stored_of_isReference (hv : v.isReference = true) (c : Cell ref.element) :
    ref.stored h v = .ok c ↔
      ref.accepts h v = some true ∧ Cell.ofValue? ref.element v = some c := by
  unfold stored
  rw [if_pos hv]
  rcases ref.accepts h v with _ | _ | _
  · simp
  · simp
  · cases Cell.ofValue? ref.element v <;> simp

theorem stored_of_not_isReference (hv : v.isReference = false) (c : Cell ref.element) :
    ref.stored h v = .ok c ↔ Cell.ofValue? ref.element v = some c := by
  unfold stored
  rw [hv]
  cases Cell.ofValue? ref.element v <;> simp

/-- A store leaves in a slot what its element type takes. -/
theorem stored_eq_ok_iff {c : Cell ref.element} :
    ref.stored h v = .ok c ↔ ref.element.Takes h v c.value := by
  cases hv : v.isReference with
  | true =>
    rw [stored_of_isReference hv, accepts_eq_some_true_iff hv]
    constructor
    · rintro ⟨⟨he, hr⟩, hc⟩
      have ht : ref.element.Takes h v v := by
        obtain rfl | ⟨t, ht, ha⟩ := hr
        · exact .null he
        · exact .reference he hv ht ha
      obtain ⟨c', hc', hval⟩ := Descriptor.exists_ofValue?_of_takes ht
      rw [hc, Option.some_inj] at hc'
      rwa [hc', hval]
    · intro hw
      obtain ⟨he, -, hr⟩ := hw.isReference_eq hv
      exact ⟨⟨he, hr⟩, Descriptor.ofValue?_of_takes hw⟩
  | false =>
    rw [stored_of_not_isReference hv]
    exact ⟨Descriptor.takes_of_ofValue? hv, Descriptor.ofValue?_of_takes⟩

theorem exists_stored_eq_error (hw : ∀ w, ¬ ref.element.Takes h v w) :
    ∃ e, ref.stored h v = .error e := by
  cases hs : ref.stored h v with
  | ok c => exact absurd (stored_eq_ok_iff.mp hs) (hw c.value)
  | error e => exact ⟨e, rfl⟩

/-- Where the types can be compared, a value that a slot does not take is a mismatch. -/
theorem stored_eq_error (hd : ref.type.Dimensioned) (hv : v.Dimensioned)
    (hw : ∀ w, ¬ ref.element.Takes h v w) :
    ref.stored h v = .error (.execution (.storeMismatch v ref.type)) := by
  have hok : ∀ c, ref.stored h v ≠ .ok c := fun c hc => hw c.value (stored_eq_ok_iff.mp hc)
  have hn := accepts_ne_none (h := h) hd hv
  unfold stored at hok ⊢
  split
  · rename_i ha
    split_ifs at ha
    exact absurd ha hn
  · rfl
  · rename_i ha
    simp only [ha] at hok
    cases hc : Cell.ofValue? ref.element v with
    | some c => rw [hc] at hok; exact absurd rfl (hok c)
    | none => rfl

theorem position_eq_ok_iff (n : Int32) (j : ℕ) :
    ref.position n = .ok j ↔ n.toInt = j ∧ j < ref.length := by
  unfold position
  split_ifs with hn
  · rw [Except.ok.injEq]
    omega
  · refine iff_of_false (by simp) ?_
    omega

theorem position_eq_error {n : Int32} (hn : n.toInt < 0 ∨ ref.length ≤ n.toInt) :
    ref.position n = .error (.execution (.indexOutOfBounds n ref.length)) := by
  have hb : ¬ (0 ≤ n.toInt ∧ n.toInt < ref.length) := by omega
  exact if_neg hb

end ArrayRef

namespace Heap

/-- Heaps that made the same number of objects are told apart by their slots. -/
theorem eq_of {heap heap' : Heap} (hn : heap.next = heap'.next)
    (hs : ∀ r j, heap.slot r j = heap'.slot r j) : heap = heap' := by
  have hc : heap.cell = heap'.cell := funext fun r => funext fun j => Cell.eq_of_value_eq (hs r j)
  cases heap
  cases heap'
  dsimp only at hn hc
  rw [hn, hc]

variable (heap : Heap) (ref r : ArrayRef) (i j : ℕ) (c : Cell ref.element)

@[simp] theorem write_slot_self : (heap.write ref i c).slot ref i = c.value :=
  congrArg Cell.value (dif_pos ⟨rfl, rfl⟩)

variable {r j} in
theorem write_slot_of_ne (hne : ¬ (r = ref ∧ j = i)) :
    (heap.write ref i c).slot r j = heap.slot r j :=
  congrArg Cell.value (dif_neg hne)

theorem write_slot :
    (heap.write ref i c).slot r j = if r = ref ∧ j = i then c.value else heap.slot r j := by
  split_ifs with hr
  · obtain ⟨rfl, rfl⟩ := hr
    exact write_slot_self heap r j c
  · exact write_slot_of_ne heap ref i c hr

/-- The second of two writes to one slot stays. -/
theorem write_write (c' : Cell ref.element) :
    (heap.write ref i c).write ref i c' = heap.write ref i c' := by
  refine eq_of rfl fun r j => ?_
  simp only [write_slot]
  split_ifs <;> rfl

theorem write_slot_eq_self (hc : c.value = heap.slot ref i) : heap.write ref i c = heap := by
  refine eq_of rfl fun r j => ?_
  rw [write_slot]
  split_ifs with hr
  · rw [hr.1, hr.2, hc]
  · rfl

variable {ref i} in
theorem put_eq_write (hi : i < ref.length) : heap.put ref i c = .ok (heap.write ref i c) :=
  if_pos hi

variable {v : Value}

/-- The position of an index lies in the array, and so a store always has a slot to write to. -/
theorem store_eq (h : Hierarchy) (n : Int32) (v : Value) :
    heap.store h ref n v = match ref.position n with
      | .error e => .error e
      | .ok j => match ref.stored h v with
        | .error e => .error e
        | .ok c => .ok (heap.write ref j c) := by
  unfold store
  cases hp : ref.position n with
  | error e => rfl
  | ok j =>
    have hj : j < ref.length := ((ArrayRef.position_eq_ok_iff n j).mp hp).2
    cases ref.stored h v with
    | error e => rfl
    | ok c => exact put_eq_write heap c hj

variable {heap ref} in
theorem store_eq_error_of_position {h : Hierarchy} {n : Int32}
    (hn : n.toInt < 0 ∨ ref.length ≤ n.toInt) :
    heap.store h ref n v = .error (.execution (.indexOutOfBounds n ref.length)) := by
  rw [store_eq, ArrayRef.position_eq_error hn]

variable {heap ref j} in
theorem store_eq_of_position {h : Hierarchy} {n : Int32} (hn : n.toInt = j)
    (hj : j < ref.length) :
    heap.store h ref n v = (ref.stored h v).map (heap.write ref j) := by
  rw [store_eq, (ArrayRef.position_eq_ok_iff n j).mpr ⟨hn, hj⟩]
  cases ref.stored h v <;> rfl

theorem store_eq_ok_iff (h : Hierarchy) (n : Int32) (v : Value) (heap' : Heap) :
    heap.store h ref n v = .ok heap' ↔ ∃ (j : ℕ) (c : Cell ref.element), n.toInt = j ∧
      j < ref.length ∧ ref.element.Takes h v c.value ∧ heap' = heap.write ref j c := by
  constructor
  · intro hs
    by_cases hn : n.toInt < 0 ∨ ref.length ≤ n.toInt
    · rw [store_eq_error_of_position hn] at hs
      cases hs
    · have hj : n.toInt = n.toInt.toNat := by omega
      rw [store_eq_of_position hj (by omega)] at hs
      cases hc : ref.stored h v with
      | error e => rw [hc] at hs; cases hs
      | ok c =>
        rw [hc] at hs
        cases hs
        exact ⟨_, c, hj, by omega, ArrayRef.stored_eq_ok_iff.mp hc, rfl⟩
  · rintro ⟨j, c, hn, hj, hc, rfl⟩
    rw [store_eq_of_position hn hj, ArrayRef.stored_eq_ok_iff.mpr hc]
    rfl

end Heap

end DalvikStores
