import DalvikStores.Proofs.Assembly
import DalvikStores.Proofs.Run

/-!
# The type of the heap

The values of a built frame are the roots of every run that starts there. What a register can hold
later is a root or an unknown value, and an unknown value never gets into a slot, because its store
taints the array instead. So a slot always shows a value of the kind of its element type, and where
the elements are references it shows `null` or a root whose type can be assigned to them.
-/

namespace DalvikStores

theorem Variant.Coerces.isUnknown_eq_false {variant : Variant} {v w : Value}
    (hw : variant.Coerces v w) (hv : v.isUnknown = false) : w.isUnknown = false := by
  cases hw with
  | object => exact hv
  | _ => rfl

namespace Descriptor

/-- The values that a slot of the element type shows when only roots are stored. -/
inductive Shows (h : Hierarchy) (roots : List Value) : Descriptor → Value → Prop
  | boolean (b : Bool) : Shows h roots boolean (.boolean b)
  | byte (n : Int8) : Shows h roots byte (.byte n)
  | char (c : UInt16) : Shows h roots char (.char c)
  | short (n : Int16) : Shows h roots short (.short n)
  | int (n : Int32) : Shows h roots int (.int n)
  | float (n : Int32) : Shows h roots float (.int n)
  | long (n : Int64) : Shows h roots long (.long n)
  | double (n : Int64) : Shows h roots double (.long n)
  | null {e : Descriptor} (he : e.isReference = true) : Shows h roots e .null
  | array {e : Descriptor} {r : ArrayRef} (he : e.isReference = true) (hr : .array r ∈ roots)
      (ha : h.assignable r.type e = some true) : Shows h roots e (.array r)
  | object {e : Descriptor} {o : ObjectRef} (he : e.isReference = true) (ho : .object o ∈ roots)
      (ha : h.assignable o.type e = some true) : Shows h roots e (.object o)

variable {h : Hierarchy} {roots : List Value} {e : Descriptor} {v w : Value}

theorem HasZero.shows (hz : e.HasZero v) : e.Shows h roots v := by
  cases hz with
  | boolean => exact .boolean false
  | byte => exact .byte 0
  | char => exact .char 0
  | short => exact .short 0
  | int => exact .int 0
  | long => exact .long 0
  | float => exact .float 0
  | double => exact .double 0
  | reference he => exact .null he

theorem Takes.shows (hw : e.Takes h v w) (hv : v.isUnknown = false)
    (hr : v.isReference = true → v ∈ roots) : e.Shows h roots w := by
  cases hw with
  | boolean b => exact .boolean b
  | byte n => exact .byte n
  | char c => exact .char c
  | short n => exact .short n
  | shortOfByte => exact .short _
  | int => exact .int _
  | long n => exact .long n
  | longOfNumber => exact .long _
  | float n => exact .float n
  | double n => exact .double n
  | null he => exact .null he
  | reference he hv' ht ha =>
    have hroot := hr hv'
    rw [← Hierarchy.assignable_eq_some_true_iff] at ha
    cases ht with
    | array r => exact .array he hroot ha
    | object o => exact .object he hroot ha
    | unknown => cases hv

theorem Shows.mem_roots {r : ArrayRef} (hs : e.Shows h roots (.array r)) : .array r ∈ roots := by
  cases hs with
  | array _ hr => exact hr

end Descriptor

/-- The registers hold roots or unknown values, and the slots of the arrays among the roots show
what their element types allow. -/
structure State.TypedFrom (h : Hierarchy) (roots : List Value) (s : State) : Prop where
  register {v : Value} (hv : v ∈ s.frame.registers) : v ∈ roots ∨ v.isUnknown = true
  slot {ref : ArrayRef} (hr : .array ref ∈ roots) (j : ℕ) :
    ref.element.Shows h roots (s.heap.slot ref j)

variable {h : Hierarchy} {roots : List Value} {s t : State} {ref : ArrayRef}

namespace State.TypedFrom

theorem mem_roots_of_known (hs : s.TypedFrom h roots) {v : Value} (hv : v ∈ s.frame.registers)
    (hu : v.isUnknown = false) : v ∈ roots := by
  rcases hs.register hv with hv | hv
  · exact hv
  · rw [hu] at hv
    cases hv

theorem mem_roots_of_reaches (hs : s.TypedFrom h roots) (hr : s.Reaches ref) :
    .array ref ∈ roots := by
  induction hr with
  | register hr => exact hs.mem_roots_of_known hr rfl
  | @slot r ref j hr hj hv ih =>
    have hshows := hs.slot ih j
    rw [hv] at hshows
    exact hshows.mem_roots

theorem step {op : Aput} (hs : s.TypedFrom h roots) (hstep : op.Step h s t) :
    t.TypedFrom h roots where
  register hv := by
    rcases hstep.mem_registers hv with hv | hu
    · exact hs.register hv
    · exact .inr hu
  slot {ref} hr j := by
    obtain he | ⟨v, i, w, hreads, hv, hw, -, -, hu⟩ := hstep.slot_eq_or_takes ref j
    · rw [he]
      exact hs.slot hr j
    · apply hu.shows
      · exact hw.isUnknown_eq_false hv
      · intro hwr
        rw [hw.eq_of_isReference hwr]
        exact hs.mem_roots_of_known (List.mem_of_getElem? hreads.value) hv

theorem run (hs : s.TypedFrom h roots) (calls : List Call) (hc : ∀ c ∈ calls, c.hierarchy = h) :
    (s.run calls).TypedFrom h roots := by
  apply State.run_preserves (P := State.TypedFrom h roots) calls
  · intro c hmem op s t hstep hs
    rw [hc c hmem] at hstep
    exact hs.step hstep
  · exact hs

theorem of_build {heap : Heap} {texts : List String} (hb : State.build heap texts = .ok s) :
    s.TypedFrom h s.frame.registers where
  register hv := .inl hv
  slot hr j := ((State.array_of_build hb hr).2 j).shows

end State.TypedFrom

namespace State

/-- After any run from a built frame, the arrays are those of the texts, with their types and
lengths, and every slot shows a value that its element type allows. -/
theorem run_typed {heap : Heap} {texts : List String} (hb : build heap texts = .ok s)
    (calls : List Call) (hc : ∀ c ∈ calls, c.hierarchy = h) :
    (∀ ref, (s.run calls).Reaches ref → .array ref ∈ s.frame.registers) ∧
      (∀ ref ref', .array ref ∈ s.frame.registers → .array ref' ∈ s.frame.registers →
        ref.id = ref'.id → ref = ref') ∧
      ∀ ref, .array ref ∈ s.frame.registers →
        (∃ text ∈ texts, ∃ r, Assignment.parse text = .ok (r, .array ref.type ref.length)) ∧
        ref.type.element = .ok ref.element ∧
        ((s.run calls).heap.contents ref).length = ref.length ∧
        ∀ i < ref.length, ∃ v, (s.run calls).heap.get? ref i = some v ∧
          ref.element.Shows h s.frame.registers v := by
  have ht : (s.run calls).TypedFrom h s.frame.registers :=
    (TypedFrom.of_build hb).run calls hc
  refine ⟨fun ref hr => ht.mem_roots_of_reaches hr,
    fun ref ref' hr hr' hi => array_eq_of_build hb hr hr' hi, fun ref hr => ?_⟩
  refine ⟨(array_of_build hb hr).1, ref.element_eq, ?_, fun i hi => ?_⟩
  · simp only [Heap.contents, List.length_map, List.length_range]
  · exact ⟨(s.run calls).heap.slot ref i, if_pos hi, ht.slot hr i⟩

def objectCell : ArrayRef where
  id := 0
  type := .array 1 (.ofClass Descriptor.rootClass)
  element := .ofClass Descriptor.rootClass
  length := 1
  element_eq := rfl
  element_ne_void := by decide
  length_lt := by decide

/-- An object goes into a cell, and then a number does not. -/
theorem run_typed_objectCell :
    let s : State := ⟨⟨[.array objectCell, .int 0, .object ⟨1, "A"⟩]⟩,
      { Heap.empty.enter objectCell with next := 2 }⟩
    let calls : List Call := [⟨.empty, ⟨0⟩, "aput-object v2, v0, v1"⟩,
      ⟨.empty, ⟨2⟩, "aput v1, v0, v1"⟩]
    build .empty ["v0=array:[Ljava/lang/Object;:1", "v1=int:0", "v2=object:LA;"] = .ok s ∧
      (∀ c ∈ calls, c.hierarchy = .empty) ∧
      ∃ v, (s.run calls).heap.get? objectCell 0 = some v ∧
        objectCell.element.Shows .empty s.frame.registers v := by
  intro s calls
  have hb : build .empty ["v0=array:[Ljava/lang/Object;:1", "v1=int:0", "v2=object:LA;"] =
      .ok s := rfl
  have hc : ∀ c ∈ calls, c.hierarchy = .empty := by simp [calls]
  have href : Value.array objectCell ∈ s.frame.registers := List.mem_cons_self
  obtain ⟨-, -, harrays⟩ := run_typed hb calls hc
  obtain ⟨-, -, -, hslots⟩ := harrays objectCell href
  exact ⟨hb, hc, hslots 0 (by decide)⟩

end State

end DalvikStores
