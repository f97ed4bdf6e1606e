import DalvikStores.Proofs.Building
import DalvikStores.Proofs.HeapTyping
import DalvikStores.Report

/-!
# What a report shows

A report has a line for each register that holds an array, and looks into no array that lies in a
slot. After a single operation on a built state it still shows every array that can be reached: the
slots were zeros before, the one that has been written holds a value that its register keeps, and a
taint takes an array out of a register but puts none into a slot.
-/

namespace DalvikStores

theorem Descriptor.HasZero.ne_array {e : Descriptor} {v : Value} (hz : e.HasZero v)
    (r : ArrayRef) : v ≠ .array r := by
  cases hz <;> exact Value.noConfusion

namespace State

/-- The arrays in the registers are as they were made. -/
def Blank (s : State) : Prop :=
  ∀ ref, .array ref ∈ s.frame.registers → ∀ j, ref.element.HasZero (s.heap.slot ref j)

/-- An array in a slot of an array in a register is in a register itself. -/
def Grounded (s : State) : Prop :=
  ∀ ref, .array ref ∈ s.frame.registers → ∀ j r, s.heap.slot ref j = .array r →
    .array r ∈ s.frame.registers

variable {heap : Heap} {texts : List String} {s t : State} {ref : ArrayRef}

theorem Grounded.mem_registers (hg : s.Grounded) (hr : s.Reaches ref) :
    .array ref ∈ s.frame.registers := by
  induction hr with
  | register hr => exact hr
  | slot _ _ hv ih => exact hg _ ih _ _ hv

theorem Blank.slot_ne_array (hb : s.Blank) (hr : .array ref ∈ s.frame.registers) (j : ℕ)
    (r : ArrayRef) : s.heap.slot ref j ≠ .array r := (hb ref hr j).ne_array r

theorem blank_of_build (hb : build heap texts = .ok s) : s.Blank :=
  fun _ hr => (array_of_build hb hr).2

theorem size_le_of_build (hb : build heap texts = .ok s) : s.frame.size ≤ UInt16.size := by
  obtain ⟨ps, -, hp, hr⟩ := exists_realizes_of_build hb
  rw [hr.size_eq]
  exact hp.length_le

end State

theorem Aput.Step.grounded {op : Aput} {h : Hierarchy} {s t : State} (hs : op.Step h s t)
    (hb : s.Blank) : t.Grounded := by
  intro ref hr j r hj
  have href : (t.heap.slot ref j).isReference = true := by rw [hj]; rfl
  have hslot := hs.slot_reference href
  cases hs with
  | leave => exact absurd hj (hb.slot_ne_array hr j r)
  | taint =>
    rcases List.mem_or_eq_of_mem_set hr with hr | hr
    · exact absurd hj (hb.slot_ne_array hr j r)
    · cases hr
  | write =>
    rcases hslot with he | hm
    · exact absurd (he.symm.trans hj) (hb.slot_ne_array hr j r)
    · rwa [hj] at hm

namespace Frame

def arrays (f : Frame) : List (Register × ArrayRef) :=
  f.entries.filterMap fun
    | (r, .array ref) => some (r, ref)
    | _ => none

variable {f : Frame} {r : Register} {v : Value} {ref : ArrayRef}

theorem mem_entries_iff : (r, v) ∈ f.entries ↔ f.read r = .ok v := by
  simp only [entries, List.mem_map, Prod.mk.injEq, Prod.exists, List.mem_zipIdx_iff_getElem?,
    List.getElem?_take, read_eq_ok_iff]
  constructor
  · rintro ⟨u, i, hu, hi, rfl⟩
    split_ifs at hu with hlt
    have hr : r.index = i := by
      rw [← hi]
      exact UInt16.toNat_ofNat_of_lt' hlt
    rwa [hr]
  · intro hv
    have hlt : r.index < UInt16.size := r.number.toNat_lt
    refine ⟨v, r.index, ?_, Register.eq_of_index_eq (UInt16.toNat_ofNat_of_lt' hlt), rfl⟩
    rwa [if_pos hlt]

theorem exists_read_of_mem (hsize : f.size ≤ UInt16.size) (hv : v ∈ f.registers) :
    ∃ r, f.read r = .ok v := by
  rw [← (map_entries hsize).2, List.mem_map] at hv
  obtain ⟨⟨r, v⟩, hentry, rfl⟩ := hv
  exact ⟨r, mem_entries_iff.mp hentry⟩

theorem mem_arrays_iff : (r, ref) ∈ f.arrays ↔ f.read r = .ok (.array ref) := by
  rw [← mem_entries_iff, arrays, List.mem_filterMap]
  constructor
  · rintro ⟨⟨r', v⟩, hmem, he⟩
    cases v with
    | array ref' => cases he; exact hmem
    | _ => cases he
  · intro hmem
    exact ⟨_, hmem, rfl⟩

theorem pairwise_arrays (hsize : f.size ≤ UInt16.size) :
    f.arrays.Pairwise fun p q => p.1.index < q.1.index := by
  have hentries : f.entries.Pairwise fun p q => p.1.index < q.1.index := by
    rw [← List.pairwise_map (f := fun p : Register × Value => p.1.index) (R := (· < ·)),
      (map_entries hsize).1]
    exact List.pairwise_lt_range
  refine hentries.filterMap _ ?_
  rintro ⟨r, v⟩ ⟨r', v'⟩ hlt p hp p' hp'
  cases v with
  | array ref =>
    cases v' with
    | array ref' => cases hp; cases hp'; exact hlt
    | _ => cases hp'
  | _ => cases hp

end Frame

namespace State

variable {heap : Heap} {texts : List String} {s t : State} {h : Hierarchy} {op : Aput}
  {successors : List Address}

theorem contentsLines_eq (s : State) :
    s.contentsLines = s.frame.arrays.map fun p => s.contentsLine p.1 p.2 := by
  rw [contentsLines, Frame.arrays, List.map_filterMap]
  congr 1
  funext p
  obtain ⟨r, v⟩ := p
  cases v <;> rfl

theorem getElem?_contents {j : ℕ} (ref : ArrayRef) (hj : j < ref.length) :
    (s.heap.contents ref)[j]? = s.heap.get? ref j := by
  rw [Heap.contents, List.getElem?_map, List.getElem?_range hj, Heap.get?, if_pos hj]
  rfl

/-- After a single operation on a built state, all arrays that can be reached are in registers, and
the report ends with the contents of the array in each register that holds one, in the order of the
registers and with all slots in their order. -/
theorem report_of_execute (hb : build heap texts = .ok s)
    (hx : op.execute h s = .ok successors t) :
    (∀ ref, t.Reaches ref → ∃ r, t.frame.read r = .ok (.array ref)) ∧
      (∃ held : List (Register × ArrayRef),
        (∀ r ref, (r, ref) ∈ held ↔ t.frame.read r = .ok (.array ref)) ∧
        held.Pairwise (fun p q => p.1.index < q.1.index) ∧
        t.report successors = "successors: " ++ Text.separated (successors.map Address.render) ++
          "\nregisters:\n" ++ t.frame.render ++ String.join (held.map fun p =>
            p.1.render ++ " contents: [" ++
              Text.separated ((t.heap.contents p.2).map Value.render) ++ "]\n") ∧
        ∀ p ∈ held, (t.heap.contents p.2).length = p.2.length ∧
          ∀ j < p.2.length, (t.heap.contents p.2)[j]? = t.heap.get? p.2 j) ∧
      ∀ address text, Aput.ofText address text = .ok op →
        Setup.report ⟨h, s⟩ address text = .ok (t.report successors) := by
  have hstep : op.Step h s t := ((Aput.execute_eq_ok_iff successors).mp hx).2
  have hsize : t.frame.size ≤ UInt16.size := hstep.size_eq ▸ size_le_of_build hb
  refine ⟨fun ref hr => ?_, ⟨t.frame.arrays, fun r ref => Frame.mem_arrays_iff,
    Frame.pairwise_arrays hsize, ?_, fun p _ => ⟨?_, fun j hj => ?_⟩⟩, fun address text ho => ?_⟩
  · have hmem := (hstep.grounded (blank_of_build hb)).mem_registers hr
    exact Frame.exists_read_of_mem hsize hmem
  · rw [report, contentsLines_eq]
    rfl
  · rw [Heap.contents, List.length_map, List.length_range]
  · exact getElem?_contents p.2 hj
  · rw [Setup.report, Execution.ofText_eq, ho]
    dsimp only
    rw [hx]

/-- An array that is put into its own slot, from one register into another that shares it, has a
line for each of the two. -/
theorem report_of_execute_cyclic :
    let f : Frame := ⟨[.array objectCell, .int 0, .array objectCell]⟩
    let s : State := ⟨f, Heap.empty.enter objectCell⟩
    let t : State := ⟨f, s.heap.write objectCell 0 (.array rfl objectCell)⟩
    let op : Aput := ⟨⟨0⟩, "aput-object", .object, ⟨2⟩, ⟨0⟩, ⟨2⟩, ⟨1⟩⟩
    let text := "successors: 2\nregisters:\n" ++
      "    v0: array([Ljava/lang/Object;, length 1)\n    v1: int(0)\n" ++
      "    v2: array([Ljava/lang/Object;, length 1)\n" ++
      "v0 contents: [array([Ljava/lang/Object;, length 1)]\n" ++
      "v2 contents: [array([Ljava/lang/Object;, length 1)]\n"
    build .empty ["v0=array:[Ljava/lang/Object;:1", "v1=int:0", "v2=v0"] = .ok s ∧
      op.execute .empty s = .ok [⟨2⟩] t ∧
      (∃ r, t.frame.read r = .ok (.array objectCell)) ∧
      Setup.report ⟨.empty, s⟩ ⟨0⟩ "aput-object v0, v2, v1" = .ok text := by
  intro f s t op text
  have htext : t.report [⟨2⟩] = text := by decide +kernel +revert
  have ho : Aput.ofText ⟨0⟩ "aput-object v0, v2, v1" = .ok op := by decide +kernel +revert
  have hb : build .empty ["v0=array:[Ljava/lang/Object;:1", "v1=int:0", "v2=v0"] = .ok s := rfl
  have htakes : objectCell.element.Takes .empty (.array objectCell) (.array objectCell) :=
    .reference rfl rfl (.array objectCell) (.root rfl)
  have hlength : 0 < objectCell.length := by decide
  have hstep : op.Step .empty s t :=
    .write (v := .array objectCell) (i := .int 0) ⟨rfl, rfl, rfl⟩ rfl (.object rfl) rfl hlength
      htakes
  have hx : op.execute .empty s = .ok [⟨2⟩] t := (Aput.execute_eq_ok_iff _).mpr ⟨rfl, hstep⟩
  have hslot : t.heap.slot objectCell 0 = .array objectCell :=
    Heap.write_slot_self s.heap objectCell 0 _
  obtain ⟨hreached, -, htool⟩ := report_of_execute hb hx
  have hr : t.Reaches objectCell := .slot (.register List.mem_cons_self) hlength hslot
  refine ⟨hb, hx, hreached objectCell hr, ?_⟩
  rw [htool ⟨0⟩ "aput-object v0, v2, v1" ho, htext]

end State

end DalvikStores
