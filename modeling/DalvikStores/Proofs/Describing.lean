import DalvikStores.Proofs.HeapTyping

/-!
# What descriptors say about values

All that is known of an unknown value is a text. Whether the value counts as a reference is decided
by the first letter of this text, while a store reads all of it, and the two agree where a type has
been written there. Literals and new objects have such descriptors. A taint writes the type of the
array that it takes away, and a store keeps a reference as it is, so that no run leads to a
descriptor of another kind.
-/

namespace DalvikStores

namespace Descriptor

variable {cs : List Char} {t : Descriptor}

theorem Spells.isReference_eq (ht : Spells cs t) :
    (cs.head? == some 'L' || cs.head? == some '[') = t.isReference := by
  cases ht with
  | void => rfl
  | leaf hl => cases hl <;> rfl
  | @array k _ _ hz =>
    obtain ⟨k, rfl⟩ := Nat.exists_eq_succ_of_ne_zero hz
    rfl

theorem parse_render_of_ofText (ht : ofText cs = .ok t) : parse t.render = .ok t :=
  parse_eq_ok_iff.mpr (ofText_eq_ok_iff.mp ht).spells_render

end Descriptor

namespace Value

/-- The descriptor of the value is read as a type, which agrees with the value on being a reference
and is the type of the array or the object that the value leads to. -/
structure DescribedBy (v : Value) (t : Descriptor) : Prop where
  parse_eq : Descriptor.parse v.descriptor = .ok t
  isReference_eq : t.isReference = v.isReference
  eq_of_array {ref : ArrayRef} (hv : v = .array ref) : t = ref.type
  eq_of_object {o : ObjectRef} (hv : v = .object o) : t = o.type

def IsDescribed (v : Value) : Prop := ∃ t, v.DescribedBy t

variable {v : Value} {ds : List Char} {t : Descriptor} {ref : ArrayRef} {o : ObjectRef}

theorem isDescribed_unknown (ht : Descriptor.ofText ds = .ok t) :
    (unknown (String.ofList ds)).IsDescribed := by
  have hs := Descriptor.ofText_eq_ok_iff.mp ht
  refine ⟨t, Descriptor.parse_eq_ok_iff.mpr ?_, ?_, nofun, nofun⟩
  · rwa [descriptor, String.toList_ofList]
  · rw [isReference, String.toList_ofList, hs.isReference_eq]

theorem isDescribed_array (ht : Descriptor.ofText ds = .ok ref.type) :
    (array ref).IsDescribed := by
  refine ⟨ref.type, Descriptor.parse_render_of_ofText ht, ?_, ?_, nofun⟩
  · have he := ref.element_eq
    cases hr : ref.type with
    | array => rfl
    | _ =>
      rw [hr] at he
      cases he
  · intro ref' he
    cases he
    rfl

theorem isDescribed_object (ht : Descriptor.ofText ds = .ok o.type) : (object o).IsDescribed := by
  refine ⟨o.type, Descriptor.parse_render_of_ofText ht, rfl, nofun, ?_⟩
  intro o' he
  cases he
  rfl

theorem isDescribed_null : null.IsDescribed :=
  ⟨.ofClass Descriptor.rootClass, rfl, rfl, nofun, nofun⟩

theorem isDescribed_primitive (hr : v.isReference = false) (hu : v.isUnknown = false) :
    v.IsDescribed := by
  cases v with
  | int => exact ⟨.int, show Descriptor.parse "I" = _ from rfl, rfl, nofun, nofun⟩
  | long => exact ⟨.long, show Descriptor.parse "J" = _ from rfl, rfl, nofun, nofun⟩
  | boolean => exact ⟨.boolean, show Descriptor.parse "Z" = _ from rfl, rfl, nofun, nofun⟩
  | byte => exact ⟨.byte, show Descriptor.parse "B" = _ from rfl, rfl, nofun, nofun⟩
  | char => exact ⟨.char, show Descriptor.parse "C" = _ from rfl, rfl, nofun, nofun⟩
  | short => exact ⟨.short, show Descriptor.parse "S" = _ from rfl, rfl, nofun, nofun⟩
  | unknown => cases hu
  | _ => cases hr

/-- What a taint leaves in the register of an array has the descriptor of the array. -/
theorem IsDescribed.ofUnknown (hv : (array ref).IsDescribed) :
    (ofUnknown ref.type).IsDescribed := by
  obtain ⟨t, ht⟩ := hv
  have hparse : Descriptor.parse ref.type.render = .ok t := ht.parse_eq
  have hs := Descriptor.parse_eq_ok_iff.mp hparse
  have hu := isDescribed_unknown (Descriptor.ofText_eq_ok_iff.mpr hs)
  rwa [String.ofList_toList] at hu

end Value

theorem Descriptor.HasZero.isDescribed {e : Descriptor} {v : Value} (hz : e.HasZero v) :
    v.IsDescribed := by
  cases hz with
  | reference => exact Value.isDescribed_null
  | _ => exact Value.isDescribed_primitive rfl rfl

theorem Descriptor.Takes.isUnknown_eq_false {h : Hierarchy} {e : Descriptor} {v w : Value}
    (hw : e.Takes h v w) (hr : w.isReference = false) : w.isUnknown = false := by
  cases hw with
  | reference _ hv => cases hr.symm.trans hv
  | _ => rfl

theorem Literal.Spells.isDescribed {cs : List Char} {l : Literal} {v : Value}
    {assigned : List (Register × Value)} {heap heap' : Heap} (hs : Spells cs l)
    (hl : l.Resolves assigned heap v heap')
    (ha : ∀ r u, assigned.lookup r = some u → u.IsDescribed) : v.IsDescribed := by
  cases hs with
  | unknown ht =>
    cases hl
    exact Value.isDescribed_unknown ht
  | array ht =>
    cases hl
    exact Value.isDescribed_array ht
  | object ht =>
    cases hl
    exact Value.isDescribed_object ht
  | register =>
    cases hl with
    | register hr => exact ha _ _ hr
  | null =>
    cases hl
    exact Value.isDescribed_null
  | _ =>
    cases hl
    exact Value.isDescribed_primitive rfl rfl

theorem Assembly.isDescribed_of_addAll {heap : Heap} {texts : List String} {a : Assembly}
    (ha : (start heap).addAll texts = .ok a) {v : Value} (hv : a.Holds v) : v.IsDescribed := by
  have hall : ∀ v, a.Holds v → v.IsDescribed := by
    refine addAll_preserves (P := fun a => ∀ v, a.Holds v → v.IsDescribed) ?_ ?_ ha
    · intro text _ a b hb ih v hv
      obtain ⟨r, l, u, heap, hp, hl, -, rfl⟩ := add_eq_ok_iff.mp hb
      obtain ⟨cs, hs⟩ := Assignment.exists_spells_of_parse hp
      rcases holds_append_iff.mp hv with hv | rfl
      · exact ih v hv
      · exact hs.isDescribed hl fun r u hr => ih u (holds_of_lookup hr)
    · exact fun v hv => absurd hv not_holds_start
  exact hall v hv

/-- The registers and the slots of the arrays among the roots hold values whose descriptors can be
read. -/
structure State.Described (roots : List Value) (s : State) : Prop where
  register {v : Value} (hv : v ∈ s.frame.registers) : v.IsDescribed
  slot {ref : ArrayRef} (hr : .array ref ∈ roots) (j : ℕ) : (s.heap.slot ref j).IsDescribed

namespace State

variable {roots : List Value} {s t : State} {heap : Heap} {texts : List String}

theorem Described.step {op : Aput} {h : Hierarchy} (hs : s.Described roots)
    (hstep : op.Step h s t) : t.Described roots where
  register {v} hv := by
    cases hstep with
    | leave => exact hs.register hv
    | taint hr =>
      rcases List.mem_or_eq_of_mem_set hv with hv | rfl
      · exact hs.register hv
      · exact (hs.register (List.mem_of_getElem? hr.array)).ofUnknown
    | write => exact hs.register hv
  slot {ref} hr j := by
    cases hv : (t.heap.slot ref j).isReference with
    | true =>
      rcases hstep.slot_reference hv with he | hmem
      · rw [he]
        exact hs.slot hr j
      · exact hs.register hmem
    | false =>
      obtain he | ⟨_, _, _, -, -, -, -, -, hu⟩ := hstep.slot_eq_or_takes ref j
      · rw [he]
        exact hs.slot hr j
      · exact Value.isDescribed_primitive hv (hu.isUnknown_eq_false hv)

theorem Described.run (hs : s.Described roots) (calls : List Call) :
    (s.run calls).Described roots :=
  run_preserves (P := Described roots) calls (fun _ _ _ _ _ hstep hs => hs.step hstep) hs

theorem described_of_build (hb : build heap texts = .ok s) : s.Described s.frame.registers where
  register hv := by
    obtain ⟨a, ha, hf, -⟩ := build_eq_ok_iff.mp hb
    exact Assembly.isDescribed_of_addAll ha (Assembly.holds_of_mem_frame hf hv)
  slot hr j := ((array_of_build hb hr).2 j).isDescribed

/-- After any run from a built frame, the descriptor of every value in a register or in a slot is
read as a type that agrees with the value. -/
theorem run_describedBy (hb : build heap texts = .ok s) (calls : List Call) :
    (∀ v ∈ (s.run calls).frame.registers, ∃ t, v.DescribedBy t) ∧
      ∀ ref, .array ref ∈ s.frame.registers ∨ (s.run calls).Reaches ref →
        ∀ i v, (s.run calls).heap.get? ref i = some v → ∃ t, v.DescribedBy t := by
  have hd : (s.run calls).Described s.frame.registers := (described_of_build hb).run calls
  refine ⟨fun v hv => hd.register hv, fun ref hr i v hv => ?_⟩
  have hroot : .array ref ∈ s.frame.registers := by
    rcases hr with hr | hr
    · exact hr
    · have htyped : s.TypedFrom .empty s.frame.registers := .of_build hb
      exact htyped.mem_roots_of_reaches (reaches_of_run calls hr)
  unfold Heap.get? at hv
  split_ifs at hv
  cases hv
  exact hd.slot hroot i

/-- An object goes into a cell, and then the register of the cell is tainted. -/
theorem run_describedBy_tainted :
    let s : State := ⟨⟨[.array objectCell, .int 0, .object ⟨1, "A"⟩, .unknown "I"]⟩,
      { Heap.empty.enter objectCell with next := 2 }⟩
    let calls : List Call := [⟨.empty, ⟨0⟩, "aput-object v2, v0, v1"⟩,
      ⟨.empty, ⟨2⟩, "aput v1, v0, v3"⟩]
    build .empty ["v0=array:[Ljava/lang/Object;:1", "v1=int:0", "v2=object:LA;", "v3=unknown:I"] =
        .ok s ∧
      (s.run calls).frame.registers[0]? = some (.unknown "[Ljava/lang/Object;") ∧
      (∃ t, (Value.unknown "[Ljava/lang/Object;").DescribedBy t) ∧
      (s.run calls).heap.get? objectCell 0 = some (.object ⟨1, "A"⟩) ∧
      ∃ t, (Value.object ⟨1, "A"⟩).DescribedBy t := by
  intro s calls
  have hregister : (s.run calls).frame.registers[0]? = some (.unknown "[Ljava/lang/Object;") := by
    decide +kernel +revert
  have hslot : (s.run calls).heap.get? objectCell 0 = some (.object ⟨1, "A"⟩) := by
    decide +kernel +revert
  have hb : build .empty ["v0=array:[Ljava/lang/Object;:1", "v1=int:0", "v2=object:LA;",
      "v3=unknown:I"] = .ok s := rfl
  have hroot : Value.array objectCell ∈ s.frame.registers := List.mem_cons_self
  obtain ⟨hregisters, hslots⟩ := run_describedBy hb calls
  exact ⟨hb, hregister, hregisters _ (List.mem_of_getElem? hregister), hslot,
    hslots objectCell (.inl hroot) 0 _ hslot⟩

end State

end DalvikStores
