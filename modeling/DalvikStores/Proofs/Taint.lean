import DalvikStores.Proofs.Effect

/-!
# What a taint leaves visible

A frame with unknown operands stands for every frame that has known values in their place. A store
with an unknown operand taints the register of the array, while the same store from such a frame
writes to the array itself. The taint covers the write as far as the other registers do not lead
to the array: a register that shares it still shows the slots from before the store.
-/

namespace DalvikStores

/-- The second frame has known values where the first has unknown operands to store or to store
at, and is the same otherwise. -/
structure Aput.Concretizes (op : Aput) (f f' : Frame) : Prop where
  size_eq : f'.size = f.size
  known {k : ℕ} {v : Value} (hv : f.registers[k]? = some v) (hu : v.isUnknown = false) :
    f'.registers[k]? = some v
  other {k : ℕ} (hv : k ≠ op.value.index) (hi : k ≠ op.index.index) :
    f'.registers[k]? = f.registers[k]?
  operand {k : ℕ} {v : Value} (hk : k = op.value.index ∨ k = op.index.index)
    (hv : f'.registers[k]? = some v) : v.isUnknown = false

namespace Heap

variable {heap : Heap} {ref r : ArrayRef} {j : ℕ} {c : Cell ref.element}

theorem contents_write_of_ne (hne : r ≠ ref) :
    (heap.write ref j c).contents r = heap.contents r := by
  unfold contents
  apply List.map_congr_left
  intro k _
  exact write_slot_of_ne heap ref j c (fun he => hne he.1)

end Heap

namespace Aput

variable {op : Aput} {h : Hierarchy} {f f' : Frame} {heap : Heap} {v i : Value} {ref : ArrayRef}
  {successors : List Address} {s t : State}

theorem concretizes_set_index {w : Value} (hr : op.Reads f v (.array ref) i)
    (hv : v.isUnknown = false) (hi : i.isUnknown = true) (hw : w.isUnknown = false) :
    op.Concretizes f ⟨f.registers.set op.index.index w⟩ := by
  have hlt := Frame.lt_size_of_getElem? hr.index
  constructor
  · exact List.length_set
  · intro k u hk hu
    by_cases he : k = op.index.index
    · subst he
      cases hk.symm.trans hr.index
      rw [hi] at hu
      cases hu
    · exact (List.getElem?_set_ne (Ne.symm he)).trans hk
  · intro k _ hk
    exact List.getElem?_set_ne hk.symm
  · intro k u hk hu
    by_cases he : k = op.index.index
    · subst he
      cases hu.symm.trans (List.getElem?_set_self hlt)
      exact hw
    · have hkv : k = op.value.index := hk.resolve_right he
      subst hkv
      rw [List.getElem?_set_ne (Ne.symm he)] at hu
      cases hu.symm.trans hr.value
      exact hv

theorem Concretizes.exists_write (hc : op.Concretizes f f') (hr : op.Reads f v (.array ref) i)
    (hs : op.Step h ⟨f', heap⟩ t) : ∃ j c, t.heap = heap.write ref j c := by
  have ha : f'.registers[op.array.index]? = some (.array ref) := hc.known hr.array rfl
  cases hs with
  | leave hr' => cases ha.symm.trans hr'.array
  | @taint v' i' ref' hr' hu =>
    have hv : v'.isUnknown = false := hc.operand (.inl rfl) hr'.value
    have hi : i'.isUnknown = false := hc.operand (.inr rfl) hr'.index
    rw [hv, hi] at hu
    rcases hu with hu | hu <;> cases hu
  | write hr' =>
    cases ha.symm.trans hr'.array
    exact ⟨_, _, rfl⟩

theorem contents_taint_eq_write_iff {j : ℕ} {c : Cell ref.element}
    (hr : op.Reads f v (.array ref) i) :
    (∀ (k : ℕ) (r : ArrayRef),
        (f.registers.set op.array.index (.ofUnknown ref.type))[k]? = some (Value.array r) →
        heap.contents r = (heap.write ref j c).contents r) ↔
      (∀ k : ℕ, f.registers[k]? = some (Value.array ref) → k = op.array.index) ∨
        (heap.write ref j c).contents ref = heap.contents ref := by
  constructor
  · intro hshow
    by_cases halone : ∀ k : ℕ, f.registers[k]? = some (.array ref) → k = op.array.index
    · exact .inl halone
    · -- a second register with the array still shows it after the taint
      push Not at halone
      obtain ⟨k, hk, hne⟩ := halone
      have hset := List.getElem?_set_ne (l := f.registers) (a := .ofUnknown ref.type) hne.symm
      exact .inr (hshow k ref (hset.trans hk)).symm
  · intro hcover k r hk
    have hne : k ≠ op.array.index := by
      rintro rfl
      rw [List.getElem?_set_self (Frame.lt_size_of_getElem? hr.array)] at hk
      cases hk
    rw [List.getElem?_set_ne hne.symm] at hk
    by_cases href : r = ref
    · subst href
      rcases hcover with halone | hsame
      · exact absurd (halone k hk) hne
      · exact hsame.symm
    · exact (Heap.contents_write_of_ne href).symm

/-- A store with an unknown operand covers the store that it stands for exactly when the array is
in no other register, or the store it stands for leaves the array as it was. -/
theorem execute_taint_covers_iff {v i : Value} {t' : State} (hr : op.Reads f v (.array ref) i)
    (hu : v.isUnknown = true ∨ i.isUnknown = true) (hc : op.Concretizes f f')
    (hx : op.execute h ⟨f', heap⟩ = .ok successors t') :
    ∃ t, op.execute h ⟨f, heap⟩ = .ok successors t ∧
      ((∀ (k : ℕ) (r : ArrayRef), t.frame.registers[k]? = some (.array r) →
          t.heap.contents r = t'.heap.contents r) ↔
        (∀ k : ℕ, f.registers[k]? = some (.array ref) → k = op.array.index) ∨
          t'.heap.contents ref = heap.contents ref) := by
  rw [execute_eq_ok_iff] at hx
  obtain ⟨rfl, hs'⟩ := hx
  obtain ⟨j, c, hwrite⟩ := hc.exists_write hr hs'
  have hs : op.Step h ⟨f, heap⟩ _ := .taint hr hu
  refine ⟨_, (execute_eq_ok_iff _).mpr ⟨rfl, hs⟩, ?_⟩
  rw [hwrite]
  exact contents_taint_eq_write_iff hr

def intPair : ArrayRef where
  id := 0
  type := .array 1 .int
  element := .int
  length := 2
  element_eq := rfl
  element_ne_void := by decide
  length_lt := by decide

theorem execute_taint_covers_single :
    let f : Frame := ⟨[.array intPair, .unknown "I", .int 5]⟩
    let f' : Frame := ⟨[.array intPair, .int 0, .int 5]⟩
    let op : Aput := ⟨⟨0⟩, "aput", .plain, ⟨2⟩, ⟨2⟩, ⟨0⟩, ⟨1⟩⟩
    let t' : State := ⟨f', Heap.empty.write intPair 0 (.int 5)⟩
    op.Reads f (.int 5) (.array intPair) (.unknown "I") ∧ op.Concretizes f f' ∧
      op.execute .empty ⟨f', .empty⟩ = .ok [⟨2⟩] t' ∧
      ∃ t, op.execute .empty ⟨f, .empty⟩ = .ok [⟨2⟩] t ∧
        ∀ (k : ℕ) (r : ArrayRef), t.frame.registers[k]? = some (.array r) →
          t.heap.contents r = t'.heap.contents r := by
  intro f f' op t'
  have hr : op.Reads f (.int 5) (.array intPair) (.unknown "I") := ⟨rfl, rfl, rfl⟩
  have hc : op.Concretizes f f' := concretizes_set_index hr rfl rfl rfl
  have hx : op.execute .empty ⟨f', .empty⟩ = .ok [⟨2⟩] t' := rfl
  obtain ⟨t, ht, hiff⟩ := execute_taint_covers_iff hr (.inr rfl) hc hx
  refine ⟨hr, hc, hx, t, ht, hiff.mpr (.inl ?_)⟩
  intro k hk
  match k, hk with
  | 0, _ => rfl
  | 1, hk => cases hk
  | 2, hk => cases hk

/-- With the pair in a second register, that register still shows two zeros where the store has
left a five. -/
theorem execute_taint_misses_shared :
    let f : Frame := ⟨[.array intPair, .array intPair, .unknown "I", .int 5]⟩
    let f' : Frame := ⟨[.array intPair, .array intPair, .int 0, .int 5]⟩
    let op : Aput := ⟨⟨0⟩, "aput", .plain, ⟨2⟩, ⟨3⟩, ⟨0⟩, ⟨2⟩⟩
    op.Concretizes f f' ∧
      ∃ t t', op.execute .empty ⟨f, .empty⟩ = .ok [⟨2⟩] t ∧
        op.execute .empty ⟨f', .empty⟩ = .ok [⟨2⟩] t' ∧
        t.frame.registers[1]? = some (.array intPair) ∧
        t.heap.contents intPair = [.int 0, .int 0] ∧
        t'.heap.contents intPair = [.int 5, .int 0] := by
  intro f f' op
  have hr : op.Reads f (.int 5) (.array intPair) (.unknown "I") := ⟨rfl, rfl, rfl⟩
  exact ⟨concretizes_set_index hr rfl rfl rfl, _, _, rfl, rfl, rfl, rfl, rfl⟩

end Aput

end DalvikStores
