import DalvikStores.Proofs.Run
import DalvikStores.Proofs.Taint

/-!
# The last store into a slot

A call stores into a slot if it succeeds with the array in its array register, the position of the
slot in its index register, and a known value to store. It does not matter which register holds the
array, nor which other registers or slots hold it too. The slot then shows the value, coerced and
converted to the element type, until the next call that stores into it; all other calls leave it
alone, whether they fail, taint a register, or store elsewhere.
-/

namespace DalvikStores

/-- The call succeeds and stores a known value into the slot of the array. -/
structure Call.StoresInto (c : Call) (s : State) (ref : ArrayRef) (j : ℕ) (op : Aput)
    (v : Value) : Prop where
  reads : Aput.ofText c.address c.text = .ok op
  succeeds : ∃ successors t, Execution.ofText c.hierarchy c.address c.text s = .ok successors t
  array : s.frame.read op.array = .ok (.array ref)
  index : ∃ i, s.frame.read op.index = .ok i ∧ i.number = some (j : ℤ)
  value : s.frame.read op.value = .ok v
  known : v.isUnknown = false

def Call.Spares (c : Call) (s : State) (ref : ArrayRef) (j : ℕ) : Prop :=
  ∀ op v, ¬ c.StoresInto s ref j op v

variable {s t : State} {c : Call} {calls : List Call} {ref : ArrayRef} {j n : ℕ} {op : Aput}
  {v i : Value}

theorem Value.isUnknown_eq_false_of_number {x : ℤ} (hi : i.number = some x) :
    i.isUnknown = false := by
  cases i with
  | unknown => cases hi
  | _ => rfl

namespace State

theorem call_get?_of_storesInto (hc : c.StoresInto s ref j op v) :
    ∃ w u, op.variant.Coerces v w ∧ ref.element.Takes c.hierarchy w u ∧
      (s.call c).heap.get? ref j = some u := by
  obtain ⟨successors, t, ht⟩ := hc.succeeds
  obtain ⟨op', ho, -, hs⟩ := (Execution.ofText_eq_ok_iff successors).mp ht
  cases hc.reads.symm.trans ho
  obtain ⟨i, hi, hj⟩ := hc.index
  have hr : op.Reads s.frame v (.array ref) i :=
    ⟨Frame.read_eq_ok_iff.mp hc.value, Frame.read_eq_ok_iff.mp hc.array,
      Frame.read_eq_ok_iff.mp hi⟩
  have hi' : i.isUnknown = false := Value.isUnknown_eq_false_of_number hj
  obtain ⟨k, w, u, hw, hk, hl, hu, rfl⟩ := hs.exists_write hr hc.known hi'
  have hkj : k = j := Int.ofNat.inj (Option.some.inj (hk.symm.trans hj))
  subst hkj
  refine ⟨w, u.value, hw, hu, ?_⟩
  rw [call_eq_of_ofText ht, Heap.get?, if_pos hl, Heap.write_slot_self]

theorem call_get?_of_spares (hc : c.Spares s ref j) :
    (s.call c).heap.get? ref j = s.heap.get? ref j := by
  rcases s.call_eq_self_or_step c with he | ⟨op, ho, hs⟩
  · rw [he]
  · obtain he | ⟨v, i, -, hr, hv, -, hj, -⟩ := hs.slot_eq_or_takes ref j
    · rw [Heap.get?, Heap.get?, he]
    · have hstores : c.StoresInto s ref j op v :=
        { reads := ho
          succeeds := ⟨_, _, (Execution.ofText_eq_ok_iff _).mpr ⟨op, ho, rfl, hs⟩⟩
          array := Frame.read_eq_ok_iff.mpr hr.array
          index := ⟨i, Frame.read_eq_ok_iff.mpr hr.index, hj⟩
          value := Frame.read_eq_ok_iff.mpr hr.value
          known := hv }
      exact absurd hstores (hc op v)

theorem run_get?_of_spares
    (hc : ∀ (n : ℕ) (c : Call), calls[n]? = some c → c.Spares (s.run (calls.take n)) ref j) :
    (s.run calls).heap.get? ref j = s.heap.get? ref j := by
  induction calls generalizing s with
  | nil => rfl
  | cons c calls ih =>
    have hfirst : c.Spares s ref j := hc 0 c rfl
    have hrest : ((s.call c).run calls).heap.get? ref j = (s.call c).heap.get? ref j :=
      ih fun n c' hc' => hc (n + 1) c' hc'
    rw [run_cons, hrest, call_get?_of_spares hfirst]

theorem run_get?_of_last (hn : calls[n]? = some c)
    (hc : c.StoresInto (s.run (calls.take n)) ref j op v)
    (hlast : ∀ (m : ℕ) (c' : Call), n < m → calls[m]? = some c' →
      c'.Spares (s.run (calls.take m)) ref j) :
    ∃ w u, op.variant.Coerces v w ∧ ref.element.Takes c.hierarchy w u ∧
      (s.run calls).heap.get? ref j = some u := by
  induction calls generalizing s n with
  | nil => cases hn
  | cons c₀ calls ih =>
    cases n with
    | zero =>
      cases hn
      have hfirst : c.StoresInto s ref j op v := hc
      obtain ⟨w, u, hw, hu, hslot⟩ := call_get?_of_storesInto hfirst
      refine ⟨w, u, hw, hu, ?_⟩
      rw [run_cons, run_get?_of_spares, hslot]
      intro m c' hm
      exact hlast (m + 1) c' (Nat.succ_pos m) hm
    | succ n =>
      apply ih hn hc
      intro m c' hnm hm
      exact hlast (m + 1) c' (Nat.succ_lt_succ hnm) hm

/-- After a run a slot shows the value of the last call that stored into it, coerced and converted
to the element type, and what it showed at first if no call did. -/
theorem run_get?_eq_last_store (s : State) (calls : List Call) (ref : ArrayRef) (j : ℕ) :
    (∀ (n : ℕ) (c : Call) (op : Aput) (v : Value), calls[n]? = some c →
        c.StoresInto (s.run (calls.take n)) ref j op v →
        (∀ (m : ℕ) (c' : Call), n < m → calls[m]? = some c' →
          c'.Spares (s.run (calls.take m)) ref j) →
        ∃ w u, op.variant.Coerces v w ∧ ref.element.Takes c.hierarchy w u ∧
          (s.run calls).heap.get? ref j = some u) ∧
      ((∀ (n : ℕ) (c : Call), calls[n]? = some c → c.Spares (s.run (calls.take n)) ref j) →
        (s.run calls).heap.get? ref j = s.heap.get? ref j) := by
  constructor
  · intro n c op v hn hc hlast
    exact run_get?_of_last hn hc hlast
  · intro hc
    exact run_get?_of_spares hc

def longs : ArrayRef where
  id := 0
  type := .array 1 .long
  element := .long
  length := 6
  element_eq := rfl
  element_ne_void := by decide
  length_lt := by decide

/-- One of two registers of an array is tainted and a store into the array fails, and still a store
through the other register is the last one. A char is stored, and a long is shown. -/
theorem run_get?_eq_last_store_shared :
    let s : State := ⟨⟨[.array longs, .array longs, .int 0, .int 5, .unknown "I",
      .char 65535]⟩, .empty⟩
    let calls : List Call := [⟨.empty, ⟨0⟩, "aput v3, v0, v2"⟩, ⟨.empty, ⟨2⟩, "aput v4, v0, v2"⟩,
      ⟨.empty, ⟨4⟩, "aput v1, v1, v2"⟩, ⟨.empty, ⟨6⟩, "aput v5, v1, v2"⟩]
    let last : Call := ⟨.empty, ⟨6⟩, "aput v5, v1, v2"⟩
    let op : Aput := ⟨⟨6⟩, "aput", .plain, ⟨8⟩, ⟨5⟩, ⟨1⟩, ⟨2⟩⟩
    last.StoresInto (s.run (calls.take 3)) longs 0 op (.char 65535) ∧
      (∀ (m : ℕ) (c : Call), 3 < m → calls[m]? = some c →
        c.Spares (s.run (calls.take m)) longs 0) ∧
      (s.run calls).heap.get? longs 0 = some (.long 65535) := by
  intro s calls last op
  have ho : Aput.ofText last.address last.text = .ok op := by decide +kernel +revert
  have hframe : (s.run (calls.take 3)).frame = ⟨[.unknown "[J", .array longs, .int 0,
    .int 5, .unknown "I", .char 65535]⟩ := by decide +kernel +revert
  have hr : op.Reads (s.run (calls.take 3)).frame (.char 65535) (.array longs) (.int 0) := by
    rw [hframe]
    exact ⟨rfl, rfl, rfl⟩
  have hw : op.variant.Coerces (.char 65535) (.int 65535) := .plain rfl
  let c : Cell longs.element := .long 65535
  have hu : longs.element.Takes last.hierarchy (.int 65535) c.value := .longOfNumber rfl
  have hstores : last.StoresInto (s.run (calls.take 3)) longs 0 op (.char 65535) :=
    { reads := ho
      succeeds := ⟨_, _, (Execution.ofText_eq_ok_iff _).mpr
        ⟨op, ho, rfl, .write hr rfl hw rfl (by decide) hu⟩⟩
      array := Frame.read_eq_ok_iff.mpr hr.array
      index := ⟨.int 0, Frame.read_eq_ok_iff.mpr hr.index, rfl⟩
      value := Frame.read_eq_ok_iff.mpr hr.value
      known := rfl }
  have hlast : ∀ (m : ℕ) (c : Call), 3 < m → calls[m]? = some c →
      c.Spares (s.run (calls.take m)) longs 0 := by
    intro m c hm hc
    rw [List.getElem?_eq_none (show calls.length ≤ m from hm)] at hc
    cases hc
  refine ⟨hstores, hlast, ?_⟩
  obtain ⟨w', u', hw', hu', hslot⟩ :=
    (run_get?_eq_last_store s calls longs 0).1 3 last op (.char 65535) rfl hstores hlast
  obtain rfl := hw'.unique hw
  obtain rfl := hu'.unique hu
  exact hslot

end State

end DalvikStores
