import DalvikStores.Proofs.Run

/-!
# The types of the registers

A step keeps what a register holds, or takes the array out of the array register and leaves an
unknown value of the same type in its place. An unknown value has no array to lose. Whatever texts
are executed, a register therefore keeps its type, and loses what it holds at most once.
-/

namespace DalvikStores

/-- What a register that held the first value can hold after it. -/
inductive Value.FadesTo : Value → Value → Prop
  | refl (v : Value) : FadesTo v v
  | taint (ref : ArrayRef) : FadesTo (.array ref) (.ofUnknown ref.type)

theorem Value.FadesTo.descriptor_eq {v w : Value} (hw : v.FadesTo w) :
    w.descriptor = v.descriptor := by
  cases hw with
  | refl => rfl
  | taint => rfl

variable {s t : State} {k : ℕ} {v : Value}

theorem Aput.Step.fadesTo {op : Aput} {h : Hierarchy} (hs : op.Step h s t)
    (hv : s.frame.registers[k]? = some v) :
    ∃ w, t.frame.registers[k]? = some w ∧ v.FadesTo w := by
  by_cases hk : k = op.array.index
  · subst hk
    cases hs with
    | leave => exact ⟨v, hv, .refl v⟩
    | @taint _ _ ref hr =>
      cases hv.symm.trans hr.array
      exact ⟨_, List.getElem?_set_self (Frame.lt_size_of_getElem? hv), .taint ref⟩
    | write => exact ⟨v, hv, .refl v⟩
  · exact ⟨v, (hs.getElem?_of_ne hk).trans hv, .refl v⟩

theorem Aput.Step.map_descriptor_eq {op : Aput} {h : Hierarchy} (hs : op.Step h s t) :
    t.frame.registers.map Value.descriptor = s.frame.registers.map Value.descriptor := by
  apply List.ext_getElem
  · rw [List.length_map, List.length_map]
    exact hs.size_eq
  · intro k hk hk'
    rw [List.getElem_map, List.getElem_map]
    obtain ⟨w, hw, hvw⟩ := hs.fadesTo (List.getElem?_eq_getElem (List.length_map _ ▸ hk'))
    obtain ⟨_, rfl⟩ := List.getElem?_eq_some_iff.mp hw
    exact hvw.descriptor_eq

namespace State

theorem call_fadesTo (c : Call) (hv : s.frame.registers[k]? = some v) :
    ∃ w, (s.call c).frame.registers[k]? = some w ∧ v.FadesTo w := by
  rcases s.call_eq_self_or_step c with he | ⟨op, -, hs⟩
  · rw [he]
    exact ⟨v, hv, .refl v⟩
  · exact hs.fadesTo hv

theorem run_map_descriptor_eq (s : State) (calls : List Call) :
    (s.run calls).frame.registers.map Value.descriptor =
      s.frame.registers.map Value.descriptor := by
  apply run_preserves (P := fun t => t.frame.registers.map Value.descriptor =
    s.frame.registers.map Value.descriptor) calls
  · intro c _ op t t' hs ht
    rw [hs.map_descriptor_eq, ht]
  · rfl

/-- A register holds the same value all the time, or an array up to a certain call and an unknown
value from there on. -/
theorem run_take_getElem? (calls : List Call) (hv : s.frame.registers[k]? = some v) :
    (∀ n, (s.run (calls.take n)).frame.registers[k]? = some v) ∨
      ∃ ref m, v = .array ref ∧ ∀ n, (s.run (calls.take n)).frame.registers[k]? =
        some (if n < m then .array ref else .ofUnknown ref.type) := by
  induction calls generalizing s v with
  | nil =>
    left
    intro n
    rw [List.take_nil]
    exact hv
  | cons c calls ih =>
    obtain ⟨w, hw, hvw⟩ := s.call_fadesTo c hv
    -- a call later in the rest of the run is one later in the whole of it
    cases hvw with
    | refl =>
      rcases ih hw with hsame | ⟨ref, m, rfl, hfades⟩
      · left
        intro n
        cases n with
        | zero => exact hv
        | succ n => exact hsame n
      · right
        refine ⟨ref, m + 1, rfl, fun n => ?_⟩
        cases n with
        | zero => exact hv
        | succ n =>
          rw [run_take_succ, hfades n]
          simp only [Nat.add_lt_add_iff_right]
    | taint ref =>
      right
      refine ⟨ref, 1, rfl, fun n => ?_⟩
      cases n with
      | zero => exact hv
      | succ n =>
        rcases ih hw with hsame | ⟨_, _, hne, _⟩
        · exact hsame n
        · cases hne

/-- Over a run the registers keep their types, and each of them changes at most once, from an array
to an unknown value of the type of the array. -/
theorem run_registers_fade_once (s : State) (calls : List Call) :
    (s.run calls).frame.registers.map Value.descriptor =
        s.frame.registers.map Value.descriptor ∧
      ∀ (k : ℕ) (v : Value), s.frame.registers[k]? = some v →
        (∀ n, (s.run (calls.take n)).frame.registers[k]? = some v) ∨
          ∃ ref m, v = .array ref ∧ ∀ n, (s.run (calls.take n)).frame.registers[k]? =
            some (if n < m then .array ref else .ofUnknown ref.type) := by
  constructor
  · exact s.run_map_descriptor_eq calls
  · intro k v hv
    exact run_take_getElem? calls hv

theorem run_registers_fade_once_shared :
    let s : State := ⟨⟨[.array Aput.intRows, .array Aput.intRows, .null, .unknown "I"]⟩, .empty⟩
    let calls : List Call := [⟨.empty, ⟨0⟩, "aput-object v2, v0, v3"⟩, ⟨.empty, ⟨2⟩, "nop"⟩,
      ⟨.empty, ⟨2⟩, "aput-object v2, v1, v3"⟩]
    (s.run calls).frame.registers.map Value.descriptor =
        ["[[I", "[[I", "Ljava/lang/Object;", "I"] ∧
      s.frame.registers[1]? = some (.array Aput.intRows) ∧
      ∃ m, ∀ n, (s.run (calls.take n)).frame.registers[1]? =
        some (if n < m then .array Aput.intRows else .unknown "[[I") := by
  intro s calls
  have hlast : (s.run (calls.take 3)).frame.registers[1]? = some (.unknown "[[I") := by
    decide +kernel +revert
  have hv : s.frame.registers[1]? = some (.array Aput.intRows) := rfl
  obtain ⟨hd, hfade⟩ := run_registers_fade_once s calls
  refine ⟨hd, hv, ?_⟩
  rcases hfade 1 _ hv with hsame | ⟨ref, m, href, hm⟩
  · cases hlast.symm.trans (hsame 3)
  · cases href
    exact ⟨m, hm⟩

end State

end DalvikStores
