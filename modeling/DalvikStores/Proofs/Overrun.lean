import DalvikStores.CommandLine.Tool
import DalvikStores.Proofs.Assembly
import DalvikStores.Proofs.Effect
import DalvikStores.Proofs.InstructionSpelling

/-!
# Where the tool stops

An error with a cause is reported, and an overflow stops the tool. The types that texts give to
arrays count their dimensions, and so neither an allocation nor a comparison of types takes one
from an array that has none. A store has found its index inside of the array when it writes. What
is left is the address behind the instruction. It is asked for as soon as an instruction of the
family has three registers, before its variant is known, and is missing behind the last two
addresses only.
-/

namespace DalvikStores

/-- The fault has a cause that can be reported. -/
def Fault.Reported (e : Fault) : Prop := ∀ o, e ≠ .overflow o

def ToolError.Reported (e : ToolError) : Prop := ∀ o, e ≠ .fault (.overflow o)

theorem Fault.Reported.tool {e : Fault} (he : e.Reported) : (ToolError.fault e).Reported := by
  intro o ho
  exact he o (ToolError.fault.inj ho)

theorem ToolError.reported_badArguments (e : ArgumentError) : (badArguments e).Reported := by
  intro o ho
  cases ho

theorem ToolError.reported_reading (e : ReadError) : (reading e).Reported := by
  intro o ho
  cases ho

section Inversion

variable {α β ε σ : Type} {e : ε}

/-- A fold fails where one of its steps does. -/
theorem exists_of_foldlM_eq_error {f : σ → α → Except ε σ} {l : List α} {s : σ}
    (hl : l.foldlM f s = .error e) : ∃ a ∈ l, ∃ s, f s a = .error e := by
  induction l generalizing s with
  | nil => cases hl
  | cons a l ih =>
    rw [List.foldlM_cons] at hl
    obtain hs | ⟨t, -, ht⟩ := bind_eq_error_iff.mp hl
    · exact ⟨a, List.mem_cons_self, s, hs⟩
    · obtain ⟨b, hb, u, hu⟩ := ih ht
      exact ⟨b, List.mem_cons_of_mem a hb, u, hu⟩

theorem exists_of_mapM_eq_error {f : α → Except ε β} {l : List α} (hl : l.mapM f = .error e) :
    ∃ a ∈ l, f a = .error e := by
  induction l with
  | nil => cases hl
  | cons a l ih =>
    rw [List.mapM_cons] at hl
    obtain ha | ⟨b, -, hb⟩ := bind_eq_error_iff.mp hl
    · exact ⟨a, List.mem_cons_self, ha⟩
    · obtain hr | ⟨bs, -, hp⟩ := bind_eq_error_iff.mp hb
      · obtain ⟨c, hc, he⟩ := ih hr
        exact ⟨c, List.mem_cons_of_mem a hc, he⟩
      · cases hp

end Inversion

section Setup

variable {heap : Heap} {t : Descriptor} {texts entries : List String} {s : State}

theorem Heap.reported_of_allocate {e : Fault} {n : ℕ} (ht : t.Dimensioned)
    (he : heap.allocate t n = .error e) : e.Reported := by
  intro o ho
  subst ho
  unfold allocate at he
  split at he
  · cases he
  · rename_i hd
    cases t with
    | array n inner =>
      obtain ⟨u, hu⟩ := ht.exists_element
      cases hd.symm.trans hu
    | _ => cases hd
  · split_ifs at he <;> cases he

theorem Heap.reported_of_instantiate {e : Fault} (he : heap.instantiate t = .error e) :
    e.Reported := by
  intro o ho
  subst ho
  unfold instantiate at he
  split at he <;> cases he

theorem Literal.reported_of_resolve {l : Literal} {assigned : List (Register × Value)}
    {e : ToolError} (hl : l.Plain) (he : l.resolve assigned heap = .error e) : e.Reported := by
  unfold resolve at he
  split at he
  · cases he
  · rename_i t n
    cases ha : heap.allocate t n with
    | ok p => rw [ha] at he; cases he
    | error e' =>
      rw [ha] at he
      cases he
      exact (Heap.reported_of_allocate hl ha).tool
  · rename_i t
    cases ho : heap.instantiate t with
    | ok p => rw [ho] at he; cases he
    | error e' =>
      rw [ho] at he
      cases he
      exact (Heap.reported_of_instantiate ho).tool
  · rename_i r
    cases hr : assigned.lookup r with
    | some v => rw [hr] at he; cases he
    | none =>
      rw [hr] at he
      cases he
      exact ToolError.reported_badArguments _

theorem Assembly.reported_of_add {a : Assembly} {text : String} {e : ToolError}
    (he : a.add text = .error e) : e.Reported := by
  rw [add_eq] at he
  split at he
  · cases he
    exact ToolError.reported_reading _
  · rename_i r l hp
    split at he
    · rename_i e' hl
      cases he
      exact Literal.reported_of_resolve (Assignment.plain_of_parse hp) hl
    · split_ifs at he
      cases he
      exact ToolError.reported_badArguments _

theorem Assembly.reported_of_frame {a : Assembly} {e : ToolError} (he : a.frame = .error e) :
    e.Reported := by
  unfold frame at he
  obtain hv | ⟨values, -, hp⟩ := bind_eq_error_iff.mp he
  · obtain ⟨i, -, hi⟩ := exists_of_mapM_eq_error hv
    unfold registerValue at hi
    split at hi
    · cases hi
    · cases hi
      exact ToolError.reported_badArguments _
  · cases hp

theorem State.reported_of_build {e : ToolError} (he : build heap texts = .error e) :
    e.Reported := by
  unfold build at he
  obtain ha | ⟨a, -, hr⟩ := bind_eq_error_iff.mp he
  · obtain ⟨text, -, a, hadd⟩ := exists_of_foldlM_eq_error ha
    exact Assembly.reported_of_add hadd
  · obtain hf | ⟨f, -, hp⟩ := bind_eq_error_iff.mp hr
    · exact Assembly.reported_of_frame hf
    · cases hp

theorem Hierarchy.reported_of_entryLinks {entry : String} {e : ToolError}
    (he : entryLinks entry = .error e) : e.Reported := by
  unfold entryLinks at he
  split at he
  · split_ifs at he
    cases he
    exact ToolError.reported_badArguments _
  · cases he
    exact ToolError.reported_badArguments _

theorem Hierarchy.reported_of_register {h : Hierarchy} {entry : String} {e : ToolError}
    (he : h.register entry = .error e) : e.Reported := by
  rw [register, enter_eq] at he
  cases hl : entryLinks entry with
  | ok links => rw [hl] at he; cases he
  | error e' =>
    rw [hl] at he
    cases he
    exact reported_of_entryLinks hl

theorem Setup.reported_of_ofTexts {e : ToolError} (he : ofTexts entries texts = .error e) :
    e.Reported := by
  unfold ofTexts at he
  obtain hh | ⟨h, -, hr⟩ := bind_eq_error_iff.mp he
  · obtain ⟨entry, -, h, hregister⟩ := exists_of_foldlM_eq_error hh
    exact Hierarchy.reported_of_register hregister
  · obtain hs | ⟨s, -, hp⟩ := bind_eq_error_iff.mp hr
    · exact State.reported_of_build hs
    · cases hp

/-- The types of the arrays in a built frame come from texts. -/
theorem State.dimensioned_of_build (hb : build heap texts = .ok s) : s.frame.Dimensioned := by
  intro v hv
  cases v with
  | array ref =>
    obtain ⟨⟨text, -, r, hp⟩, -⟩ := array_of_build hb hv
    exact Assignment.plain_of_parse hp
  | _ => trivial

theorem Setup.dimensioned_of_ofTexts {setup : Setup} (hs : ofTexts entries texts = .ok setup) :
    setup.state.frame.Dimensioned := by
  unfold ofTexts at hs
  cases hh : entries.foldlM Hierarchy.register .empty with
  | error e => rw [hh] at hs; cases hs
  | ok h =>
    rw [hh] at hs
    cases hb : State.build .empty texts with
    | error e => simp only [bind, Except.bind, hb] at hs; cases hs
    | ok s =>
      simp only [bind, Except.bind, hb, pure, Except.pure] at hs
      cases hs
      exact State.dimensioned_of_build hb

end Setup

section Execution

variable {address : Address} {text : String} {i : Instruction} {h : Hierarchy} {s t : State}
  {o : Overflow}

theorem Aput.Refuses.reported {op : Aput} {f : Frame} {e : Fault} (he : op.Refuses h f e) :
    e.Reported := by
  intro o ho
  subst ho
  cases he

theorem Address.advance_eq_none_iff {a : Address} {n : ℕ} :
    a.advance n = none ↔ UInt64.size ≤ a.offset.toNat + n := by
  unfold advance
  split_ifs with hn
  · simp only [false_iff, not_le]
    exact hn
  · simp only [true_iff]
    exact Nat.le_of_not_lt hn

/-- Three registers take two code units. -/
theorem Instruction.next_eq_none_iff (hi : parse address text = .ok i)
    (hr : i.registers.length = 3) : i.next = none ↔ 2 ^ 64 - 3 < address.offset.toNat := by
  obtain ⟨-, hu, rfl⟩ := parse_eq_ok_iff.mp hi
  rw [hr] at hu
  have hsize : i.size = 2 := (Except.ok.inj hu).symm
  rw [next, Address.advance_eq_none_iff, hsize]
  have hb : UInt64.size = 2 ^ 64 := rfl
  omega

namespace Aput

theorem inFamily_iff {m : String} : inFamily m = true ↔ m = "aput" ∨ "aput-".toList <+: m.toList := by
  rw [inFamily, Bool.or_eq_true, beq_iff_eq, List.isPrefixOf_iff_prefix]

/-- The variant is not looked at before the address is known. -/
theorem ofInstruction_eq_overflow_iff :
    ofInstruction i = .error (.overflow o) ↔
      o = .address ∧ i.registers.length = 3 ∧ i.next = none := by
  unfold ofInstruction
  split
  · rename_i value array index hr
    have hlength : i.registers.length = 3 := by rw [hr]; rfl
    cases hn : i.next with
    | none =>
      simp only [hlength, Except.error.injEq, Fault.overflow.injEq, and_self, and_true]
      exact eq_comm
    | some successor =>
      simp only [reduceCtorEq, and_false, iff_false]
      intro he
      cases hv : new i.address i.mnemonic successor value array index with
      | error e => rw [hv] at he; cases he
      | ok op => rw [hv] at he; cases he
  · rename_i hr
    simp only [Except.error.injEq, reduceCtorEq, false_iff]
    rintro ⟨-, hlength, -⟩
    obtain ⟨value, array, index, he⟩ := List.length_eq_three.mp hlength
    exact hr value array index he

theorem ofText_eq_overflow_iff :
    ofText address text = .error (.overflow o) ↔
      o = .address ∧ (∃ i, Instruction.parse address text = .ok i ∧ i.registers.length = 3 ∧
        (i.mnemonic = "aput" ∨ "aput-".toList <+: i.mnemonic.toList)) ∧
      2 ^ 64 - 3 < address.offset.toNat := by
  cases hi : Instruction.parse address text with
  | error e =>
    simp only [ofText, hi, reduceCtorEq, false_and, exists_false, and_false, iff_false]
    intro he
    cases he
  | ok i =>
    rw [ofText_of_parse hi, create]
    simp only [Except.ok.injEq, exists_eq_left', ← inFamily_iff]
    split_ifs with hf
    · rw [ofInstruction_eq_overflow_iff]
      constructor
      · rintro ⟨ho, hr, hn⟩
        exact ⟨ho, ⟨hr, hf⟩, (Instruction.next_eq_none_iff hi hr).mp hn⟩
      · rintro ⟨ho, ⟨hr, -⟩, ha⟩
        exact ⟨ho, hr, (Instruction.next_eq_none_iff hi hr).mpr ha⟩
    · simp only [hf, Except.error.injEq, reduceCtorEq, and_false, false_and]

end Aput

/-- The operation itself does not overflow, so that only its making can. -/
theorem Execution.ofText_eq_overflow_iff (hd : s.frame.Dimensioned) :
    ofText h address text s = .error (.overflow o) t ↔
      t = s ∧ Aput.ofText address text = .error (.overflow o) := by
  rw [ofText_eq]
  cases Aput.ofText address text with
  | error e =>
    simp only [EStateM.Result.error.injEq, Except.error.injEq]
    constructor
    · rintro ⟨rfl, rfl⟩
      exact ⟨rfl, rfl⟩
    · rintro ⟨rfl, rfl⟩
      exact ⟨rfl, rfl⟩
  | ok op =>
    simp only [reduceCtorEq, and_false, iff_false]
    intro he
    have hr : op.Refuses h s.frame (.overflow o) := ((Aput.execute_eq_error_iff hd).mp he).2
    exact hr.reported o rfl

theorem Setup.report_eq_overflow_iff {setup : Setup} (hd : setup.state.frame.Dimensioned) :
    setup.report address text = .error (.overflow o) ↔
      Aput.ofText address text = .error (.overflow o) := by
  unfold report
  constructor
  · intro he
    split at he
    · cases he
    · rename_i hr
      cases he
      exact ((Execution.ofText_eq_overflow_iff hd).mp hr).2
  · intro ho
    rw [(Execution.ofText_eq_overflow_iff hd).mpr ⟨rfl, ho⟩]

end Execution

/-- The classes and registers are accepted, the instruction is one of the family as far as its
mnemonic begins like one, and with three registers it leaves no address behind it. -/
structure CommandLine.Request.Overruns (r : Request) : Prop where
  setup : ∃ setup, Setup.ofTexts r.entries r.registers = .ok setup
  instruction : ∃ i, Instruction.parse r.address r.instruction = .ok i ∧ i.registers.length = 3 ∧
    (i.mnemonic = "aput" ∨ "aput-".toList <+: i.mnemonic.toList)
  address : 2 ^ 64 - 3 < r.address.offset.toNat

theorem Outcome.ofResult_eq_aborted_iff {result : Except ToolError String} :
    ofResult result = .aborted ↔ ∃ o, result = .error (.fault (.overflow o)) := by
  constructor
  · intro hr
    unfold ofResult at hr
    split at hr
    · cases congrArg Outcome.exit hr
    · exact ⟨_, rfl⟩
    · cases congrArg Outcome.exit hr
  · rintro ⟨o, rfl⟩
    rfl

namespace Tool

open CommandLine

variable {r : Request} {setup : Setup} {o : Overflow}

theorem execute_of_setup (hs : Setup.ofTexts r.entries r.registers = .ok setup) :
    execute r = (setup.report r.address r.instruction).mapError .fault := by
  simp only [execute, hs]
  rfl

theorem execute_of_setup_eq_error {e : ToolError}
    (hs : Setup.ofTexts r.entries r.registers = .error e) : execute r = .error e := by
  simp only [execute, hs]
  rfl

theorem execute_eq_overflow_iff :
    execute r = .error (.fault (.overflow o)) ↔ o = .address ∧ r.Overruns := by
  cases hs : Setup.ofTexts r.entries r.registers with
  | error e =>
    rw [execute_of_setup_eq_error hs]
    constructor
    · intro he
      exact absurd (Except.error.inj he) (Setup.reported_of_ofTexts hs o)
    · rintro ⟨-, hr⟩
      obtain ⟨setup, hs'⟩ := hr.setup
      cases hs.symm.trans hs'
  | ok setup =>
    have hd : setup.state.frame.Dimensioned := Setup.dimensioned_of_ofTexts hs
    have hm : execute r = .error (.fault (.overflow o)) ↔
        setup.report r.address r.instruction = .error (.overflow o) := by
      rw [execute_of_setup hs]
      cases setup.report r.address r.instruction <;> simp [Except.mapError]
    rw [hm, Setup.report_eq_overflow_iff hd, Aput.ofText_eq_overflow_iff]
    constructor
    · rintro ⟨ho, hi, ha⟩
      exact ⟨ho, ⟨setup, hs⟩, hi, ha⟩
    · rintro ⟨ho, hr⟩
      exact ⟨ho, hr.instruction, hr.address⟩

/-- The tool aborts on these requests alone. -/
theorem ofResult_execute_eq_aborted_iff (r : Request) :
    Outcome.ofResult (execute r) = .aborted ↔ r.Overruns := by
  rw [Outcome.ofResult_eq_aborted_iff]
  simp only [execute_eq_overflow_iff, exists_eq_left]

/-- A request stops the tool only behind the last address. Every other request ends in a report,
or in an error with a cause. -/
theorem execute_stops_iff (r : Request) :
    (∀ o, execute r = .error (.fault (.overflow o)) ↔ o = .address ∧ r.Overruns) ∧
      (r.Overruns ∨ (∃ report, execute r = .ok report) ∨
        ∃ e, execute r = .error e ∧ e.Reported) := by
  refine ⟨fun o => execute_eq_overflow_iff, ?_⟩
  cases he : execute r with
  | ok report => exact .inr (.inl ⟨report, rfl⟩)
  | error e =>
    by_cases ho : ∃ o, e = .fault (.overflow o)
    · obtain ⟨o, rfl⟩ := ho
      exact .inl (execute_eq_overflow_iff.mp he).2
    · exact .inr (.inr ⟨e, rfl, not_exists.mp ho⟩)

/-- That floats have no variant is found only where there is an address behind the instruction. -/
example : execute ⟨"aput-float v0, v1, v2", ⟨2 ^ 64 - 3⟩, [], []⟩ =
    .error (.fault (.violation (.notArrayStore "aput-float"))) := by cbv

example : execute ⟨"aput-float v0, v1, v2", ⟨2 ^ 64 - 2⟩, [], []⟩ =
    .error (.fault (.overflow .address)) := by cbv

end Tool

end DalvikStores
