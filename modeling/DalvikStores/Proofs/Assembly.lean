import DalvikStores.Assignment.Build
import DalvikStores.Proofs.AssignmentSpelling
import DalvikStores.Proofs.Slot
import Mathlib.Data.Int.Notation
import Mathlib.Data.List.Forall2
import Mathlib.Tactic.Common

/-!
# What a build assembles

Each text adds one register with its value. A literal for an array or an object takes the next
identifier of the heap, so that no earlier text can have led to the same one, and the slots of a
new array are zeros. A register as a literal repeats a value, and no other literal leads into the
heap. Every array of a built frame therefore comes from exactly one of the texts, has the type and
the length written there, and still holds zeros.
-/

namespace DalvikStores

/-- The identifier, the type and the length of an array make up its reference. -/
theorem ArrayRef.eq_of {r r' : ArrayRef} (hi : r.id = r'.id) (ht : r.type = r'.type)
    (hl : r.length = r'.length) : r = r' := by
  cases r with
  | mk id type element length he =>
    cases r' with
    | mk id' type' element' length' he' =>
      dsimp only at hi ht hl
      subst hi ht hl
      cases he.symm.trans he'
      rfl

namespace Heap

variable {heap heap' : Heap} {t : Descriptor}

/-- The heap with a new array, whose slots are zeros. -/
def enter (heap : Heap) (ref : ArrayRef) : Heap where
  cell r j := if r = ref then .zero r.element r.element_ne_void else heap.cell r j
  next := heap.next + 1

theorem hasZero_enter (heap : Heap) (ref : ArrayRef) (j : ℕ) :
    ref.element.HasZero ((heap.enter ref).slot ref j) := by
  have hcell : (heap.enter ref).cell ref j = .zero ref.element ref.element_ne_void := if_pos rfl
  rw [slot, hcell]
  exact Descriptor.hasZero_zero ref.element_ne_void

theorem enter_slot_of_ne {r ref : ArrayRef} (hne : r ≠ ref) (heap : Heap) (j : ℕ) :
    (heap.enter ref).slot r j = heap.slot r j := congrArg Cell.value (if_neg hne)

theorem allocate_eq_ok_iff {n : ℕ} {ref : ArrayRef} :
    heap.allocate t n = .ok (ref, heap') ↔
      ref.id = heap.next ∧ ref.type = t ∧ ref.length = n ∧ heap' = heap.enter ref := by
  constructor
  · intro ha
    unfold allocate at ha
    split at ha
    · cases ha
    · cases ha
    · split_ifs at ha
      cases ha
      exact ⟨rfl, rfl, rfl, rfl⟩
  · rintro ⟨hi, rfl, rfl, rfl⟩
    unfold allocate
    split
    · rename_i he
      cases he.symm.trans ref.element_eq
    · rename_i he
      cases he.symm.trans ref.element_eq
    · rename_i element he
      cases he.symm.trans ref.element_eq
      rw [dif_pos ref.length_lt, dif_neg ref.element_ne_void, Except.ok.injEq, Prod.mk.injEq]
      have hr : (⟨heap.next, ref.type, ref.element, ref.length, he, ref.element_ne_void,
          ref.length_lt⟩ : ArrayRef) = ref := ArrayRef.eq_of hi.symm rfl rfl
      exact ⟨hr, by rw [hr]; rfl⟩

theorem instantiate_eq_ok_iff {o : ObjectRef} :
    heap.instantiate t = .ok (o, heap') ↔
      o.id = heap.next ∧ o.type = t ∧ heap' = { heap with next := heap.next + 1 } := by
  constructor
  · intro ho
    unfold instantiate at ho
    split at ho
    · cases ho
      exact ⟨rfl, rfl, rfl⟩
    · cases ho
  · rintro ⟨hi, rfl, rfl⟩
    cases o with
    | mk id name =>
      dsimp only at hi
      subst hi
      rfl

end Heap

namespace Literal

variable {cs : List Char} {l : Literal} {v : Value}

/-- A literal that is a value is one that leads to nothing on the heap, and the type of an array
counts no zero dimensions. -/
def Plain : Literal → Prop
  | value (.array _) => False
  | value (.object _) => False
  | array t _ => t.Dimensioned
  | _ => True

/-- Whatever is spelled is plain. -/
theorem Spells.plain (hs : Spells cs l) : l.Plain := by
  cases hs with
  | array ht => exact Descriptor.dimensioned_of_ofText ht
  | _ => trivial

variable {assigned : List (Register × Value)} {heap heap' : Heap}

/-- What a literal stands for behind the registers assigned so far, and the heap it leaves. -/
inductive Resolves (assigned : List (Register × Value)) (heap : Heap) :
    Literal → Value → Heap → Prop
  | value (v : Value) : Resolves assigned heap (.value v) v heap
  | array {ref : ArrayRef} (hi : ref.id = heap.next) :
      Resolves assigned heap (.array ref.type ref.length) (.array ref) (heap.enter ref)
  | object {o : ObjectRef} (hi : o.id = heap.next) :
      Resolves assigned heap (.object o.type) (.object o) { heap with next := heap.next + 1 }
  | register {r : Register} {v : Value} (hr : assigned.lookup r = some v) :
      Resolves assigned heap (.register r) v heap

theorem resolve_eq_ok_iff :
    l.resolve assigned heap = .ok (v, heap') ↔ l.Resolves assigned heap v heap' := by
  constructor
  · intro hl
    unfold resolve at hl
    split at hl
    · cases hl
      exact .value v
    · rename_i t n
      cases ha : heap.allocate t n with
      | error e => rw [ha] at hl; cases hl
      | ok p =>
        obtain ⟨ref, heap₁⟩ := p
        rw [ha] at hl
        cases hl
        obtain ⟨hi, rfl, rfl, rfl⟩ := Heap.allocate_eq_ok_iff.mp ha
        exact .array hi
    · rename_i t
      cases ho : heap.instantiate t with
      | error e => rw [ho] at hl; cases hl
      | ok p =>
        obtain ⟨o, heap₁⟩ := p
        rw [ho] at hl
        cases hl
        obtain ⟨hi, rfl, rfl⟩ := Heap.instantiate_eq_ok_iff.mp ho
        exact .object hi
    · rename_i r
      cases hr : assigned.lookup r with
      | none => rw [hr] at hl; cases hl
      | some u =>
        rw [hr] at hl
        cases hl
        exact .register hr
  · intro hl
    cases hl with
    | value => rfl
    | array hi => simp only [resolve, Heap.allocate_eq_ok_iff.mpr ⟨hi, rfl, rfl, rfl⟩]
    | object hi => simp only [resolve, Heap.instantiate_eq_ok_iff.mpr ⟨hi, rfl, rfl⟩]
    | register hr => simp only [resolve, hr]

end Literal

theorem Assignment.plain_of_parse {text : String} {r : Register} {l : Literal}
    (hp : parse text = .ok (r, l)) : l.Plain := by
  obtain ⟨cs, hs⟩ := exists_spells_of_parse hp
  exact hs.plain

namespace Assembly

variable {a b : Assembly} {text : String} {texts : List String} {v : Value} {ref : ArrayRef}

/-- A register that is assigned has the value. -/
def Holds (a : Assembly) (v : Value) : Prop := ∃ r, (r, v) ∈ a.assigned

theorem not_holds_start {heap : Heap} : ¬ (start heap).Holds v := by
  rintro ⟨r, hr⟩
  cases hr

theorem holds_of_lookup {r : Register} (hr : a.assigned.lookup r = some v) : a.Holds v := by
  obtain ⟨l₁, l₂, he, -⟩ := List.lookup_eq_some_iff.mp hr
  exact ⟨r, he ▸ List.mem_append_right l₁ List.mem_cons_self⟩

theorem holds_append_iff {r : Register} {u : Value} {heap : Heap} :
    (Assembly.mk (a.assigned ++ [(r, u)]) heap).Holds v ↔ a.Holds v ∨ v = u := by
  simp only [Holds, List.mem_append, List.mem_singleton, Prod.mk.injEq, exists_or,
    exists_eq_left]

theorem add_eq (a : Assembly) (text : String) :
    a.add text = match Assignment.parse text with
      | .error e => .error (.reading e)
      | .ok (r, l) => match l.resolve a.assigned a.heap with
        | .error e => .error e
        | .ok (v, heap) =>
          if (a.assigned.lookup r).isSome then .error (.badArguments (.assignedTwice r))
          else .ok ⟨a.assigned ++ [(r, v)], heap⟩ := by
  unfold add resolve
  cases Assignment.parse text with
  | error e => rfl
  | ok p =>
    simp only [Except.mapError, bind, Except.bind]
    cases p.2.resolve a.assigned a.heap <;> rfl

theorem add_eq_ok_iff :
    a.add text = .ok b ↔ ∃ r l v heap, Assignment.parse text = .ok (r, l) ∧
      l.Resolves a.assigned a.heap v heap ∧ a.assigned.lookup r = none ∧
      b = ⟨a.assigned ++ [(r, v)], heap⟩ := by
  rw [add_eq]
  constructor
  · intro hb
    split at hb
    · cases hb
    · rename_i r l hp
      split at hb
      · cases hb
      · rename_i v heap hl
        split_ifs at hb with hr
        cases hb
        rw [Option.not_isSome_iff_eq_none] at hr
        exact ⟨r, l, v, heap, hp, Literal.resolve_eq_ok_iff.mp hl, hr, rfl⟩
  · rintro ⟨r, l, v, heap, hp, hl, hr, rfl⟩
    have hl := Literal.resolve_eq_ok_iff.mpr hl
    simp only [hp, hl, hr, Option.isSome_none, Bool.false_eq_true, if_false]

theorem addAll_preserves {P : Assembly → Prop}
    (hadd : ∀ text ∈ texts, ∀ a b : Assembly, a.add text = .ok b → P a → P b)
    (ha : P a) (hb : a.addAll texts = .ok b) : P b := by
  induction texts generalizing a with
  | nil =>
    cases hb
    exact ha
  | cons text texts ih =>
    unfold addAll at hb
    rw [List.foldlM_cons] at hb
    cases hc : a.add text with
    | error e => rw [hc] at hb; cases hb
    | ok c =>
      rw [hc] at hb
      have hpc : P c := hadd text List.mem_cons_self a c hc ha
      apply ih _ hpc hb
      intro text' ht'
      exact hadd text' (List.mem_cons_of_mem text ht')

/-- Each array of an assembly was new when one of the texts gave it a register, and has not been
written to. -/
structure Fresh (texts : List String) (a : Assembly) : Prop where
  id_lt {ref : ArrayRef} (hr : a.Holds (.array ref)) : ref.id < a.heap.next
  hasZero {ref : ArrayRef} (hr : a.Holds (.array ref)) (j : ℕ) :
    ref.element.HasZero (a.heap.slot ref j)
  exists_text {ref : ArrayRef} (hr : a.Holds (.array ref)) :
    ∃ text ∈ texts, ∃ r, Assignment.parse text = .ok (r, .array ref.type ref.length)
  eq_of_id_eq {ref ref' : ArrayRef} (hr : a.Holds (.array ref)) (hr' : a.Holds (.array ref'))
    (hi : ref.id = ref'.id) : ref = ref'

theorem fresh_start (texts : List String) (heap : Heap) : (start heap).Fresh texts where
  id_lt hr := absurd hr not_holds_start
  hasZero hr := absurd hr not_holds_start
  exists_text hr := absurd hr not_holds_start
  eq_of_id_eq hr := absurd hr not_holds_start

/-- What leads to no new array leaves an assembly fresh, even where it uses up identifiers. -/
theorem Fresh.mono (hf : a.Fresh texts) (hslot : b.heap.slot = a.heap.slot)
    (hnext : a.heap.next ≤ b.heap.next)
    (hold : ∀ ref, b.Holds (.array ref) → a.Holds (.array ref)) : b.Fresh texts where
  id_lt hr := Nat.lt_of_lt_of_le (hf.id_lt (hold _ hr)) hnext
  hasZero hr j := by
    rw [hslot]
    exact hf.hasZero (hold _ hr) j
  exists_text hr := hf.exists_text (hold _ hr)
  eq_of_id_eq hr hr' hi := hf.eq_of_id_eq (hold _ hr) (hold _ hr') hi

theorem Fresh.enter {r : Register} (hf : a.Fresh texts) (ht : text ∈ texts)
    (hp : Assignment.parse text = .ok (r, .array ref.type ref.length))
    (hi : ref.id = a.heap.next) :
    Fresh texts ⟨a.assigned ++ [(r, .array ref)], a.heap.enter ref⟩ := by
  have hold : ∀ ref', Holds ⟨a.assigned ++ [(r, .array ref)], a.heap.enter ref⟩ (.array ref') →
      a.Holds (.array ref') ∨ ref' = ref := by
    intro ref' hr'
    rw [holds_append_iff, Value.array.injEq] at hr'
    exact hr'
  have hne : ∀ ref', a.Holds (.array ref') → ref'.id ≠ ref.id := by
    intro ref' hr'
    have hlt := hf.id_lt hr'
    omega
  constructor
  · intro ref' hr'
    change ref'.id < a.heap.next + 1
    rcases hold ref' hr' with hr' | rfl
    · have hlt := hf.id_lt hr'
      omega
    · omega
  · intro ref' hr' j
    dsimp only
    rcases hold ref' hr' with hr' | rfl
    · rw [Heap.enter_slot_of_ne (fun he => hne ref' hr' (congrArg ArrayRef.id he))]
      exact hf.hasZero hr' j
    · exact Heap.hasZero_enter a.heap ref' j
  · intro ref' hr'
    rcases hold ref' hr' with hr' | rfl
    · exact hf.exists_text hr'
    · exact ⟨text, ht, r, hp⟩
  · intro r₁ r₂ hr₁ hr₂ he
    rcases hold r₁ hr₁ with hold₁ | he₁ <;> rcases hold r₂ hr₂ with hold₂ | he₂
    · exact hf.eq_of_id_eq hold₁ hold₂ he
    · exact absurd (he₂ ▸ he) (hne r₁ hold₁)
    · exact absurd (he₁ ▸ he).symm (hne r₂ hold₂)
    · exact he₁.trans he₂.symm

theorem Fresh.add (ht : text ∈ texts) (hb : a.add text = .ok b) (hf : a.Fresh texts) :
    b.Fresh texts := by
  obtain ⟨r, l, v, heap, hp, hl, -, rfl⟩ := add_eq_ok_iff.mp hb
  cases hl with
  | value v =>
    have hplain := Assignment.plain_of_parse hp
    refine hf.mono rfl (Nat.le_refl _) ?_
    intro ref hr
    rcases holds_append_iff.mp hr with hr | rfl
    · exact hr
    · exact absurd hplain id
  | array hi => exact hf.enter ht hp hi
  | object hi =>
    refine hf.mono rfl (Nat.le_succ _) ?_
    intro ref hr
    rcases holds_append_iff.mp hr with hr | hr
    · exact hr
    · cases hr
  | register hr =>
    refine hf.mono rfl (Nat.le_refl _) ?_
    intro ref href
    rcases holds_append_iff.mp href with href | rfl
    · exact href
    · exact holds_of_lookup hr

theorem Fresh.addAll {heap : Heap} (hb : (start heap).addAll texts = .ok b) : b.Fresh texts :=
  addAll_preserves (fun _ ht _ _ hadd hf => hf.add ht hadd) (fresh_start texts heap) hb

theorem holds_of_registerValue {i : ℕ} (hv : a.registerValue i = .ok v) : a.Holds v := by
  unfold registerValue at hv
  split at hv
  · rename_i r u hf
    cases hv
    exact ⟨r, List.mem_of_find?_eq_some hf⟩
  · cases hv

theorem mapM_registerValue_eq_ok_iff {indices : List ℕ} {values : List Value} :
    indices.mapM a.registerValue = .ok values ↔
      List.Forall₂ (fun i v => a.registerValue i = .ok v) indices values := by
  induction indices generalizing values with
  | nil =>
    rw [List.mapM_nil, List.forall₂_nil_left_iff]
    exact ⟨fun he => by cases he; rfl, fun he => by rw [he]; rfl⟩
  | cons i indices ih =>
    rw [List.mapM_cons, List.forall₂_cons_left_iff]
    cases hv : a.registerValue i with
    | error e => simp [bind, Except.bind]
    | ok v =>
      cases hs : indices.mapM a.registerValue with
      | error e => simp [bind, Except.bind, ← ih, hs]
      | ok vs =>
        simp only [bind, Except.bind, pure, Except.pure, Except.ok.injEq, ← ih, hs]
        constructor
        · rintro rfl
          exact ⟨v, vs, rfl, rfl, rfl⟩
        · rintro ⟨_, _, rfl, rfl, rfl⟩
          rfl

theorem frame_eq_ok_iff {f : Frame} :
    a.frame = .ok f ↔ List.Forall₂ (fun i v => a.registerValue i = .ok v)
      (List.range a.assigned.length) f.registers := by
  rw [← mapM_registerValue_eq_ok_iff]
  unfold frame
  cases (List.range a.assigned.length).mapM a.registerValue with
  | error e => simp [bind, Except.bind]
  | ok values => cases f; simp [bind, Except.bind, pure, Except.pure]

theorem holds_of_mem_frame {f : Frame} (hf : a.frame = .ok f) (hv : v ∈ f.registers) :
    a.Holds v := by
  have hvalues := frame_eq_ok_iff.mp hf
  obtain ⟨i, hi, rfl⟩ := List.getElem_of_mem hv
  exact holds_of_registerValue (hvalues.get (hvalues.length_eq ▸ hi) hi)

end Assembly

namespace State

variable {heap : Heap} {texts : List String} {s : State} {ref ref' : ArrayRef}

theorem build_eq_ok_iff :
    build heap texts = .ok s ↔ ∃ a : Assembly, (Assembly.start heap).addAll texts = .ok a ∧
      a.frame = .ok s.frame ∧ s.heap = a.heap := by
  unfold build
  cases (Assembly.start heap).addAll texts with
  | error e => simp [bind, Except.bind]
  | ok a =>
    cases hf : a.frame with
    | error e => simp [bind, Except.bind, hf]
    | ok f => cases s; simp [bind, Except.bind, pure, Except.pure, hf, eq_comm]

/-- An array of a built frame is the array of one of the texts, and all its slots are zeros. -/
theorem array_of_build (hb : build heap texts = .ok s)
    (hr : Value.array ref ∈ s.frame.registers) :
    (∃ text ∈ texts, ∃ r, Assignment.parse text = .ok (r, .array ref.type ref.length)) ∧
      ∀ j, ref.element.HasZero (s.heap.slot ref j) := by
  obtain ⟨a, ha, hf, he⟩ := build_eq_ok_iff.mp hb
  have hfresh := Assembly.Fresh.addAll ha
  have href := Assembly.holds_of_mem_frame hf hr
  refine ⟨hfresh.exists_text href, fun j => ?_⟩
  rw [he]
  exact hfresh.hasZero href j

/-- Two arrays of a built frame are told apart by their identifiers. -/
theorem array_eq_of_build (hb : build heap texts = .ok s)
    (hr : Value.array ref ∈ s.frame.registers) (hr' : Value.array ref' ∈ s.frame.registers)
    (hi : ref.id = ref'.id) : ref = ref' := by
  obtain ⟨a, ha, hf, -⟩ := build_eq_ok_iff.mp hb
  apply (Assembly.Fresh.addAll ha).eq_of_id_eq
  · exact Assembly.holds_of_mem_frame hf hr
  · exact Assembly.holds_of_mem_frame hf hr'
  · exact hi

end State

end DalvikStores
