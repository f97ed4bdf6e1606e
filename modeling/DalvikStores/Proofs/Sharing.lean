import DalvikStores.Proofs.Assembly
import DalvikStores.Proofs.Transfer
import Mathlib.Data.List.Induction
import Mathlib.Data.List.Nodup
import Mathlib.Data.List.Perm.Subperm

/-!
# Which registers share

The texts of a build are entries, each a register and its literal. They are taken in their order,
and an entry can be taken when its literal can follow those before it and its register is new.

An array or an object that is shared was new once, for the literal of a single register: a
register that names another one leads to that literal in one step or in several. Two registers
hold the same array exactly when they lead to the same literal, because no identifier is handed
out twice.
-/

namespace DalvikStores

section Entries

variable {assigned : List (Register × Value)} {r : Register} {v : Value}

theorem lookup_eq_none_iff : assigned.lookup r = none ↔ r ∉ assigned.map Prod.fst := by
  simp only [List.lookup_eq_none_iff, List.mem_map, bne_iff_ne, ne_eq, not_exists, not_and,
    @eq_comm _ r]

theorem exists_lookup (hr : r ∈ assigned.map Prod.fst) : ∃ v, assigned.lookup r = some v := by
  rw [← Option.isSome_iff_exists, ← Option.ne_none_iff_isSome, ne_eq, lookup_eq_none_iff]
  exact not_not_intro hr

theorem mem_of_lookup (hr : assigned.lookup r = some v) : (r, v) ∈ assigned := by
  obtain ⟨l₁, l₂, rfl, -⟩ := List.lookup_eq_some_iff.mp hr
  exact List.mem_append_right l₁ List.mem_cons_self

theorem forall₂_concat_iff {α β : Type} {R : α → β → Prop} {as : List α} {x : α} {bs : List β} :
    List.Forall₂ R (as ++ [x]) bs ↔
      ∃ bs' y, List.Forall₂ R as bs' ∧ R x y ∧ bs = bs' ++ [y] := by
  rw [← List.forall₂_reverse_iff, List.reverse_append, List.reverse_singleton,
    List.singleton_append, List.forall₂_cons_left_iff]
  constructor
  · rintro ⟨y, u, hy, hu, he⟩
    refine ⟨u.reverse, y, ?_, hy, ?_⟩
    · rwa [← List.forall₂_reverse_iff, List.reverse_reverse]
    · rw [← List.reverse_cons, ← he, List.reverse_reverse]
  · rintro ⟨bs', y, hbs, hy, rfl⟩
    refine ⟨y, bs'.reverse, hy, List.forall₂_reverse_iff.mpr hbs, ?_⟩
    rw [List.reverse_append, List.reverse_singleton, List.singleton_append]

end Entries

/-- The identifier of the array or the object that a value leads to. -/
inductive Value.HasId : Value → ℕ → Prop
  | array (ref : ArrayRef) : HasId (.array ref) ref.id
  | object (o : ObjectRef) : HasId (.object o) o.id

/-- A type read from a text has elements as soon as it has brackets. -/
theorem Descriptor.exists_element_of_ofText {ds : List Char} {d : ℕ} {inner : Descriptor}
    (ht : ofText ds = .ok (array d inner)) :
    ∃ e, (array d inner).element = .ok e ∧ e ≠ .void := by
  rw [ofText_eq_ok_iff] at ht
  cases ht with
  | leaf hl => cases hl
  | array hz _ hl =>
    match d with
    | 0 => exact absurd rfl hz
    | 1 =>
      refine ⟨inner, rfl, ?_⟩
      rintro rfl
      cases hl
    | d + 2 => exact ⟨.array (d + 1) inner, rfl, nofun⟩

namespace Literal

variable {l : Literal} {v : Value} {cs : List Char} {ps : List (Register × Literal)} {i : ℕ}
  {assigned : List (Register × Value)} {holds holds' : Register → Value → Prop}
  {before heap heap' : Heap}

inductive IsNew : Literal → Prop
  | array (t : Descriptor) (length : ℕ) : IsNew (.array t length)
  | object (t : Descriptor) : IsNew (.object t)

/-- A literal can follow other entries when it names one of their registers, or else when what it
stands for can be made. -/
inductive CanFollow (ps : List (Register × Literal)) : Literal → Prop
  | value (v : Value) : CanFollow ps (.value v)
  | array {d : ℕ} {inner : Descriptor} {length : ℕ} (hl : length ≤ 2147483647) :
      CanFollow ps (.array (.array d inner) length)
  | object (name : String) : CanFollow ps (.object (.ofClass name))
  | register {r : Register} {l : Literal} (hr : (r, l) ∈ ps) : CanFollow ps (.register r)

/-- What a literal stands for. New is what has an identifier that one heap had not yet handed out
and the other one has; a new array has no slot that has been written to. -/
inductive Denotes (holds : Register → Value → Prop) (before after : Heap) :
    Literal → Value → Prop
  | value (v : Value) : Denotes holds before after (.value v) v
  | array {ref : ArrayRef} (hle : before.next ≤ ref.id) (hlt : ref.id < after.next)
      (hz : ∀ j, ref.element.HasZero (after.slot ref j)) :
      Denotes holds before after (.array ref.type ref.length) (.array ref)
  | object {o : ObjectRef} (hle : before.next ≤ o.id) (hlt : o.id < after.next) :
      Denotes holds before after (.object o.type) (.object o)
  | register {r : Register} {v : Value} (hr : holds r v) :
      Denotes holds before after (.register r) v

theorem Denotes.mono (hd : l.Denotes holds before heap v) (hholds : ∀ r v, holds r v → holds' r v)
    (hnext : heap.next ≤ heap'.next)
    (hslot : ∀ ref : ArrayRef, ref.id < heap.next → heap'.slot ref = heap.slot ref) :
    l.Denotes holds' before heap' v := by
  cases hd with
  | value => exact .value v
  | @array ref hle hlt hz =>
    refine .array hle (Nat.lt_of_lt_of_le hlt hnext) fun j => ?_
    rw [hslot ref hlt]
    exact hz j
  | object hle hlt => exact .object hle (Nat.lt_of_lt_of_le hlt hnext)
  | register hr => exact .register (hholds _ _ hr)

theorem Denotes.exists_hasId (hd : l.Denotes holds before heap v) (hl : l.IsNew) :
    ∃ i, v.HasId i ∧ i < heap.next := by
  cases hl with
  | array =>
    cases hd with
    | @array ref _ hlt => exact ⟨ref.id, .array ref, hlt⟩
  | object =>
    cases hd with
    | @object o _ hlt => exact ⟨o.id, .object o, hlt⟩

theorem Resolves.next_le (hl : l.Resolves assigned heap v heap') : heap.next ≤ heap'.next := by
  cases hl with
  | value => exact le_rfl
  | array => exact Nat.le_succ _
  | object => exact Nat.le_succ _
  | register => exact le_rfl

theorem Resolves.slot_eq {ref : ArrayRef} (hl : l.Resolves assigned heap v heap')
    (hlt : ref.id < heap.next) : heap'.slot ref = heap.slot ref := by
  cases hl with
  | @array ref' hi =>
    funext j
    apply Heap.enter_slot_of_ne
    rintro rfl
    omega
  | _ => rfl

theorem Resolves.denotes (hl : l.Resolves assigned heap v heap') (hle : before.next ≤ heap.next) :
    l.Denotes (fun r v => (r, v) ∈ assigned) before heap' v := by
  cases hl with
  | value => exact .value v
  | @array ref hi =>
    refine .array (hi ▸ hle) ?_ (Heap.hasZero_enter heap ref)
    rw [hi]
    exact Nat.lt_succ_self _
  | object hi =>
    refine .object (hi ▸ hle) ?_
    rw [hi]
    exact Nat.lt_succ_self _
  | register hr => exact .register (mem_of_lookup hr)

theorem Resolves.id_eq (hl : l.Resolves assigned heap v heap') (hnew : l.IsNew)
    (hi : v.HasId i) : i = heap.next := by
  cases hnew with
  | array =>
    cases hl with
    | array he => cases hi; exact he
  | object =>
    cases hl with
    | object he => cases hi; exact he

theorem Resolves.canFollow (hl : l.Resolves assigned heap v heap')
    (hkeys : assigned.map Prod.fst = ps.map Prod.fst) : l.CanFollow ps := by
  cases hl with
  | value => exact .value v
  | @array ref =>
    have he := ref.element_eq
    have hlt := ref.length_lt
    cases ht : ref.type with
    | array d inner => exact .array (Nat.le_of_lt_succ hlt)
    | _ => rw [ht] at he; cases he
  | object => exact .object _
  | @register r _ hr =>
    have hr : r ∈ ps.map Prod.fst := by
      rw [← hkeys]
      exact List.mem_map_of_mem (mem_of_lookup hr)
    obtain ⟨⟨_, l⟩, hl, rfl⟩ := List.mem_map.mp hr
    exact .register hl

/-- A literal that a text spells and that can follow can be resolved. -/
theorem Spells.exists_resolves (hs : Spells cs l) (hl : l.CanFollow ps)
    (hkeys : assigned.map Prod.fst = ps.map Prod.fst) (heap : Heap) :
    ∃ v heap', l.Resolves assigned heap v heap' := by
  cases hl with
  | value v => exact ⟨v, heap, .value v⟩
  | @array d inner length hle =>
    cases hs with
    | array ht =>
      obtain ⟨e, he, hv⟩ := Descriptor.exists_element_of_ofText ht
      let ref : ArrayRef := ⟨heap.next, .array d inner, e, length, he, hv, Nat.lt_succ_of_le hle⟩
      have hid : ref.id = heap.next := rfl
      exact ⟨.array ref, heap.enter ref, .array hid⟩
  | object name =>
    let o : ObjectRef := ⟨heap.next, name⟩
    have hid : o.id = heap.next := rfl
    exact ⟨.object o, _, .object hid⟩
  | @register r l hr =>
    have hmem : r ∈ assigned.map Prod.fst := by
      rw [hkeys]
      exact List.mem_map_of_mem hr
    obtain ⟨v, hv⟩ := exists_lookup hmem
    exact ⟨v, heap, .register hv⟩

theorem Spells.not_hasId (hs : Spells cs (.value v)) : ¬ v.HasId i := by
  rintro hi
  cases hi <;> cases hs

end Literal

namespace Assignment

variable {ps qs : List (Register × Literal)} {r r' o : Register} {l : Literal}

inductive Orderly : List (Register × Literal) → Prop
  | nil : Orderly []
  | snoc {ps : List (Register × Literal)} {r : Register} {l : Literal} (ho : Orderly ps)
      (hl : l.CanFollow ps) : Orderly (ps ++ [(r, l)])

structure FillsFrame (ps : List (Register × Literal)) : Prop where
  orderly : Orderly ps
  perm : (ps.map fun p => p.1.index).Perm (List.range ps.length)

/-- A register leads to itself when its literal is new, and to wherever the register leads that
its literal names. -/
inductive LeadsTo (ps : List (Register × Literal)) : Register → Register → Prop
  | new {r : Register} {l : Literal} (hmem : (r, l) ∈ ps) (hl : l.IsNew) : LeadsTo ps r r
  | shared {r r' o : Register} (hmem : (r, .register r') ∈ ps) (hl : LeadsTo ps r' o) :
      LeadsTo ps r o

theorem LeadsTo.mono (hl : LeadsTo ps r o) (hsub : ps ⊆ qs) : LeadsTo qs r o := by
  induction hl with
  | new hmem hl => exact .new (hsub hmem) hl
  | shared hmem _ ih => exact .shared (hsub hmem) ih

theorem LeadsTo.exists_mem (hl : LeadsTo ps r o) : ∃ l, (r, l) ∈ ps := by
  cases hl with
  | new hmem => exact ⟨_, hmem⟩
  | shared hmem => exact ⟨_, hmem⟩

theorem LeadsTo.exists_isNew (hl : LeadsTo ps r o) : ∃ l : Literal, (o, l) ∈ ps ∧ l.IsNew := by
  induction hl with
  | new hmem hl => exact ⟨_, hmem, hl⟩
  | shared _ _ ih => exact ih

theorem exists_spells_of_forall₂ {texts : List String} {p : Register × Literal}
    (hps : List.Forall₂ (fun text p => parse text = .ok p) texts ps) (hp : p ∈ ps) :
    ∃ cs, Literal.Spells cs p.2 := by
  induction hps with
  | nil => cases hp
  | cons hparse _ ih =>
    rcases List.mem_cons.mp hp with rfl | hp
    · exact exists_spells_of_parse hparse
    · exact ih hp

theorem FillsFrame.nodup (hp : FillsFrame ps) : (ps.map Prod.fst).Nodup := by
  apply List.Nodup.of_map Register.index
  rw [List.map_map]
  exact hp.perm.nodup_iff.mpr List.nodup_range

end Assignment

namespace Assembly

open Assignment

variable {heap : Heap} {ps : List (Register × Literal)} {a : Assembly} {texts : List String}
  {text : String} {r r' o o' : Register} {l l' : Literal} {v : Value} {i : ℕ}

inductive Assembles (heap : Heap) : List (Register × Literal) → Assembly → Prop
  | start : Assembles heap [] (start heap)
  | add {ps : List (Register × Literal)} {a : Assembly} {cs : List Char} {r : Register}
      {l : Literal} {v : Value} {heap' : Heap} (ha : Assembles heap ps a)
      (hs : Literal.Spells cs l) (hl : l.Resolves a.assigned a.heap v heap')
      (hr : a.assigned.lookup r = none) :
      Assembles heap (ps ++ [(r, l)]) ⟨a.assigned ++ [(r, v)], heap'⟩

theorem addAll_concat : a.addAll (texts ++ [text]) = a.addAll texts >>= fun b => b.add text := by
  unfold addAll
  rw [List.foldlM_append]
  simp only [List.foldlM_cons, List.foldlM_nil, bind_pure]

theorem addAll_eq_ok_iff :
    (start heap).addAll texts = .ok a ↔
      ∃ ps, List.Forall₂ (fun text p => Assignment.parse text = .ok p) texts ps ∧
        Assembles heap ps a := by
  -- From the end, so that the assembly before the last text is that of the texts before it.
  induction texts using List.reverseRecOn generalizing a with
  | nil =>
    constructor
    · intro ha
      cases ha
      exact ⟨[], .nil, .start⟩
    · rintro ⟨ps, hps, ha⟩
      cases hps
      generalize hnil : ([] : List (Register × Literal)) = ps at ha
      cases ha with
      | start => rfl
      | add => simp at hnil
  | append_singleton texts text ih =>
    rw [addAll_concat, bind_eq_ok_iff]
    simp only [ih, forall₂_concat_iff]
    constructor
    · rintro ⟨b, ⟨ps, hps, hb⟩, hadd⟩
      obtain ⟨r, l, v, heap', hp, hl, hr, rfl⟩ := add_eq_ok_iff.mp hadd
      obtain ⟨cs, hs⟩ := exists_spells_of_parse hp
      exact ⟨ps ++ [(r, l)], ⟨ps, (r, l), hps, hp, rfl⟩, .add hb hs hl hr⟩
    · rintro ⟨_, ⟨ps, p, hps, hp, rfl⟩, ha⟩
      generalize hsnoc : ps ++ [p] = qs at ha
      cases ha with
      | start => simp at hsnoc
      | @add ps' b cs r l v heap' hb hs hl hr =>
        obtain ⟨rfl, hpair⟩ := List.append_inj' hsnoc rfl
        cases hpair
        exact ⟨b, ⟨ps, hps, hb⟩, add_eq_ok_iff.mpr ⟨r, l, v, heap', hp, hl, hr, rfl⟩⟩

namespace Assembles

theorem map_fst_eq (ha : Assembles heap ps a) : a.assigned.map Prod.fst = ps.map Prod.fst := by
  induction ha with
  | start => rfl
  | add _ _ _ _ ih =>
    rw [List.map_append, ih, List.map_append]
    rfl

theorem nodup (ha : Assembles heap ps a) : (a.assigned.map Prod.fst).Nodup := by
  induction ha with
  | start => exact List.nodup_nil
  | @add _ a _ r l _ _ _ _ _ hr ih =>
    rw [List.map_append, List.nodup_append]
    refine ⟨ih, List.nodup_singleton r, ?_⟩
    intro r' hr' r'' hr''
    rw [List.mem_singleton.mp hr'']
    rintro rfl
    exact lookup_eq_none_iff.mp hr hr'

theorem value_unique {v v' : Value} (ha : Assembles heap ps a) (hv : (r, v) ∈ a.assigned)
    (hv' : (r, v') ∈ a.assigned) : v = v' :=
  congrArg Prod.snd (List.inj_on_of_nodup_map ha.nodup hv hv' rfl)

theorem exists_value (ha : Assembles heap ps a) (hl : (r, l) ∈ ps) :
    ∃ v, (r, v) ∈ a.assigned := by
  have hr : r ∈ a.assigned.map Prod.fst := by
    rw [ha.map_fst_eq]
    exact List.mem_map_of_mem hl
  obtain ⟨⟨_, v⟩, hv, rfl⟩ := List.mem_map.mp hr
  exact ⟨v, hv⟩

theorem orderly (ha : Assembles heap ps a) : Orderly ps := by
  induction ha with
  | start => exact .nil
  | add ha _ hl _ ih => exact .snoc ih (hl.canFollow ha.map_fst_eq)

theorem next_le (ha : Assembles heap ps a) : heap.next ≤ a.heap.next := by
  induction ha with
  | start => exact le_rfl
  | add _ _ hl _ ih => exact ih.trans hl.next_le

/-- With one more entry, what is known of a register is from before or all from the new entry. -/
theorem mem_or_eq {r₀ : Register} {l₀ : Literal} {v₀ : Value} (ha : Assembles heap ps a)
    (hr : a.assigned.lookup r₀ = none) (hl : (r, l) ∈ ps ++ [(r₀, l₀)])
    (hv : (r, v) ∈ a.assigned ++ [(r₀, v₀)]) :
    ((r, l) ∈ ps ∧ (r, v) ∈ a.assigned) ∨ (r = r₀ ∧ l = l₀ ∧ v = v₀) := by
  have hfresh := lookup_eq_none_iff.mp hr
  rw [List.mem_append, List.mem_singleton, Prod.mk.injEq] at hl hv
  rcases hl with hl | ⟨rfl, rfl⟩
  · have hmem := List.mem_map_of_mem (f := Prod.fst) hl
    rw [← ha.map_fst_eq] at hmem
    rcases hv with hv | ⟨rfl, -⟩
    · exact .inl ⟨hl, hv⟩
    · exact absurd hmem hfresh
  · rcases hv with hv | ⟨-, rfl⟩
    · exact absurd (List.mem_map_of_mem hv) hfresh
    · exact .inr ⟨rfl, rfl, rfl⟩

/-- Each register has what its literal stands for, and keeps it. -/
theorem denotes (ha : Assembles heap ps a) (hl : (r, l) ∈ ps) (hv : (r, v) ∈ a.assigned) :
    l.Denotes (fun r v => (r, v) ∈ a.assigned) heap a.heap v := by
  induction ha generalizing r l v with
  | start => cases hl
  | add ha _ hres hr ih =>
    rcases ha.mem_or_eq hr hl hv with ⟨hl, hv⟩ | ⟨rfl, rfl, rfl⟩
    · apply (ih hl hv).mono _ hres.next_le
      · exact fun _ => hres.slot_eq
      · exact fun _ _ => List.mem_append_left _
    · apply (hres.denotes ha.next_le).mono _ le_rfl
      · exact fun _ _ => rfl
      · exact fun _ _ => List.mem_append_left _

/-- What leads to an array or an object was new for some register, which still holds it. -/
theorem exists_leadsTo (ha : Assembles heap ps a) (hv : (r, v) ∈ a.assigned) (hi : v.HasId i) :
    ∃ o, LeadsTo ps r o ∧ (o, v) ∈ a.assigned := by
  induction ha generalizing r with
  | start => cases hv
  | @add ps a cs r₀ l₀ v₀ heap' ha hs hres hr ih =>
    have hkept : ∀ {r}, (r, v) ∈ a.assigned →
        ∃ o, LeadsTo (ps ++ [(r₀, l₀)]) r o ∧ (o, v) ∈ a.assigned ++ [(r₀, v₀)] := by
      intro r hv
      obtain ⟨o, hl, ho⟩ := ih hv
      exact ⟨o, hl.mono (List.subset_append_left _ _), List.mem_append_left _ ho⟩
    have hlast : (r₀, l₀) ∈ ps ++ [(r₀, l₀)] := List.mem_append_right _ List.mem_cons_self
    rcases List.mem_append.mp hv with hv | hv
    · exact hkept hv
    · cases List.mem_singleton.mp hv
      cases hres with
      | value => exact absurd hi hs.not_hasId
      | array => exact ⟨r₀, .new hlast (.array _ _), List.mem_append_right _ List.mem_cons_self⟩
      | object => exact ⟨r₀, .new hlast (.object _), List.mem_append_right _ List.mem_cons_self⟩
      | register hr' =>
        obtain ⟨o, hl, ho⟩ := hkept (mem_of_lookup hr')
        exact ⟨o, .shared hlast hl, ho⟩

theorem mem_of_leadsTo (ha : Assembles heap ps a) (hl : LeadsTo ps r o)
    (hv : (r, v) ∈ a.assigned) : (o, v) ∈ a.assigned := by
  induction hl with
  | new => exact hv
  | shared hmem _ ih =>
    apply ih
    cases ha.denotes hmem hv with
    | register hr => exact hr

theorem id_lt (ha : Assembles heap ps a) (hv : (r, v) ∈ a.assigned) (hi : v.HasId i) :
    i < a.heap.next := by
  obtain ⟨o, hl, ho⟩ := ha.exists_leadsTo hv hi
  obtain ⟨l, hmem, hnew⟩ := hl.exists_isNew
  obtain ⟨j, hj, hlt⟩ := (ha.denotes hmem ho).exists_hasId hnew
  have hij : i = j := by cases hi <;> cases hj <;> rfl
  rwa [hij]

theorem eq_of_isNew (ha : Assembles heap ps a) (hl : (o, l) ∈ ps) (hl' : (o', l') ∈ ps)
    (hnew : l.IsNew) (hnew' : l'.IsNew) (hv : (o, v) ∈ a.assigned) (hv' : (o', v) ∈ a.assigned)
    (hi : v.HasId i) : o = o' := by
  induction ha generalizing o o' l l' with
  | start => cases hl
  | add ha _ hres hr ih =>
    rcases ha.mem_or_eq hr hl hv with ⟨hold, hheld⟩ | ⟨rfl, rfl, rfl⟩
    · rcases ha.mem_or_eq hr hl' hv' with ⟨hold', hheld'⟩ | ⟨rfl, rfl, rfl⟩
      · exact ih hold hold' hnew hnew' hheld hheld'
      -- What is held already has an identifier below the one that the new literal takes.
      · exact absurd (hres.id_eq hnew' hi) (ha.id_lt hheld hi).ne
    · rcases ha.mem_or_eq hr hl' hv' with ⟨-, hheld'⟩ | ⟨rfl, -, -⟩
      · exact absurd (hres.id_eq hnew hi) (ha.id_lt hheld' hi).ne
      · rfl

theorem shares_iff (ha : Assembles heap ps a) :
    (∃ v i, v.HasId i ∧ (r, v) ∈ a.assigned ∧ (r', v) ∈ a.assigned) ↔
      ∃ o, LeadsTo ps r o ∧ LeadsTo ps r' o := by
  constructor
  · rintro ⟨v, i, hi, hv, hv'⟩
    obtain ⟨o, hl, ho⟩ := ha.exists_leadsTo hv hi
    obtain ⟨o', hl', ho'⟩ := ha.exists_leadsTo hv' hi
    obtain ⟨l, hmem, hnew⟩ := hl.exists_isNew
    obtain ⟨l', hmem', hnew'⟩ := hl'.exists_isNew
    obtain rfl := ha.eq_of_isNew hmem hmem' hnew hnew' ho ho' hi
    exact ⟨o, hl, hl'⟩
  · rintro ⟨o, hl, hl'⟩
    obtain ⟨l, hmem, hnew⟩ := hl.exists_isNew
    obtain ⟨_, hr⟩ := hl.exists_mem
    obtain ⟨_, hr'⟩ := hl'.exists_mem
    obtain ⟨v, hv⟩ := ha.exists_value hr
    obtain ⟨v', hv'⟩ := ha.exists_value hr'
    have ho := ha.mem_of_leadsTo hl hv
    obtain rfl := ha.value_unique ho (ha.mem_of_leadsTo hl' hv')
    obtain ⟨i, hi, -⟩ := (ha.denotes hmem ho).exists_hasId hnew
    exact ⟨v, i, hi, hv, hv'⟩

end Assembles

/-- Entries that can be taken in their order are taken. -/
theorem exists_assembles (ho : Orderly ps) (hs : ∀ p ∈ ps, ∃ cs, Literal.Spells cs p.2)
    (hnd : (ps.map Prod.fst).Nodup) (heap : Heap) : ∃ a, Assembles heap ps a := by
  induction ho with
  | nil => exact ⟨_, .start⟩
  | @snoc ps r l _ hl ih =>
    rw [List.map_append, List.nodup_append] at hnd
    obtain ⟨hnd, -, hne⟩ := hnd
    obtain ⟨a, ha⟩ := ih (fun p hp => hs p (List.mem_append_left _ hp)) hnd
    obtain ⟨cs, hcs⟩ := hs (r, l) (List.mem_append_right _ List.mem_cons_self)
    obtain ⟨v, heap', hres⟩ := hcs.exists_resolves hl ha.map_fst_eq a.heap
    have hr : a.assigned.lookup r = none := by
      rw [lookup_eq_none_iff, ha.map_fst_eq]
      exact fun hmem => hne r hmem r List.mem_cons_self rfl
    exact ⟨_, .add ha hcs hres hr⟩

end Assembly

end DalvikStores
