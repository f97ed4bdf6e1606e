import DalvikStores.Proofs.Effect
import Mathlib.Data.List.Forall2

/-!
# Runs that know less

A frame blurs to another of the same size if every register of the other holds the same value or
an unknown one. An operation that succeeds from a frame succeeds from every frame that it blurs to,
whatever the slots hold: either the operands are the same, and no check looks into a slot, or one
of them is unknown, and then the operation ends with an unknown value in the array register. So a
run from a blurred frame goes the same way, although it writes less.
-/

namespace DalvikStores

structure Frame.BlursTo (f g : Frame) : Prop where
  size_eq : g.size = f.size
  register {k : ℕ} {v w : Value} (hv : f.registers[k]? = some v) (hw : g.registers[k]? = some w) :
    w = v ∨ w.isUnknown = true

theorem Frame.blursTo_set {w : Value} (f : Frame) (k : ℕ) (hu : w.isUnknown = true) :
    f.BlursTo ⟨f.registers.set k w⟩ where
  size_eq := List.length_set
  register {j v u} hv hw := by
    by_cases hj : j = k
    · subst hj
      cases (List.getElem?_set_self (Frame.lt_size_of_getElem? hv)).symm.trans hw
      exact .inr hu
    · rw [List.getElem?_set_ne (Ne.symm hj)] at hw
      cases hv.symm.trans hw
      exact .inl rfl

namespace Aput

variable {op : Aput} {ops : List Aput} {h : Hierarchy} {f g : Frame} {s s' t : State}
  {v a i : Value} {xs : List (List Address × State)}

theorem Reads.exists_of_size_eq (hr : op.Reads f v a i) (hsize : g.size = f.size) :
    ∃ v' a' i', op.Reads g v' a' i' := by
  have hlt {k : ℕ} {w : Value} (hw : f.registers[k]? = some w) : k < g.size := by
    rw [hsize]
    exact Frame.lt_size_of_getElem? hw
  obtain ⟨v', hv⟩ := Frame.exists_getElem? (hlt hr.value)
  obtain ⟨a', ha⟩ := Frame.exists_getElem? (hlt hr.array)
  obtain ⟨i', hi⟩ := Frame.exists_getElem? (hlt hr.index)
  exact ⟨v', a', i', hv, ha, hi⟩

theorem Reads.exists_step_of_unknown (hr : op.Reads s.frame v a i)
    (ha : a.isUnknown = true ∨ ∃ ref, a = .array ref)
    (hu : a.isUnknown = true ∨ v.isUnknown = true ∨ i.isUnknown = true) :
    ∃ t, op.Step h s t ∧
      ∀ w, t.frame.registers[op.array.index]? = some w → w.isUnknown = true := by
  cases a with
  | unknown d =>
    refine ⟨s, .leave hr, fun w hw => ?_⟩
    cases hr.array.symm.trans hw
    rfl
  | array ref =>
    have hu' : v.isUnknown = true ∨ i.isUnknown = true := hu.resolve_left Bool.false_ne_true
    refine ⟨_, .taint hr hu', fun w hw => ?_⟩
    cases (List.getElem?_set_self (Frame.lt_size_of_getElem? hr.array)).symm.trans hw
    rfl
  | _ => rcases ha with ha | ⟨_, ha⟩ <;> cases ha

namespace Step

theorem exists_reads (hs : op.Step h s t) :
    ∃ v a i, op.Reads s.frame v a i ∧ (a.isUnknown = true ∨ ∃ ref, a = .array ref) := by
  cases hs with
  | leave hr => exact ⟨_, _, _, hr, .inl rfl⟩
  | taint hr => exact ⟨_, _, _, hr, .inr ⟨_, rfl⟩⟩
  | write hr => exact ⟨_, _, _, hr, .inr ⟨_, rfl⟩⟩

/-- Only the array register can have changed, and what is unknown there blurs everything. -/
theorem blursTo_of_unknown {t' : State} (hb : s.frame.BlursTo s'.frame) (hs : op.Step h s t)
    (hs' : op.Step h s' t')
    (hu : ∀ w, t'.frame.registers[op.array.index]? = some w → w.isUnknown = true) :
    t.frame.BlursTo t'.frame where
  size_eq := by rw [hs.size_eq, hs'.size_eq, hb.size_eq]
  register {k v w} hv hw := by
    by_cases hk : k = op.array.index
    · subst hk
      exact .inr (hu w hw)
    · rw [hs.getElem?_of_ne hk] at hv
      rw [hs'.getElem?_of_ne hk] at hw
      exact hb.register hv hw

theorem exists_of_blursTo (hb : s.frame.BlursTo s'.frame) (hs : op.Step h s t) :
    ∃ t', op.Step h s' t' ∧ t.frame.BlursTo t'.frame := by
  obtain ⟨v, a, i, hr, ha⟩ := hs.exists_reads
  obtain ⟨v', a', i', hr'⟩ := hr.exists_of_size_eq hb.size_eq
  have hbv := hb.register hr.value hr'.value
  have hba := hb.register hr.array hr'.array
  have hbi := hb.register hr.index hr'.index
  by_cases hu : a'.isUnknown = true ∨ v'.isUnknown = true ∨ i'.isUnknown = true
  · have ha' : a'.isUnknown = true ∨ ∃ ref, a' = .array ref := by
      rcases hba with rfl | hua
      · exact ha
      · exact .inl hua
    obtain ⟨t', hs', hut⟩ := hr'.exists_step_of_unknown (h := h) ha' hu
    exact ⟨t', hs', blursTo_of_unknown hb hs hs' hut⟩
  · simp only [not_or, Bool.not_eq_true] at hu
    obtain ⟨hua, huv, hui⟩ := hu
    obtain rfl : v' = v := hbv.resolve_right (by simp [huv])
    obtain rfl : a' = a := hba.resolve_right (by simp [hua])
    obtain rfl : i' = i := hbi.resolve_right (by simp [hui])
    obtain ⟨ref, rfl⟩ := ha.resolve_left (by simp [hua])
    -- no condition of a write is about the slots, so it is one from the other frame too
    obtain ⟨j, w, u, hw, hj, hl, ht, rfl⟩ := hs.exists_write hr huv hui
    exact ⟨_, .write hr' huv hw hj hl ht, hb⟩

end Step

/-- The successors of each operation and the state after it, if all operations succeed one after
the other. -/
def outcomes (h : Hierarchy) (s : State) : List Aput → Option (List (List Address × State))
  | [] => some []
  | op :: ops =>
    match op.execute h s with
    | .ok successors t => (outcomes h t ops).map ((successors, t) :: ·)
    | .error _ _ => none

theorem outcomes_cons_of_step (hs : op.Step h s t) :
    outcomes h s (op :: ops) = (outcomes h t ops).map (([op.successor], t) :: ·) := by
  simp only [outcomes, execute_of_step hs]

theorem exists_step_of_outcomes_cons (hx : outcomes h s (op :: ops) = some xs) :
    ∃ t ys, op.Step h s t ∧ outcomes h t ops = some ys ∧ xs = ([op.successor], t) :: ys := by
  cases he : op.execute h s with
  | error e t =>
    simp only [outcomes, he] at hx
    cases hx
  | ok successors t =>
    obtain ⟨-, hs⟩ := (execute_eq_ok_iff successors).mp he
    rw [outcomes_cons_of_step hs, Option.map_eq_some_iff] at hx
    obtain ⟨ys, hy, rfl⟩ := hx
    exact ⟨t, ys, hs, hy, rfl⟩

/-- A list of operations that succeeds from a frame succeeds from every frame that it blurs to,
with the same successors, and after each operation the frame blurs to the other again. -/
theorem exists_outcomes_of_blursTo (hb : s.frame.BlursTo s'.frame)
    (hx : outcomes h s ops = some xs) :
    ∃ ys, outcomes h s' ops = some ys ∧
      List.Forall₂ (fun x y => y.1 = x.1 ∧ x.2.frame.BlursTo y.2.frame) xs ys := by
  induction ops generalizing s s' xs with
  | nil =>
    cases hx
    exact ⟨[], rfl, .nil⟩
  | cons op ops ih =>
    obtain ⟨t, xs', hs, hx', rfl⟩ := exists_step_of_outcomes_cons hx
    obtain ⟨t', hs', hb'⟩ := hs.exists_of_blursTo hb
    obtain ⟨ys, hy, hall⟩ := ih hb' hx'
    refine ⟨([op.successor], t') :: ys, ?_, .cons ⟨rfl, hb'⟩ hall⟩
    rw [outcomes_cons_of_step hs', hy, Option.map_some]

/-- With an unknown index the two stores through different registers of one array both taint, and
the third finds its array unknown. -/
theorem exists_outcomes_unknown_index :
    let f : Frame := ⟨[.array intRows, .int 3, .null, .array intRows]⟩
    let g : Frame := ⟨[.array intRows, .unknown "I", .null, .array intRows]⟩
    let op (n : UInt64) (array : Register) : Aput :=
      ⟨⟨n⟩, "aput-object", .object, ⟨n + 2⟩, ⟨2⟩, array, ⟨1⟩⟩
    let ops : List Aput := [op 0 ⟨0⟩, op 2 ⟨3⟩, op 4 ⟨0⟩]
    let heap := Heap.empty.write intRows 3 (.absent rfl)
    let heap' := heap.write intRows 3 (.absent rfl)
    let xs : List (List Address × State) :=
      [([⟨2⟩], ⟨f, heap⟩), ([⟨4⟩], ⟨f, heap'⟩), ([⟨6⟩], ⟨f, heap'.write intRows 3 (.absent rfl)⟩)]
    f.BlursTo g ∧ outcomes .empty ⟨f, .empty⟩ ops = some xs ∧
      ∃ ys, outcomes .empty ⟨g, Heap.empty.write intRows 0 (.array rfl intRows)⟩ ops = some ys ∧
        List.Forall₂ (fun x y => y.1 = x.1 ∧ x.2.frame.BlursTo y.2.frame) xs ys := by
  intro f g op ops heap heap' xs
  have hb : f.BlursTo g := f.blursTo_set 1 rfl
  have hx : outcomes .empty ⟨f, .empty⟩ ops = some xs := rfl
  exact ⟨hb, hx, exists_outcomes_of_blursTo hb hx⟩

end Aput

end DalvikStores
