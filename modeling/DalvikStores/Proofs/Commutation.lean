import DalvikStores.Proofs.Reading
import DalvikStores.Proofs.Transfer

/-!
# Operations that commute

A successful operation changes a state in one place at most: it makes its array register unknown,
or it writes to one slot, or it changes nothing. Which of these it does depends on the hierarchy
and on what its operands hold, and never on a slot. Changes in different places commute. Therefore
two operations that succeed from one state can follow each other in either order, unless one of
them taints an operand of the other or both write to the same slot.
-/

namespace DalvikStores

theorem Heap.write_comm {heap : Heap} {ref ref' : ArrayRef} {j j' : ℕ}
    {c : Cell ref.element} {c' : Cell ref'.element} (hne : ¬ (ref = ref' ∧ j = j')) :
    (heap.write ref j c).write ref' j' c' = (heap.write ref' j' c').write ref j c := by
  refine Heap.eq_of rfl fun r k => ?_
  simp only [Heap.write_slot]
  by_cases hr : r = ref ∧ k = j
  · have hr' : ¬ (r = ref' ∧ k = j') := by
      rintro ⟨rfl, rfl⟩
      exact hne ⟨hr.1.symm, hr.2.symm⟩
    simp only [if_pos hr, if_neg hr']
  · simp only [if_neg hr]

namespace Aput

inductive Change
  | nothing
  | taint (r : Register) (ref : ArrayRef)
  | write (ref : ArrayRef) (j : ℕ) (c : Cell ref.element)

namespace Change

def apply : Change → State → State
  | nothing, s => s
  | taint r ref, s =>
    { s with frame := ⟨s.frame.registers.set r.index (.ofUnknown ref.type)⟩ }
  | write ref j c, s => { s with heap := s.heap.write ref j c }

def Apart : Change → Change → Prop
  | taint r _, taint r' _ => r ≠ r'
  | write ref j _, write ref' j' _ => ¬ (ref = ref' ∧ j = j')
  | _, _ => True

theorem apply_comm {c d : Change} (hcd : c.Apart d) (s : State) :
    d.apply (c.apply s) = c.apply (d.apply s) := by
  cases c with
  | nothing => rfl
  | taint r ref =>
    cases d with
    | taint r' ref' =>
      have hne : r.index ≠ r'.index := fun he => hcd (Register.eq_of_index_eq he)
      simp only [apply, List.set_comm _ _ hne]
    | _ => rfl
  | write ref j =>
    cases d with
    | write ref' j' =>
      simp only [apply, Heap.write_comm hcd]
    | _ => rfl

end Change

def Uses (op : Aput) (r : Register) : Prop := r = op.value ∨ r = op.array ∨ r = op.index

def Taints (op : Aput) (f : Frame) : Prop := ∃ ref, op.action f = .ok (.taint ref)

def WritesTo (op : Aput) (f : Frame) (ref : ArrayRef) (n : Int32) : Prop :=
  ∃ v, op.action f = .ok (.write ref n v)

/-- Neither operation taints an operand of the other, and they write to different slots. -/
structure Independent (p q : Aput) (f : Frame) : Prop where
  left (hp : p.Taints f) : ¬ q.Uses p.array
  right (hq : q.Taints f) : ¬ p.Uses q.array
  slot {ref : ArrayRef} {n : Int32} (hp : p.WritesTo f ref n) : ¬ q.WritesTo f ref n

inductive Makes (op : Aput) (h : Hierarchy) (f : Frame) : Change → Prop
  | nothing {v i : Value} {d : String} (hr : op.Reads f v (.unknown d) i) : Makes op h f .nothing
  | taint {v i : Value} {ref : ArrayRef} (hr : op.Reads f v (.array ref) i)
      (hu : v.isUnknown = true ∨ i.isUnknown = true) : Makes op h f (.taint op.array ref)
  | write {v i w : Value} {ref : ArrayRef} {j : ℕ} {c : Cell ref.element}
      (hr : op.Reads f v (.array ref) i) (hv : v.isUnknown = false)
      (hw : op.variant.Coerces v w) (hj : i.number = some (j : ℤ)) (hl : j < ref.length)
      (hu : ref.element.Takes h w c.value) : Makes op h f (.write ref j c)

variable {p q op : Aput} {h : Hierarchy} {f g : Frame} {s t sp sq : State} {v a i : Value}
  {c d : Change} {xs ys : List Address}

theorem step_iff_exists_makes :
    op.Step h s t ↔ ∃ c, op.Makes h s.frame c ∧ t = c.apply s := by
  constructor
  · intro hs
    cases hs with
    | leave hr => exact ⟨_, .nothing hr, rfl⟩
    | taint hr hu => exact ⟨_, .taint hr hu, rfl⟩
    | write hr hv hw hj hl hu => exact ⟨_, .write hr hv hw hj hl hu, rfl⟩
  · rintro ⟨c, hc, rfl⟩
    cases hc with
    | nothing hr => exact .leave hr
    | taint hr hu => exact .taint hr hu
    | write hr hv hw hj hl hu => exact .write hr hv hw hj hl hu

theorem Reads.of_agree (hr : op.Reads f v a i)
    (hg : ∀ r, op.Uses r → g.registers[r.index]? = f.registers[r.index]?) :
    op.Reads g v a i where
  value := (hg op.value (.inl rfl)).trans hr.value
  array := (hg op.array (.inr (.inl rfl))).trans hr.array
  index := (hg op.index (.inr (.inr rfl))).trans hr.index

namespace Makes

/-- The operands alone decide about the change. -/
theorem of_agree (hc : op.Makes h f c)
    (hg : ∀ r, op.Uses r → g.registers[r.index]? = f.registers[r.index]?) : op.Makes h g c := by
  cases hc with
  | nothing hr => exact .nothing (hr.of_agree hg)
  | taint hr hu => exact .taint (hr.of_agree hg) hu
  | write hr hv hw hj hl hu => exact .write (hr.of_agree hg) hv hw hj hl hu

theorem after (hq : q.Makes h s.frame d) (hp : p.Makes h s.frame c)
    (hpq : p.Taints s.frame → ¬ q.Uses p.array) : q.Makes h (c.apply s).frame d := by
  apply hq.of_agree
  intro r hr
  -- only a taint changes a register, which is no operand of `q`
  cases hp with
  | nothing => rfl
  | taint hreads hu =>
    have hne : p.array.index ≠ r.index := by
      intro he
      rw [← Register.eq_of_index_eq he] at hr
      exact hpq ⟨_, action_taint hreads hu⟩ hr
    exact List.getElem?_set_ne hne
  | write => rfl

theorem exists_writesTo {ref : ArrayRef} {j : ℕ} {u : Cell ref.element}
    (hc : op.Makes h f (.write ref j u)) :
    ∃ n : Int32, n.toInt = j ∧ op.WritesTo f ref n := by
  cases hc with
  | @write v i w _ _ _ hr hv hw hj =>
    obtain ⟨n, hn, hnj⟩ := (i.number_eq_some_iff _).mp hj
    exact ⟨n, hnj, w, action_write hr hv hw ((i.number_eq_toInt_iff n).mpr hn)⟩

end Makes

theorem Independent.apart (hi : p.Independent q f) (hc : p.Makes h f c) (hd : q.Makes h f d) :
    c.Apart d := by
  cases c with
  | nothing => trivial
  | taint r ref =>
    cases d with
    | taint r' ref' =>
      cases hc with
      | taint hr hu =>
        cases hd with
        | taint =>
          intro he
          exact hi.left ⟨_, action_taint hr hu⟩ (.inr (.inl he))
    | _ => trivial
  | write ref j =>
    cases d with
    | write ref' j' =>
      rintro ⟨rfl, rfl⟩
      obtain ⟨n, hn, hp⟩ := hc.exists_writesTo
      obtain ⟨n', hn', hq⟩ := hd.exists_writesTo
      have he : n = n' := Int32.toInt_inj.mp (hn.trans hn'.symm)
      exact hi.slot hp (he ▸ hq)
    | _ => trivial

theorem Step.comm (hi : p.Independent q s.frame) (hp : p.Step h s sp) (hq : q.Step h s sq) :
    ∃ t, q.Step h sp t ∧ p.Step h sq t := by
  obtain ⟨c, hc, rfl⟩ := step_iff_exists_makes.mp hp
  obtain ⟨d, hd, rfl⟩ := step_iff_exists_makes.mp hq
  refine ⟨d.apply (c.apply s), step_iff_exists_makes.mpr ⟨d, ?_, rfl⟩,
    step_iff_exists_makes.mpr ⟨c, ?_, ?_⟩⟩
  · exact hd.after hc hi.left
  · exact hc.after hd hi.right
  · exact Change.apply_comm (hi.apart hc hd) s

/-- Two independent operations that succeed from one state succeed one after the other, in either
order, with the successors that each of them has alone, and both orders end in one state. -/
theorem execute_comm (hp : p.execute h s = .ok xs sp) (hq : q.execute h s = .ok ys sq)
    (hi : p.Independent q s.frame) :
    ∃ t, q.execute h sp = .ok ys t ∧ p.execute h sq = .ok xs t := by
  obtain ⟨rfl, hsp⟩ := (execute_eq_ok_iff xs).mp hp
  obtain ⟨rfl, hsq⟩ := (execute_eq_ok_iff ys).mp hq
  obtain ⟨t, ht, ht'⟩ := hsp.comm hi hsq
  exact ⟨t, execute_of_step ht, execute_of_step ht'⟩

/-- One operation stores an array into another, and an unknown index taints a second register that
holds the stored array. -/
theorem execute_comm_shared_row :
    let f : Frame := ⟨[.array serializableRows, .array intRows, .array intRows, .int 2,
      .unknown "I", .null]⟩
    let p : Aput := ⟨⟨0⟩, "aput-object", .object, ⟨2⟩, ⟨1⟩, ⟨0⟩, ⟨3⟩⟩
    let q : Aput := ⟨⟨2⟩, "aput-object", .object, ⟨4⟩, ⟨5⟩, ⟨2⟩, ⟨4⟩⟩
    let heap : Heap := Heap.empty.write serializableRows 2 (.array rfl intRows)
    let g : Frame := ⟨f.registers.set 2 (.unknown "[[I")⟩
    p.execute .empty ⟨f, .empty⟩ = .ok [⟨2⟩] ⟨f, heap⟩ ∧
      q.execute .empty ⟨f, .empty⟩ = .ok [⟨4⟩] ⟨g, .empty⟩ ∧ p.Independent q f ∧
      ∃ t, q.execute .empty ⟨f, heap⟩ = .ok [⟨4⟩] t ∧
        p.execute .empty ⟨g, .empty⟩ = .ok [⟨2⟩] t := by
  intro f p q heap g
  have ha : Hierarchy.empty.Assignable (.array 2 .int)
      (.array 1 (.ofClass "java/io/Serializable")) :=
    .covariant rfl rfl rfl rfl (.interface 1 .int (by decide))
  have hp : p.execute .empty ⟨f, .empty⟩ = .ok [⟨2⟩] ⟨f, heap⟩ := by
    apply execute_of_step
    exact .write ⟨rfl, rfl, rfl⟩ rfl (.object rfl) rfl (by decide)
      (.reference rfl rfl (.array intRows) ha)
  have hq : q.execute .empty ⟨f, .empty⟩ = .ok [⟨4⟩] ⟨g, .empty⟩ := rfl
  have hi : p.Independent q f :=
    { left := fun ⟨_, ht⟩ => by cases ht
      right := fun _ hu => by rcases hu with he | he | he <;> cases he
      slot := fun _ ⟨_, hw⟩ => by cases hw }
  exact ⟨hp, hq, hi, execute_comm hp hq hi⟩

end Aput

end DalvikStores
