import DalvikStores.Proofs.Links
import DalvikStores.Proofs.Slot

/-!
# Links that do not matter to a class

A link whose source is no ancestor of a class adds no ancestor to it and settles none of those it
has. The class is a subclass of the same classes as before, and a store of one of its objects is
taken or refused as before. Only the root class can notice such a link: a class that no link
mentions counts as a subclass of every class, and the root class stops doing so when a link first
leads to it, because nothing about its ancestry is open. This happens at most once, however many
links are inserted.
-/

namespace DalvikStores

namespace Hierarchy

open Relation (ReflTransGen)

section Insertion

variable {h : Hierarchy} {l : Link} {a c t : String}

theorem contains_insert_iff :
    (h.insert l).contains c = true ↔ h.contains c = true ∨ c = l.source ∨ c = l.target := by
  simp only [contains_eq_true_iff, links_insert, List.mem_append, List.mem_singleton,
    or_and_right, exists_or, exists_eq_left]

theorem contains_insert_eq_false_iff :
    (h.insert l).contains c = false ↔ h.contains c = false ∧ c ≠ l.source ∧ c ≠ l.target := by
  rw [← Bool.not_eq_true, contains_insert_iff, not_or, not_or, Bool.not_eq_true]

theorem ne_source_of_not_mem_ancestors (hl : l.source ∉ h.ancestors c) : c ≠ l.source := by
  rintro rfl
  exact hl (mem_ancestors_iff.mpr .refl)

theorem unsettled_insert_iff (hne : a ≠ l.source) : (h.insert l).Unsettled a ↔ h.Unsettled a := by
  constructor
  · rintro ⟨hroot, hno⟩
    rw [links_insert] at hno
    exact ⟨hroot, fun k hk => hno k (List.mem_append_left _ hk)⟩
  · rintro ⟨hroot, hno⟩
    refine ⟨hroot, fun k hk hs => ?_⟩
    rw [links_insert] at hk
    rcases List.mem_append.mp hk with hk | hk
    · exact hno k hk hs
    · rw [List.mem_singleton.mp hk] at hs
      exact absurd hs.symm hne

theorem leads_insert_iff (hl : l.source ∉ h.ancestors c) :
    ReflTransGen (Leads (h.insert l).links) c a ↔ ReflTransGen (Leads h.links) c a := by
  rw [mem_ancestors_iff] at hl
  rw [links_insert]
  constructor
  · apply leads_of_leads_append
    intro k hk
    rwa [List.mem_singleton.mp hk]
  · exact leads_mono (List.subset_append_left _ _)

theorem mem_ancestors_insert_iff (hl : l.source ∉ h.ancestors c) :
    a ∈ (h.insert l).ancestors c ↔ a ∈ h.ancestors c := by
  rw [mem_ancestors_iff, mem_ancestors_iff, leads_insert_iff hl]

/-- Apart from the root class, what is not registered is unsettled. -/
theorem isSubclass_iff_of_contains (hc : c = Descriptor.rootClass → h.contains c = true) :
    h.isSubclass c t = true ↔ ReflTransGen (Leads h.links) c t ∨
      ∃ a, ReflTransGen (Leads h.links) c a ∧ h.Unsettled a := by
  rw [isSubclass_eq_true_iff, or_iff_right_of_imp]
  intro hno
  have hne : c ≠ Descriptor.rootClass := by
    intro he
    rw [hc he] at hno
    cases hno
  exact .inr ⟨c, .refl, unsettled_of_not_contains hne hno⟩

theorem isSubclass_of_not_contains (hc : h.contains c = false) : h.isSubclass c t = true :=
  isSubclass_eq_true_iff.mpr (.inl hc)

theorem isSubclass_insert_of_contains (hl : l.source ∉ h.ancestors c)
    (hc : c = Descriptor.rootClass → h.contains c = true) :
    (h.insert l).isSubclass c t = h.isSubclass c t := by
  have hc' : c = Descriptor.rootClass → (h.insert l).contains c = true :=
    fun he => contains_insert_iff.mpr (.inl (hc he))
  have hunsettled : ∀ a, ReflTransGen (Leads h.links) c a →
      ((h.insert l).Unsettled a ↔ h.Unsettled a) := by
    intro a ha
    apply unsettled_insert_iff
    rintro rfl
    exact hl (mem_ancestors_iff.mpr ha)
  rw [Bool.eq_iff_iff, isSubclass_iff_of_contains hc, isSubclass_iff_of_contains hc']
  simp only [leads_insert_iff hl]
  exact or_congr_right (exists_congr fun a => and_congr_right (hunsettled a))

theorem isSubclass_insert_rootClass (hl : l.source ≠ Descriptor.rootClass)
    (hc : h.contains Descriptor.rootClass = false) (ht : l.target = Descriptor.rootClass) :
    (h.insert l).isSubclass Descriptor.rootClass t = true ↔ t = Descriptor.rootClass := by
  have honly : ∀ a, ReflTransGen (Leads h.links) Descriptor.rootClass a ↔
      a = Descriptor.rootClass := by
    intro a
    refine ⟨eq_of_leads_of_not_contains hc, ?_⟩
    rintro rfl
    exact .refl
  have hl' : l.source ∉ h.ancestors Descriptor.rootClass := by
    rwa [mem_ancestors_iff, honly]
  have hc' : (h.insert l).contains Descriptor.rootClass = true :=
    contains_insert_iff.mpr (.inr (.inr ht.symm))
  rw [isSubclass_iff_of_contains fun _ => hc']
  simp only [leads_insert_iff hl', honly, exists_eq_left, or_iff_left_iff_imp]
  intro hu
  exact absurd rfl hu.ne_rootClass

end Insertion

/-- The link is the first to mention the root class, which ends its being a subclass of the
target. -/
structure RevealsRoot (h : Hierarchy) (l : Link) (c t : String) : Prop where
  class_eq : c = Descriptor.rootClass
  target_ne : t ≠ Descriptor.rootClass
  not_contains : h.contains Descriptor.rootClass = false
  leads_to : l.target = Descriptor.rootClass

section Revealing

variable {h : Hierarchy} {l k : Link} {links : List Link} {c t : String}

theorem isSubclass_insert_eq_iff (hl : l.source ∉ h.ancestors c) (t : String) :
    (h.insert l).isSubclass c t = h.isSubclass c t ↔ ¬ h.RevealsRoot l c t := by
  by_cases hc : c = Descriptor.rootClass → h.contains c = true
  · refine iff_of_true (isSubclass_insert_of_contains hl hc) ?_
    rintro ⟨rfl, -, hno, -⟩
    rw [hc rfl] at hno
    cases hno
  · rw [Classical.not_imp, Bool.not_eq_true] at hc
    obtain ⟨rfl, hno⟩ := hc
    have hs : Descriptor.rootClass ≠ l.source := ne_source_of_not_mem_ancestors hl
    rw [isSubclass_of_not_contains hno]
    by_cases ht : l.target = Descriptor.rootClass
    · rw [isSubclass_insert_rootClass hs.symm hno ht, ← not_iff_not, not_not]
      exact ⟨fun hne => ⟨rfl, hne, hno, ht⟩, RevealsRoot.target_ne⟩
    · have hno' : (h.insert l).contains Descriptor.rootClass = false :=
        contains_insert_eq_false_iff.mpr ⟨hno, hs, Ne.symm ht⟩
      refine iff_of_true (isSubclass_of_not_contains hno') ?_
      exact fun hr => ht hr.leads_to

/-- The root class is revealed once. -/
theorem not_revealsRoot_insert (hr : h.RevealsRoot l c t) : ¬ (h.insert l).RevealsRoot k c t := by
  intro hk
  exact (contains_insert_eq_false_iff.mp hk.not_contains).2.2 hr.leads_to.symm

theorem revealsRoot_insert_iff (hl : l.source ∉ h.ancestors c) (hno : ¬ h.RevealsRoot l c t) :
    (h.insert l).RevealsRoot k c t ↔ h.RevealsRoot k c t := by
  constructor
  · rintro ⟨hc, ht, hcontains, hk⟩
    exact ⟨hc, ht, (contains_insert_eq_false_iff.mp hcontains).1, hk⟩
  · rintro ⟨rfl, ht, hcontains, hk⟩
    refine ⟨rfl, ht, contains_insert_eq_false_iff.mpr ⟨hcontains, ?_, fun he => ?_⟩, hk⟩
    · exact ne_source_of_not_mem_ancestors hl
    · exact hno ⟨rfl, ht, hcontains, he.symm⟩

theorem insertAll_cons (h : Hierarchy) (l : Link) (links : List Link) :
    h.insertAll (l :: links) = (h.insert l).insertAll links := rfl

theorem isSubclass_insertAll_eq_iff (hl : ∀ l ∈ links, l.source ∉ h.ancestors c) (t : String) :
    (h.insertAll links).isSubclass c t = h.isSubclass c t ↔
      ∀ l ∈ links, ¬ h.RevealsRoot l c t := by
  induction links generalizing h with
  | nil => exact iff_of_true rfl (List.forall_mem_nil _)
  | cons l links ih =>
    obtain ⟨hfirst, hrest⟩ := List.forall_mem_cons.mp hl
    have hkept : ∀ k ∈ links, k.source ∉ (h.insert l).ancestors c := by
      intro k hk
      rw [mem_ancestors_insert_iff hfirst]
      exact hrest k hk
    have hstep := isSubclass_insert_eq_iff hfirst t
    rw [insertAll_cons, List.forall_mem_cons]
    by_cases hr : h.RevealsRoot l c t
    -- the answer has changed, and none of the links behind changes it again
    · have hlater := (ih hkept).mpr fun k _ => not_revealsRoot_insert hr
      rw [hlater, hstep]
      exact iff_of_false (not_not.mpr hr) fun hno => hno.1 hr
    · rw [← hstep.mpr hr, ih hkept]
      simp only [revealsRoot_insert_iff hfirst hr, hr, not_false_eq_true, true_and]

/-- What is revealed is a class that nothing mentions, and so the answer before is yes. -/
theorem isSubclass_of_revealsRoot (hl : ∀ l ∈ links, l.source ∉ h.ancestors c)
    (hr : ∃ l ∈ links, h.RevealsRoot l c t) :
    h.isSubclass c t = true ∧ (h.insertAll links).isSubclass c t = false := by
  obtain ⟨l, hmem, hr⟩ := hr
  have hbefore : h.isSubclass c t = true := by
    rw [hr.class_eq]
    exact isSubclass_of_not_contains hr.not_contains
  have hchanged : (h.insertAll links).isSubclass c t ≠ h.isSubclass c t :=
    fun he => (isSubclass_insertAll_eq_iff hl t).mp he l hmem hr
  rw [hbefore, ne_eq, Bool.not_eq_true] at hchanged
  exact ⟨hbefore, hchanged⟩

end Revealing

variable {e : Descriptor}

theorem assignable_ofClass_ofClass (h : Hierarchy) (c t : String) :
    h.assignable (.ofClass c) (.ofClass t) =
      some (decide (t = Descriptor.rootClass) || h.isSubclass c t) := by
  by_cases he : Descriptor.ofClass c = .ofClass t
  · cases he
    have hself : h.isSubclass c c = true := isSubclass_eq_true_iff.mpr (.inr (.inl .refl))
    rw [assignable.eq_def, if_pos rfl, hself, Bool.or_true]
  · rw [assignable_ofClass he]
    by_cases hroot : t = Descriptor.rootClass
    · simp only [hroot, if_true, decide_true, Bool.true_or, Descriptor.isReference]
    · simp only [hroot, if_false, decide_false, Bool.false_or]

theorem assignable_ofClass_of_ne (h : Hierarchy) (c : String) (he : ∀ t, e ≠ .ofClass t) :
    h.assignable (.ofClass c) e = some false := by
  rw [assignable.eq_def, if_neg (he c).symm]
  cases e with
  | ofClass t => exact absurd rfl (he t)
  | _ => rfl

end Hierarchy

namespace ArrayRef

variable {ref : ArrayRef} {h h' : Hierarchy} {links : List Link} {o : ObjectRef} {v : Value}

theorem accepts_object (ref : ArrayRef) (h : Hierarchy) (o : ObjectRef) :
    ref.accepts h (.object o) = match ref.element with
      | .ofClass t => some (decide (t = Descriptor.rootClass) || h.isSubclass o.className t)
      | _ => some false := by
  unfold accepts
  cases he : ref.element with
  | ofClass t => exact (if_pos rfl).trans (Hierarchy.assignable_ofClass_ofClass h o.className t)
  | array n t =>
    refine (if_pos rfl).trans (Hierarchy.assignable_ofClass_of_ne h o.className ?_)
    exact fun _ => Descriptor.noConfusion
  | _ => exact if_neg Bool.false_ne_true

/-- What a class is a subclass of decides where its objects can be stored. -/
theorem accepts_object_eq_iff : ref.accepts h' (.object o) = ref.accepts h (.object o) ↔
    ∀ t, ref.element = .ofClass t → t ≠ Descriptor.rootClass →
      h'.isSubclass o.className t = h.isSubclass o.className t := by
  rw [accepts_object, accepts_object]
  cases he : ref.element with
  | ofClass t =>
    simp only [Descriptor.ofClass.injEq, forall_eq', Option.some_inj]
    by_cases ht : t = Descriptor.rootClass
    · simp only [ht, decide_true, Bool.true_or, ne_eq, not_true_eq_false, false_implies]
    · simp only [ht, decide_false, Bool.false_or, ne_eq, not_false_eq_true, true_implies]
  | _ => exact iff_of_true rfl (by simp)

theorem accepts_insertAll_eq_iff (hl : ∀ l ∈ links, l.source ∉ h.ancestors o.className) :
    ref.accepts (h.insertAll links) (.object o) = ref.accepts h (.object o) ↔
      ∀ t, ref.element = .ofClass t → ∀ l ∈ links, ¬ h.RevealsRoot l o.className t := by
  rw [accepts_object_eq_iff]
  refine forall_congr' fun t => imp_congr_right fun _ => ?_
  rw [Hierarchy.isSubclass_insertAll_eq_iff hl t]
  constructor
  · intro hno l hmem hr
    exact hno hr.target_ne l hmem hr
  · exact fun hno _ => hno

theorem stored_congr (ha : ref.accepts h v = ref.accepts h' v) :
    ref.stored h v = ref.stored h' v := by
  unfold stored
  rw [ha]

end ArrayRef

theorem Heap.store_congr {heap : Heap} {ref : ArrayRef} {h h' : Hierarchy} {n : Int32} {v : Value}
    (ha : ref.accepts h v = ref.accepts h' v) : heap.store h ref n v = heap.store h' ref n v := by
  rw [Heap.store_eq, Heap.store_eq, ArrayRef.stored_congr ha]

namespace Hierarchy

/-- Links that start from no ancestor of a class change what it is a subclass of, and where its
objects can be stored, only when one of them reveals the root class, and then they make it a
subclass no longer. -/
theorem isSubclass_insertAll_eq_iff_and_store_insertAll (h : Hierarchy) (links : List Link)
    (c : String) (hl : ∀ l ∈ links, l.source ∉ h.ancestors c) :
    (∀ t, (h.insertAll links).isSubclass c t = h.isSubclass c t ↔
        ∀ l ∈ links, ¬ h.RevealsRoot l c t) ∧
      (∀ t, (∃ l ∈ links, h.RevealsRoot l c t) →
        h.isSubclass c t = true ∧ (h.insertAll links).isSubclass c t = false) ∧
      ∀ (ref : ArrayRef) (o : ObjectRef), o.className = c →
        (ref.accepts (h.insertAll links) (.object o) = ref.accepts h (.object o) ↔
          ∀ t, ref.element = .ofClass t → ∀ l ∈ links, ¬ h.RevealsRoot l c t) ∧
        ((∀ t, ref.element = .ofClass t → ∀ l ∈ links, ¬ h.RevealsRoot l c t) →
          ∀ (heap : Heap) (n : Int32),
            heap.store (h.insertAll links) ref n (.object o) = heap.store h ref n (.object o)) := by
  refine ⟨isSubclass_insertAll_eq_iff hl, fun t => isSubclass_of_revealsRoot hl, ?_⟩
  rintro ref o rfl
  refine ⟨ArrayRef.accepts_insertAll_eq_iff hl, fun hno heap n => ?_⟩
  exact Heap.store_congr ((ArrayRef.accepts_insertAll_eq_iff hl).mpr hno)

/-- A class that extends `A` is registered with an interface, and `A` is still no subclass of it, so
that an array of its objects still has no place for an object of `A`. The link of `A` to the root
class ends the root class being a subclass of `B`. -/
theorem store_insertAll_subclass :
    let h := empty.insert ⟨"A", .superclass, Descriptor.rootClass⟩
    let links : List Link := [⟨"B", .superclass, "A"⟩, ⟨"B", .interface, "I"⟩]
    let ref : ArrayRef := ⟨0, .array 1 (.ofClass "B"), .ofClass "B", 1, rfl, by decide, by decide⟩
    let v : Value := .object ⟨1, "A"⟩
    (∀ l ∈ links, l.source ∉ h.ancestors "A") ∧ h.isSubclass "A" "B" = false ∧
      (h.insertAll links).isSubclass "A" "B" = false ∧
      Heap.empty.store (h.insertAll links) ref 0 v = Heap.empty.store h ref 0 v ∧
      "A" ∉ empty.ancestors Descriptor.rootClass ∧
      empty.isSubclass Descriptor.rootClass "B" = true ∧
      h.isSubclass Descriptor.rootClass "B" = false := by
  intro h links ref v
  have hrefused : h.isSubclass "A" "B" = false := by decide +kernel +revert
  have hb : "B" ∉ h.ancestors "A" := by
    rw [mem_ancestors_iff]
    intro hb
    rw [isSubclass_eq_true_iff.mpr (.inr (.inl hb))] at hrefused
    cases hrefused
  have hl : ∀ l ∈ links, l.source ∉ h.ancestors "A" :=
    List.forall_mem_cons.mpr ⟨hb, List.forall_mem_singleton.mpr hb⟩
  have hne : "A" ≠ Descriptor.rootClass := by decide
  obtain ⟨hsub, -, hstore⟩ := isSubclass_insertAll_eq_iff_and_store_insertAll h links "A" hl
  have hsame := (hsub "B").mpr fun _ _ hr => hne hr.class_eq
  obtain ⟨-, hkept⟩ := hstore ref ⟨1, "A"⟩ rfl
  have hroot : "A" ∉ empty.ancestors Descriptor.rootClass := by
    rw [mem_ancestors_iff]
    exact fun ha => hne (eq_of_leads_of_not_contains rfl ha)
  let link : Link := ⟨"A", .superclass, Descriptor.rootClass⟩
  have hreveals : empty.RevealsRoot link Descriptor.rootClass "B" := ⟨rfl, by decide, rfl, rfl⟩
  obtain ⟨-, hrevealed, -⟩ := isSubclass_insertAll_eq_iff_and_store_insertAll empty [link]
    Descriptor.rootClass (List.forall_mem_singleton.mpr hroot)
  exact ⟨hl, hrefused, hsame.trans hrefused, hkept (fun t _ _ _ hr => hne hr.class_eq) .empty 0,
    hroot, hrevealed "B" ⟨link, List.mem_singleton_self link, hreveals⟩⟩

/-- With nothing registered the root class counts as a subclass of `X`, and no longer does when
another class is said to extend it. -/
theorem isSubclass_rootClass_insert_ne :
    let l : Link := ⟨"A", .superclass, Descriptor.rootClass⟩
    l.source ∉ empty.ancestors Descriptor.rootClass ∧
      empty.isSubclass Descriptor.rootClass "X" = true ∧
      (empty.insert l).isSubclass Descriptor.rootClass "X" = false := by
  intro l
  have hne : l.source ≠ Descriptor.rootClass := by decide
  refine ⟨?_, isSubclass_of_not_contains rfl, ?_⟩
  · rw [mem_ancestors_iff]
    exact fun hs => hne (eq_of_leads_of_not_contains rfl hs)
  · rw [← Bool.not_eq_true, isSubclass_insert_rootClass hne rfl rfl]
    decide

end Hierarchy

end DalvikStores
