import DalvikStores.Proofs.Assignability
import DalvikStores.Proofs.Ancestry
import Mathlib.Data.Set.Card
import Mathlib.Data.String.Basic

/-!
# What the links of a hierarchy decide

A hierarchy numbers its classes and keeps its edges in the order in which the links were
registered, and an edge as often as its link was. None of this shows. The ancestors of a class are
the class and what the links lead to, listed in the order of the names; the known classes are the
ends of the links. Every answer depends on which links there are, and hierarchies with the same
links are not told apart.
-/

namespace DalvikStores.Hierarchy

open Relation (ReflTransGen TransGen)

section Queries

variable {h : Hierarchy} {a c : String} {links : List Link}

theorem links_insertAll_empty (links : List Link) : (empty.insertAll links).links = links := by
  rw [links_insertAll]
  rfl

/-- No two nodes have the same name, and so there are as many of them as there are names. -/
theorem classCount_eq_ncard (h : Hierarchy) :
    h.classCount = {c | ∃ l ∈ h.links, c = l.source ∨ c = l.target}.ncard := by
  have hset : {c | ∃ l ∈ h.links, c = l.source ∨ c = l.target} =
      (h.nodes.toFinset : Set String) := by
    ext c
    rw [List.coe_toFinset, Set.mem_ofPred_eq, Set.mem_ofPred_eq, h.built.mem_nodes_iff]
  rw [hset, Set.ncard_coe_finset, List.toFinset_card_of_nodup h.built.numbered.nodup, classCount]

theorem mem_ancestors_iff_transGen :
    a ∈ h.ancestors c ↔ a = c ∨ TransGen (Leads h.links) c a := by
  rw [mem_ancestors_iff, Relation.reflTransGen_iff_eq_or_transGen]

theorem nodup_ancestors (h : Hierarchy) (c : String) : (h.ancestors c).Nodup := by
  unfold ancestors
  split
  · rw [(List.mergeSort_perm _ _).nodup_iff]
    exact h.built.numbered.nodup_reached _
  · exact List.nodup_singleton c

theorem pairwise_le_ancestors (h : Hierarchy) (c : String) :
    (h.ancestors c).Pairwise (· ≤ ·) := by
  unfold ancestors
  split
  · refine List.Pairwise.imp of_decide_eq_true (List.pairwise_mergeSort ?_ ?_ _)
    · intro a b c hab hbc
      rw [decide_eq_true_eq] at hab hbc ⊢
      exact String.le_trans hab hbc
    · intro a b
      rw [Bool.or_eq_true, decide_eq_true_eq, decide_eq_true_eq]
      exact String.le_total a b
  · exact List.pairwise_singleton _ c

/-- The ancestors are listed in the order of their names, each once. -/
theorem pairwise_ancestors (h : Hierarchy) (c : String) : (h.ancestors c).Pairwise (· < ·) := by
  refine ((h.pairwise_le_ancestors c).and (h.nodup_ancestors c)).imp ?_
  rintro a b ⟨hab, hne⟩
  exact lt_of_le_of_ne hab hne

end Queries

/-- No query tells the two hierarchies apart. -/
structure Indistinct (h h' : Hierarchy) : Prop where
  ancestors (c : String) : h.ancestors c = h'.ancestors c
  contains (c : String) : h.contains c = h'.contains c
  classCount : h.classCount = h'.classCount
  isSubclass (c t : String) : h.isSubclass c t = h'.isSubclass c t
  assignable (s t : Descriptor) : h.assignable s t = h'.assignable s t

section SameLinks

variable {h h' : Hierarchy} (hl : ∀ l, l ∈ h.links ↔ l ∈ h'.links)
include hl

theorem leads_eq_of_mem_iff : Leads h.links = Leads h'.links := by
  funext a b
  simp only [Leads, hl]

theorem ancestors_eq_of_mem_iff (c : String) : h.ancestors c = h'.ancestors c := by
  have hmem : ∀ a, a ∈ h.ancestors c ↔ a ∈ h'.ancestors c := by
    intro a
    rw [mem_ancestors_iff, mem_ancestors_iff, leads_eq_of_mem_iff hl]
  have hp := h.pairwise_ancestors c
  have hp' := h'.pairwise_ancestors c
  apply List.Perm.eq_of_pairwise _ hp hp'
  · exact (List.perm_ext_iff_of_nodup (hp.imp ne_of_lt) (hp'.imp ne_of_lt)).mpr hmem
  · intro a b _ _ hab hba
    exact absurd hba (lt_asymm hab)

theorem contains_eq_of_mem_iff (c : String) : h.contains c = h'.contains c := by
  rw [Bool.eq_iff_iff, contains_eq_true_iff, contains_eq_true_iff]
  simp only [hl]

theorem classCount_eq_of_mem_iff : h.classCount = h'.classCount := by
  rw [classCount_eq_ncard, classCount_eq_ncard]
  simp only [hl]

theorem isSubclass_eq_of_mem_iff (c t : String) : h.isSubclass c t = h'.isSubclass c t := by
  have hdefines : ∀ a, h.defines a = h'.defines a := by
    intro a
    rw [Bool.eq_iff_iff, defines_eq_true_iff, defines_eq_true_iff]
    simp only [hl]
  rw [Bool.eq_iff_iff, isSubclass_eq_true_iff, isSubclass_eq_true_iff,
    contains_eq_of_mem_iff hl, leads_eq_of_mem_iff hl]
  simp only [unsettled_iff, hdefines]

end SameLinks

section Assignability

variable {h h' : Hierarchy} {s : Descriptor}

theorem assignable_arrays {m n : ℕ} {t : Descriptor}
    (hne : Descriptor.array m s ≠ .array n t) :
    h.assignable (.array m s) (.array n t) =
      match (Descriptor.array m s).element, (Descriptor.array n t).element with
      | .ok s', .ok t' =>
        if s'.isReference && t'.isReference then h.assignable s' t' else some false
      | _, _ => none := by
  rw [assignable, if_neg hne]
  split
  · rename_i hs ht
    rw [hs, ht]
  · rename_i hno
    split
    · rename_i hs ht
      exact absurd (hno _ _ hs ht) id
    · rfl

theorem assignable_ofClass {t : String} (hne : s ≠ .ofClass t) :
    h.assignable s (.ofClass t) =
      if t = Descriptor.rootClass then some s.isReference
      else
        match s with
        | .array _ _ => some (arrayInterfaces.contains t)
        | .ofClass c => some (h.isSubclass c t)
        | _ => some false := by
  rw [assignable.eq_def, if_neg hne]
  cases s <;> rfl

/-- Assignability asks a hierarchy about subclasses only. -/
theorem assignable_congr (hsub : ∀ c t, h.isSubclass c t = h'.isSubclass c t)
    (s t : Descriptor) : h.assignable s t = h'.assignable s t := by
  fun_induction h.assignable s t with
  | case1 t => rw [assignable.eq_def, if_pos rfl]
  | case2 m s n t s' t' hs ht hr hne ih =>
    rw [assignable_arrays hne, hs, ht, ih]
    exact (if_pos hr).symm
  | case3 m s n t s' t' hs ht hr hne =>
    rw [assignable_arrays hne, hs, ht]
    exact (if_neg hr).symm
  | case4 m s n t hno hne =>
    rw [assignable_arrays hne]
    split
    · rename_i hs ht
      exact absurd (hno _ _ hs ht) id
    · rfl
  | case5 s hne => rw [assignable_ofClass hne, if_pos rfl]
  | case6 t hroot m s hne => rw [assignable_ofClass hne, if_neg hroot]
  | case7 t hroot c hne => rw [assignable_ofClass hne, if_neg hroot, hsub]
  | case8 s t hroot harray hclass hne =>
    rw [assignable_ofClass hne, if_neg hroot]
    split
    · exact absurd rfl (harray _ _)
    · exact absurd rfl (hclass _)
    · rfl
  | case9 s t hne hclass harrays =>
    rw [assignable.eq_def, if_neg hne]
    split
    · exact absurd rfl (harrays _ _ _ _ rfl)
    · exact absurd rfl (hclass _)
    · rfl

end Assignability

theorem indistinct_of_mem_iff {h h' : Hierarchy} (hl : ∀ l, l ∈ h.links ↔ l ∈ h'.links) :
    h.Indistinct h' where
  ancestors := ancestors_eq_of_mem_iff hl
  contains := contains_eq_of_mem_iff hl
  classCount := classCount_eq_of_mem_iff hl
  isSubclass := isSubclass_eq_of_mem_iff hl
  assignable := assignable_congr (isSubclass_eq_of_mem_iff hl)

/-- The graph that insertions make is the list of their links: its nodes carry the names at the
ends of the links, each name a single node, and its edges are the links in their order. So all
answers are in terms of the links, whatever their order and however often each was inserted. -/
theorem answers_of_links (links : List Link) :
    let h := empty.insertAll links
    (h.links = links ∧ (∀ h' : Hierarchy, h'.links = links → h' = h) ∧
        (∀ c i, h.ids.lookup c = some i ↔ h.nodes[i]? = some c) ∧
        ∀ c, c ∈ h.nodes ↔ ∃ l ∈ links, c = l.source ∨ c = l.target) ∧
      (∀ c, (h.ancestors c).Pairwise (· < ·) ∧
        ∀ a, a ∈ h.ancestors c ↔ a = c ∨ TransGen (Leads links) c a) ∧
      (∀ c, h.contains c = true ↔ ∃ l ∈ links, c = l.source ∨ c = l.target) ∧
      h.classCount = {c | ∃ l ∈ links, c = l.source ∨ c = l.target}.ncard ∧
      ∀ links' : List Link, (∀ l, l ∈ links ↔ l ∈ links') →
        h.Indistinct (empty.insertAll links') := by
  intro h
  have hlinks : h.links = links := links_insertAll_empty links
  refine ⟨⟨hlinks, fun h' hl => eq_of_links_eq (hl.trans hlinks.symm),
    h.built.numbered.lookup_eq_some_iff, fun c => ?_⟩,
    fun c => ⟨h.pairwise_ancestors c, fun a => ?_⟩, fun c => ?_, ?_, fun links' hl => ?_⟩
  · rw [h.built.mem_nodes_iff, hlinks]
  · rw [mem_ancestors_iff_transGen, hlinks]
  · rw [contains_eq_true_iff, hlinks]
  · rw [classCount_eq_ncard, hlinks]
  · apply indistinct_of_mem_iff
    rw [hlinks, links_insertAll_empty]
    exact hl

/-- A circle of two classes, registered once, and in another order with a repetition. -/
theorem indistinct_circle_repeated :
    let links : List Link := [⟨"A", .superclass, "B"⟩, ⟨"B", .superclass, "A"⟩]
    let links' : List Link :=
      [⟨"B", .superclass, "A"⟩, ⟨"A", .superclass, "B"⟩, ⟨"B", .superclass, "A"⟩]
    (∀ l, l ∈ links ↔ l ∈ links') ∧ (empty.insertAll links).Indistinct (empty.insertAll links') := by
  intro links links'
  have hl : ∀ l, l ∈ links ↔ l ∈ links' := by
    intro l
    simp only [links, links', List.mem_cons, List.not_mem_nil, or_false]
    tauto
  obtain ⟨-, -, -, -, hsame⟩ := answers_of_links links
  exact ⟨hl, hsame links' hl⟩

end DalvikStores.Hierarchy
