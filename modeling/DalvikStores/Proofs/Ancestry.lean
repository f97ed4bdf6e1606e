import DalvikStores.Proofs.Naming
import Mathlib.Logic.Relation

/-!
# Ancestors and completions

A search from a node visits the nodes that the edges lead to from it, each once, in any number of
steps and whether or not the edges go round in circles. So the ancestors of a class are the classes
that the registered links lead to from it. Links whose sources are not among them add no ancestor.

A class is unsettled as long as the class it extends may still be registered. A completion of a
hierarchy registers links that start from unsettled classes only, and leaves all that is settled as
it is. The test for subclasses refuses a target exactly when no completion makes it an ancestor.
-/

namespace DalvikStores

open Relation (ReflTransGen)

namespace Graph

variable {g : Graph} {edges more : List Edge} {stack visited : List ℕ} {e : Edge} {i j : ℕ}
  {a b c : String}

def Joins (edges : List Edge) (i j : ℕ) : Prop := ∃ e ∈ edges, e.source = i ∧ e.target = j

theorem Joins.of_mem (he : e ∈ edges) : Joins edges e.source e.target := ⟨e, he, rfl, rfl⟩

theorem joins_mono (hsub : edges ⊆ more) (hij : ReflTransGen (Joins edges) i j) :
    ReflTransGen (Joins more) i j := by
  refine ReflTransGen.mono ?_ i j hij
  rintro x y ⟨e, he, hx, hy⟩
  exact ⟨e, hsub he, hx, hy⟩

theorem mem_departing_iff : e ∈ departing edges i ↔ e ∈ edges ∧ e.source = i := by
  rw [departing, List.mem_filter, beq_iff_eq]

theorem mem_remaining_iff : e ∈ remaining edges i ↔ e ∈ edges ∧ e.source ≠ i := by
  rw [remaining, List.mem_filter, Bool.not_eq_true', beq_eq_false_iff_ne]

theorem mem_search_of_mem (hj : j ∈ visited ∨ j ∈ stack) : j ∈ search edges stack visited := by
  fun_induction search edges stack visited with
  | case1 edges visited => exact hj.resolve_right List.not_mem_nil
  | case2 edges visited i stack hi ih =>
    apply ih
    rcases hj with hj | hj
    · exact .inl hj
    · rcases List.mem_cons.mp hj with rfl | hj
      · exact .inl hi
      · exact .inr hj
  | case3 edges visited i stack hi ih =>
    apply ih
    rw [List.mem_append, List.mem_append, List.mem_singleton]
    rcases hj with hj | hj
    · exact .inl (.inl hj)
    · rcases List.mem_cons.mp hj with rfl | hj
      · exact .inl (.inr rfl)
      · exact .inr (.inr hj)

/-- No edge leads out of what a search visits: its end comes on the stack when its source is
visited. Until then the edge remains. -/
theorem target_mem_search (hnew : ∀ e ∈ edges, e.source ∉ visited) (he : e ∈ edges)
    (hs : e.source ∈ search edges stack visited) : e.target ∈ search edges stack visited := by
  fun_induction search edges stack visited with
  | case1 edges visited => exact absurd hs (hnew e he)
  | case2 edges visited i stack hi ih => exact ih hnew he hs
  | case3 edges visited i stack hi ih =>
    by_cases hei : e.source = i
    · apply mem_search_of_mem
      right
      have hmem : e ∈ departing edges i := mem_departing_iff.mpr ⟨he, hei⟩
      exact List.mem_append_left _ (List.mem_map_of_mem hmem)
    · refine ih ?_ (mem_remaining_iff.mpr ⟨he, hei⟩) hs
      intro e' he'
      obtain ⟨he', hei'⟩ := mem_remaining_iff.mp he'
      rw [List.mem_append, List.mem_singleton, not_or]
      exact ⟨hnew e' he', hei'⟩

theorem mem_or_exists_of_mem_search (hj : j ∈ search edges stack visited) :
    j ∈ visited ∨ ∃ i ∈ stack, ReflTransGen (Joins edges) i j := by
  fun_induction search edges stack visited with
  | case1 edges visited => exact .inl hj
  | case2 edges visited i stack hi ih =>
    refine (ih hj).imp_right ?_
    rintro ⟨i', hi', hij⟩
    exact ⟨i', List.mem_cons_of_mem i hi', hij⟩
  | case3 edges visited i stack hi ih =>
    rcases ih hj with hj | ⟨i', hi', hij⟩
    · rcases List.mem_append.mp hj with hj | hj
      · exact .inl hj
      · rw [List.mem_singleton.mp hj]
        exact .inr ⟨i, List.mem_cons_self, .refl⟩
    · right
      have hij' : ReflTransGen (Joins edges) i' j := joins_mono List.filter_sublist.subset hij
      rcases List.mem_append.mp hi' with hi' | hi'
      · obtain ⟨e, he, rfl⟩ := List.mem_map.mp hi'
        obtain ⟨hmem, rfl⟩ := mem_departing_iff.mp he
        exact ⟨e.source, List.mem_cons_self, hij'.head (.of_mem hmem)⟩
      · exact ⟨i', List.mem_cons_of_mem i hi', hij'⟩

theorem nodup_search (hv : visited.Nodup) : (search edges stack visited).Nodup := by
  fun_induction search edges stack visited with
  | case1 edges visited => exact hv
  | case2 edges visited i stack hi ih => exact ih hv
  | case3 edges visited i stack hi ih =>
    apply ih
    rw [← List.concat_eq_append]
    exact (List.nodup_concat visited i).mpr ⟨hi, hv⟩

theorem mem_search_singleton_iff :
    j ∈ search edges [i] [] ↔ ReflTransGen (Joins edges) i j := by
  constructor
  · intro hj
    rcases mem_or_exists_of_mem_search hj with hj | ⟨i', hi', hij⟩
    · cases hj
    · rwa [List.mem_singleton.mp hi'] at hij
  · intro hij
    induction hij with
    | refl => exact mem_search_of_mem (.inr (List.mem_singleton_self i))
    | tail _ he ih =>
      obtain ⟨e, he, rfl, rfl⟩ := he
      exact target_mem_search (fun _ _ => List.not_mem_nil) he ih

end Graph

namespace Hierarchy

def Leads (links : List Link) (a b : String) : Prop := ∃ l ∈ links, l.source = a ∧ l.target = b

section Leading

variable {links more : List Link} {a b c : String} {l : Link}

theorem Leads.of_mem (hl : l ∈ links) : Leads links l.source l.target := ⟨l, hl, rfl, rfl⟩

theorem leads_mono (hsub : links ⊆ more) (hab : ReflTransGen (Leads links) a b) :
    ReflTransGen (Leads more) a b := by
  refine ReflTransGen.mono ?_ a b hab
  rintro x y ⟨l, hl, hx, hy⟩
  exact ⟨l, hsub hl, hx, hy⟩

/-- Links that start from none of the ancestors of a class add no ancestor to it. -/
theorem leads_of_leads_append (hmore : ∀ l ∈ more, ¬ ReflTransGen (Leads links) c l.source)
    (ha : ReflTransGen (Leads (links ++ more)) c a) : ReflTransGen (Leads links) c a := by
  induction ha with
  | refl => exact .refl
  | tail _ hl ih =>
    obtain ⟨l, hl, rfl, rfl⟩ := hl
    rcases List.mem_append.mp hl with hl | hl
    · exact ih.tail (.of_mem hl)
    · exact absurd ih (hmore l hl)

end Leading

end Hierarchy

namespace Graph

open Hierarchy (Leads)

variable {g : Graph} {i j : ℕ} {a c : String}

/-- Nodes are joined as their names are linked. -/
theorem Numbered.leads_iff (hg : g.Numbered) (hi : g.nodes[i]? = some c) :
    Leads g.links c a ↔ ∃ j, Joins g.edges i j ∧ g.nodes[j]? = some a := by
  constructor
  · rintro ⟨l, hl, rfl, rfl⟩
    obtain ⟨e, he, hs, -, ht⟩ := mem_links_iff.mp hl
    rw [← hg.lookup_eq_some_iff] at hi hs
    have hei : e.source = i := Option.some.inj (hs.symm.trans hi)
    exact ⟨e.target, ⟨e, he, hei, rfl⟩, ht⟩
  · rintro ⟨j, ⟨e, he, rfl, rfl⟩, ha⟩
    exact ⟨⟨c, e.kind, a⟩, mem_links_iff.mpr ⟨e, he, hi, rfl, ha⟩, rfl, rfl⟩

theorem Numbered.reflTransGen_leads_iff (hg : g.Numbered) (hi : g.nodes[i]? = some c) :
    ReflTransGen (Leads g.links) c a ↔
      ∃ j, ReflTransGen (Joins g.edges) i j ∧ g.nodes[j]? = some a := by
  constructor
  · intro ha
    induction ha with
    | refl => exact ⟨i, .refl, hi⟩
    | tail _ hab ih =>
      obtain ⟨j, hij, hj⟩ := ih
      obtain ⟨k, hjk, hk⟩ := (hg.leads_iff hj).mp hab
      exact ⟨k, hij.tail hjk, hk⟩
  · rintro ⟨j, hij, hj⟩
    induction hij generalizing a with
    | refl =>
      rw [hi, Option.some_inj] at hj
      rw [hj]
    | tail _ hjk ih =>
      obtain ⟨e, he, rfl, rfl⟩ := hjk
      obtain ⟨b, hb⟩ : ∃ b, g.nodes[e.source]? = some b :=
        ⟨_, List.getElem?_eq_getElem (hg.source_lt he)⟩
      exact (ih hb).tail ((hg.leads_iff hb).mpr ⟨e.target, .of_mem he, hj⟩)

theorem Numbered.mem_reached_iff (hg : g.Numbered) (hi : g.nodes[i]? = some c) :
    a ∈ g.reached i ↔ ReflTransGen (Leads g.links) c a := by
  rw [hg.reflTransGen_leads_iff hi, reached, List.mem_filterMap]
  simp only [mem_search_singleton_iff]

/-- Different nodes have different names, and a search visits no node twice. -/
theorem Numbered.nodup_reached (hg : g.Numbered) (i : ℕ) : (g.reached i).Nodup := by
  refine List.Nodup.filterMap ?_ (nodup_search List.nodup_nil)
  intro j k c hj hk
  rw [Option.mem_def, ← hg.lookup_eq_some_iff] at hj hk
  exact Option.some.inj (hj.symm.trans hk)

end Graph

namespace Hierarchy

variable {h : Hierarchy} {a c t : String} {i : ℕ} {links : List Link}

theorem contains_of_mem_links {l : Link} (hl : l ∈ h.links) : h.contains l.source = true :=
  contains_eq_true_iff.mpr ⟨l, hl, .inl rfl⟩

/-- A class that no link mentions leads to no other class. -/
theorem eq_of_leads_of_not_contains (hc : h.contains c = false)
    (ha : ReflTransGen (Leads h.links) c a) : a = c := by
  rcases ha.cases_head with he | ⟨b, ⟨l, hl, hs, -⟩, -⟩
  · exact he.symm
  · rw [← hs, contains_of_mem_links hl] at hc
    cases hc

theorem mem_reached_iff (hi : h.ids.lookup c = some i) :
    a ∈ h.reached i ↔ ReflTransGen (Leads h.links) c a :=
  have hg := h.built.numbered
  hg.mem_reached_iff ((hg.lookup_eq_some_iff c i).mp hi)

theorem mem_ancestors_iff : a ∈ h.ancestors c ↔ ReflTransGen (Leads h.links) c a := by
  unfold ancestors
  split
  · rename_i i hi
    rw [List.mem_mergeSort, mem_reached_iff hi]
  · rename_i hi
    rw [List.mem_singleton]
    refine ⟨fun ha => ha ▸ .refl, eq_of_leads_of_not_contains ?_⟩
    rw [contains, hi]
    rfl

theorem mem_ancestors_insertAll_iff :
    a ∈ (h.insertAll links).ancestors c ↔ ReflTransGen (Leads (h.links ++ links)) c a := by
  rw [mem_ancestors_iff, links_insertAll]

/-- The class that an unsettled class extends is not registered, and there may be one. -/
structure Unsettled (h : Hierarchy) (c : String) : Prop where
  ne_rootClass : c ≠ Descriptor.rootClass
  not_extended : ∀ l ∈ h.links, l.source = c → l.kind ≠ .superclass

theorem unsettled_iff : h.Unsettled c ↔ c ≠ Descriptor.rootClass ∧ h.defines c = false := by
  rw [← Bool.not_eq_true, defines_eq_true_iff]
  constructor
  · rintro ⟨hne, hno⟩
    exact ⟨hne, fun ⟨l, hl, hk, hs⟩ => hno l hl hs hk⟩
  · rintro ⟨hne, hno⟩
    exact ⟨hne, fun l hl hs hk => hno ⟨l, hl, hk, hs⟩⟩

theorem unsettled_of_not_contains (hne : c ≠ Descriptor.rootClass) (hc : h.contains c = false) :
    h.Unsettled c where
  ne_rootClass := hne
  not_extended l hl hs := by
    rw [← hs, contains_of_mem_links hl] at hc
    cases hc

theorem isSubclass_eq_true_iff : h.isSubclass c t = true ↔
    h.contains c = false ∨ ReflTransGen (Leads h.links) c t ∨
      ∃ a, ReflTransGen (Leads h.links) c a ∧ h.Unsettled a := by
  unfold isSubclass
  cases hi : h.ids.lookup c with
  | some i =>
    have hc : ¬ h.contains c = false := by simp [contains, hi]
    rw [or_iff_right hc]
    simp only [Bool.or_eq_true, List.contains_iff_mem, List.any_eq_true, mem_reached_iff hi,
      Bool.and_eq_true, bne_iff_ne, Bool.not_eq_true', ← unsettled_iff]
  | none => simp [contains, hi]

/-- A link from an unsettled ancestor can lead anywhere. -/
theorem exists_completion_of_unsettled (ha : ReflTransGen (Leads h.links) c a)
    (hu : h.Unsettled a) (t : String) :
    ∃ links : List Link, (∀ l ∈ links, h.Unsettled l.source) ∧
      t ∈ (h.insertAll links).ancestors c := by
  have hlink : Leads (h.links ++ [⟨a, .superclass, t⟩]) a t :=
    .of_mem (l := ⟨a, .superclass, t⟩) (List.mem_append_right _ (List.mem_singleton_self _))
  refine ⟨[⟨a, .superclass, t⟩], ?_, ?_⟩
  · intro l hl
    rw [List.mem_singleton.mp hl]
    exact hu
  · rw [mem_ancestors_insertAll_iff]
    exact (leads_mono (List.subset_append_left _ _) ha).tail hlink

/-- A class counts as a subclass of a target exactly when some completion of the hierarchy makes
the target one of its ancestors. -/
theorem isSubclass_iff_exists_completion (h : Hierarchy) (c t : String)
    (hc : c = Descriptor.rootClass → h.contains c = true) :
    h.isSubclass c t = true ↔
      ∃ links : List Link, (∀ l ∈ links, h.Unsettled l.source) ∧
        t ∈ (h.insertAll links).ancestors c := by
  rw [isSubclass_eq_true_iff]
  constructor
  · rintro (hno | ht | ⟨a, ha, hu⟩)
    · have hne : c ≠ Descriptor.rootClass := by
        intro he
        rw [hc he] at hno
        cases hno
      exact exists_completion_of_unsettled .refl (unsettled_of_not_contains hne hno) t
    · refine ⟨[], by simp, ?_⟩
      rw [mem_ancestors_insertAll_iff, List.append_nil]
      exact ht
    · exact exists_completion_of_unsettled ha hu t
  · rintro ⟨links, hlinks, ht⟩
    rw [mem_ancestors_insertAll_iff] at ht
    by_cases hall : ∃ a, ReflTransGen (Leads h.links) c a ∧ h.Unsettled a
    · exact .inr (.inr hall)
    · -- the links of a completion start outside of a settled ancestry
      right; left
      apply leads_of_leads_append _ ht
      intro l hl hs
      exact hall ⟨l.source, hs, hlinks l hl⟩

def circular : Hierarchy :=
  empty.insertAll [⟨"A", .superclass, "B"⟩, ⟨"B", .superclass, "A"⟩, ⟨"B", .interface, "I"⟩]

/-- The interface can still make anything an ancestor of both classes, until its own superclass is
registered as the root class. -/
theorem exists_completion_circular :
    let h := circular.insert ⟨"I", .superclass, Descriptor.rootClass⟩
    ("A" = Descriptor.rootClass → circular.contains "A" = true) ∧
      ("A" = Descriptor.rootClass → h.contains "A" = true) ∧
      (∃ links : List Link, (∀ l ∈ links, circular.Unsettled l.source) ∧
        "X" ∈ (circular.insertAll links).ancestors "A") ∧
      ¬ ∃ links : List Link, (∀ l ∈ links, h.Unsettled l.source) ∧
        "X" ∈ (h.insertAll links).ancestors "A" := by
  intro h
  have hne : "A" ≠ Descriptor.rootClass := by decide
  have hopen : circular.isSubclass "A" "X" = true := by decide +kernel
  have hclosed : ¬ h.isSubclass "A" "X" = true := by decide +kernel +revert
  refine ⟨fun he => absurd he hne, fun he => absurd he hne, ?_, fun hx => hclosed ?_⟩
  · exact (isSubclass_iff_exists_completion circular "A" "X" fun he => absurd he hne).mp hopen
  · exact (isSubclass_iff_exists_completion h "A" "X" fun he => absurd he hne).mpr hx

end Hierarchy

end DalvikStores
