import DalvikStores.Hierarchy.Basic
import Mathlib.Data.List.Nodup
import Mathlib.Tactic.Common

/-!
# The graph behind the links

The table of numbers and the list of nodes say the same: a class has a number exactly when the
node of this number has its name. The edges of a graph, read with these names, are the links that
were inserted, in the order of the insertions, and its nodes and defined classes are those that the
links tell. A graph is no more than its links: two hierarchies with the same list of links are the
same.
-/

namespace DalvikStores

namespace Graph

variable {g : Graph} {e : Edge} {l : Link} {c d : String} {i : ℕ}

/-- Numbers and names belong together, and edges run between nodes. -/
structure Numbered (g : Graph) : Prop where
  lookup_eq_some_iff (c : String) (i : ℕ) : g.ids.lookup c = some i ↔ g.nodes[i]? = some c
  source_lt {e : Edge} (he : e ∈ g.edges) : e.source < g.nodes.length
  target_lt {e : Edge} (he : e ∈ g.edges) : e.target < g.nodes.length

theorem numbered_empty : empty.Numbered where
  lookup_eq_some_iff c i := by simp [empty]
  source_lt he := absurd he List.not_mem_nil
  target_lt he := absurd he List.not_mem_nil

theorem Numbered.lookup_eq_none_iff (hg : g.Numbered) : g.ids.lookup c = none ↔ c ∉ g.nodes := by
  rw [Option.eq_none_iff_forall_ne_some, List.mem_iff_getElem?, not_exists]
  exact forall_congr' fun i => not_congr (hg.lookup_eq_some_iff c i)

theorem Numbered.nodup (hg : g.Numbered) : g.nodes.Nodup := by
  rw [List.nodup_iff_injective_getElem]
  intro i j hij
  have hi := (hg.lookup_eq_some_iff _ _).mpr (List.getElem?_eq_getElem i.2)
  have hj := (hg.lookup_eq_some_iff _ _).mpr (List.getElem?_eq_getElem j.2)
  dsimp only at hij
  rw [hij, hj, Option.some_inj] at hi
  exact Fin.ext hi.symm

theorem Numbered.addNode (hg : g.Numbered) (hc : c ∉ g.nodes) : (g.addNode c).Numbered where
  lookup_eq_some_iff d i := by
    change List.lookup d ((c, g.nodes.length) :: g.ids) = some i ↔ (g.nodes ++ [c])[i]? = some d
    rw [List.lookup_cons, List.getElem?_append]
    by_cases hd : d = c
    · subst hd
      simp only [BEq.rfl, Option.some_inj]
      split_ifs with hi
      · refine iff_of_false (Nat.ne_of_gt hi) fun hd => hc (List.mem_of_getElem? hd)
      · rw [List.getElem?_singleton, Option.ite_none_right_eq_some]
        simp only [and_true]
        omega
    · rw [beq_false_of_ne hd]
      dsimp only
      rw [hg.lookup_eq_some_iff]
      split_ifs with hi
      · rfl
      · rw [List.getElem?_eq_none (Nat.le_of_not_lt hi), List.getElem?_singleton]
        simp [Ne.symm hd]
  source_lt he := Nat.lt_of_lt_of_le (hg.source_lt he) (by simp [Graph.addNode])
  target_lt he := Nat.lt_of_lt_of_le (hg.target_lt he) (by simp [Graph.addNode])

/-- The second graph is the first one with a node of the number for the class. -/
structure HasNode (g : Graph) (c : String) (i : ℕ) (g' : Graph) : Prop where
  numbered : g'.Numbered
  getElem?_eq : g'.nodes[i]? = some c
  getElem?_of_lt {j : ℕ} (hj : j < g.nodes.length) : g'.nodes[j]? = g.nodes[j]?
  mem_nodes_iff (d : String) : d ∈ g'.nodes ↔ d ∈ g.nodes ∨ d = c
  edges_eq : g'.edges = g.edges
  defined_eq : g'.defined = g.defined

theorem Numbered.hasNode (hg : g.Numbered) (c : String) :
    g.HasNode c (g.node c).1 (g.node c).2 := by
  unfold node
  cases hc : g.ids.lookup c with
  | some i =>
    have hi := (hg.lookup_eq_some_iff c i).mp hc
    refine ⟨hg, hi, fun _ => rfl, fun d => ?_, rfl, rfl⟩
    rw [or_iff_left_of_imp]
    rintro rfl
    exact List.mem_of_getElem? hi
  | none =>
    refine ⟨hg.addNode (hg.lookup_eq_none_iff.mp hc), ?_, List.getElem?_append_left, fun d => ?_,
      rfl, rfl⟩
    · exact List.getElem?_concat_length
    · rw [Graph.addNode, List.mem_append, List.mem_singleton]

theorem mem_links_iff : l ∈ g.links ↔ ∃ e ∈ g.edges, g.nodes[e.source]? = some l.source ∧
    e.kind = l.kind ∧ g.nodes[e.target]? = some l.target := by
  rw [links, List.mem_filterMap]
  refine exists_congr fun e => and_congr_right fun _ => ?_
  cases hs : g.nodes[e.source]? with
  | none => simp [link?, hs]
  | some source =>
    cases ht : g.nodes[e.target]? with
    | none => simp [link?, hs, ht]
    | some target =>
      cases l
      simp [link?, hs, ht]

theorem HasNode.links_eq {g' : Graph} (hg : g.Numbered) (hn : g.HasNode c i g') :
    g'.links = g.links := by
  rw [links, links, hn.edges_eq]
  apply List.filterMap_congr
  intro e he
  rw [link?, link?, hn.getElem?_of_lt (hg.source_lt he), hn.getElem?_of_lt (hg.target_lt he)]

theorem mem_define_iff {defined : List String} :
    c ∈ define defined l ↔ c ∈ defined ∨ l.kind = .superclass ∧ l.source = c := by
  unfold define
  cases l.kind with
  | superclass => simp [or_comm, eq_comm]
  | interface => simp

/-- What the insertion of a link changes: its two classes have nodes, the last edge runs between
them, and the source may be defined. -/
structure Inserts (g : Graph) (l : Link) (g' : Graph) : Prop where
  numbered : g'.Numbered
  links_eq : g'.links = g.links ++ [l]
  mem_nodes_iff (c : String) : c ∈ g'.nodes ↔ c ∈ g.nodes ∨ c = l.source ∨ c = l.target
  mem_defined_iff (c : String) :
    c ∈ g'.defined ↔ c ∈ g.defined ∨ l.kind = .superclass ∧ l.source = c

theorem Numbered.addEdge (hg : g.Numbered) (hs : e.source < g.nodes.length)
    (ht : e.target < g.nodes.length) (defined : List String) :
    Numbered { g with edges := g.edges ++ [e], defined } where
  lookup_eq_some_iff := hg.lookup_eq_some_iff
  source_lt he := by
    rcases List.mem_append.mp he with he | he
    · exact hg.source_lt he
    · rwa [List.mem_singleton.mp he]
  target_lt he := by
    rcases List.mem_append.mp he with he | he
    · exact hg.target_lt he
    · rwa [List.mem_singleton.mp he]

/-- The two nodes are found or added one after the other, and then joined. -/
theorem Numbered.inserts (hg : g.Numbered) (l : Link) : g.Inserts l (g.insert l) := by
  have hsource := hg.hasNode l.source
  have htarget := hsource.numbered.hasNode l.target
  rcases hp : g.node l.source with ⟨i, g₁⟩
  rcases hq : g₁.node l.target with ⟨j, g₂⟩
  simp only [hp, hq] at hsource htarget
  have hinsert : g.insert l =
      { g₂ with edges := g₂.edges ++ [⟨i, l.kind, j⟩], defined := define g.defined l } := by
    simp only [Graph.insert, connect, hp, hq]
  have hi : g₂.nodes[i]? = some l.source := by
    rw [htarget.getElem?_of_lt (List.getElem?_eq_some_iff.mp hsource.getElem?_eq).1]
    exact hsource.getElem?_eq
  have hj : g₂.nodes[j]? = some l.target := htarget.getElem?_eq
  rw [hinsert]
  constructor
  · exact htarget.numbered.addEdge (List.getElem?_eq_some_iff.mp hi).1
      (List.getElem?_eq_some_iff.mp hj).1 _
  · have hlink : g₂.link? ⟨i, l.kind, j⟩ = some l := by
      simp only [link?, hi, hj]
      rfl
    have hlinks : g₂.links = g.links := by
      rw [htarget.links_eq hsource.numbered, hsource.links_eq hg]
    rw [← hlinks, links, links, List.filterMap_append]
    congr 1
    exact List.filterMap_cons_some hlink
  · intro c
    rw [htarget.mem_nodes_iff, hsource.mem_nodes_iff, or_assoc]
  · exact fun c => mem_define_iff

theorem Built.numbered (hb : g.Built) : g.Numbered := by
  induction hb with
  | empty => exact numbered_empty
  | insert _ l ih => exact (ih.inserts l).numbered

theorem Built.links_insert (hb : g.Built) (l : Link) : (g.insert l).links = g.links ++ [l] :=
  (hb.numbered.inserts l).links_eq

theorem Built.mem_nodes_iff (hb : g.Built) :
    c ∈ g.nodes ↔ ∃ l ∈ g.links, c = l.source ∨ c = l.target := by
  induction hb with
  | empty => simp [Graph.empty, links]
  | insert hb l ih =>
    rw [(hb.numbered.inserts l).mem_nodes_iff, hb.links_insert, ih]
    simp only [List.mem_append, List.mem_singleton, or_and_right, exists_or, exists_eq_left]

theorem Built.mem_defined_iff (hb : g.Built) :
    c ∈ g.defined ↔ ∃ l ∈ g.links, l.kind = .superclass ∧ l.source = c := by
  induction hb with
  | empty => simp [Graph.empty, links]
  | insert hb l ih =>
    rw [(hb.numbered.inserts l).mem_defined_iff, hb.links_insert, ih]
    simp only [List.mem_append, List.mem_singleton, or_and_right, exists_or, exists_eq_left]

/-- A graph is what the insertion of its links makes of the empty one. -/
theorem Built.eq_foldl (hb : g.Built) : g = g.links.foldl Graph.insert .empty := by
  induction hb with
  | empty => rfl
  | insert hb l ih => rw [hb.links_insert, List.foldl_append, ← ih]; rfl

end Graph

namespace Hierarchy

variable {h h' : Hierarchy} {l : Link} {links : List Link} {c : String}

theorem eq_of_links_eq (hl : h.links = h'.links) : h = h' := by
  have hg : h.toGraph = h'.toGraph := by rw [h.built.eq_foldl, h'.built.eq_foldl, hl]
  cases h
  cases h'
  cases hg
  rfl

theorem links_insert (h : Hierarchy) (l : Link) : (h.insert l).links = h.links ++ [l] :=
  h.built.links_insert l

theorem links_insertAll (h : Hierarchy) (links : List Link) :
    (h.insertAll links).links = h.links ++ links := by
  unfold insertAll
  induction links generalizing h with
  | nil => exact (List.append_nil _).symm
  | cons l links ih => rw [List.foldl_cons, ih, links_insert, List.append_assoc]; rfl

theorem contains_iff_mem_nodes : h.contains c = true ↔ c ∈ h.nodes := by
  rw [contains, Option.isSome_iff_ne_none, ne_eq, h.built.numbered.lookup_eq_none_iff, not_not]

/-- A class is known when it stands at one of the ends of a link. -/
theorem contains_eq_true_iff :
    h.contains c = true ↔ ∃ l ∈ h.links, c = l.source ∨ c = l.target := by
  rw [contains_iff_mem_nodes, h.built.mem_nodes_iff]

theorem defines_eq_true_iff :
    h.defines c = true ↔ ∃ l ∈ h.links, l.kind = .superclass ∧ l.source = c := by
  rw [defines, List.contains_iff_mem, h.built.mem_defined_iff]

end Hierarchy

end DalvikStores
