import DalvikStores.Hierarchy.Entry
import DalvikStores.Proofs.BracketLimit
import DalvikStores.Proofs.Locality

/-!
# What an entry says

The parts of an entry stand between its colons, and each of them gives a name. An entry is refused
when there are fewer than two names or an empty one, and nothing is inserted then. Otherwise the
first name is linked to all others, and as links stay, objects of the class can be stored as any of
them from then on. How a name is written does not matter: wrapped like a descriptor it is the same
name, and the one that the descriptor has.
-/

namespace DalvikStores

/-- The parts between the colons, as the library splits a list. -/
theorem Text.splitAt_eq_splitOn (c : Char) (cs : List Char) : splitAt c cs = cs.splitOn c := by
  rw [List.splitOn_eq_splitOnP]
  induction cs with
  | nil => rfl
  | cons a cs ih =>
    rw [splitAt, List.splitOnP_cons_eq_if_modifyHead, ih]
    simp only [beq_iff_eq]
    split_ifs with ha
    · rfl
    · cases hs : cs.splitOnP (· == c) with
      | nil => exact absurd hs (List.splitOnP_ne_nil _ _)
      | cons part parts => rfl

namespace Hierarchy

/-- The name that a part of an entry gives: what is between `L` and `;`, or else the whole part. -/
inductive Unwraps : List Char → String → Prop
  | wrapped (name : List Char) : Unwraps ('L' :: name ++ [';']) (String.ofList name)
  | bare {part : List Char} (hp : ∀ name, part ≠ 'L' :: name ++ [';']) :
      Unwraps part (String.ofList part)

/-- The text is the name, or the name wrapped like a descriptor. -/
def Respells (name text : String) : Prop := text = name ∨ text = "L" ++ name ++ ";"

section Names

variable {part name : List Char} {s entry text : String} {names texts : List String}

theorem unwrapName_wrapped (name : List Char) : unwrapName ('L' :: name ++ [';']) = name := by
  simp only [unwrapName, List.cons_append, List.getLast?_concat, if_true, List.dropLast_concat]

theorem unwrapName_of_ne (hp : ∀ name, part ≠ 'L' :: name ++ [';']) : unwrapName part = part := by
  unfold unwrapName
  split
  · rename_i rest
    split_ifs with hl
    · obtain ⟨name, rfl⟩ := List.getLast?_eq_some_iff.mp hl
      exact absurd rfl (hp name)
    · rfl
  · rfl

theorem unwraps_iff : Unwraps part s ↔ String.ofList (unwrapName part) = s := by
  constructor
  · rintro (name | hp)
    · rw [unwrapName_wrapped]
    · rw [unwrapName_of_ne hp]
  · rintro rfl
    by_cases hp : ∃ name, part = 'L' :: name ++ [';']
    · obtain ⟨name, rfl⟩ := hp
      rw [unwrapName_wrapped]
      exact .wrapped name
    · have hp' := not_exists.mp hp
      rw [unwrapName_of_ne hp']
      exact .bare hp'

theorem entryNames_eq_iff :
    entryNames entry = names ↔ List.Forall₂ Unwraps (entry.toList.splitOn ':') names := by
  rw [entryNames, Text.splitAt_eq_splitOn, ← List.forall₂_eq_eq_eq, List.forall₂_map_left_iff]
  simp only [← unwraps_iff]

theorem length_entryNames (entry : String) :
    (entryNames entry).length = (entry.toList.splitOn ':').length := by
  rw [entryNames, Text.splitAt_eq_splitOn, List.length_map]

theorem mem_entryNames_iff :
    s ∈ entryNames entry ↔ ∃ part ∈ entry.toList.splitOn ':', Unwraps part s := by
  simp only [entryNames, Text.splitAt_eq_splitOn, List.mem_map, unwraps_iff]

theorem unwraps_of_respells (hs : ';' ∉ s.toList) (hr : Respells s text) :
    Unwraps text.toList s := by
  rcases hr with rfl | rfl
  · have hbare : ∀ name, text.toList ≠ 'L' :: name ++ [';'] := by
      intro name he
      rw [he] at hs
      exact hs (List.mem_append_right _ (List.mem_singleton_self _))
    have hu := Unwraps.bare hbare
    rwa [String.ofList_toList] at hu
  · have hu := Unwraps.wrapped s.toList
    rw [String.ofList_toList] at hu
    rwa [String.toList_append, String.toList_append]

theorem not_mem_of_respells (hs : ':' ∉ s.toList) (hr : Respells s text) :
    ':' ∉ text.toList := by
  rcases hr with rfl | rfl
  · exact hs
  · simp only [String.toList_append, List.mem_append, not_or]
    exact ⟨⟨by decide, hs⟩, by decide⟩

/-- Joining the names with colons and splitting again gives the names back, however each of them is
written. -/
theorem entryNames_intercalate (hne : names ≠ [])
    (hnames : ∀ n ∈ names, ':' ∉ n.toList ∧ ';' ∉ n.toList)
    (hr : List.Forall₂ Respells names texts) : entryNames (":".intercalate texts) = names := by
  have hboth : List.Forall₂ (fun text n => ':' ∉ text.toList ∧ Unwraps text.toList n)
      texts names := by
    refine ((List.forall₂_and_left names texts).mpr ⟨hnames, hr⟩).flip.imp ?_
    rintro text n ⟨⟨hcolon, hsemicolon⟩, hrn⟩
    exact ⟨not_mem_of_respells hcolon hrn, unwraps_of_respells hsemicolon hrn⟩
  obtain ⟨hcolon, hunwraps⟩ := (List.forall₂_and_left texts names).mp hboth
  have htexts : texts.map String.toList ≠ [] := by
    intro he
    rw [List.map_eq_nil_iff] at he
    subst he
    cases hr
    exact hne rfl
  have hsplit : (":".intercalate texts).toList.splitOn ':' = texts.map String.toList := by
    rw [String.toList_intercalate]
    exact List.splitOn_intercalate ':' (by simpa using hcolon) htexts
  rw [entryNames_eq_iff, hsplit, List.forall₂_map_left_iff]
  exact hunwraps

end Names

section Entering

variable {h h' : Hierarchy} {entry entry' c x : String} {others : List String}
  {names texts : List String} {links : List Link} {e : ToolError}

theorem entryLinks_eq_ok_iff :
    entryLinks entry = .ok links ↔ ∃ c superclass interfaces,
      entryNames entry = c :: superclass :: interfaces ∧ "" ∉ entryNames entry ∧
        links = ⟨c, .superclass, superclass⟩ :: interfaces.map fun i => ⟨c, .interface, i⟩ := by
  unfold entryLinks
  constructor
  · intro hl
    split at hl
    · rename_i c superclass interfaces hn
      split_ifs at hl with hempty
      cases hl
      exact ⟨c, superclass, interfaces, hn, hn ▸ hempty, rfl⟩
    · cases hl
  · rintro ⟨c, superclass, interfaces, hn, hempty, rfl⟩
    rw [hn] at hempty
    simp only [hn, if_neg hempty]

theorem entryLinks_eq_error_iff :
    entryLinks entry = .error e ↔ e = .badArguments (.badEntry entry) ∧
      ((entryNames entry).length < 2 ∨ "" ∈ entryNames entry) := by
  unfold entryLinks
  split
  · rename_i c superclass interfaces hn
    rw [hn]
    have hlength : ¬ (c :: superclass :: interfaces).length < 2 := by
      simp only [List.length_cons]
      omega
    split_ifs with hempty
    · simp only [hempty, or_true, and_true, Except.error.injEq]
      exact eq_comm
    · simp only [hempty, hlength, or_self, and_false]
  · rename_i hn
    have hlength : (entryNames entry).length < 2 := by
      match he : entryNames entry with
      | [] => exact Nat.zero_lt_two
      | [_] => exact Nat.one_lt_two
      | c :: superclass :: interfaces => exact absurd he (hn c superclass interfaces)
    simp only [hlength, true_or, and_true, Except.error.injEq]
    exact eq_comm

theorem enter_eq_ok_iff :
    enter entry h = .ok () h' ↔ ∃ links, entryLinks entry = .ok links ∧ h' = h.insertAll links := by
  rw [enter_eq]
  cases entryLinks entry with
  | error e => simp
  | ok links => simp [eq_comm]

theorem enter_eq_ok_iff_links : enter entry h = .ok () h' ↔ ∃ c superclass interfaces,
    entryNames entry = c :: superclass :: interfaces ∧ "" ∉ c :: superclass :: interfaces ∧
      h'.links = h.links ++
        ⟨c, .superclass, superclass⟩ :: interfaces.map fun i => ⟨c, .interface, i⟩ := by
  rw [enter_eq_ok_iff]
  constructor
  · rintro ⟨_, hl, rfl⟩
    obtain ⟨c, superclass, interfaces, hn, hempty, rfl⟩ := entryLinks_eq_ok_iff.mp hl
    exact ⟨c, superclass, interfaces, hn, hn ▸ hempty, links_insertAll h _⟩
  · rintro ⟨c, superclass, interfaces, hn, hempty, hl⟩
    refine ⟨_, entryLinks_eq_ok_iff.mpr ⟨c, superclass, interfaces, hn, hn ▸ hempty, rfl⟩, ?_⟩
    exact eq_of_links_eq (hl.trans (links_insertAll h _).symm)

theorem enter_eq_error_iff :
    enter entry h = .error e h' ↔ entryLinks entry = .error e ∧ h' = h := by
  rw [enter_eq]
  cases entryLinks entry with
  | error e => simp [eq_comm]
  | ok links => simp

theorem enter_congr (hn : entryNames entry = entryNames entry') :
    enter entry h = .ok () h' ↔ enter entry' h = .ok () h' := by
  simp only [enter_eq_ok_iff, entryLinks_eq_ok_iff, hn]

theorem enter_respelled (hnames : ∀ n ∈ names, ':' ∉ n.toList ∧ ';' ∉ n.toList)
    (hr : List.Forall₂ Respells names texts) :
    enter (":".intercalate texts) h = .ok () h' ↔
      enter (":".intercalate names) h = .ok () h' := by
  cases names with
  | nil => cases hr; rfl
  | cons n names =>
    have hne : n :: names ≠ [] := List.cons_ne_nil n names
    have hself : List.Forall₂ Respells (n :: names) (n :: names) :=
      List.forall₂_same.mpr fun _ _ => .inl rfl
    apply enter_congr
    rw [entryNames_intercalate hne hnames hr, entryNames_intercalate hne hnames hself]

theorem assignable_of_mem_links {l : Link} (hl : l ∈ h.links) :
    h.assignable (.ofClass l.source) (.ofClass l.target) = some true := by
  have hsub : h.isSubclass l.source l.target = true :=
    isSubclass_eq_true_iff.mpr (.inr (.inl (.single (.of_mem hl))))
  rw [assignable_ofClass_ofClass, hsub, Bool.or_true]

theorem exists_mem_links_of_enter (he : enter entry h = .ok () h')
    (hn : entryNames entry = c :: others) (hx : x ∈ others) :
    ∃ kind, ⟨c, kind, x⟩ ∈ h'.links := by
  obtain ⟨links, hl, rfl⟩ := enter_eq_ok_iff.mp he
  obtain ⟨_, superclass, interfaces, hn', -, rfl⟩ := entryLinks_eq_ok_iff.mp hl
  cases hn.symm.trans hn'
  rw [links_insertAll]
  rcases List.mem_cons.mp hx with rfl | hx
  · exact ⟨.superclass, List.mem_append_right _ List.mem_cons_self⟩
  · refine ⟨.interface, List.mem_append_right _ (List.mem_cons_of_mem _ ?_)⟩
    exact List.mem_map_of_mem hx

theorem isElement_of_enter (he : enter entry h = .ok () h') (hx : x ∈ entryNames entry)
    (hs : ';' ∉ x.toList) : (Descriptor.ofClass x).IsElement := by
  obtain ⟨links, hl, -⟩ := enter_eq_ok_iff.mp he
  obtain ⟨_, _, _, -, hempty, -⟩ := entryLinks_eq_ok_iff.mp hl
  exact ⟨ne_of_mem_of_not_mem hx hempty, hs⟩

/-- No insertion takes back what an entry allows to be stored. -/
theorem assignable_insertAll_of_enter (he : enter entry h = .ok () h')
    (hn : entryNames entry = c :: others) (hx : x ∈ others) (further : List Link) :
    (h'.insertAll further).assignable (.ofClass c) (.ofClass x) = some true := by
  obtain ⟨kind, hl⟩ := exists_mem_links_of_enter he hn hx
  have hlater : ⟨c, kind, x⟩ ∈ (h'.insertAll further).links := by
    rw [links_insertAll]
    exact List.mem_append_left _ hl
  exact assignable_of_mem_links hlater

end Entering

/-- An entry is refused as a whole, or adds exactly its links. These do not depend on how its names
are written, and make the objects of the class assignable to all the other names for good. -/
theorem enter_effect (h : Hierarchy) (entry : String) :
    let parts := entry.toList.splitOn ':'
    (∀ e h', enter entry h = .error e h' ↔
        (parts.length < 2 ∨ ∃ part ∈ parts, Unwraps part "") ∧
          e = .badArguments (.badEntry entry) ∧ h' = h) ∧
      (∀ h', enter entry h = .ok () h' ↔ ∃ c superclass interfaces,
        List.Forall₂ Unwraps parts (c :: superclass :: interfaces) ∧
          "" ∉ c :: superclass :: interfaces ∧
          h'.links = h.links ++
            ⟨c, .superclass, superclass⟩ :: interfaces.map fun i => ⟨c, .interface, i⟩) ∧
      (∀ names texts, (∀ n ∈ names, ':' ∉ n.toList ∧ ';' ∉ n.toList) →
        List.Forall₂ Respells names texts → ∀ h', enter (":".intercalate texts) h = .ok () h' ↔
          enter (":".intercalate names) h = .ok () h') ∧
      ∀ h' c others, enter entry h = .ok () h' → List.Forall₂ Unwraps parts (c :: others) →
        ';' ∉ c.toList → ∀ x ∈ others, ';' ∉ x.toList → ∀ further : List Link,
          ∃ s t, Descriptor.parse ("L" ++ c ++ ";") = .ok s ∧
            Descriptor.parse ("L" ++ x ++ ";") = .ok t ∧
            (h'.insertAll further).assignable s t = some true := by
  intro parts
  refine ⟨fun e h' => ?_, fun h' => ?_, fun names texts hnames hr h' => ?_, ?_⟩
  · rw [enter_eq_error_iff, entryLinks_eq_error_iff, length_entryNames, mem_entryNames_iff]
    tauto
  · simp only [enter_eq_ok_iff_links, entryNames_eq_iff, parts]
  · exact enter_respelled hnames hr
  · intro h' c others he hn hc x hx hxs further
    rw [← entryNames_eq_iff] at hn
    have hcn : c ∈ entryNames entry := hn ▸ List.mem_cons_self
    have hxn : x ∈ entryNames entry := hn ▸ List.mem_cons_of_mem c hx
    exact ⟨_, _, (isElement_of_enter he hcn hc).parse_render,
      (isElement_of_enter he hxn hxs).parse_render, assignable_insertAll_of_enter he hn hx further⟩

/-- An entry with two wrapped names, entered before a link that closes a circle. -/
theorem enter_effect_wrapped :
    let names := ["A", "B", "C"]
    let texts := ["LA;", "B", "LC;"]
    let h := empty.insertAll [⟨"A", .superclass, "B"⟩, ⟨"A", .interface, "C"⟩]
    (∀ n ∈ names, ':' ∉ n.toList ∧ ';' ∉ n.toList) ∧ List.Forall₂ Respells names texts ∧
      enter "A:B:C" empty = .ok () h ∧ enter "LA;:B:LC;" empty = .ok () h ∧
      enter "A:L;" h = .error (.badArguments (.badEntry "A:L;")) h ∧
      ∃ s t, Descriptor.parse "LA;" = .ok s ∧ Descriptor.parse "LC;" = .ok t ∧
        (h.insertAll [⟨"C", .superclass, "A"⟩]).assignable s t = some true := by
  intro names texts h
  have hnames : ∀ n ∈ names, ':' ∉ n.toList ∧ ';' ∉ n.toList := by decide
  have hr : List.Forall₂ Respells names texts :=
    .cons (.inr rfl) (.cons (.inl rfl) (.cons (.inr rfl) .nil))
  have hplain : enter "A:B:C" empty = .ok () h := rfl
  have hempty : ∃ part ∈ "A:L;".toList.splitOn ':', Unwraps part "" :=
    ⟨['L', ';'], by decide, .wrapped []⟩
  obtain ⟨-, -, hrespelled, hassignable⟩ := enter_effect empty "A:B:C"
  obtain ⟨hrefused, -⟩ := enter_effect h "A:L;"
  have hsame : enter "LA;:B:LC;" empty = .ok () h ↔ enter "A:B:C" empty = .ok () h :=
    hrespelled names texts hnames hr h
  have hn : List.Forall₂ Unwraps ("A:B:C".toList.splitOn ':') names := entryNames_eq_iff.mp rfl
  refine ⟨hnames, hr, hplain, hsame.mpr hplain, (hrefused _ h).mpr ⟨.inr hempty, rfl, rfl⟩, ?_⟩
  exact hassignable h "A" ["B", "C"] hplain hn (by decide) "C" (by decide) (by decide) _

end Hierarchy

end DalvikStores
