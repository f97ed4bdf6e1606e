import DalvikStores.Descriptor.Reader
import Mathlib.Data.List.TakeWhile
import Mathlib.Tactic.Common

/-!
# How types are spelled

`Spells` says which texts are descriptors and of which types. Both ways of reading accept exactly
these: the one that takes a whole text, and the one that takes a descriptor from the front of a
text and leaves what comes after it. Where a descriptor ends does not depend on what comes after.
A type that has been read shows the text that it was read from.
-/

namespace DalvikStores.Descriptor

/-- What can stand behind the brackets of a descriptor, and the type that it spells. -/
inductive SpellsLeaf : List Char → Descriptor → Prop
  | boolean : SpellsLeaf ['Z'] boolean
  | byte : SpellsLeaf ['B'] byte
  | short : SpellsLeaf ['S'] short
  | char : SpellsLeaf ['C'] char
  | int : SpellsLeaf ['I'] int
  | long : SpellsLeaf ['J'] long
  | float : SpellsLeaf ['F'] float
  | double : SpellsLeaf ['D'] double
  | ofClass {name : List Char} (hne : name ≠ []) (hs : ';' ∉ name) :
      SpellsLeaf ('L' :: name ++ [';']) (ofClass (String.ofList name))

inductive Spells : List Char → Descriptor → Prop
  | void : Spells ['V'] void
  | leaf {cs : List Char} {t : Descriptor} (hl : SpellsLeaf cs t) : Spells cs t
  | array {k : ℕ} {cs : List Char} {t : Descriptor} (hz : k ≠ 0) (hk : k < 255)
      (hl : SpellsLeaf cs t) : Spells (List.replicate k '[' ++ cs) (array k t)

section Splitting

variable {p : Char → Bool} {w : List Char} {c : Char}

theorem takeWhile_append_cons (cs : List Char) (hw : ∀ a ∈ w, p a = true) (hc : p c = false) :
    (w ++ c :: cs).takeWhile p = w := by
  rw [List.takeWhile_append_of_pos hw, List.takeWhile_cons_of_neg (Bool.not_eq_true _ ▸ hc),
    List.append_nil]

theorem dropWhile_append_cons (cs : List Char) (hw : ∀ a ∈ w, p a = true) (hc : p c = false) :
    (w ++ c :: cs).dropWhile p = c :: cs := by
  rw [List.dropWhile_append_of_pos hw, List.dropWhile_cons_of_neg (Bool.not_eq_true _ ▸ hc)]

theorem isNameChar_of_mem (hs : ';' ∉ w) : ∀ a ∈ w, isNameChar a = true := by
  intro a ha
  have hne : a ≠ ';' := fun he => hs (he ▸ ha)
  exact bne_iff_ne.mpr hne

theorem isBracket_of_mem {k : ℕ} : ∀ a ∈ List.replicate k '[', isBracket a = true := by
  intro a ha
  rw [List.eq_of_mem_replicate ha]
  rfl

theorem takeWhile_isBracket (cs : List Char) :
    cs.takeWhile isBracket = List.replicate (cs.takeWhile isBracket).length '[' := by
  rw [List.eq_replicate_iff]
  refine ⟨rfl, fun a ha => ?_⟩
  have hb : isBracket a = true := List.mem_takeWhile_imp ha
  exact eq_of_beq hb

end Splitting

variable {cs leaf rest : List Char} {t : Descriptor}

/-- A leaf does not start with a bracket, so that the brackets before it can be counted. -/
theorem SpellsLeaf.exists_cons (hl : SpellsLeaf leaf t) :
    ∃ c cs, leaf = c :: cs ∧ isBracket c = false := by
  cases hl <;> exact ⟨_, _, rfl, rfl⟩

theorem ofLeaf_eq_some_iff : ofLeaf leaf = some t ↔ SpellsLeaf leaf t := by
  constructor
  · intro hl
    unfold ofLeaf at hl
    split at hl
    case h_9 cs =>
      split_ifs at hl with hc
      obtain ⟨hne, hd⟩ := hc
      cases hl
      have hs : ';' ∉ cs.takeWhile isNameChar := by
        intro hmem
        have hc : isNameChar ';' = true := List.mem_takeWhile_imp hmem
        cases hc
      have hcs : cs = cs.takeWhile isNameChar ++ [';'] := by
        rw [← hd, List.takeWhile_append_dropWhile]
      have hspells := SpellsLeaf.ofClass hne hs
      rwa [List.cons_append, ← hcs] at hspells
    case h_10 => cases hl
    all_goals cases hl; constructor
  · intro hl
    cases hl with
    | ofClass hne hs =>
      have hname := isNameChar_of_mem hs
      simp only [List.cons_append, ofLeaf, takeWhile_append_cons _ hname (c := ';') rfl,
        dropWhile_append_cons _ hname (c := ';') rfl]
      exact if_pos ⟨hne, trivial⟩
    | _ => rfl

theorem ofText_replicate_append {k : ℕ} (hk : k < 255) (hl : SpellsLeaf leaf t) :
    ofText (List.replicate k '[' ++ leaf) = .ok (if k = 0 then t else array k t) := by
  have hleaf := ofLeaf_eq_some_iff.mpr hl
  obtain ⟨c, cs, rfl, hc⟩ := hl.exists_cons
  have htake := takeWhile_append_cons cs (isBracket_of_mem (k := k)) hc
  have hdrop := dropWhile_append_cons cs (isBracket_of_mem (k := k)) hc
  have hv : List.replicate k '[' ++ c :: cs ≠ ['V'] := by
    intro he
    rw [he] at hdrop
    rw [← hdrop] at hleaf
    cases hleaf
  have hb : ¬ (c :: cs = [] ∨ 255 ≤ k) := by
    rw [not_or, not_le]
    exact ⟨List.cons_ne_nil c cs, hk⟩
  simp only [ofText, if_neg hv, htake, hdrop, List.length_replicate, if_neg hb, hleaf]

theorem ofText_eq_ok_iff : ofText cs = .ok t ↔ Spells cs t := by
  constructor
  · intro ht
    unfold ofText at ht
    split_ifs at ht with hv
    · cases ht
      rw [hv]
      exact .void
    · dsimp only at ht
      rw [ite_eq_iff] at ht
      obtain ⟨-, ht⟩ | ⟨hb, ht⟩ := ht
      · cases ht
      · rw [not_or, not_le] at hb
        cases hl : ofLeaf (cs.dropWhile isBracket) with
        | none => rw [hl] at ht; cases ht
        | some u =>
          rw [hl, Except.ok.injEq] at ht
          have hleaf := ofLeaf_eq_some_iff.mp hl
          have hcs : cs = List.replicate (cs.takeWhile isBracket).length '[' ++
              cs.dropWhile isBracket := by
            rw [← takeWhile_isBracket, List.takeWhile_append_dropWhile]
          rw [ite_eq_iff] at ht
          obtain ⟨hz, rfl⟩ | ⟨hz, rfl⟩ := ht
          · rw [hz, List.replicate_zero, List.nil_append] at hcs
            rw [hcs]
            exact .leaf hleaf
          · have hspells := Spells.array hz hb.2 hleaf
            rwa [← hcs] at hspells
  · intro ht
    cases ht with
    | void => rfl
    | leaf hl => exact ofText_replicate_append (k := 0) (by decide) hl
    | array hz hk hl => rw [ofText_replicate_append hk hl, if_neg hz]

theorem leafExtent_append (hl : SpellsLeaf leaf t) (rest : List Char) :
    leafExtent (leaf ++ rest) = .ok (leaf, rest) := by
  cases hl with
  | @ofClass name hne hs =>
    have hname := isNameChar_of_mem hs
    have htake := takeWhile_append_cons rest hname (c := ';') rfl
    have hdrop := dropWhile_append_cons rest hname (c := ';') rfl
    have hL : isLetter 'L' = false := rfl
    simp only [List.cons_append, List.append_assoc, List.nil_append, leafExtent, hL,
      Bool.false_eq_true, if_false, if_true, Reader.someWhile, htake, hdrop, if_neg hne, bind,
      Except.bind]
  | _ => rfl

theorem eq_append_of_leafExtent (hl : leafExtent cs = .ok (leaf, rest)) : cs = leaf ++ rest := by
  unfold leafExtent at hl
  split at hl
  · cases hl
  · rename_i c cs'
    split_ifs at hl with hc hL
    · cases hl
      rfl
    · cases hn : Reader.someWhile isNameChar .someUntil cs' with
      | error e => rw [hn] at hl; cases hl
      | ok p =>
        obtain ⟨name, after⟩ := p
        rw [hn] at hl
        have hcs : cs' = name ++ after := by
          unfold Reader.someWhile at hn
          split_ifs at hn
          cases hn
          exact List.takeWhile_append_dropWhile.symm
        cases after with
        | nil => cases hl
        | cons semicolon after =>
          cases hl
          rw [hL, hcs, List.append_assoc]
          rfl

theorem read_eq (cs : List Char) :
    read cs = match leafExtent (cs.dropWhile isBracket) with
      | .error e => .error e
      | .ok (leaf, rest) => match ofText (cs.takeWhile isBracket ++ leaf) with
        | .error e => .error e
        | .ok t => .ok (t, rest) := by
  unfold read
  cases leafExtent (cs.dropWhile isBracket) with
  | error e => rfl
  | ok p =>
    simp only [bind, Except.bind]
    cases ofText (cs.takeWhile isBracket ++ p.1) <;> rfl

/-- What comes after a leaf decides nothing about the type in front of it. -/
theorem read_replicate_append_eq (k : ℕ) (hl : SpellsLeaf leaf t) (rest : List Char) :
    read (List.replicate k '[' ++ leaf ++ rest) =
      (ofText (List.replicate k '[' ++ leaf)).map fun u => (u, rest) := by
  have hextent := leafExtent_append hl rest
  obtain ⟨c, cs, rfl, hc⟩ := hl.exists_cons
  rw [List.append_assoc, List.cons_append] at *
  rw [read_eq, dropWhile_append_cons _ isBracket_of_mem hc,
    takeWhile_append_cons _ isBracket_of_mem hc, hextent]
  dsimp only
  cases ofText (List.replicate k '[' ++ c :: cs) <;> rfl

theorem read_replicate_append {k : ℕ} (hk : k < 255) (hl : SpellsLeaf leaf t)
    (rest : List Char) :
    read (List.replicate k '[' ++ leaf ++ rest) =
      .ok (if k = 0 then t else array k t, rest) := by
  rw [read_replicate_append_eq k hl, ofText_replicate_append hk hl]
  rfl

/-- Reading takes a descriptor from the front of a text and leaves what comes after it. -/
theorem read_eq_ok_iff : read cs = .ok (t, rest) ↔ ∃ text, Spells text t ∧ cs = text ++ rest := by
  constructor
  · intro hr
    rw [read_eq] at hr
    split at hr
    · cases hr
    · rename_i leaf after hl
      split at hr
      · cases hr
      · rename_i u hu
        cases hr
        refine ⟨_, ofText_eq_ok_iff.mp hu, ?_⟩
        rw [List.append_assoc, ← eq_append_of_leafExtent hl, List.takeWhile_append_dropWhile]
  · rintro ⟨text, ht, rfl⟩
    cases ht with
    | void => rfl
    | leaf hl => exact read_replicate_append (k := 0) (by decide) hl rest
    | array hz hk hl => rw [read_replicate_append hk hl, if_neg hz]

/-- No descriptor begins another one, and so where it ends is settled. -/
theorem Spells.append_inj {ds' rest' : List Char} {t' : Descriptor} (ht : Spells cs t)
    (ht' : Spells ds' t') (he : cs ++ rest = ds' ++ rest') : t = t' ∧ rest = rest' := by
  have hread : read (cs ++ rest) = .ok (t, rest) := read_eq_ok_iff.mpr ⟨cs, ht, rfl⟩
  have hread' : read (cs ++ rest) = .ok (t', rest') := read_eq_ok_iff.mpr ⟨ds', ht', he⟩
  exact Prod.mk.inj (Except.ok.inj (hread.symm.trans hread'))

theorem parse_eq_ok_iff {s : String} : parse s = .ok t ↔ Spells s.toList t := by
  unfold parse Reader.whole
  constructor
  · intro hp
    split at hp
    · cases hp
    · rename_i u hu
      cases hp
      obtain ⟨text, ht, he⟩ := read_eq_ok_iff.mp hu
      rwa [he, List.append_nil]
    · cases hp
  · intro ht
    rw [read_eq_ok_iff.mpr ⟨s.toList, ht, (List.append_nil _).symm⟩]

theorem SpellsLeaf.render_eq (hl : SpellsLeaf leaf t) : t.render = String.ofList leaf := by
  cases hl with
  | ofClass =>
    rw [String.ofList_append, String.ofList_cons]
    rfl
  | _ => rfl

theorem Spells.render_eq (ht : Spells cs t) : t.render = String.ofList cs := by
  cases ht with
  | void => rfl
  | leaf hl => exact hl.render_eq
  | array _ _ hl => rw [render, hl.render_eq, String.ofList_append]

theorem Spells.spells_render (ht : Spells cs t) : Spells t.render.toList t := by
  rwa [ht.render_eq, String.toList_ofList]

theorem exists_spellsLeaf_iff : (∃ t, SpellsLeaf leaf t) ↔
    (∃ c ∈ ['Z', 'B', 'S', 'C', 'I', 'J', 'F', 'D'], leaf = [c]) ∨
      ∃ name : List Char, name ≠ [] ∧ ';' ∉ name ∧ leaf = 'L' :: name ++ [';'] := by
  constructor
  · rintro ⟨t, hl⟩
    cases hl with
    | ofClass hne hs => exact .inr ⟨_, hne, hs, rfl⟩
    | _ => exact .inl ⟨_, by decide, rfl⟩
  · rintro (⟨c, hc, rfl⟩ | ⟨name, hne, hs, rfl⟩)
    · simp only [List.mem_cons, List.not_mem_nil, or_false] at hc
      obtain rfl | rfl | rfl | rfl | rfl | rfl | rfl | rfl := hc
      all_goals exact ⟨_, by constructor⟩
    · exact ⟨_, .ofClass hne hs⟩

theorem exists_spells_iff : (∃ t, Spells cs t) ↔ cs = ['V'] ∨
    ∃ k ≤ 254, ∃ leaf, cs = List.replicate k '[' ++ leaf ∧ ∃ t, SpellsLeaf leaf t := by
  constructor
  · rintro ⟨t, ht⟩
    cases ht with
    | void => exact .inl rfl
    | leaf hl => exact .inr ⟨0, Nat.zero_le _, cs, rfl, t, hl⟩
    | @array k leaf t hz hk hl => exact .inr ⟨k, Nat.le_of_lt_succ hk, leaf, rfl, t, hl⟩
  · rintro (rfl | ⟨k, hk, leaf, rfl, t, hl⟩)
    · exact ⟨_, .void⟩
    · exact ⟨_, ofText_eq_ok_iff.mp (ofText_replicate_append (Nat.lt_succ_of_le hk) hl)⟩

/-- The two readers of whole texts agree, on a set of texts of which none begins another: what
comes after a descriptor stays unread. -/
theorem parse_eq_ok_iff_and_read_append (s : String) :
    (∀ t, parse s = .ok t ↔ ofText s.toList = .ok t) ∧
      ((∃ t, parse s = .ok t) ↔ s = "V" ∨
        ∃ k ≤ 254, ∃ leaf, s.toList = List.replicate k '[' ++ leaf ∧
          ((∃ c ∈ ['Z', 'B', 'S', 'C', 'I', 'J', 'F', 'D'], leaf = [c]) ∨
            ∃ name : List Char, name ≠ [] ∧ ';' ∉ name ∧ leaf = 'L' :: name ++ [';'])) ∧
      ∀ t, parse s = .ok t → t.render = s ∧
        ∀ rest : String, read (s ++ rest).toList = .ok (t, rest.toList) := by
  refine ⟨fun t => ?_, ?_, fun t ht => ?_⟩
  · rw [parse_eq_ok_iff, ofText_eq_ok_iff]
  · simp only [parse_eq_ok_iff, exists_spells_iff, exists_spellsLeaf_iff]
    rw [← String.toList_inj]
    rfl
  · rw [parse_eq_ok_iff] at ht
    refine ⟨ht.render_eq.trans String.ofList_toList, fun rest => ?_⟩
    rw [String.toList_append, read_eq_ok_iff]
    exact ⟨s.toList, ht, rfl⟩

/-- The length of an array comes after its type in a literal. -/
theorem read_append_length :
    let s := "[[Lcom/exemple/Été;"
    let t : Descriptor := array 2 (ofClass "com/exemple/Été")
    parse s = .ok t ∧ t.render = s ∧ read (s ++ ":3").toList = .ok (t, [':', '3']) := by
  intro s t
  have hp : parse s = .ok t := by decide
  obtain ⟨-, -, hread⟩ := parse_eq_ok_iff_and_read_append s
  obtain ⟨hrender, hrest⟩ := hread t hp
  exact ⟨hp, hrender, hrest ":3"⟩

end DalvikStores.Descriptor
