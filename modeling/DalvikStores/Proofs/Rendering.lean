import DalvikStores.Proofs.Spelling
import DalvikStores.Value.Basic
import Mathlib

/-!
# Telling values apart by their text

A value is shown as the word of its kind with its content between parentheses, or as `null`. No
word begins another one, and so the kind can be told from the text; the rest of the text is the
content, which can be read back. The type of an array stands in front of a comma that the name of
a class can have as well, but the type ends where its descriptor does. What the text does not tell
is which of several objects a reference stands for.
-/

namespace DalvikStores

namespace Value

/-- The same value, or references that differ in the object only that they stand for. -/
inductive Alike : Value → Value → Prop
  | refl (v : Value) : Alike v v
  | array {a b : ArrayRef} (ht : a.type = b.type) (hl : a.length = b.length) :
      Alike (array a) (array b)
  | object {o p : ObjectRef} (hn : o.className = p.className) : Alike (object o) (object p)

theorem alike_array_iff {a b : ArrayRef} :
    (array a).Alike (array b) ↔ a.type = b.type ∧ a.length = b.length := by
  constructor
  · intro h
    cases h with
    | refl => exact ⟨rfl, rfl⟩
    | array ht hl => exact ⟨ht, hl⟩
  · rintro ⟨ht, hl⟩
    exact .array ht hl

/-- The type of an array is one that a text can spell. -/
def HasReadableType (v : Value) : Prop :=
  ∀ a, v = array a → ∃ text, Descriptor.parse text = .ok a.type

section CodeUnit

variable {n : ℕ}

-- `Nat.ofDigitChars` only reads digits below ten back, and so the letters need a value of their own.
def hexDigit (c : Char) : ℕ :=
  if c.isDigit then c.toNat - '0'.toNat else 10 + (c.toNat - 'a'.toNat)

def hexNumber (ds : List Char) : ℕ := ds.foldl (fun n d => 16 * n + hexDigit d) 0

theorem hexDigit_digitChar (hn : n < 16) : hexDigit n.digitChar = n := by
  decide +revert

theorem hexNumber_concat (ds : List Char) (d : Char) :
    hexNumber (ds ++ [d]) = 16 * hexNumber ds + hexDigit d := by
  rw [hexNumber, List.foldl_append, List.foldl_cons, List.foldl_nil, hexNumber]

theorem hexNumber_replicate_append (k : ℕ) (ds : List Char) :
    hexNumber (List.replicate k '0' ++ ds) = hexNumber ds := by
  induction k with
  | zero => rfl
  | succ k ih => exact ih

theorem hexNumber_toDigits (n : ℕ) : hexNumber (Nat.toDigits 16 n) = n := by
  induction n using Nat.strongRecOn with
  | ind n ih =>
    obtain hlt | hle := Nat.lt_or_ge n 16
    · rw [Nat.toDigits_of_lt_base hlt, ← List.nil_append [n.digitChar], hexNumber_concat,
        hexDigit_digitChar hlt]
      exact Nat.zero_add n
    · have hdiv : n / 16 < n := Nat.div_lt_self (by omega) (by decide)
      rw [Nat.toDigits_of_base_le (by decide) hle, hexNumber_concat, ih _ hdiv,
        hexDigit_digitChar (Nat.mod_lt n (by decide)), Nat.div_add_mod]

theorem hexNumber_codeUnit (c : UInt16) : hexNumber (codeUnit c).toList = c.toNat := by
  rw [codeUnit, String.toList_ofList, hexNumber_replicate_append, hexNumber_toDigits]

theorem codeUnit_injective : Function.Injective codeUnit := by
  intro c d he
  have hn : c.toNat = d.toNat := by
    rw [← hexNumber_codeUnit c, he, hexNumber_codeUnit d]
  exact UInt16.toNat_inj.mp hn

end CodeUnit

/-- What every text of a kind begins with. -/
def opening : Value → String
  | int _ => "int("
  | long _ => "long("
  | boolean _ => "boolean("
  | byte _ => "byte("
  | char _ => "char(0x"
  | short _ => "short("
  | array _ => "array("
  | object _ => "object("
  | null => "null"
  | unknown _ => "unknown("

def content : Value → String
  | int n => toString n.toInt ++ ")"
  | long n => toString n.toInt ++ ")"
  | boolean true => "true)"
  | boolean false => "false)"
  | byte n => toString n.toInt ++ ")"
  | char c => codeUnit c ++ ")"
  | short n => toString n.toInt ++ ")"
  | array a => a.type.render ++ (", length " ++ (toString a.length ++ ")"))
  | object o => "L" ++ (o.className ++ (";" ++ ")"))
  | null => ""
  | unknown d => d ++ ")"

variable {v w : Value} {a b : ArrayRef}

theorem render_eq (v : Value) : v.render = v.opening ++ v.content := by
  cases v with
  | boolean b => cases b <;> decide
  | null => decide
  | array a => simp only [render, ArrayRef.render, opening, content, String.append_assoc]
  | object o =>
    simp only [render, ObjectRef.render, ObjectRef.type, Descriptor.render, opening, content,
      String.append_assoc]
  | _ => simp only [render, opening, content, String.append_assoc]

def openings : List String :=
  ["int(", "long(", "boolean(", "byte(", "char(0x", "short(", "array(", "object(", "null",
    "unknown("]

theorem opening_mem_openings (v : Value) : v.opening ∈ openings := by
  cases v <;> simp [opening, openings]

theorem eq_of_isPrefix_of_mem_openings :
    ∀ s ∈ openings, ∀ t ∈ openings, s.toList <+: t.toList → s = t := by
  decide

theorem opening_eq_of_render_eq (he : v.render = w.render) : v.opening = w.opening := by
  have hv : v.opening.toList <+: v.render.toList := by
    rw [render_eq, String.toList_append]
    exact List.prefix_append _ _
  have hw : w.opening.toList <+: v.render.toList := by
    rw [he, render_eq, String.toList_append]
    exact List.prefix_append _ _
  have hmv := opening_mem_openings v
  have hmw := opening_mem_openings w
  obtain hp | hp := List.prefix_or_prefix_of_prefix hv hw
  · exact eq_of_isPrefix_of_mem_openings _ hmv _ hmw hp
  · exact (eq_of_isPrefix_of_mem_openings _ hmw _ hmv hp).symm

theorem content_eq_of_render_eq (he : v.render = w.render) : v.content = w.content := by
  have ho := opening_eq_of_render_eq he
  rw [render_eq v, render_eq w, ho] at he
  exact (String.append_right_inj _).mp he

theorem eq_of_toString_append_eq {x y : ℤ} (he : toString x ++ ")" = toString y ++ ")") : x = y :=
  Int.repr_injective ((String.append_left_inj _).mp he)

theorem HasReadableType.spells_type (ha : (array a).HasReadableType) :
    Descriptor.Spells a.type.render.toList a.type := by
  obtain ⟨text, hp⟩ := ha a rfl
  exact (Descriptor.parse_eq_ok_iff.mp hp).spells_render

/-- The type of an array ends in one place only, whatever stands in the names of its classes. -/
theorem type_eq_and_length_eq (ha : (array a).HasReadableType) (hb : (array b).HasReadableType)
    (hc : (array a).content = (array b).content) : a.type = b.type ∧ a.length = b.length := by
  have hlist := congrArg String.toList hc
  simp only [content, String.toList_append (s := Descriptor.render _)] at hlist
  obtain ⟨ht, hrest⟩ := ha.spells_type.append_inj hb.spells_type hlist
  have hclosed := (String.append_right_inj _).mp (String.toList_inj.mp hrest)
  have hlength : toString a.length = toString b.length := (String.append_left_inj _).mp hclosed
  exact ⟨ht, Nat.repr_injective hlength⟩

/-- Of two values of one kind, the content tells all but the object that a reference stands for. -/
theorem alike_of_content_eq (hv : v.HasReadableType) (hw : w.HasReadableType)
    (ho : v.opening = w.opening) (hc : v.content = w.content) : v.Alike w := by
  cases v with
  | int n =>
    cases w <;> simp only [opening, String.reduceEq] at ho
    case int m =>
      obtain rfl : n = m := Int32.toInt_inj.mp (eq_of_toString_append_eq hc)
      exact .refl _
  | long n =>
    cases w <;> simp only [opening, String.reduceEq] at ho
    case long m =>
      obtain rfl : n = m := Int64.toInt_inj.mp (eq_of_toString_append_eq hc)
      exact .refl _
  | boolean b =>
    cases w <;> simp only [opening, String.reduceEq] at ho
    case boolean b' =>
      cases b <;> cases b' <;> simp only [content, String.reduceEq] at hc <;> exact .refl _
  | byte n =>
    cases w <;> simp only [opening, String.reduceEq] at ho
    case byte m =>
      obtain rfl : n = m := Int8.toInt_inj.mp (eq_of_toString_append_eq hc)
      exact .refl _
  | char c =>
    cases w <;> simp only [opening, String.reduceEq] at ho
    case char d =>
      obtain rfl : c = d := codeUnit_injective ((String.append_left_inj _).mp hc)
      exact .refl _
  | short n =>
    cases w <;> simp only [opening, String.reduceEq] at ho
    case short m =>
      obtain rfl : n = m := Int16.toInt_inj.mp (eq_of_toString_append_eq hc)
      exact .refl _
  | array a =>
    cases w <;> simp only [opening, String.reduceEq] at ho
    case array b => exact alike_array_iff.mpr (type_eq_and_length_eq hv hw hc)
  | object o =>
    cases w <;> simp only [opening, String.reduceEq] at ho
    case object p =>
      have hname := (String.append_right_inj _).mp hc
      exact .object ((String.append_left_inj _).mp hname)
  | null =>
    cases w <;> simp only [opening, String.reduceEq] at ho
    case null => exact .refl _
  | unknown d =>
    cases w <;> simp only [opening, String.reduceEq] at ho
    case unknown d' =>
      obtain rfl : d = d' := (String.append_left_inj _).mp hc
      exact .refl _

theorem Alike.render_eq (ha : v.Alike w) : v.render = w.render := by
  cases ha with
  | refl => rfl
  | array ht hl => rw [render, render, ArrayRef.render, ArrayRef.render, ht, hl]
  | object hn =>
    rw [render, render, ObjectRef.render, ObjectRef.render, ObjectRef.type, ObjectRef.type, hn]

/-- The text of a value tells everything about it except which array or object it refers to. -/
theorem render_eq_render_iff (hv : v.HasReadableType) (hw : w.HasReadableType) :
    v.render = w.render ↔ v.Alike w := by
  constructor
  · intro he
    exact alike_of_content_eq hv hw (opening_eq_of_render_eq he) (content_eq_of_render_eq he)
  · exact Alike.render_eq

/-- The name of a class can look like the end of the text of an array. -/
theorem render_eq_render_iff_length_in_name :
    let u : Descriptor := .ofClass ", length 2)"
    let a : ArrayRef := ⟨0, .array 1 u, u, 1, rfl, nofun, by decide⟩
    let b : ArrayRef := ⟨1, .array 1 u, u, 1, rfl, nofun, by decide⟩
    let c : ArrayRef := ⟨1, .array 1 u, u, 2, rfl, nofun, by decide⟩
    Descriptor.parse "[L, length 2);" = .ok a.type ∧ a ≠ b ∧
      (array a).render = (array b).render ∧ (array a).render ≠ (array c).render := by
  intro u a b c
  have hp : Descriptor.parse "[L, length 2);" = .ok (.array 1 u) := by decide
  have hreadable (r : ArrayRef) (ht : r.type = .array 1 u) : (array r).HasReadableType := by
    rintro _ ⟨⟩
    exact ⟨_, ht ▸ hp⟩
  have ha := hreadable a rfl
  refine ⟨hp, by decide, (render_eq_render_iff ha (hreadable b rfl)).mpr (.array rfl rfl), ?_⟩
  intro he
  have halike := (render_eq_render_iff ha (hreadable c rfl)).mp he
  exact absurd (alike_array_iff.mp halike).2 (by decide)

end Value

end DalvikStores
