import DalvikStores.Coercion

/-!
# Cells

A slot keeps its value in a cell of the element type. The bits of a float or a double are kept as
an unsigned word, and shown as an `int` or a `long`. A reference is kept as it is, and `null` by
keeping none. A value goes into a cell if it is of its kind, or an integral value of a smaller kind
other than a boolean, which is widened and keeps its number.
-/

namespace DalvikStores

inductive Cell : Descriptor → Type
  | boolean (b : Bool) : Cell .boolean
  | byte (n : Int8) : Cell .byte
  | char (c : UInt16) : Cell .char
  | short (n : Int16) : Cell .short
  | int (n : Int32) : Cell .int
  | long (n : Int64) : Cell .long
  | float (bits : UInt32) : Cell .float
  | double (bits : UInt64) : Cell .double
  | absent {e : Descriptor} (he : e.isReference = true) : Cell e
  | present {e : Descriptor} (he : e.isReference = true) (v : Value)
      (hv : v.isReference = true) (hn : v ≠ .null) : Cell e

namespace Cell

variable {e : Descriptor}

/-- The value that a cell shows. -/
def value : Cell e → Value
  | boolean b => .boolean b
  | byte n => .byte n
  | char c => .char c
  | short n => .short n
  | int n => .int n
  | long n => .long n
  | float bits => .int bits.toInt32
  | double bits => .long bits.toInt64
  | absent _ => .null
  | present _ v _ _ => v

/-- What the slots of a new array keep. No array has elements of type `void`. -/
def zero : (e : Descriptor) → e ≠ .void → Cell e
  | .boolean, _ => boolean false
  | .byte, _ => byte 0
  | .char, _ => char 0
  | .short, _ => short 0
  | .int, _ => int 0
  | .long, _ => long 0
  | .float, _ => float 0
  | .double, _ => double 0
  | .array _ _, _ => absent rfl
  | .ofClass _, _ => absent rfl
  | .void, he => absurd rfl he

def ofReference? (he : e.isReference = true) (v : Value) : Option (Cell e) :=
  if hn : v = .null then some (absent he)
  else if hv : v.isReference = true then some (present he v hv hn)
  else none

/-- The cell that keeps a value, if there is one. -/
def ofValue? : (e : Descriptor) → Value → Option (Cell e)
  | .boolean, .boolean b => some (boolean b)
  | .byte, .byte n => some (byte n)
  | .char, .char c => some (char c)
  | .short, .short n => some (short n)
  | .short, .byte n => some (short n.toInt16)
  | .int, v => v.widen.map int
  | .long, .long n => some (long n)
  | .long, v => v.widen.map fun n => long n.toInt64
  | .float, .int n => some (float n.toUInt32)
  | .double, .long n => some (double n.toUInt64)
  | .array _ _, v => ofReference? rfl v
  | .ofClass _, v => ofReference? rfl v
  | _, _ => none

theorem ofValue?_of_isReference (he : e.isReference = true) (v : Value) :
    ofValue? e v = ofReference? he v := by
  cases e with
  | array | ofClass => rfl
  | _ => cases he

theorem ofReference?_eq_none (he : e.isReference = true) {v : Value} (hv : v.isReference = false)
    (hn : v ≠ .null) : ofReference? he v = none := by
  rw [ofReference?, dif_neg hn, dif_neg (Bool.eq_false_iff.mp hv)]

theorem ofValue?_value (c : Cell e) : ofValue? e c.value = some c := by
  cases c with
  | float bits => exact congrArg (fun bits => some (float bits)) bits.toUInt32_toInt32
  | double bits => exact congrArg (fun bits => some (double bits)) bits.toUInt64_toInt64
  | absent he =>
    rw [ofValue?_of_isReference he]
    rfl
  | present he v hv hn =>
    rw [ofValue?_of_isReference he]
    exact (dif_neg hn).trans (dif_pos hv)
  | _ => rfl

theorem ofValue?_long_of_ne {v : Value} (hv : ∀ n, v ≠ .long n) :
    ofValue? .long v = v.widen.map fun n => long n.toInt64 := by
  cases v with
  | long n => exact absurd rfl (hv n)
  | _ => rfl

theorem eq_of_value_eq {c c' : Cell e} (hc : c.value = c'.value) : c = c' := by
  have hc' := c.ofValue?_value
  rw [hc, ofValue?_value, Option.some_inj] at hc'
  exact hc'.symm

end Cell

end DalvikStores
