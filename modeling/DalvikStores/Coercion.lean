import DalvikStores.Fault

/-!
# Coercion of stored values

Before a value is stored, the variant of the instruction brings it into its own width. The
integral values are first widened to 32 bits, keeping their number; byte, char and short stores
then keep the low bits. A wide store takes an `int` or a `long`, a boolean store takes a boolean
or one of the ints 0 and 1, and an object store takes any reference as it is.
-/

namespace DalvikStores

/-- The 32-bit form of an integral value other than a `long`. -/
def Value.widen : Value → Option Int32
  | int n => some n
  | short n => some n.toInt32
  | byte n => some n.toInt32
  | char c => some (Int32.ofNat c.toNat)
  | _ => none

namespace Variant

def narrow (variant : Variant) (n : Int32) : Value :=
  match variant with
  | byte => .byte n.toInt8
  | char => .char n.toUInt32.toUInt16
  | short => .short n.toInt16
  | _ => .int n

def admitted : Variant → Value → Option Value
  | wide, .long n => some (.long n)
  | wide, .int n => some (.long n.toInt64)
  | wide, _ => none
  | boolean, .int n => if n = 0 then some (.boolean false) else
      if n = 1 then some (.boolean true) else none
  | boolean, .boolean b => some (.boolean b)
  | boolean, _ => none
  | object, v => if v.isReference then some v else none
  | variant, v => v.widen.map variant.narrow

def coerce (variant : Variant) (v : Value) : Except CoercionError Value :=
  match variant.admitted v with
  | some w => .ok w
  | none => .error ⟨variant, v⟩

end Variant

end DalvikStores
