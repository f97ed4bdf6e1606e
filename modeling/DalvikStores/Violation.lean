import DalvikStores.Register
import DalvikStores.Value.Basic

/-!
# Violated preconditions and overflows

What a decoded program is trusted to respect: registers inside the frame, values of the kind an
operation asks for, array and class types where objects are made, and the shape of the supported
instructions.

Two sums can leave their range: the address behind the last one, and the dimensions of an array
type that has none to give up. An index can leave the slots of its array. None of these is an
error with a cause; the program stops there.
-/

namespace DalvikStores

/-- Each cause carries what has been found in place of what was promised. -/
inductive Violation
  | outsideFrame (r : Register) (size : Nat)
  | wrongKind (expected : Value.Kind) (found : Value)
  | notArrayType (t : Descriptor)
  | lengthTooLarge (length : Nat)
  | voidElements
  | notClassType (t : Descriptor)
  | notArrayStore (mnemonic : String)
  | operandCount (mnemonic : String) (count : Nat)
  | unsupportedOpcode (mnemonic : String)
  deriving DecidableEq

namespace Violation

def text : Violation → String
  | outsideFrame r size =>
    "register " ++ r.render ++ " outside of a " ++ toString size ++ " registers frame"
  | wrongKind expected found => "expected " ++ expected.name ++ ", found " ++ found.render
  | notArrayType t => t.render ++ " is not an array type"
  | lengthTooLarge length => "array length " ++ toString length ++ " exceeds 2147483647"
  | voidElements => "array of void elements"
  | notClassType t => t.render ++ " is not a class type"
  | notArrayStore mnemonic => mnemonic ++ " is not an array store opcode"
  | operandCount mnemonic count =>
    mnemonic ++ " expects 3 registers, got " ++ toString count
  | unsupportedOpcode mnemonic => "unsupported opcode " ++ mnemonic

def message (v : Violation) : String := "precondition violation: " ++ v.text

end Violation

/-- A number for which the word of an address, the type of an array or its slots have no room. -/
inductive Overflow
  | address
  | dimension
  | slot (index length : Nat)
  deriving DecidableEq, Repr

def Overflow.message : Overflow → String
  | address => "attempt to add with overflow"
  | dimension => "attempt to subtract with overflow"
  | slot index length =>
    "index out of bounds: the len is " ++ toString length ++ " but the index is " ++
      toString index

def ElementError.message : ElementError → String
  | notArray => "invalid type"
  | noDimension => Overflow.dimension.message

end DalvikStores
