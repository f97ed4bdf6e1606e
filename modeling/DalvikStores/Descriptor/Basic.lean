/-!
# Type descriptors

A type is `void`, one of the eight primitive types, a class, or an array. An array counts its
dimensions, and its element type may be an array again: such nestings are not merged, so one
descriptor can belong to several types. Types read from text never nest and never have an array
without a dimension, but both can be built, and taking the element of an array without a
dimension is an overflow.
-/

namespace DalvikStores

inductive Descriptor
  | void
  | boolean
  | byte
  | short
  | char
  | int
  | long
  | float
  | double
  | array (dimensions : Nat) (inner : Descriptor)
  | ofClass (name : String)
  deriving DecidableEq, Repr

inductive ElementError
  | notArray
  | noDimension
  deriving DecidableEq, Repr

namespace Descriptor

/-- The class above all others; every reference can be stored where it is expected. -/
def rootClass : String := "java/lang/Object"

def render : Descriptor → String
  | void => "V"
  | boolean => "Z"
  | byte => "B"
  | short => "S"
  | char => "C"
  | int => "I"
  | long => "J"
  | float => "F"
  | double => "D"
  | array n inner => String.ofList (List.replicate n '[') ++ inner.render
  | ofClass name => "L" ++ name ++ ";"

def isReference : Descriptor → Bool
  | array _ _ => true
  | ofClass _ => true
  | _ => false

/-- The same type with one dimension less. -/
def element : Descriptor → Except ElementError Descriptor
  | array 0 _ => .error .noDimension
  | array 1 inner => .ok inner
  | array (n + 2) inner => .ok (array (n + 1) inner)
  | _ => .error .notArray

/-- All dimensions and all nestings of a type; taking an element makes it smaller. -/
def depth : Descriptor → Nat
  | array n inner => n + inner.depth + 1
  | _ => 0

theorem depth_lt_of_element {t u : Descriptor} (h : t.element = .ok u) : u.depth < t.depth := by
  unfold element at h
  split at h
  · cases h
  · cases h
    simp only [depth]
    omega
  · cases h
    simp only [depth]
    omega
  · cases h

end Descriptor

end DalvikStores
