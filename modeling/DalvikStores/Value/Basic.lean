import DalvikStores.Descriptor.Basic

/-!
# Abstract values

A register holds a concrete primitive, a reference, `null`, or an unknown value of a type, given
by its descriptor. References stand for objects of the heap. Two references are the same object
exactly when they are equal, which their identifiers decide: the type and the length of an array
and the class of an instance never change, and belong to the reference. The slots of an array do
change and belong to the heap.
-/

namespace DalvikStores

/-- An array has a type with elements other than `void`, and a length that fits an `int`. -/
structure ArrayRef where
  id : Nat
  type : Descriptor
  element : Descriptor
  length : Nat
  element_eq : type.element = .ok element
  element_ne_void : element ≠ .void
  length_lt : length < 2147483648
  deriving DecidableEq

structure ObjectRef where
  id : Nat
  className : String
  deriving DecidableEq

def ObjectRef.type (o : ObjectRef) : Descriptor := .ofClass o.className

inductive Value
  | int (n : Int32)
  | long (n : Int64)
  | boolean (b : Bool)
  | byte (n : Int8)
  | char (c : UInt16)
  | short (n : Int16)
  | array (ref : ArrayRef)
  | object (ref : ObjectRef)
  | null
  | unknown (descriptor : String)
  deriving DecidableEq

def ArrayRef.render (a : ArrayRef) : String :=
  "array(" ++ a.type.render ++ ", length " ++ toString a.length ++ ")"

def ObjectRef.render (o : ObjectRef) : String := "object(" ++ o.type.render ++ ")"

namespace Value

/-- The kinds of concrete value that a caller can ask for. -/
inductive Kind
  | int
  | long
  | boolean
  | byte
  | char
  | short
  | array
  deriving DecidableEq, Repr

def Kind.name : Kind → String
  | int => "int"
  | long => "long"
  | boolean => "boolean"
  | byte => "byte"
  | char => "char"
  | short => "short"
  | array => "array reference"

/-- Four hexadecimal digits, as a code unit has no more. -/
def codeUnit (c : UInt16) : String :=
  let digits := Nat.toDigits 16 c.toNat
  String.ofList (List.replicate (4 - digits.length) '0' ++ digits)

def render : Value → String
  | int n => "int(" ++ toString n.toInt ++ ")"
  | long n => "long(" ++ toString n.toInt ++ ")"
  | boolean true => "boolean(true)"
  | boolean false => "boolean(false)"
  | byte n => "byte(" ++ toString n.toInt ++ ")"
  | char c => "char(0x" ++ codeUnit c ++ ")"
  | short n => "short(" ++ toString n.toInt ++ ")"
  | array a => a.render
  | object o => o.render
  | null => "null"
  | unknown d => "unknown(" ++ d ++ ")"

def ofUnknown (t : Descriptor) : Value := unknown t.render

def isUnknown : Value → Bool
  | unknown _ => true
  | _ => false

/-- An unknown value counts as a reference by the first letter of its descriptor. -/
def isReference : Value → Bool
  | array _ => true
  | object _ => true
  | null => true
  | unknown d => d.toList.head? == some 'L' || d.toList.head? == some '['
  | _ => false

/-- The descriptor of the static type; `null` has the type of the root class. -/
def descriptor : Value → String
  | int _ => "I"
  | long _ => "J"
  | boolean _ => "Z"
  | byte _ => "B"
  | char _ => "C"
  | short _ => "S"
  | array a => a.type.render
  | object o => o.type.render
  | null => (Descriptor.ofClass Descriptor.rootClass).render
  | unknown d => d

end Value

end DalvikStores
