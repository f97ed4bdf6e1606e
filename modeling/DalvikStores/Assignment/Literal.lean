import DalvikStores.Error
import DalvikStores.Heap

/-!
# Literals and assignments

An assignment is a register, an equals sign and a literal. A literal is a word for its kind, a
colon, and a number, a boolean or a type descriptor; or `null`; or a register whose value is
shared. Every text that is no other literal is read as a register, and so a literal that cannot
be read is reported as a register that cannot be read.
-/

namespace DalvikStores

inductive Literal
  | value (v : Value)
  | array (t : Descriptor) (length : Nat)
  | object (t : Descriptor)
  | register (r : Register)
  deriving DecidableEq

namespace Literal

/-- What stands behind a word at the front of the text. -/
def afterWord (word : String) (cs : List Char) : Option (List Char) :=
  if word.toList.isPrefixOf cs then some (cs.drop word.toList.length) else none

def readSigned (word : String) (bound : Nat) (make : Int → Value) (cs : List Char) :
    Option (Literal × List Char) := do
  let (n, rest) ← Numeral.signed bound (← afterWord word cs)
  return (.value (make n), rest)

def readChar (cs : List Char) : Option (Literal × List Char) := do
  let (n, rest) ← Numeral.unsigned UInt16.size (← afterWord "char:" cs)
  return (.value (.char (UInt16.ofNat n)), rest)

def readConstant (word : String) (v : Value) (cs : List Char) : Option (Literal × List Char) := do
  let rest ← afterWord word cs
  return (.value v, rest)

def readUnknown (cs : List Char) : Option (Literal × List Char) := do
  let (t, rest) ← (Descriptor.read (← afterWord "unknown:" cs)).toOption
  return (.value (.ofUnknown t), rest)

def readArray (cs : List Char) : Option (Literal × List Char) := do
  let (t, rest) ← (Descriptor.read (← afterWord "array:" cs)).toOption
  let (length, rest) ← Numeral.unsigned UInt64.size (← afterWord ":" rest)
  return (.array t length, rest)

def readObject (cs : List Char) : Option (Literal × List Char) := do
  let (t, rest) ← (Descriptor.read (← afterWord "object:" cs)).toOption
  return (.object t, rest)

/-- The literals other than a register, each known by its word. -/
def readWorded (cs : List Char) : Option (Literal × List Char) :=
  readSigned "int:" 2147483648 (fun n => .int (Int32.ofInt n)) cs <|>
  readSigned "long:" 9223372036854775808 (fun n => .long (Int64.ofInt n)) cs <|>
  readConstant "bool:true" (.boolean true) cs <|>
  readConstant "bool:false" (.boolean false) cs <|>
  readSigned "byte:" 128 (fun n => .byte (Int8.ofInt n)) cs <|>
  readChar cs <|>
  readSigned "short:" 32768 (fun n => .short (Int16.ofInt n)) cs <|>
  readConstant "null" .null cs <|>
  readUnknown cs <|>
  readArray cs <|>
  readObject cs

def read : Reader Literal := fun cs =>
  match readWorded cs with
  | some p => .ok p
  | none => do
    let (r, rest) ← Register.read cs
    return (.register r, rest)

/-- Arrays and objects are made anew; a register must have its value already, which is shared. -/
def resolve (l : Literal) (assigned : List (Register × Value)) (heap : Heap) :
    Except ToolError (Value × Heap) :=
  match l with
  | value v => .ok (v, heap)
  | array t length =>
    match heap.allocate t length with
    | .ok (ref, heap) => .ok (.array ref, heap)
    | .error e => .error (.fault e)
  | object t =>
    match heap.instantiate t with
    | .ok (ref, heap) => .ok (.object ref, heap)
    | .error e => .error (.fault e)
  | register r =>
    match assigned.lookup r with
    | some v => .ok (v, heap)
    | none => .error (.badArguments (.sharedBeforeAssigned r))

end Literal

namespace Assignment

def read : Reader (Register × Literal) := fun cs => do
  let (r, rest) ← Register.read cs
  match rest with
  | '=' :: rest =>
    let (l, rest) ← Literal.read rest
    return ((r, l), rest)
  | rest => throw (.unexpected rest .char)

def parse (text : String) : Except ReadError (Register × Literal) :=
  Reader.whole read text.toList

end Assignment

end DalvikStores
