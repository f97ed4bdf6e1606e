import DalvikStores.Reader
import DalvikStores.Variant

/-!
# Faults

The ways in which the execution of an instruction ends without a new state. A value can be
outside of what its variant of the store takes. The machine itself would refuse the store. The
decoded instruction breaks a promise, or its text cannot be read. Each of these is reported with
its cause, while a sum or an index that leaves its range stops the program.
-/

namespace DalvikStores

/-- The value as it was offered to the variant. -/
structure CoercionError where
  variant : Variant
  value : Value
  deriving DecidableEq

def CoercionError.message (e : CoercionError) : String :=
  e.value.render ++ " cannot be stored by the " ++ e.variant.name ++ " variant"

/-- The last two carry the text of the operation that found the wrong operand. -/
inductive ExecutionError
  | indexOutOfBounds (index : Int32) (length : Nat)
  | storeMismatch (value : Value) (array : Descriptor)
  | indexNotInt (operation : String) (index : Value)
  | notAnArray (operation : String) (r : Register) (found : Value)
  deriving DecidableEq

namespace ExecutionError

def indexNotIntText (operation : String) (index : Value) : String :=
  operation ++ ": index " ++ index.render ++ " is not an int"

def notAnArrayText (operation : String) (r : Register) (found : Value) : String :=
  operation ++ ": " ++ r.render ++ " holds " ++ found.render ++ ", not an array"

def message : ExecutionError → String
  | indexOutOfBounds index length =>
    "index " ++ toString index.toInt ++ " out of bounds for length " ++ toString length
  | storeMismatch value array => value.render ++ " cannot be stored into " ++ array.render
  | indexNotInt operation index => "type mismatch: " ++ indexNotIntText operation index
  | notAnArray operation r found => "type mismatch: " ++ notAnArrayText operation r found

end ExecutionError

inductive Fault
  | coercion (e : CoercionError)
  | execution (e : ExecutionError)
  | violation (v : Violation)
  | reading (e : ReadError)
  | overflow (o : Overflow)
  deriving DecidableEq

def Fault.message : Fault → String
  | coercion e => "coercion error: " ++ e.message
  | execution e => "execution error: " ++ e.message
  | violation v => "decoder error: " ++ v.message
  | reading e => "dex error: " ++ e.message
  | overflow o => o.message

end DalvikStores
