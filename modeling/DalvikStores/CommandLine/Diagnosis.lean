import DalvikStores.Error

/-!
# Diagnoses

What a tool says when it gives up: the path of causes, from the outside to the inside, each with
what it holds. Texts are quoted; what has names shows them between braces.
-/

namespace DalvikStores

namespace Diagnosis

def applied (name argument : String) : String := name ++ "(" ++ argument ++ ")"

def record (name : String) (fields : List (String × String)) : String :=
  name ++ " \x7b " ++ Text.separated (fields.map fun f => f.1 ++ ": " ++ f.2) ++ " \x7d"

end Diagnosis

open Diagnosis Text

def ReadError.diagnosis : ReadError → String
  | unexpected rest wanted =>
    applied "Parsing" (separated [quoted (String.ofList rest), wanted.label])
  | numberTooLarge => applied "Integer" (record "ParseIntError" [("kind", "PosOverflow")])
  | badDimensions text =>
    record "Conversion"
      [("from", quoted ("&str (" ++ quoted (String.ofList text) ++ ")")), ("to", quoted "Type")]
  | badElement text =>
    record "Conversion"
      [("from", quoted ("&str: (" ++ quoted (String.ofList text) ++ ")")), ("to", quoted "Type")]
  | operandCount => "BadInstructionSize"

def Variant.diagnosis : Variant → String
  | plain => "Plain"
  | wide => "Wide"
  | boolean => "Boolean"
  | byte => "Byte"
  | char => "Char"
  | short => "Short"
  | object => "Object"

def CoercionError.diagnosis (e : CoercionError) : String :=
  record "TypeMismatch" [("variant", e.variant.diagnosis), ("value", quoted e.value.render)]

def ExecutionError.diagnosis : ExecutionError → String
  | indexOutOfBounds index length =>
    record "IndexOutOfBounds" [("index", toString index.toInt), ("length", toString length)]
  | storeMismatch value array =>
    record "ArrayStoreMismatch" [("value", quoted value.render), ("array", quoted array.render)]
  | indexNotInt operation index =>
    applied "TypeMismatch" (quoted (indexNotIntText operation index))
  | notAnArray operation r found =>
    applied "TypeMismatch" (quoted (notAnArrayText operation r found))

def Violation.diagnosis (v : Violation) : String := applied "PreconditionViolation" (quoted v.text)

def Fault.diagnosis : Fault → String
  | coercion e => applied "Coercion" e.diagnosis
  | execution e => applied "Execution" e.diagnosis
  | violation v => applied "Decoder" v.diagnosis
  | reading e => applied "Dex" e.diagnosis
  | overflow o => o.message

def ToolError.diagnosis : ToolError → String
  | badArguments e => applied "BadArguments" (quoted e.text)
  | fault e => applied "Symex" e.diagnosis
  | reading e => applied "Dex" e.diagnosis

end DalvikStores
