import DalvikStores.Violation

/-!
# Variants of the array store

The mnemonic of an array store is the name of the family alone, for the plain variant, or the
family, a dash and the name of another variant. A mnemonic is taken apart at its last dash, so
that one with more dashes has a front other than the family. `ofMnemonic` refuses everything else.
-/

namespace DalvikStores

inductive Variant
  | plain
  | wide
  | boolean
  | byte
  | char
  | short
  | object
  deriving DecidableEq, Repr

namespace Variant

def name : Variant → String
  | plain => "plain"
  | wide => "wide"
  | boolean => "boolean"
  | byte => "byte"
  | char => "char"
  | short => "short"
  | object => "object"

def ofSuffix : String → Option Variant
  | "wide" => some wide
  | "object" => some object
  | "boolean" => some boolean
  | "byte" => some byte
  | "char" => some char
  | "short" => some short
  | _ => none

def family : String := "aput"

/-- What stands in front of the last dash and what stands behind it. -/
def atLastDash : List Char → Option (List Char × List Char)
  | [] => none
  | c :: cs =>
    match atLastDash cs with
    | some (front, suffix) => some (c :: front, suffix)
    | none => if c = '-' then some ([], cs) else none

def named (mnemonic : String) : Option Variant :=
  match atLastDash mnemonic.toList with
  | none => if mnemonic = family then some plain else none
  | some (front, suffix) =>
    if String.ofList front = family then ofSuffix (String.ofList suffix) else none

def ofMnemonic (mnemonic : String) : Except Violation Variant :=
  match named mnemonic with
  | some v => .ok v
  | none => .error (.notArrayStore mnemonic)

end Variant

end DalvikStores
