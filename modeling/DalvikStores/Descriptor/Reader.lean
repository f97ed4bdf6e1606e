import DalvikStores.Descriptor.Basic
import DalvikStores.Reader

/-!
# Reading type descriptors

A descriptor is `V`, or up to 254 opening brackets followed by a primitive letter or by a class
name between `L` and `;`. `ofText` takes a whole text. `read` first finds the extent of a
descriptor at the front of a text, without counting the brackets, and then hands exactly that
part to `ofText`.
-/

namespace DalvikStores.Descriptor

def isBracket (c : Char) : Bool := c == '['

def isNameChar (c : Char) : Bool := c != ';'

/-- The type behind the brackets. -/
def ofLeaf : List Char → Option Descriptor
  | ['Z'] => some boolean
  | ['B'] => some byte
  | ['S'] => some short
  | ['C'] => some char
  | ['I'] => some int
  | ['J'] => some long
  | ['F'] => some float
  | ['D'] => some double
  | 'L' :: cs =>
    if cs.takeWhile isNameChar ≠ [] ∧ cs.dropWhile isNameChar = [';'] then
      some (ofClass (String.ofList (cs.takeWhile isNameChar)))
    else none
  | _ => none

def ofText (cs : List Char) : Except ReadError Descriptor :=
  if cs = ['V'] then .ok void
  else
    let dimensions := (cs.takeWhile isBracket).length
    let leaf := cs.dropWhile isBracket
    if leaf = [] ∨ 255 ≤ dimensions then .error (.badDimensions cs)
    else
      match ofLeaf leaf with
      | none => .error (.badElement cs)
      | some t => .ok (if dimensions = 0 then t else array dimensions t)

def isLetter (c : Char) : Bool := "VZBSCIJFD".toList.contains c

/-- Where the leaf of a descriptor ends. -/
def leafExtent : Reader (List Char) := fun cs =>
  match cs with
  | [] => .error (.unexpected [] .char)
  | c :: cs' =>
    if isLetter c then .ok ([c], cs')
    else if c = 'L' then do
      let (name, rest) ← Reader.someWhile isNameChar .someUntil cs'
      match rest with
      | [] => .error (.unexpected [] .char)
      | semicolon :: rest => .ok ('L' :: name ++ [semicolon], rest)
    else .error (.unexpected (c :: cs') .char)

def read : Reader Descriptor := fun cs => do
  let (leaf, rest) ← leafExtent (cs.dropWhile isBracket)
  let t ← ofText (cs.takeWhile isBracket ++ leaf)
  return (t, rest)

def parse (text : String) : Except ReadError Descriptor := Reader.whole read text.toList

end DalvikStores.Descriptor
