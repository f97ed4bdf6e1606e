import DalvikStores.Text

/-!
# Reading from the front of a text

A reader takes a text and either returns what it read with the characters it left, or says why it
gave up. Most failures name the place where the reader stood, by the characters that were still
unread there, and what it was looking for. The others are about something that was read in full
and cannot be accepted: a register number that is too large, a type descriptor with too many
dimensions or none to count, an element that is no type, an instruction with too many operands.

A numeral is a run of ASCII digits, as many as there are, with a minus sign in front where the
kind of number has a sign. Leading zeros do not count; a numeral whose value is out of range is
not read at all.
-/

namespace DalvikStores

/-- What a reader was looking for where it gave up. -/
inductive Expectation
  | oneOf
  | char
  | digits
  | blanks
  | someOf
  | someUntil
  | endOfText
  deriving DecidableEq, Repr

def Expectation.label : Expectation → String
  | oneOf => "OneOf"
  | char => "Char"
  | digits => "Digit"
  | blanks => "Space"
  | someOf => "TakeWhile1"
  | someUntil => "TakeTill1"
  | endOfText => "Eof"

inductive ReadError
  | unexpected (rest : List Char) (wanted : Expectation)
  | numberTooLarge
  | badDimensions (text : List Char)
  | badElement (text : List Char)
  | operandCount
  deriving DecidableEq, Repr

def ReadError.message : ReadError → String
  | unexpected rest wanted =>
    "parsing error at " ++ Text.quoted (String.ofList rest) ++ " (" ++ wanted.label ++ ")"
  | numberTooLarge => "invalid integer literal: number too large to fit in target type"
  | badDimensions text =>
    "could not convert &str (" ++ Text.quoted (String.ofList text) ++ ") into Type"
  | badElement text =>
    "could not convert &str: (" ++ Text.quoted (String.ofList text) ++ ") into Type"
  | operandCount => "Bad instruction(s) size"

abbrev Reader (α : Type) := List Char → Except ReadError (α × List Char)

namespace Reader

variable {α : Type}

/-- The text must be used up: what a reader leaves is where the error points. -/
def whole (read : Reader α) (cs : List Char) : Except ReadError α :=
  match read cs with
  | .error e => .error e
  | .ok (a, []) => .ok a
  | .ok (_, rest) => .error (.unexpected rest .endOfText)

/-- At least one character that satisfies `p`, and all of them up to the first that does not. -/
def someWhile (p : Char → Bool) (wanted : Expectation) : Reader (List Char) := fun cs =>
  if cs.takeWhile p = [] then .error (.unexpected cs wanted)
  else .ok (cs.takeWhile p, cs.dropWhile p)

def digits : Reader (List Char) := someWhile Char.isDigit .digits

def isBlank (c : Char) : Bool := c == ' ' || c == '\t'

def skipBlanks (cs : List Char) : List Char := cs.dropWhile isBlank

end Reader

namespace Numeral

def value (digits : List Char) : Nat := Nat.ofDigitChars 10 digits 0

/-- Digits of value below `bound`. -/
def unsigned (bound : Nat) (cs : List Char) : Option (Nat × List Char) :=
  let digits := cs.takeWhile Char.isDigit
  if digits ≠ [] ∧ value digits < bound then some (value digits, cs.dropWhile Char.isDigit)
  else none

/-- Digits with an optional minus sign, of a value that is at least `-bound` and below `bound`. -/
def signed (bound : Nat) (cs : List Char) : Option (Int × List Char) :=
  match cs with
  | '-' :: ds => (unsigned (bound + 1) ds).map fun (n, rest) => (-(n : Int), rest)
  | ds => (unsigned bound ds).map fun (n, rest) => ((n : Int), rest)

end Numeral

end DalvikStores
