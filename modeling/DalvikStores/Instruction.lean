import DalvikStores.Register

/-!
# Instructions over registers

An instruction stands at an address, which counts 16-bit code units from the entry of the method.
An address is a 64-bit word, and there is no address behind the last one: `advance` does not wrap
around.

An instruction is written as its mnemonic, blanks, and one to three registers with commas
between them. One or two registers fit a single code unit, three take two. Blanks are spaces and
tabs; they may surround the whole text and each comma. A list of registers ends before the first
comma that no register follows, so that what is wrong there is reported as text left over, while
a first register that cannot be read is an error of its own.
-/

namespace DalvikStores

structure Address where
  offset : UInt64
  deriving DecidableEq, Repr

namespace Address

def entry : Address := ⟨0⟩

def render (a : Address) : String := toString a.offset.toNat

def advance (a : Address) (units : Nat) : Option Address :=
  if a.offset.toNat + units < UInt64.size then some ⟨UInt64.ofNat (a.offset.toNat + units)⟩
  else none

end Address

structure Instruction where
  address : Address
  mnemonic : String
  size : Nat
  registers : List Register
  deriving DecidableEq, Repr

namespace Register

/-- A comma and the register behind it. -/
def readNext (cs : List Char) : Option (Register × List Char) :=
  match Reader.skipBlanks cs with
  | ',' :: rest => (read (Reader.skipBlanks rest)).toOption
  | _ => none

theorem length_lt_of_readNext {cs rest : List Char} {r : Register}
    (h : readNext cs = some (r, rest)) : rest.length < cs.length := by
  unfold readNext at h
  split at h
  · rename_i ds hs
    cases hr : read (Reader.skipBlanks ds) with
    | error e => simp [hr, Except.toOption] at h
    | ok p =>
      simp only [hr, Except.toOption, Option.some.injEq] at h
      subst h
      have h1 := length_lt_of_read hr
      have h2 : (Reader.skipBlanks ds).length ≤ ds.length := (List.dropWhile_sublist _).length_le
      have h3 : (Reader.skipBlanks cs).length ≤ cs.length := (List.dropWhile_sublist _).length_le
      rw [hs, List.length_cons] at h3
      omega
  · cases h

def readFurther (cs : List Char) : List Register × List Char :=
  match _ : readNext cs with
  | some (r, rest) =>
    let (rs, rest) := readFurther rest
    (r :: rs, rest)
  | none => ([], cs)
termination_by cs.length
decreasing_by exact length_lt_of_readNext ‹_›

def readList : Reader (List Register) := fun cs => do
  let (r, rest) ← read cs
  let (rs, rest) := readFurther rest
  return (r :: rs, rest)

end Register

namespace Instruction

def isMnemonicChar (c : Char) : Bool := c.isLower || c.isDigit || c == '-' || c == '/'

def readParts : Reader (String × List Register) := fun cs => do
  let (mnemonic, rest) ← Reader.someWhile isMnemonicChar .someOf (Reader.skipBlanks cs)
  let (_, rest) ← Reader.someWhile Reader.isBlank .blanks rest
  let (registers, rest) ← Register.readList rest
  return ((String.ofList mnemonic, registers), Reader.skipBlanks rest)

/-- The code units taken by an instruction with so many registers. -/
def units : Nat → Except ReadError Nat
  | 1 => .ok 1
  | 2 => .ok 1
  | 3 => .ok 2
  | _ => .error .operandCount

def parse (address : Address) (text : String) : Except ReadError Instruction := do
  let (mnemonic, registers) ← Reader.whole readParts text.toList
  let size ← units registers.length
  return ⟨address, mnemonic, size, registers⟩

def render (i : Instruction) : String :=
  match i.registers with
  | [] => i.mnemonic
  | rs => i.mnemonic ++ " " ++ Text.separated (rs.map Register.render)

def next (i : Instruction) : Option Address := i.address.advance i.size

end Instruction

end DalvikStores
