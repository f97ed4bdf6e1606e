import DalvikStores.Fault
import DalvikStores.Instruction

/-!
# Array store operations

An operation is what is left of an instruction once its variant is known: the registers of the
value, of the array and of the index, in this order, and the one address to which control goes
on. It shows its registers with the letter `r`.
-/

namespace DalvikStores

structure Aput where
  address : Address
  name : String
  variant : Variant
  successor : Address
  value : Register
  array : Register
  index : Register
  deriving DecidableEq, Repr

namespace Aput

def new (address : Address) (name : String) (successor : Address)
    (value array index : Register) : Except Violation Aput := do
  let variant ← Variant.ofMnemonic name
  return { address, name, variant, successor, value, array, index }

/-- The address behind the instruction is needed before its mnemonic is looked at. -/
def ofInstruction (i : Instruction) : Except Fault Aput :=
  match i.registers with
  | [value, array, index] =>
    match i.next with
    | none => .error (.overflow .address)
    | some successor =>
      (new i.address i.mnemonic successor value array index).mapError .violation
  | registers => .error (.violation (.operandCount i.mnemonic registers.length))

def inFamily (mnemonic : String) : Bool :=
  mnemonic == "aput" || "aput-".toList.isPrefixOf mnemonic.toList

/-- The operation of any instruction; only array stores have one. -/
def create (i : Instruction) : Except Fault Aput :=
  if inFamily i.mnemonic then ofInstruction i
  else .error (.violation (.unsupportedOpcode i.mnemonic))

def operand (r : Register) : String := "r" ++ toString r.index

def render (op : Aput) : String :=
  op.name ++ " " ++ Text.separated [operand op.value, operand op.array, operand op.index]

end Aput

end DalvikStores
