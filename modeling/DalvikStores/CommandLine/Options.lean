import DalvikStores.CommandLine.Token
import DalvikStores.Instruction

/-!
# Command line options

Tokens are taken in order, and the first one that cannot be taken, or that asks for the version,
ends the matter. Registers and class entries may be given any number of times, everything else
once. Only the instruction must be given; the address defaults to the entry of the method.
-/

namespace DalvikStores

/-- Digits, with an optional plus sign in front. -/
def Address.ofText (text : String) : Option Address :=
  let digits :=
    match text.toList with
    | '+' :: cs => cs
    | cs => cs
  match Numeral.unsigned UInt64.size digits with
  | some (n, []) => some ⟨UInt64.ofNat n⟩
  | _ => none

namespace CommandLine

inductive Stop
  | usage
  | version
  deriving DecidableEq, Repr

structure Options where
  flags : List Flag
  instruction : Option String
  address : Option Address
  registers : List String
  entries : List String
  deriving DecidableEq, Repr

structure Request where
  instruction : String
  address : Address
  registers : List String
  entries : List String
  deriving DecidableEq, Repr

namespace Options

def none : Options := ⟨[], .none, .none, [], []⟩

def take (o : Options) : Token → Except Stop Options
  | .flag f => if f ∈ o.flags then .error .usage else .ok { o with flags := f :: o.flags }
  | .setting .instruction value =>
    if o.instruction.isSome then .error .usage else .ok { o with instruction := some value }
  | .setting .address value =>
    match o.address, Address.ofText value with
    | .none, some a => .ok { o with address := some a }
    | _, _ => .error .usage
  | .setting .register value => .ok { o with registers := o.registers ++ [value] }
  | .setting .entry value => .ok { o with entries := o.entries ++ [value] }
  | .version => .error .version
  | .refused => .error .usage

def request (o : Options) : Except Stop Request :=
  match o.instruction with
  | some instruction =>
    .ok ⟨instruction, o.address.getD Address.entry, o.registers, o.entries⟩
  | .none => .error .usage

end Options

def Request.ofArguments (args : List String) : Except Stop Request := do
  let options ← (tokens args).foldlM Options.take Options.none
  options.request

end CommandLine

end DalvikStores
