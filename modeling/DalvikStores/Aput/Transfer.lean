import DalvikStores.Aput.Basic
import DalvikStores.State

/-!
# What an array store does to a state

The registers alone decide what is to be done. A store into an unknown array changes nothing that
is known. A store of an unknown value, or at an unknown index, may have changed any slot, and so
the array register forgets its array and becomes unknown of the same type. Otherwise the value is
coerced, the index is brought to an `int`, and the heap takes the store.

The array register is assigned in the end in any case, so that whoever watches the registers sees
that the array may have changed.

A text is executed at an address: it is read, turned into an operation, and this is executed.
-/

namespace DalvikStores

namespace Aput

inductive Action
  | leave (descriptor : String)
  | taint (ref : ArrayRef)
  | write (ref : ArrayRef) (index : Int32) (value : Value)
  deriving DecidableEq

/-- What the array register holds after the action. -/
def Action.array : Action → Value
  | leave descriptor => .unknown descriptor
  | taint ref => .ofUnknown ref.type
  | write ref _ _ => .array ref

def coerced (op : Aput) (v : Value) : Except Fault Value :=
  (op.variant.coerce v).mapError .coercion

def position (op : Aput) (v : Value) : Except Fault Int32 :=
  match v.widen with
  | some i => .ok i
  | none => .error (.execution (.indexNotInt op.render v))

def action (op : Aput) (frame : Frame) : Except Fault Action := do
  let value ← frame.read op.value
  let array ← frame.read op.array
  let index ← frame.read op.index
  match array with
  | .unknown descriptor => return .leave descriptor
  | .array ref =>
    if value.isUnknown || index.isUnknown then return .taint ref
    else
      let value ← op.coerced value
      let index ← op.position index
      return .write ref index value
  | found => throw (.execution (.notAnArray op.render op.array found))

def perform (hierarchy : Hierarchy) : Action → Execution Unit
  | .write ref index value => Execution.store hierarchy ref index value
  | _ => return ()

/-- The addresses to which control goes on. -/
def execute (op : Aput) (hierarchy : Hierarchy) : Execution (List Address) := do
  let action ← Execution.ofExcept (op.action (← get).frame)
  perform hierarchy action
  Execution.assign op.array action.array
  return [op.successor]

end Aput

def Aput.ofText (address : Address) (text : String) : Except Fault Aput := do
  let i ← (Instruction.parse address text).mapError .reading
  create i

def Execution.ofText (hierarchy : Hierarchy) (address : Address) (text : String) :
    Execution (List Address) := do
  let op ← ofExcept (Aput.ofText address text)
  op.execute hierarchy

end DalvikStores
