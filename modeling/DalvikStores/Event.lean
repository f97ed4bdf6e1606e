import DalvikStores.Aput.Transfer
import DalvikStores.Hierarchy.Basic

/-!
# Events

What a computation tells its log while it goes on, each event with its level and its wording. An
operation that is about to run is for debugging, all else is a trace.
-/

namespace DalvikStores

/-- A `storing` is told before the heap is asked whether it takes the store. -/
inductive Event
  | linked (l : Link)
  | allocated (t : Descriptor) (length : Nat)
  | assigned (r : Register) (v : Value)
  | parsed (i : Instruction)
  | running (op : Aput)
  | ignored (op : Aput)
  | tainted (op : Aput)
  | storing (op : Aput) (ref : ArrayRef) (index : Int32) (v : Value)
  deriving DecidableEq

namespace Event

def level : Event → String
  | running _ => "DEBUG"
  | _ => "TRACE"

def text : Event → String
  | linked l => "hierarchy: " ++ l.render
  | allocated t length => "allocate " ++ t.render ++ " of length " ++ toString length
  | assigned r v => r.render ++ " <- " ++ v.render
  | parsed i =>
    "parsed " ++ i.mnemonic ++ " (" ++ toString i.size ++ " code units) at " ++ i.address.render
  | running op => op.address.render ++ ": " ++ op.render
  | ignored op => op.render ++ ": store into unknown array"
  | tainted op => op.render ++ ": unknown operand, array becomes unknown"
  | storing op ref index v =>
    op.render ++ ": " ++ ref.type.render ++ "[" ++ toString index.toInt ++ "] <- " ++ v.render

def line (e : Event) : String := e.level ++ " " ++ e.text

end Event

end DalvikStores
