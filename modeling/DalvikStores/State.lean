import DalvikStores.Frame
import DalvikStores.Heap

/-!
# States

The state that instructions work on is a frame together with the heap its references lead into.
An execution takes a state to a result or a fault, and in either case to the state it has got to:
a fault does not undo what came before it. The registers are read and assigned and the heap takes
a store in single steps, each of which changes nothing when it fails.
-/

namespace DalvikStores

structure State where
  frame : Frame
  heap : Heap

/-- A fault comes with the state it has left behind. -/
abbrev Execution (α : Type) := EStateM Fault State α

namespace Execution

def read (r : Register) : Execution Value := fun s =>
  match s.frame.read r with
  | .ok v => .ok v s
  | .error e => .error e s

def assign (r : Register) (v : Value) : Execution Unit := fun s =>
  match s.frame.assign r v with
  | .ok frame => .ok () { s with frame }
  | .error e => .error e s

def store (hierarchy : Hierarchy) (ref : ArrayRef) (index : Int32) (v : Value) :
    Execution Unit := fun s =>
  match s.heap.store hierarchy ref index v with
  | .ok heap => .ok () { s with heap }
  | .error e => .error e s

def ofExcept {α : Type} (r : Except Fault α) : Execution α := fun s =>
  match r with
  | .ok a => .ok a s
  | .error e => .error e s

end Execution

end DalvikStores
