import DalvikStores.Assignment.Literal
import DalvikStores.State

/-!
# Building a state from assignments

Assignments are taken in order, so that a literal can share the value of a register assigned
before it. No register may be assigned twice, and together they must be all registers from `v0`
to the highest one; a gap is reported by the lowest register in it.
-/

namespace DalvikStores

/-- The registers in the order of their assignments, and the heap that these have made. -/
structure Assembly where
  assigned : List (Register × Value)
  heap : Heap

namespace Assembly

def start (heap : Heap) : Assembly := ⟨[], heap⟩

def resolve (a : Assembly) (text : String) : Except ToolError (Register × Value × Heap) := do
  let (r, l) ← (Assignment.parse text).mapError .reading
  let (v, heap) ← l.resolve a.assigned a.heap
  return (r, v, heap)

def add (a : Assembly) (text : String) : Except ToolError Assembly := do
  let (r, v, heap) ← a.resolve text
  if (a.assigned.lookup r).isSome then throw (.badArguments (.assignedTwice r))
  else return ⟨a.assigned ++ [(r, v)], heap⟩

def addAll (a : Assembly) (texts : List String) : Except ToolError Assembly :=
  texts.foldlM add a

def registerValue (a : Assembly) (index : Nat) : Except ToolError Value :=
  match a.assigned.find? fun p => p.1.index == index with
  | some (_, v) => .ok v
  | none => .error (.badArguments (.notAssigned index))

def frame (a : Assembly) : Except ToolError Frame := do
  let values ← (List.range a.assigned.length).mapM a.registerValue
  return ⟨values⟩

end Assembly

def State.build (heap : Heap) (texts : List String) : Except ToolError State := do
  let a ← (Assembly.start heap).addAll texts
  let frame ← a.frame
  return ⟨frame, a.heap⟩

end DalvikStores
