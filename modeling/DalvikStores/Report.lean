import DalvikStores.Aput.Transfer
import DalvikStores.Assignment.Build
import DalvikStores.Hierarchy.Entry

/-!
# Reports

A report shows a state after an execution: the addresses to which control may go on, the
registers, and the contents of the array behind every register that holds one.

To report on texts alone, the class entries are registered first, then the state is built, and
then the instruction is executed and the state after it reported.
-/

namespace DalvikStores

namespace State

def contentsLine (s : State) (r : Register) (ref : ArrayRef) : String :=
  r.render ++ " contents: [" ++ Text.separated ((s.heap.contents ref).map Value.render) ++ "]\n"

/-- An array that several registers share has a line for each of them. -/
def contentsLines (s : State) : List String :=
  s.frame.entries.filterMap fun
    | (r, .array ref) => some (s.contentsLine r ref)
    | _ => none

def report (s : State) (successors : List Address) : String :=
  "successors: " ++ Text.separated (successors.map Address.render) ++ "\nregisters:\n" ++
    s.frame.render ++ String.join s.contentsLines

end State

/-- What the texts of a request amount to before its instruction is executed. -/
structure Setup where
  hierarchy : Hierarchy
  state : State

namespace Setup

def ofTexts (entries assignments : List String) : Except ToolError Setup := do
  let hierarchy ← entries.foldlM Hierarchy.register .empty
  let state ← State.build .empty assignments
  return ⟨hierarchy, state⟩

def report (setup : Setup) (address : Address) (text : String) : Except Fault String :=
  match Execution.ofText setup.hierarchy address text setup.state with
  | .ok successors s => .ok (s.report successors)
  | .error e _ => .error e

end Setup

end DalvikStores
