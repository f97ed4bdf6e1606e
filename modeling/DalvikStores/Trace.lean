import DalvikStores.Assignment.Build
import DalvikStores.Event

/-!
# The events of a computation

Each computation that tells a log about its progress has its events here. They come in order and
stop where the computation fails: an array that could not be allocated is not mentioned, while a
store is announced before the heap has accepted it, and an assignment before a second one of the
same register is refused.
-/

namespace DalvikStores

def Aput.Action.events (op : Aput) : Aput.Action → List Event
  | .leave _ => [.ignored op]
  | .taint _ => [.tainted op]
  | .write ref index v => [.storing op ref index v]

def Aput.events (op : Aput) (frame : Frame) : List Event :=
  match op.action frame with
  | .ok action => action.events op
  | .error _ => []

/-- What has been read is told even where no operation comes of it. -/
def executionEvents (address : Address) (text : String) (frame : Frame) : List Event :=
  match Instruction.parse address text with
  | .error _ => []
  | .ok i =>
    .parsed i ::
      match Aput.create i with
      | .error _ => []
      | .ok op => .running op :: op.events frame

def Literal.events : Literal → List Event
  | .array t length => [.allocated t length]
  | _ => []

namespace Assembly

def eventsOf (a : Assembly) (text : String) : List Event :=
  match Assignment.parse text with
  | .error _ => []
  | .ok (r, l) =>
    match l.resolve a.assigned a.heap with
    | .error _ => []
    | .ok (v, _) => l.events ++ [.assigned r v]

def events (a : Assembly) : List String → List Event
  | [] => []
  | text :: texts =>
    a.eventsOf text ++
      match a.add text with
      | .error _ => []
      | .ok a => a.events texts

end Assembly

end DalvikStores
