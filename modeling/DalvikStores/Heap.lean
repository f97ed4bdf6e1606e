import DalvikStores.Cell
import DalvikStores.Descriptor.Reader
import DalvikStores.Hierarchy.Assignable

/-!
# The heap

The heap gives every slot of every array its cell, and hands out identifiers in order, so that a
new object is different from all before it. The cells of a new array keep zeros, and no reference
where its elements are references.

A store first looks at the index, then, for a reference, at whether the hierarchy lets it stand
where the element type is expected, and last at whether a cell of the element type can keep the
value.
-/

namespace DalvikStores

structure Heap where
  cell : (ref : ArrayRef) → Nat → Cell ref.element
  next : Nat

namespace ArrayRef

/-- Whether a reference may stand in a slot of the array; unknown when the types cannot be
compared. -/
def accepts (ref : ArrayRef) (hierarchy : Hierarchy) (v : Value) : Option Bool :=
  if ref.element.isReference then
    match v with
    | .null => some true
    | .array r => hierarchy.assignable r.type ref.element
    | .object o => hierarchy.assignable o.type ref.element
    | .unknown d =>
      match Descriptor.ofText d.toList with
      | .ok t => hierarchy.assignable t ref.element
      | .error _ => some false
    | _ => some false
  else some false

def position (ref : ArrayRef) (index : Int32) : Except Fault Nat :=
  if 0 ≤ index.toInt ∧ index.toInt < ref.length then .ok index.toInt.toNat
  else .error (.execution (.indexOutOfBounds index ref.length))

/-- The cell that a store of `v` leaves in a slot. -/
def stored (ref : ArrayRef) (hierarchy : Hierarchy) (v : Value) :
    Except Fault (Cell ref.element) :=
  match if v.isReference then ref.accepts hierarchy v else some true with
  | none => .error (.overflow .dimension)
  | some false => .error (.execution (.storeMismatch v ref.type))
  | some true =>
    match Cell.ofValue? ref.element v with
    | some c => .ok c
    | none => .error (.execution (.storeMismatch v ref.type))

end ArrayRef

namespace Heap

def empty : Heap := ⟨fun ref _ => .zero ref.element ref.element_ne_void, 0⟩

/-- The value that a slot shows. -/
def slot (heap : Heap) (ref : ArrayRef) (i : Nat) : Value := (heap.cell ref i).value

def get? (heap : Heap) (ref : ArrayRef) (i : Nat) : Option Value :=
  if i < ref.length then some (heap.slot ref i) else none

def contents (heap : Heap) (ref : ArrayRef) : List Value :=
  (List.range ref.length).map (heap.slot ref)

def write (heap : Heap) (ref : ArrayRef) (i : Nat) (c : Cell ref.element) : Heap :=
  { heap with
    cell := fun r j => if h : r = ref ∧ j = i then h.1 ▸ c else heap.cell r j }

/-- A write as the machine does it, which has no slot outside of the array to write to. -/
def put (heap : Heap) (ref : ArrayRef) (i : Nat) (c : Cell ref.element) : Except Fault Heap :=
  if i < ref.length then .ok (heap.write ref i c)
  else .error (.overflow (.slot i ref.length))

def store (heap : Heap) (hierarchy : Hierarchy) (ref : ArrayRef) (index : Int32) (v : Value) :
    Except Fault Heap := do
  let i ← ref.position index
  let c ← ref.stored hierarchy v
  heap.put ref i c

/-- The reference takes the next identifier. -/
def allocate (heap : Heap) (t : Descriptor) (length : Nat) : Except Fault (ArrayRef × Heap) :=
  match ht : t.element with
  | .error .notArray => .error (.violation (.notArrayType t))
  | .error .noDimension => .error (.overflow .dimension)
  | .ok element =>
    if hl : length < 2147483648 then
      if hv : element = .void then .error (.violation .voidElements)
      else
        let ref : ArrayRef := ⟨heap.next, t, element, length, ht, hv, hl⟩
        .ok (ref,
          { cell := fun r j =>
              if r = ref then .zero r.element r.element_ne_void else heap.cell r j
            next := heap.next + 1 })
    else .error (.violation (.lengthTooLarge length))

def instantiate (heap : Heap) (t : Descriptor) : Except Fault (ObjectRef × Heap) :=
  match t with
  | .ofClass name => .ok (⟨heap.next, name⟩, { heap with next := heap.next + 1 })
  | t => .error (.violation (.notClassType t))

end Heap

end DalvikStores
