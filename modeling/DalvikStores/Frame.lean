import DalvikStores.Fault

/-!
# Frames

A frame is the registers of a method, from `v0` on. Every one of them always holds a value, and
only the registers of the frame can be read or assigned.
-/

namespace DalvikStores

structure Frame where
  registers : List Value
  deriving DecidableEq

namespace Frame

/-- A frame of which only the type of its registers is known. -/
def unknown (size : Nat) (descriptor : String) : Frame :=
  ⟨List.replicate size (.unknown descriptor)⟩

def size (f : Frame) : Nat := f.registers.length

def read (f : Frame) (r : Register) : Except Fault Value :=
  match f.registers[r.index]? with
  | some v => .ok v
  | none => .error (.violation (.outsideFrame r f.size))

/-- The registers that can be assigned are those that can be read. -/
def assign (f : Frame) (r : Register) (v : Value) : Except Fault Frame :=
  if r.index < f.size then .ok ⟨f.registers.set r.index v⟩
  else .error (.violation (.outsideFrame r f.size))

/-- The values of the frame that a register number reaches. -/
def entries (f : Frame) : List (Register × Value) :=
  (f.registers.take UInt16.size).zipIdx.map fun (v, i) => (⟨UInt16.ofNat i⟩, v)

def render (f : Frame) : String :=
  String.join <| f.registers.zipIdx.map fun (v, i) =>
    "    v" ++ toString i ++ ": " ++ v.render ++ "\n"

end Frame

end DalvikStores
