import DalvikStores.Hierarchy.Graph

/-!
# Class hierarchies

A hierarchy is a graph that has come about by insertions of links. A class is known as soon as it
has a node. The ancestors of a class are the class itself and all that its node can reach.

Where the ancestry of a class is incomplete, since some ancestor other than the root class is not
defined, it may go on to anything, and so the class counts as a subclass of every class.
-/

namespace DalvikStores

structure Hierarchy extends Graph where
  built : toGraph.Built
  deriving DecidableEq

namespace Hierarchy

def empty : Hierarchy := ⟨.empty, .empty⟩

def insert (h : Hierarchy) (l : Link) : Hierarchy := ⟨h.toGraph.insert l, .insert h.built l⟩

def insertAll (h : Hierarchy) (ls : List Link) : Hierarchy := ls.foldl insert h

def contains (h : Hierarchy) (c : String) : Bool := (h.ids.lookup c).isSome

def classCount (h : Hierarchy) : Nat := h.nodes.length

def defines (h : Hierarchy) (c : String) : Bool := h.defined.contains c

/-- In the order of their code points. -/
def ancestors (h : Hierarchy) (c : String) : List String :=
  match h.ids.lookup c with
  | some i => (h.reached i).mergeSort fun a b => decide (a ≤ b)
  | none => [c]

def isSubclass (h : Hierarchy) (c target : String) : Bool :=
  match h.ids.lookup c with
  | some i =>
    (h.reached i).contains target ||
      (h.reached i).any fun a => a != Descriptor.rootClass && !h.defines a
  | none => true

end Hierarchy

end DalvikStores
