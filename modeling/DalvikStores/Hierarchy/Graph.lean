import DalvikStores.Descriptor.Basic

/-!
# Graphs of classes

A link says that one class extends or implements another. A graph has a node for each class that a
link has named, numbered in the order in which they came, and an edge for each link, between the
numbers of its two classes. The number of a class is looked up in a table beside the nodes, and a
class that the table does not have gets the next node. A class is defined once the class it extends
has been linked. Nothing keeps the edges from going round in circles.

A search goes depth first and visits no node twice: the node on top of the stack, unless it has
been visited, makes way for the ends of its edges, in the order in which these were added.
-/

namespace DalvikStores

inductive Inheritance
  | superclass
  | interface
  deriving DecidableEq, Repr

def Inheritance.render : Inheritance → String
  | superclass => "<extends>"
  | interface => "<implements>"

structure Link where
  source : String
  kind : Inheritance
  target : String
  deriving DecidableEq, Repr

def Link.render (l : Link) : String := l.source ++ " " ++ l.kind.render ++ " " ++ l.target

structure Edge where
  source : Nat
  kind : Inheritance
  target : Nat
  deriving DecidableEq, Repr

/-- The name of each node, the number of each name, the edges, and the classes that are defined. -/
structure Graph where
  nodes : List String
  ids : List (String × Nat)
  edges : List Edge
  defined : List String
  deriving DecidableEq, Repr

namespace Graph

def empty : Graph := ⟨[], [], [], []⟩

def addNode (g : Graph) (c : String) : Graph :=
  { g with nodes := g.nodes ++ [c], ids := (c, g.nodes.length) :: g.ids }

/-- The number of a class, and the graph that has a node of this number for it. -/
def node (g : Graph) (c : String) : Nat × Graph :=
  match g.ids.lookup c with
  | some i => (i, g)
  | none => (g.nodes.length, g.addNode c)

/-- The source of a link gets its node before the target does. -/
def connect (g : Graph) (l : Link) : Graph :=
  let (source, g) := g.node l.source
  let (target, g) := g.node l.target
  { g with edges := g.edges ++ [⟨source, l.kind, target⟩] }

/-- A class is defined by the link to the class that it extends. -/
def define (defined : List String) (l : Link) : List String :=
  match l.kind with
  | .superclass => defined.insert l.source
  | .interface => defined

def insert (g : Graph) (l : Link) : Graph :=
  { g.connect l with defined := define g.defined l }

inductive Built : Graph → Prop
  | empty : Built empty
  | insert {g : Graph} (hg : Built g) (l : Link) : Built (g.insert l)

/-- An edge with the names of its nodes. -/
def link? (g : Graph) (e : Edge) : Option Link := do
  let source ← g.nodes[e.source]?
  let target ← g.nodes[e.target]?
  return ⟨source, e.kind, target⟩

def links (g : Graph) : List Link := g.edges.filterMap g.link?

def departing (edges : List Edge) (i : Nat) : List Edge := edges.filter fun e => e.source == i

def remaining (edges : List Edge) (i : Nat) : List Edge := edges.filter fun e => !e.source == i

theorem length_departing_add (edges : List Edge) (i : Nat) :
    (departing edges i).length + (remaining edges i).length = edges.length := by
  rw [departing, remaining, ← List.countP_eq_length_filter, ← List.countP_eq_length_filter,
    edges.length_eq_countP_add_countP fun e => e.source == i]
  simp only [Bool.not_eq_true, Bool.decide_eq_false]

/-- The nodes that have been visited, and behind them those that a search visits from a stack on.
The edges of a node that has been visited are not needed again. -/
def search (edges : List Edge) (stack visited : List Nat) : List Nat :=
  match stack with
  | [] => visited
  | i :: stack =>
    if i ∈ visited then search edges stack visited
    else
      search (remaining edges i) ((departing edges i).map Edge.target ++ stack) (visited ++ [i])
termination_by edges.length + stack.length
decreasing_by
  · exact Nat.lt_succ_self _
  · rw [List.length_append, List.length_map, List.length_cons]
    have hlength := length_departing_add edges i
    omega

/-- The names of the nodes that can be reached from a node. -/
def reached (g : Graph) (i : Nat) : List String :=
  (search g.edges [i] []).filterMap fun j => g.nodes[j]?

end Graph

end DalvikStores
