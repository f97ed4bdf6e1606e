import DalvikStores.Error
import DalvikStores.Hierarchy.Basic

/-!
# Entries of a class hierarchy

An entry lists a class, the class it extends, and the interfaces it implements, with colons
between the names. A name may be written as a descriptor, between `L` and `;`. No name may be
empty, and an entry with an empty name adds no link at all.

An entry is entered into a hierarchy in place, link after link. An error does not take back what
was inserted before it, and so all names are looked at before the first link goes in.
-/

namespace DalvikStores

namespace Text

/-- The parts of a text between the occurrences of a character; there is always at least one. -/
def splitAt (separator : Char) : List Char → List (List Char)
  | [] => [[]]
  | c :: cs =>
    if c = separator then [] :: splitAt separator cs
    else
      match splitAt separator cs with
      | [] => [[c]]
      | part :: parts => (c :: part) :: parts

end Text

namespace Hierarchy

/-- The name inside of `L` and `;`, or else the whole text. -/
def unwrapName (cs : List Char) : List Char :=
  match cs with
  | 'L' :: rest => if rest.getLast? = some ';' then rest.dropLast else cs
  | _ => cs

def entryNames (entry : String) : List String :=
  (Text.splitAt ':' entry.toList).map fun part => String.ofList (unwrapName part)

def entryLinks (entry : String) : Except ToolError (List Link) :=
  match entryNames entry with
  | c :: superclass :: interfaces =>
    if "" ∈ c :: superclass :: interfaces then .error (.badArguments (.badEntry entry))
    else
      .ok (⟨c, .superclass, superclass⟩ :: interfaces.map fun i => ⟨c, .interface, i⟩)
  | _ => .error (.badArguments (.badEntry entry))

def enter (entry : String) : EStateM ToolError Hierarchy Unit :=
  match entryLinks entry with
  | .ok links => links.forM fun l => modify fun h => h.insert l
  | .error e => throw e

def register (h : Hierarchy) (entry : String) : Except ToolError Hierarchy :=
  match enter entry h with
  | .ok _ h' => .ok h'
  | .error e _ => .error e

theorem forM_insert (links : List Link) (h : Hierarchy) :
    (links.forM fun l => modify fun h => h.insert l : EStateM ToolError Hierarchy Unit) h =
      .ok () (h.insertAll links) := by
  induction links generalizing h with
  | nil => rfl
  | cons l links ih => exact ih (h.insert l)

theorem enter_eq (entry : String) (h : Hierarchy) :
    enter entry h = match entryLinks entry with
      | .ok links => .ok () (h.insertAll links)
      | .error e => .error e h := by
  unfold enter
  cases entryLinks entry with
  | ok links => exact forM_insert links h
  | error e => rfl

end Hierarchy

end DalvikStores
