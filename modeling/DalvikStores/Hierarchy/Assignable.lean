import DalvikStores.Hierarchy.Basic

/-!
# Assignability of references

A value of one type can be stored where another is expected if the types are the same, if a
reference is stored as an object of the root class, if an array is stored as one of the two
interfaces that all arrays implement, or if a class is stored as one of its ancestors. For two
arrays the question goes to their elements, as long as both are references. There is no answer
when one of two different arrays has no dimension to take an element from.
-/

namespace DalvikStores.Hierarchy

def arrayInterfaces : List String := ["java/lang/Cloneable", "java/io/Serializable"]

/-- The answer is `none` where the element of an array without a dimension would be needed. -/
def assignable (h : Hierarchy) (source target : Descriptor) : Option Bool :=
  if source = target then some true
  else
    match source, target with
    | .array m s, .array n t =>
      match _ : (Descriptor.array m s).element, (Descriptor.array n t).element with
      | .ok s', .ok t' =>
        if s'.isReference && t'.isReference then h.assignable s' t' else some false
      | _, _ => none
    | source, .ofClass t =>
      if t = Descriptor.rootClass then some source.isReference
      else
        match source with
        | .array _ _ => some (arrayInterfaces.contains t)
        | .ofClass c => some (h.isSubclass c t)
        | _ => some false
    | _, _ => some false
termination_by source.depth
decreasing_by exact Descriptor.depth_lt_of_element ‹_›

end DalvikStores.Hierarchy
