import DalvikStores.Fault

/-!
# Errors of the command line tools

The tools refuse bad arguments in words of their own; the faults of an execution and the errors
of reading pass through as they are.
-/

namespace DalvikStores

inductive ArgumentError
  | sharedBeforeAssigned (r : Register)
  | assignedTwice (r : Register)
  | notAssigned (index : Nat)
  | badEntry (entry : String)
  | missingSubcommand
  deriving DecidableEq, Repr

def ArgumentError.text : ArgumentError → String
  | sharedBeforeAssigned r => "register " ++ r.render ++ " is not assigned yet"
  | assignedTwice r => "register " ++ r.render ++ " assigned more than once"
  | notAssigned index => "register v" ++ toString index ++ " is not assigned"
  | badEntry entry =>
    "bad class entry '" ++ entry ++ "', expected class:superclass[:interface...]"
  | missingSubcommand => "missing subcommand"

inductive ToolError
  | badArguments (e : ArgumentError)
  | fault (e : Fault)
  | reading (e : ReadError)
  deriving DecidableEq

def ToolError.message : ToolError → String
  | badArguments e => "bad arguments: " ++ e.text
  | fault e => e.message
  | reading e => e.message

end DalvikStores
