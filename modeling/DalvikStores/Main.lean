import DalvikStores.CommandLine.Tool

/-!
# The program

Runs the tool with subcommands on the arguments of the process.
-/

open DalvikStores

def main (args : List String) : IO UInt32 := do
  let outcome := Tool.run .symex args
  IO.print outcome.output
  match outcome.error with
  | some line => IO.eprintln line
  | none => pure ()
  return UInt32.ofNat outcome.exit
