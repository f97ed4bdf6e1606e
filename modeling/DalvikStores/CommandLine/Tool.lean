import DalvikStores.CommandLine.Diagnosis
import DalvikStores.CommandLine.Options
import DalvikStores.Report

/-!
# Command line tools

One tool executes an array store and prints the report of the state after it. The other does the
same under its subcommand `aput`, the only one it has. A run ends with exit code 0 after a report
or a version, 1 after an error, 2 when the arguments are refused, and 101 when a sum or an index
leaves its range.
-/

namespace DalvikStores

structure Outcome where
  exit : Nat
  output : String
  error : Option String
  deriving DecidableEq, Repr

namespace Outcome

def printed (output : String) : Outcome := ⟨0, output, none⟩

def failed (e : ToolError) : Outcome := ⟨1, "", some ("Error: " ++ e.diagnosis)⟩

def refused : Outcome := ⟨2, "", none⟩

def aborted : Outcome := ⟨101, "", none⟩

/-- An overflow is no error of the tool: it stops without a diagnosis. -/
def ofResult : Except ToolError String → Outcome
  | .ok report => printed report
  | .error (.fault (.overflow _)) => aborted
  | .error e => failed e

end Outcome

inductive Tool
  | aput
  | symex
  deriving DecidableEq, Repr

namespace Tool

open CommandLine

def versionLine (name : String) : String := name ++ " 1.2.0\n"

def execute (r : Request) : Except ToolError String := do
  let setup ← Setup.ofTexts r.entries r.registers
  (setup.report r.address r.instruction).mapError .fault

def runAput (name : String) (args : List String) : Outcome :=
  match Request.ofArguments args with
  | .ok r => .ofResult (execute r)
  | .error .usage => .refused
  | .error .version => .printed (versionLine name)

def asksVersion (arg : String) : Bool := "-V".toList.isPrefixOf arg.toList || arg == "--version"

def runSymex : List String → Outcome
  | [] => .failed (.badArguments .missingSubcommand)
  | ["--"] => .failed (.badArguments .missingSubcommand)
  | "aput" :: args => runAput "dw-symex-aput" args
  | arg :: _ => if asksVersion arg then .printed (versionLine "dw-symex") else .refused

def run : Tool → List String → Outcome
  | aput, args => runAput "aput" args
  | symex, args => runSymex args

end Tool

end DalvikStores
