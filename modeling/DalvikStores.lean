import DalvikStores.Main
import DalvikStores.Trace
import DalvikStores.Value.Kind
import DalvikStores.Proofs.Assignability
import DalvikStores.Proofs.Coercion
import DalvikStores.Proofs.Slot
import DalvikStores.Proofs.Transfer
import DalvikStores.Proofs.Outcome
import DalvikStores.Proofs.Effect
import DalvikStores.Proofs.Assembly
import DalvikStores.Proofs.Run
import DalvikStores.Proofs.HeapTyping
import DalvikStores.Proofs.Taint
import DalvikStores.Proofs.Naming
import DalvikStores.Proofs.Ancestry
import DalvikStores.Proofs.Blurring
import DalvikStores.Proofs.RegisterTyping
import DalvikStores.Proofs.LastStore
import DalvikStores.Proofs.Dimensions
import DalvikStores.Proofs.Links
import DalvikStores.Proofs.Overrun
import DalvikStores.Proofs.Reading
import DalvikStores.Proofs.InstructionSpelling
import DalvikStores.Proofs.AssignmentSpelling
import DalvikStores.Proofs.Sharing
import DalvikStores.Proofs.Building
import DalvikStores.Proofs.Commutation
import DalvikStores.Proofs.Repetition
import DalvikStores.Proofs.SlotLaws
import DalvikStores.Proofs.Narrowing
import DalvikStores.Proofs.RoundTrip
import DalvikStores.Proofs.Locality
import DalvikStores.Proofs.BracketLimit
import DalvikStores.Proofs.Entries
import DalvikStores.Proofs.Reporting
import DalvikStores.Proofs.Describing
import DalvikStores.Proofs.Pointing
import DalvikStores.Proofs.OutOfRange
import DalvikStores.Proofs.Rendering
import DalvikStores.Proofs.Creation
import DalvikStores.Proofs.Peeling
