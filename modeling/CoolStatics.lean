import CoolStatics.Json.Printer
import CoolStatics.Main
import CoolStatics.Proofs.Ancestry
import CoolStatics.Proofs.Registration
import CoolStatics.Proofs.Tree
import CoolStatics.Proofs.Order
import CoolStatics.Proofs.Rules
import CoolStatics.Proofs.Completion
import CoolStatics.Proofs.Equivalence
import CoolStatics.Proofs.Simulation
import CoolStatics.Proofs.Narrowing
import CoolStatics.Proofs.Shape
import CoolStatics.Proofs.MethodCopy
import CoolStatics.Proofs.Growth
import CoolStatics.Proofs.Joins
import CoolStatics.Proofs.Erasure
import CoolStatics.Proofs.Annotation
import CoolStatics.Proofs.Admission
import CoolStatics.Proofs.Reordering
import CoolStatics.Proofs.Mending
import CoolStatics.Proofs.Interchange
import CoolStatics.Proofs.Separation
import CoolStatics.Proofs.AbsentReceiver
import CoolStatics.Proofs.Lowering
import CoolStatics.Proofs.Numbering
import CoolStatics.Proofs.Reanalysis
import CoolStatics.Proofs.Insertion
import CoolStatics.Proofs.Restoring
import CoolStatics.Proofs.Containment
import CoolStatics.Proofs.ScopeStack
import CoolStatics.Proofs.BoundVariables
import CoolStatics.Proofs.BranchOrder
import CoolStatics.Proofs.Declarations
import CoolStatics.Proofs.Lookup
import CoolStatics.Proofs.Interning
import CoolStatics.Proofs.Walking
