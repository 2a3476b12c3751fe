import NativeImage.Closure.Table
import NativeImage.CompilationUnit.Compile
import NativeImage.Construction.Monitor
import NativeImage.Text.Hex
import NativeImage.Text.Quoted
import NativeImage.Proofs.Construction.Deadlock
import NativeImage.Proofs.Construction.Once
import NativeImage.Proofs.Settled
import NativeImage.Proofs.Program.Growth
import NativeImage.Proofs.CompilationUnit.Growth
import NativeImage.Proofs.Closure.Explored
import NativeImage.Proofs.CompilationUnit.Attachment
import NativeImage.Proofs.CompilationUnit.Relocation
import NativeImage.Proofs.Agreement
import NativeImage.Proofs.Program.Matching
import NativeImage.Proofs.Program.MethodMatching
import NativeImage.Proofs.Program.Siblings
import NativeImage.Proofs.Program.Reachable
import NativeImage.Proofs.CompilationUnit.Naming
import NativeImage.Proofs.CompilationUnit.WellFormed
import NativeImage.Proofs.CompilationUnit.Twins
import NativeImage.Proofs.CompilationUnit.Agreement
import NativeImage.Proofs.CompilationUnit.RequestAgreement
import NativeImage.Proofs.CompilationUnit.Expansion
import NativeImage.Proofs.CompilationUnit.AttachmentAgreement
import NativeImage.Proofs.Closure.Justified
import NativeImage.Proofs.CompilationUnit.FixedPoint
import NativeImage.Proofs.Closure.Lockstep
import NativeImage.Proofs.Closure.Pure
import NativeImage.Proofs.Closure.Reachability
import NativeImage.Proofs.Closure.Worklist
import NativeImage.Proofs.CompilationUnit.Marking
import NativeImage.Proofs.CompilationUnit.PayloadAgreement
import NativeImage.Proofs.CompilationUnit.LayoutAgreement
import NativeImage.Proofs.CompilationUnit.Numbering
import NativeImage.Proofs.Closure.Pacing
import NativeImage.Proofs.Ending
import NativeImage.Proofs.Closure.Ending
import NativeImage.Proofs.Program.Totality
import NativeImage.Proofs.CompilationUnit.Totality
import NativeImage.Proofs.CompilationUnit.Refusal
import NativeImage.Proofs.CompilationUnit.Rounds
import NativeImage.Proofs.Object.Packing
import NativeImage.Proofs.CompilationUnit.Fitting
import NativeImage.Proofs.CompilationUnit.Reachable
import NativeImage.Proofs.Construction.Layered
import NativeImage.Proofs.CompilationUnit.Caches
import NativeImage.Proofs.CompilationUnit.Outcome
import NativeImage.Proofs.Closure.Failure
import NativeImage.Proofs.Program.Interning
import NativeImage.Proofs.Program.TypeSharing
import NativeImage.Proofs.Program.Ownership
import NativeImage.Proofs.Program.MethodSharing
import NativeImage.Proofs.Symbol.Decoding
import NativeImage.Proofs.Object.Placement
import NativeImage.Proofs.CompilationUnit.RegionMembers
import NativeImage.Proofs.CompilationUnit.Asking
import NativeImage.Proofs.CompilationUnit.Caching
import NativeImage.Proofs.CompilationUnit.NodeIdentity
import NativeImage.Proofs.Program.Homes
import NativeImage.Proofs.Program.DistinctNames
import NativeImage.Proofs.Program.DisplayNames
import NativeImage.Proofs.CompilationUnit.Making
import NativeImage.Proofs.CompilationUnit.DelegateSymbols
import NativeImage.Proofs.CompilationUnit.UniqueSymbols
import NativeImage.Proofs.CompilationUnit.Provenance
import NativeImage.Proofs.CompilationUnit.OwnedNodes
import NativeImage.Proofs.CompilationUnit.RegionPlaces
import NativeImage.Proofs.CompilationUnit.CodeSharing
import NativeImage.Proofs.CompilationUnit.SharedProgram
import NativeImage.Proofs.CompilationUnit.References
import NativeImage.Proofs.Construction.Cycles
import NativeImage.Proofs.Construction.Waking
import NativeImage.Proofs.CompilationUnit.Answering
import NativeImage.Proofs.CompilationUnit.Forwarding
import NativeImage.Proofs.CompilationUnit.DelegateOutcome
import NativeImage.Proofs.Object.LayoutOutcome
import NativeImage.Proofs.Program.Placeholder
import NativeImage.Proofs.Program.Counterparts
import NativeImage.Proofs.CompilationUnit.DelegateTargets
import NativeImage.Proofs.Object.Fields
import NativeImage.Proofs.CompilationUnit.HeaderDirectory
import NativeImage.Proofs.Object.SlotSeries
import NativeImage.Proofs.CompilationUnit.StaticsDescriptors
import NativeImage.Proofs.Program.DelegateThunks
