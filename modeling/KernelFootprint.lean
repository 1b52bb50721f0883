import KernelFootprint.Address.Query
import KernelFootprint.Datum.Json
import KernelFootprint.Estimate
import KernelFootprint.Proofs.Evaluation
import KernelFootprint.Proofs.Outcome
import KernelFootprint.Proofs.Unbounded
import KernelFootprint.Tree.Arena
import KernelFootprint.Tree.Rendering
import KernelFootprint.Version
import KernelFootprint.Word.Loose
import KernelFootprint.Proofs.HostLoops
import KernelFootprint.Proofs.Index
import KernelFootprint.Proofs.WorkingSet
import KernelFootprint.Proofs.Spelling
import KernelFootprint.Proofs.Sensitivity
import KernelFootprint.Proofs.Deferred
import KernelFootprint.Proofs.LateBinding
import KernelFootprint.Proofs.Frame
import KernelFootprint.Proofs.Memo
import KernelFootprint.Proofs.Recurrence
import KernelFootprint.Proofs.Extremes
import KernelFootprint.Proofs.RangeSoundness
import KernelFootprint.Proofs.PostfixLanguage
import KernelFootprint.Proofs.BracketedLanguage
import KernelFootprint.Proofs.Nesting
import KernelFootprint.Proofs.History
import KernelFootprint.Proofs.Progress
import KernelFootprint.Proofs.Turns
import KernelFootprint.Proofs.ExecutionCount
import KernelFootprint.Proofs.BoundSections
import KernelFootprint.Proofs.Construction
import KernelFootprint.Proofs.MalformedStreams
import KernelFootprint.Proofs.Containment
import KernelFootprint.Proofs.Passage
import KernelFootprint.Proofs.Agreement
import KernelFootprint.Proofs.Reasons
import KernelFootprint.Proofs.Filing
import KernelFootprint.Proofs.Delivery
import KernelFootprint.Proofs.Recording
import KernelFootprint.Proofs.Findings
import KernelFootprint.Proofs.Strictness
import KernelFootprint.Proofs.Interchange
import KernelFootprint.Proofs.LeftNesting
import KernelFootprint.Proofs.Links
import KernelFootprint.Proofs.TreeTables
import KernelFootprint.Proofs.Assembly
import KernelFootprint.Proofs.Joining
import KernelFootprint.Proofs.RootedTrees
import KernelFootprint.Proofs.Distance
import KernelFootprint.Proofs.FirstTerm
import KernelFootprint.Proofs.Subtraction
import KernelFootprint.Proofs.Places
import KernelFootprint.Proofs.SecondOperands
import KernelFootprint.Proofs.Displacement
import KernelFootprint.Proofs.LoopStride
import KernelFootprint.Proofs.Provenance
import KernelFootprint.Proofs.CountOfBounds
import KernelFootprint.Proofs.BitVectors
import KernelFootprint.Proofs.Residues
import KernelFootprint.Proofs.ZeroDivision
import KernelFootprint.Proofs.DeferredSigns
import KernelFootprint.Proofs.PinnedAddresses
import KernelFootprint.Proofs.RequestTrace
import KernelFootprint.Proofs.TokenData
import KernelFootprint.Proofs.Fallback
import KernelFootprint.Proofs.RenderedMeaning
import KernelFootprint.Proofs.AllocationGroups
import KernelFootprint.Proofs.LastRows
import KernelFootprint.Proofs.ArenaLinks
import KernelFootprint.Proofs.Descent
import KernelFootprint.Proofs.FrozenArenas
