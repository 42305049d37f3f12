import Wireframe.History
import Wireframe.Main
import Wireframe.Proofs.History.Sessions
import Wireframe.Proofs.History.Versions
import Wireframe.Proofs.Page.RoundTrip
import Wireframe.Proofs.Page.Simulation
import Wireframe.Proofs.Page.Incremental
import Wireframe.Proofs.Page.EditScript
import Wireframe.Proofs.Page.Reaching
import Wireframe.Proofs.Page.TagBalance
import Wireframe.Proofs.Page.Unsuspicious
import Wireframe.Proofs.Pipeline.Accounting
import Wireframe.Proofs.Pipeline.NoChange
import Wireframe.Proofs.Plan.LogReading
import Wireframe.Proofs.Plan.Patching
import Wireframe.Proofs.Plan.Validity
import Wireframe.Proofs.Plan.Untouched
import Wireframe.Proofs.Value.IndentedReading
import Wireframe.Proofs.Plan.Reading
import Wireframe.Proofs.Page.Scaffold
import Wireframe.Proofs.Page.LocalEdits
import Wireframe.Proofs.Page.AddedRoots
import Wireframe.Proofs.Plan.Moving
import Wireframe.Proofs.Plan.Replacing
import Wireframe.Proofs.Page.OrdinalMatching
import Wireframe.Proofs.Page.ReadableRoots
import Wireframe.Proofs.Page.UnchangedTexts
import Wireframe.Proofs.Page.PropUpdates
import Wireframe.Proofs.Page.AttributeSpans
import Wireframe.Proofs.Page.RecordedSources
import Wireframe.Proofs.Page.TagNames
import Wireframe.Proofs.Plan.Additions
import Wireframe.Proofs.Plan.Removals
import Wireframe.Proofs.Plan.Renaming
import Wireframe.Proofs.Component.Dropping
import Wireframe.Proofs.Plan.ExplainedStructure
import Wireframe.Proofs.Pipeline.OperationCounts
import Wireframe.Proofs.Instruction.Extraction
