import Phrasebook.Main
import Phrasebook.Number.Decimal
import Phrasebook.Proofs.Java.Legal
import Phrasebook.Proofs.Outcome
import Phrasebook.Report.Schema
import Phrasebook.Shape.Hint
import Phrasebook.Version
import Phrasebook.World
import Phrasebook.Proofs.FileTree.Linkless
import Phrasebook.Proofs.World
import Phrasebook.Proofs.Workspace.Directories
import Phrasebook.Proofs.Target
import Phrasebook.Proofs.Workspace.Replace
import Phrasebook.Proofs.Validation
import Phrasebook.Proofs.Workspace.Emit
import Phrasebook.Proofs.Emission.File
import Phrasebook.Proofs.Workspace.History
import Phrasebook.Proofs.Java.Declared
import Phrasebook.Proofs.Emission.Names
import Phrasebook.Proofs.Java.Lines
import Phrasebook.Proofs.Emission.Listing
import Phrasebook.Proofs.Emission.Determined
import Phrasebook.Proofs.Java.Execution
import Phrasebook.Proofs.Emission.Builder
import Phrasebook.Proofs.Shape.Decode
import Phrasebook.Proofs.PhraseFile
import Phrasebook.Proofs.Text.Encoding
import Phrasebook.Proofs.FileTree.Walks
import Phrasebook.Proofs.FileTree.Leads
import Phrasebook.Proofs.FileTree.Kept
import Phrasebook.Proofs.FileTree.Site
import Phrasebook.Proofs.FileTree.Sound
import Phrasebook.Proofs.FileTree.Following
import Phrasebook.Proofs.Workspace.Asking
import Phrasebook.Proofs.Workspace.Written
import Phrasebook.Proofs.Workspace.Again
import Phrasebook.Proofs.Workspace.Batches
import Phrasebook.Proofs.Command.Generate
import Phrasebook.Proofs.Command.Render
import Phrasebook.Proofs.Text.Closing
import Phrasebook.Proofs.Emission.Code
import Phrasebook.Proofs.Emission.Comments
import Phrasebook.Proofs.Java.Escapes
import Phrasebook.Proofs.Java.Pieces
import Phrasebook.Proofs.Emission.Escapes
import Phrasebook.Proofs.FileTree.Passing
import Phrasebook.Proofs.FileTree.Children
import Phrasebook.Proofs.Workspace.Through
import Phrasebook.Proofs.Workspace.Loading
import Phrasebook.Proofs.Workspace.Failing
import Phrasebook.Proofs.Fault
import Phrasebook.Proofs.Command.Outcome
import Phrasebook.Proofs.Shape.Yields
import Phrasebook.Proofs.Shape.FirstFault
import Phrasebook.Proofs.Emission.Inherited
import Phrasebook.Proofs.Command.Stopped
import Phrasebook.Proofs.Phrase.Placeholder
import Phrasebook.Proofs.PhraseFile.RoundTrip
import Phrasebook.Proofs.Shape.Path
import Phrasebook.Proofs.PhraseFile.Forms
import Phrasebook.Proofs.Text.Order
import Phrasebook.Proofs.Value.Reordered
import Phrasebook.Proofs.Shape.Reordered
import Phrasebook.Proofs.PhraseFile.KeyOrder
import Phrasebook.Proofs.Emission.Steps
import Phrasebook.Proofs.Java.Slots
import Phrasebook.Proofs.Phrase.Slots
import Phrasebook.Proofs.Emission.Positions
import Phrasebook.Proofs.Java.Outline
import Phrasebook.Proofs.Java.Spacing
import Phrasebook.Proofs.Java.LaidOut
import Phrasebook.Proofs.Validation.Reading
import Phrasebook.Proofs.Workspace.Apart
import Phrasebook.Proofs.Workspace.Unchecked
import Phrasebook.Proofs.FileTree.Arriving
import Phrasebook.Proofs.FileTree.Resolving
import Phrasebook.Proofs.Workspace.Routes
import Phrasebook.Proofs.Command.Configured
import Phrasebook.Proofs.Java.Levels
import Phrasebook.Proofs.Value.Equal
import Phrasebook.Proofs.Shape.RawForm
import Phrasebook.Proofs.Text.Numeral
import Phrasebook.Proofs.Json.Grammar
import Phrasebook.Proofs.Json.Unambiguous
import Phrasebook.Proofs.Json.Printed
import Phrasebook.Proofs.Command.Listing
import Phrasebook.Proofs.Java.Modifier
import Phrasebook.Proofs.Java.Marked
import Phrasebook.Proofs.Java.Remodified
