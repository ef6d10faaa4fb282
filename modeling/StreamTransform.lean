import StreamTransform.Script.Assembly
import StreamTransform.Transformation
import StreamTransform.Proofs.Run
import StreamTransform.Proofs.Calm
import StreamTransform.Proofs.Turn
import StreamTransform.Proofs.Bookkeeping
import StreamTransform.Proofs.Suspension
import StreamTransform.Proofs.Assembly
import StreamTransform.Proofs.Construct
import StreamTransform.Proofs.Account
import StreamTransform.Proofs.Agenda
import StreamTransform.Proofs.Accounting
import StreamTransform.Proofs.Scopes
import StreamTransform.Proofs.Elements
import StreamTransform.Proofs.Completion
import StreamTransform.Proofs.Copy
import StreamTransform.Proofs.Identity
import StreamTransform.Proofs.Patterns
import StreamTransform.Proofs.Visibility
import StreamTransform.Proofs.Selection
import StreamTransform.Proofs.Faults
import StreamTransform.Proofs.Abort
import StreamTransform.Proofs.WorkedOff
import StreamTransform.Proofs.Waiters
import StreamTransform.Proofs.Indifference
import StreamTransform.Proofs.Skipping
import StreamTransform.Proofs.Spine
import StreamTransform.Proofs.Homes
import StreamTransform.Proofs.GroupFrames
import StreamTransform.Proofs.Preparation
import StreamTransform.Proofs.Recursion
import StreamTransform.Proofs.DocumentOrder
import StreamTransform.Proofs.Tallies
import StreamTransform.Proofs.Siblings
import StreamTransform.Proofs.Passages
import StreamTransform.Proofs.Parking
import StreamTransform.Proofs.Requests
import StreamTransform.Proofs.Phrase
import StreamTransform.Proofs.Reading
import StreamTransform.Proofs.Precedence
import StreamTransform.Proofs.Primary
import StreamTransform.Proofs.Roundtrip
import StreamTransform.Proofs.Conduct
import StreamTransform.Proofs.Occurrence
import StreamTransform.Proofs.Evaluability
import StreamTransform.Proofs.Quoting
import StreamTransform.Proofs.Templates
import StreamTransform.Proofs.Whitespace
import StreamTransform.Proofs.Conditions
import StreamTransform.Proofs.Nesting
import StreamTransform.Proofs.LookAhead
import StreamTransform.Proofs.StartTags
import StreamTransform.Proofs.Recorder
import StreamTransform.Proofs.Spelling
import StreamTransform.Proofs.Rereading
import StreamTransform.Proofs.AttributeSteps
import StreamTransform.Proofs.AttributePlaces
import StreamTransform.Proofs.Moves
import StreamTransform.Proofs.Choices
import StreamTransform.Proofs.Ties
import StreamTransform.Proofs.Lasting
import StreamTransform.Proofs.TagSpelling
import StreamTransform.Proofs.Redirections
import StreamTransform.Proofs.CallDepth
import StreamTransform.Proofs.BuiltPrograms
import StreamTransform.Proofs.CapturedText
import StreamTransform.Proofs.CdataSections
import StreamTransform.Proofs.LegalMarkup
import StreamTransform.Proofs.LostEvents
import StreamTransform.Proofs.Spacing
import StreamTransform.Proofs.OwedNames
import StreamTransform.Proofs.Outlines
import StreamTransform.Proofs.Contents
import StreamTransform.Proofs.Chains
import StreamTransform.Proofs.Views
import StreamTransform.Proofs.Declarations
import StreamTransform.Proofs.BoundTests
import StreamTransform.Proofs.Qualifiers
import StreamTransform.Proofs.Assignments
import StreamTransform.Proofs.UniqueNames
import StreamTransform.Proofs.DeclaredOnce
import StreamTransform.Proofs.LexicalScopes
import StreamTransform.Proofs.GroupNames
import StreamTransform.Proofs.FreshNames
import StreamTransform.Proofs.Comparison
import StreamTransform.Proofs.FirstOccurrence
import StreamTransform.Proofs.TrueDepths
import StreamTransform.Proofs.FrameAlignment
import StreamTransform.Proofs.Numerals
