import QueryEditor.Main
import QueryEditor.Files.InMemory
import QueryEditor.Proofs.Token.Scanning
import QueryEditor.Proofs.Document.WellFormed
import QueryEditor.Proofs.Document.Lexemes
import QueryEditor.Proofs.Token.Repetition
import QueryEditor.Proofs.Document.Reading
import QueryEditor.Proofs.Document.Image
import QueryEditor.Proofs.Document.RoundTrip
import QueryEditor.Proofs.Edit.Slots
import QueryEditor.Proofs.Edit.Selections
import QueryEditor.Proofs.Edit.Addressed
import QueryEditor.Proofs.Edit.Resolution
import QueryEditor.Proofs.Edit.Perform
import QueryEditor.Proofs.Value.Substitution
import QueryEditor.Proofs.Edit.Names
import QueryEditor.Proofs.Edit.Supplied
import QueryEditor.Proofs.Document.Recent
import QueryEditor.Proofs.Session.Run
import QueryEditor.Proofs.Session.Committed
import QueryEditor.Proofs.Edit.Remembered
import QueryEditor.Proofs.Session.Failed
import QueryEditor.Proofs.Session.Fallback
import QueryEditor.Proofs.Edit.Exchange
import QueryEditor.Proofs.Edit.ReadWrite
import QueryEditor.Proofs.Edit.Evaluation
import QueryEditor.Proofs.Token.Kept
import QueryEditor.Proofs.Document.Tokens
import QueryEditor.Proofs.Document.Kept
import QueryEditor.Proofs.Edit.Lists
import QueryEditor.Proofs.Document.ReadHistory
import QueryEditor.Proofs.Session.Commits
import QueryEditor.Proofs.Edit.Toggles
import QueryEditor.Proofs.Edit.Rebuilt
import QueryEditor.Proofs.Edit.Places
import QueryEditor.Proofs.Session.Shifted
import QueryEditor.Proofs.Defaults
import QueryEditor.Proofs.Nesting
import QueryEditor.Proofs.Catalog
import QueryEditor.Proofs.Schema.Loaded
import QueryEditor.Proofs.Schema.Extended
import QueryEditor.Proofs.Schema.Sound
import QueryEditor.Proofs.Schema.Interfaces
import QueryEditor.Proofs.Schema.Unplaced
import QueryEditor.Proofs.Schema.Fields
import QueryEditor.Proofs.Schema.Order
import QueryEditor.Proofs.Edit.Variables
import QueryEditor.Proofs.Edit.Mentions
import QueryEditor.Proofs.Edit.Declared
import QueryEditor.Proofs.Session.Extracted
import QueryEditor.Proofs.Edit.Framed
import QueryEditor.Proofs.Edit.Restored
import QueryEditor.Proofs.Edit.Touched
import QueryEditor.Proofs.Edit.Spreads
import QueryEditor.Proofs.Session.Captured
import QueryEditor.Proofs.Defaults.Objects
import QueryEditor.Proofs.Defaults.Fitting
import QueryEditor.Proofs.Token.Consumed
import QueryEditor.Proofs.Token.Closing
import QueryEditor.Proofs.Document.Consumed
import QueryEditor.Proofs.Document.Spelled
import QueryEditor.Proofs.Document.Literal
import QueryEditor.Proofs.Edit.Created
import QueryEditor.Proofs.JsonValue
import QueryEditor.Proofs.Binary64.Leading
import QueryEditor.Proofs.Text.Bytes
import QueryEditor.Proofs.Binary64.Longest
import QueryEditor.Proofs.Binary64.Extent
import QueryEditor.Proofs.Edit.LeadingNumber
import QueryEditor.Proofs.Edit.Coercion
import QueryEditor.Proofs.Edit.OwnSlots
import QueryEditor.Proofs.Document.Fragments
import QueryEditor.Proofs.DeclaredType
import QueryEditor.Proofs.Schema.References
import QueryEditor.Proofs.Document.DeclaredTypes
