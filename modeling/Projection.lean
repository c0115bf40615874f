import Projection.Main
import Projection.Proofs.Dto.Names
import Projection.Proofs.Rendering.Recursion
import Projection.Schema.Table
import Projection.Proofs.Dto.Distinct
import Projection.Proofs.Dto.Position
import Projection.Proofs.Session.Outcome
import Projection.Proofs.Source.Formatting
import Projection.Proofs.Token.Spelling
import Projection.Proofs.Source.Writing
import Projection.Proofs.Source.Reading
import Projection.Proofs.Source.Fragments
import Projection.Proofs.Source.RoundTrip
import Projection.Proofs.Session.TypeNames
import Projection.Proofs.Rendering.Members
import Projection.Proofs.Rendering.TopLevel
import Projection.Proofs.Rendering.References
import Projection.Proofs.Run.Frame
import Projection.Proofs.Schema.Reachability
import Projection.Proofs.Emitter.Paths
import Projection.Proofs.Schema.Order
import Projection.Proofs.Source.Taking
import Projection.Proofs.Emitter.Sequence
import Projection.Proofs.Session.Emission
import Projection.Proofs.Dto.Nesting
import Projection.Proofs.Token.Places
import Projection.Proofs.Source.Refusal
import Projection.Proofs.Session.Reports
import Projection.Proofs.Selection.Context
import Projection.Proofs.Selection.Shorthand
import Projection.Proofs.Dto.Shorthand
import Projection.Proofs.Source.Lookahead
import Projection.Proofs.Source.Locality
import Projection.Proofs.Source.Statements
import Projection.Proofs.Source.Semicolons
import Projection.Proofs.Dto.Binding
import Projection.Proofs.Dto.Flattening
import Projection.Proofs.Dto.Groups
import Projection.Proofs.Dto.Negatives
import Projection.Proofs.Modifier.Resolution
import Projection.Proofs.Dto.Acceptance
import Projection.Proofs.Dto.Independence
import Projection.Proofs.Token.Tiling
import Projection.Proofs.Source.Locating
import Projection.Proofs.Source.Pointing
import Projection.Proofs.Dto.Words
import Projection.Proofs.Source.Listings
import Projection.Proofs.Source.Declarations
import Projection.Proofs.Source.Commas
import Projection.Proofs.Source.Phrases
import Projection.Proofs.Source.Slots
import Projection.Proofs.Source.Annotations
import Projection.Proofs.Source.Refilling
import Projection.Proofs.Token.Cutting
import Projection.Proofs.Source.Replacing
import Projection.Proofs.Token.Showing
import Projection.Proofs.Source.Showing
import Projection.Proofs.Source.Integers
import Projection.Proofs.Dto.Mutability
import Projection.Proofs.Emitter.Record
import Projection.Proofs.FileTree.Discovery
import Projection.Proofs.Rendering.Brackets
