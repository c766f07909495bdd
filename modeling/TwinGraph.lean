import TwinGraph.Client.Provisioning
import TwinGraph.Client.Query
import TwinGraph.Client.Relationships
import TwinGraph.Main
import TwinGraph.Model.Resolver
import TwinGraph.Store.Script
import TwinGraph.Proofs.Json.SameValue
import TwinGraph.Proofs.Model.SameDeclaration
import TwinGraph.Proofs.Model.Ancestry
import TwinGraph.Proofs.Model.Flattening
import TwinGraph.Proofs.Model.Building
import TwinGraph.Proofs.Model.Collecting
import TwinGraph.Proofs.Model.Exactness
import TwinGraph.Proofs.Model.Entering
import TwinGraph.Proofs.Model.Resolving
import TwinGraph.Proofs.Model.Revisiting
import TwinGraph.Proofs.Model.Rereading
import TwinGraph.Proofs.Cypher.Lexing
import TwinGraph.Proofs.Cypher.Piece
import TwinGraph.Proofs.Cypher.Mark
import TwinGraph.Proofs.Client.Wording
import TwinGraph.Proofs.Client.Tokens
import TwinGraph.Proofs.Client.Trace
import TwinGraph.Proofs.Client.Calls
import TwinGraph.Proofs.Client.Alike
import TwinGraph.Proofs.Client.Keeping
import TwinGraph.Proofs.Client.Registering
import TwinGraph.Proofs.Number.Decimals
import TwinGraph.Proofs.Json.Numbers
import TwinGraph.Proofs.Json.RoundTrip
import TwinGraph.Proofs.Json.Spelled
import TwinGraph.Proofs.Model.Accepting
import TwinGraph.Proofs.Client.Scripted
import TwinGraph.Proofs.Client.Upserting
import TwinGraph.Proofs.Agtype.Unwrapping
import TwinGraph.Proofs.Agtype.Grouping
import TwinGraph.Proofs.Agtype.Printed
import TwinGraph.Proofs.Agtype.Reading
import TwinGraph.Proofs.Agtype.Unannotated
import TwinGraph.Proofs.Agtype.Passing
import TwinGraph.Proofs.Agtype.PlainData
import TwinGraph.Proofs.Agtype.Thinning
import TwinGraph.Proofs.Agtype.Mirroring
import TwinGraph.Proofs.Query.Scanning
import TwinGraph.Proofs.Query.Quoting
import TwinGraph.Proofs.Query.Respacing
import TwinGraph.Proofs.Query.Tokens
import TwinGraph.Proofs.Query.Literals
import TwinGraph.Proofs.Query.Keyword
import TwinGraph.Proofs.Query.Clauses
import TwinGraph.Proofs.Query.Parts
import TwinGraph.Proofs.Query.Conditions
import TwinGraph.Proofs.Query.Printing
import TwinGraph.Proofs.Query.Patterns
import TwinGraph.Proofs.Query.Tight
import TwinGraph.Proofs.Query.RoundTrip
import TwinGraph.Proofs.Query.Scanned
import TwinGraph.Proofs.Query.Matching
import TwinGraph.Proofs.Query.Bindings
import TwinGraph.Proofs.Query.Arguments
import TwinGraph.Proofs.Query.Arity
import TwinGraph.Proofs.Query.Flattening
import TwinGraph.Proofs.Query.Accesses
import TwinGraph.Proofs.Query.Units
import TwinGraph.Proofs.Query.Precedence
import TwinGraph.Proofs.Query.Joining
import TwinGraph.Proofs.Query.Formulas
import TwinGraph.Proofs.Query.Spelling
import TwinGraph.Proofs.Query.Operands
import TwinGraph.Proofs.Query.Grouping
import TwinGraph.Proofs.Query.FirstWord
import TwinGraph.Proofs.Client.Raising
import TwinGraph.Proofs.Client.Operations
import TwinGraph.Proofs.Model.Faults
import TwinGraph.Proofs.Model.Rounds
import TwinGraph.Proofs.Model.Asking
import TwinGraph.Proofs.Model.Arranging
import TwinGraph.Proofs.Client.Sentences
import TwinGraph.Proofs.Client.Rejecting
import TwinGraph.Proofs.Client.Answering
import TwinGraph.Proofs.Client.Creating
import TwinGraph.Proofs.Client.TwinKeeping
import TwinGraph.Proofs.Client.TwinRegistry
import TwinGraph.Proofs.Client.TwinReturning
import TwinGraph.Proofs.Client.Routing
import TwinGraph.Proofs.Query.Balance
import TwinGraph.Proofs.Query.Nesting
import TwinGraph.Proofs.Query.Untouched
import TwinGraph.Proofs.Query.Enclosing
import TwinGraph.Proofs.Query.Restriction
import TwinGraph.Proofs.Cypher.Unquoting
import TwinGraph.Proofs.Client.Patching
import TwinGraph.Proofs.Model.Composing
import TwinGraph.Proofs.Model.Depth
import TwinGraph.Proofs.Model.Ending
import TwinGraph.Proofs.Model.Offences
import TwinGraph.Proofs.Model.Naming
import TwinGraph.Proofs.Client.Relating
import TwinGraph.Proofs.Client.Pulling
import TwinGraph.Proofs.Client.Batching
import TwinGraph.Proofs.Model.Durations
import TwinGraph.Proofs.Query.Unbroken
import TwinGraph.Proofs.CommandLine.Lines
import TwinGraph.Proofs.Query.Searching
import TwinGraph.Proofs.Query.Bracketing
import TwinGraph.Proofs.Query.Handover
