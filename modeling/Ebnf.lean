import Ebnf.Defect
import Ebnf.Document.Json.Value
import Ebnf.Main
import Ebnf.Register
import Ebnf.Session
import Ebnf.Proofs.Results
import Ebnf.Proofs.Walk
import Ebnf.Proofs.Bindings
import Ebnf.Proofs.Equality
import Ebnf.Proofs.Catalog
import Ebnf.Proofs.FirstOccurrences
import Ebnf.Proofs.Numbering
import Ebnf.Proofs.Ledger
import Ebnf.Proofs.Requests
import Ebnf.Proofs.Naming
import Ebnf.Proofs.References
import Ebnf.Proofs.Scan
import Ebnf.Proofs.Outcome
import Ebnf.Proofs.MissingNames
import Ebnf.Proofs.Closure
import Ebnf.Proofs.Diagnostics
import Ebnf.Proofs.Assembly
import Ebnf.Proofs.Construction
import Ebnf.Proofs.Documents
import Ebnf.Proofs.Paths
import Ebnf.Proofs.Relocation
import Ebnf.Proofs.FileTrees
import Ebnf.Proofs.Reordering
import Ebnf.Proofs.Meaning
import Ebnf.Proofs.Row
import Ebnf.Proofs.Segments
import Ebnf.Proofs.Quotations
import Ebnf.Proofs.Layout
import Ebnf.Proofs.Regrouping
import Ebnf.Proofs.Scanner
import Ebnf.Proofs.Reading
import Ebnf.Proofs.Ambiguity
import Ebnf.Proofs.NormalForm
import Ebnf.Proofs.Options
import Ebnf.Proofs.Trace
import Ebnf.Proofs.Journal
import Ebnf.Proofs.Window
import Ebnf.Proofs.Pieces
import Ebnf.Proofs.Writing
import Ebnf.Proofs.Overflow
import Ebnf.Proofs.Comments
import Ebnf.Proofs.Arguments
import Ebnf.Proofs.CommandLine
import Ebnf.Proofs.Members
import Ebnf.Proofs.Respelling
import Ebnf.Proofs.Decoding
import Ebnf.Proofs.Strictness
