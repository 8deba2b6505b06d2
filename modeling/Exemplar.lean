import Exemplar.Main
import Exemplar.Proofs.Run
import Exemplar.Proofs.Json
import Exemplar.Proofs.Field.Entries
import Exemplar.Proofs.Field.Merging
import Exemplar.Proofs.Field.Building
import Exemplar.Proofs.Field.Generality
import Exemplar.Proofs.Field.Laws
import Exemplar.Proofs.Inference.Obedience
import Exemplar.Proofs.Inference.Steps
import Exemplar.Proofs.Inference.Places
import Exemplar.Proofs.Inference.Elements
import Exemplar.Proofs.Inference.Conformance
import Exemplar.Proofs.Inference.Columns
import Exemplar.Proofs.Inference.KeyOrder
import Exemplar.Proofs.Inference.ItemSet
import Exemplar.Proofs.Inference.Flattening
import Exemplar.Proofs.Field.Pruning
import Exemplar.Proofs.Inference.Locality
import Exemplar.Proofs.Inference.Attribution
import Exemplar.Proofs.Inference.Grounds
import Exemplar.Proofs.Inference.Conflicts
import Exemplar.Proofs.Code.Lines
import Exemplar.Proofs.Code.Layout
import Exemplar.Proofs.Code.Names
import Exemplar.Proofs.Code.Drafting
import Exemplar.Proofs.Code.Nested
import Exemplar.Proofs.Code.Roots
import Exemplar.Proofs.Code.Scope
import Exemplar.Proofs.Code.Attributes
import Exemplar.Proofs.Code.Literals
import Exemplar.Proofs.Code.Docstrings
import Exemplar.Proofs.Code.Keys
import Exemplar.Proofs.Code.Requests
import Exemplar.Proofs.Code.RequestAttributes
import Exemplar.Proofs.Code.Failures
import Exemplar.Proofs.Code.Titles
import Exemplar.Proofs.Fetch.CacheFiles
import Exemplar.Proofs.Fetch.Loading
import Exemplar.Proofs.Fetch.Runs
import Exemplar.Proofs.Fetch.Keeping
import Exemplar.Proofs.Fetch.Uncached
import Exemplar.Proofs.Fetch.Outcomes
import Exemplar.Proofs.Naming
import Exemplar.Proofs.Naming.LetterCase
import Exemplar.Proofs.Naming.Words
import Exemplar.Proofs.Naming.CamelCase
import Exemplar.Proofs.Naming.SnakeCase
import Exemplar.Proofs.Naming.RoundTrip
import Exemplar.Proofs.Paging
import Exemplar.Proofs.Session
import Exemplar.Proofs.Learner
import Exemplar.Proofs.Sorting.Search
import Exemplar.Proofs.Sorting.Arrangements
import Exemplar.Proofs.Sorting.Merge
import Exemplar.Proofs.Sorting
import Exemplar.Proofs.Override
import Exemplar.Proofs.Override.Index
import Exemplar.Proofs.Override.Listing
import Exemplar.Proofs.Code.Identifiers
import Exemplar.Proofs.Code.PagingAccessors
import Exemplar.Proofs.Isolation
import Exemplar.Proofs.Survey
import Exemplar.Proofs.Package.Summary
import Exemplar.Proofs.Package.Writing
import Exemplar.Proofs.Package.Order
import Exemplar.Proofs.Package.Failures
import Exemplar.Proofs.Cli
