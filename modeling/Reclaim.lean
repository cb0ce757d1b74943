import Reclaim.Main
import Reclaim.Core.Spans
import Reclaim.Surface.Spans
import Reclaim.Proofs.Heap.Bookkeeping
import Reclaim.Proofs.Transformed
import Reclaim.Proofs.Transparent
import Reclaim.Proofs.Costs
import Reclaim.Proofs.Eval.Safety
import Reclaim.Proofs.Heap.Reclamation
import Reclaim.Proofs.Heap.Cascades
import Reclaim.Proofs.Heap.Rebuilding
import Reclaim.Proofs.Counting.Counters
import Reclaim.Proofs.Counting.Coverage
import Reclaim.Proofs.Counting.Tokens
import Reclaim.Proofs.Reloading
import Reclaim.Proofs.Surface.Blame
import Reclaim.Proofs.Growth
import Reclaim.Proofs.Eval.Canonical
import Reclaim.Proofs.Resolution.Validity
import Reclaim.Proofs.Resolution.Order
import Reclaim.Proofs.Lawful
import Reclaim.Proofs.Resolution.Exactness
import Reclaim.Proofs.Surface.Slices
import Reclaim.Proofs.Eval.Agreement
import Reclaim.Proofs.Surface.Extents
import Reclaim.Proofs.Counting.Provenance
import Reclaim.Proofs.Diagnostics
import Reclaim.Proofs.Printers
import Reclaim.Proofs.Rendering
import Reclaim.Proofs.Equality
import Reclaim.Proofs.Isolation
import Reclaim.Proofs.Containers.Maps
import Reclaim.Proofs.Containers.Sets
import Reclaim.Proofs.Counting.Termination
import Reclaim.Proofs.Counting.Collisions
import Reclaim.Proofs.Counting.Constructions
