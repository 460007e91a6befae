import Custody.Session
import Custody.Proofs.Count.Losses
import Custody.Proofs.Heap.Reclaim
import Custody.Proofs.Heap.Answers
import Custody.Proofs.Heap.Calls
import Custody.Proofs.Heap.Identity
import Custody.Proofs.Heap.Retarget
import Custody.Proofs.Heap.Isolation
import Custody.Proofs.Shared.LockCensus
import Custody.Proofs.Shared.Lifetime
import Custody.Proofs.Shared.Serial
import Custody.Proofs.Shared.Observers
import Custody.Proofs.Shared.Identity
import Custody.Proofs.Shared.Deadlock
import Custody.Proofs.Shared.Twin
import Custody.Proofs.Shared.Passing
import Custody.Proofs.Shared.Records
import Custody.Proofs.Heap.Walks
import Custody.Proofs.Heap.Conversions
import Custody.Proofs.Heap.Nesting
