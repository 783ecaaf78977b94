import CoreTiming.Fault

/-!
# A schedule for host threads

One fair order in which host threads may run: a host thread runs until it waits or is through, and
those that it has woken in the meantime take their turns after the ones that were already due.
-/

namespace CoreTiming

namespace Schedule

variable {σ : Type}

/-- Lets the host threads in `queue` take their turns, and all that are woken on the way, for at most
`turns` turns.  `woken` lists the host threads that could go on, `run` gives one of them a turn. -/
def settle (woken : σ → List Nat) (run : Nat → Faulting σ Unit) :
    (turns : Nat) → (queue : List Nat) → Faulting σ Unit
  | 0, _ => pure ()
  | _ + 1, [] => pure ()
  | turns + 1, t :: queue => do
    run t
    let fresh := (woken (← get)).filter fun u => !queue.contains u
    settle woken run turns (queue ++ fresh)

/-- Turns that are granted before everybody has to wait. -/
def maxTurns : Nat := 0x1000000

/-- Lets every host thread that can go on take its turns until all wait or are through. -/
def settleAll (woken : σ → List Nat) (run : Nat → Faulting σ Unit) : Faulting σ Unit := do
  settle woken run maxTurns (woken (← get))

end Schedule

end CoreTiming
