import CoreTiming.Model.State

/-!
# Models that time one instruction after the other

An instruction takes the latency of its memory operands, one after the other, and a cost of its
own.  Two models differ in that cost: the simple model charges the static cost of the class, the
magic model one cycle unless the instruction carries a cost.
-/

namespace CoreTiming

namespace ModelState

/-- The sum of the latencies. -/
def totalLatency (infos : List MemoryInfo) : Time := infos.foldl (fun t info => t + info.latency) 0

/-- Times `i`, whose own cost is `cost`, if the information on its memory operands has arrived. -/
def timeSerially (s : ModelState) (i : Instruction) (cost : Time) :
    Except CallError (Bool × ModelState) := do
  if ← s.infosReady i then
    let n := i.memoryOperands.length
    pure (true, (s.dropOldest n).elapse 1 (totalLatency (s.oldest n) + cost))
  else pure (false, s)

/-- The cost of `i` in the simple model. -/
def staticCost (s : ModelState) (i : Instruction) : Time := i.cost s.costs s.clock.period

/-- The cost of `i` in the magic model. -/
def unitCost (s : ModelState) (i : Instruction) : Time :=
  if i.kind.isDynamic then s.staticCost i else s.clock.period.cycles 1

/-- Moves a clock that must not go back once it has started. -/
def setTimeForward (s : ModelState) (t : Time) : Except Fault ModelState :=
  if s.clock.now ≤ t ∨ s.clock.now = 0 then .ok (s.setTime t)
  else .error (.clockReversed t s.clock.now)

end ModelState

end CoreTiming
