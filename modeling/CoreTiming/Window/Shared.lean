import CoreTiming.Barrier.Basic
import CoreTiming.Window.Calls

/-!
# Windows as shared engines

The window of a core is an engine that hardware threads can share behind a barrier.
-/

namespace CoreTiming

/-- Which slots run. -/
def Slot.runningFlags (slots : Array Slot) : Running := slots.map (·.running)

instance {M : Type} [MemorySystem M] : SharedEngine (Window M) where
  surplus := Window.surplus
  hasEnough := Window.hasEnough
  isDrained := Window.isDrained
  repartition slots := modify (Window.repartition (Slot.runningFlags slots))
  push := Window.push
  returnLatency := Window.returnLatency
  execute _ slots := Window.execute (Slot.runningFlags slots)
  synchronize := Window.synchronize
  markEndOfStream := Window.markEndOfStream

end CoreTiming
