import CoreTiming.Window.Thread

/-!
# Entering the window

The oldest buffered micro-op of a thread enters the window once its instruction has been fetched, a
reservation station is free and few enough long loads are in flight.  On entering it is linked to
the entries in flight that it has to wait for: each of them lists it among the consumers to wake.
-/

namespace CoreTiming

namespace Thread

/-! ## Linking an entry to its producers -/

/-- Makes the address of the store `e` wait for the writer of `r`. -/
def awaitAddress (th : Thread) (lowest : Nat) (e : Entry) (r : Register) : Except Fault Entry :=
  match th.registers.live? r lowest with
  | none => .ok e
  | some seq => do
    let (_, producer) ← th.locate seq
    if producer.isDone then
      pure { e with addressReadyMax := max e.addressReadyMax producer.done }
    else e.addAddressProducer seq

/-- Makes the address of the store `e` wait for the writers of its address registers. -/
def linkAddress (th : Thread) (lowest : Nat) (e : Entry) : Except Fault Entry := do
  let e ← e.u.op.addressRegisters.foldlM (th.awaitAddress lowest) e
  pure (if e.addressProducers.isEmpty then { e with addressReady := e.addressReadyMax } else e)

/-- A load that waits for a store in flight takes over what the store waits for instead: the store
itself only issues at the head of the window.  Only the first store among `producers` counts. -/
def forward (th : Thread) (lowest : Nat) (e : Entry) : List Nat → Except Fault Entry
  | [] => .ok e
  | seq :: rest =>
    if seq < lowest then forward th lowest e rest
    else do
      let (_, store) ← th.locate seq
      if store.u.op.isStore then
        let e := (e.dropProducer seq).observe store.readyMax
        let u ← store.u.producers.toList.foldlM (fun u producer => u.addProducer producer) e.u
        pure { e with u }
      else forward th lowest e rest

/-- The lesser of a number and another one, if there is one. -/
def nearer (distance : Nat) : Option Nat → Nat
  | some other => min distance other
  | none => distance

/-- Lists `e` among the consumers of each of `producers` that has not issued yet, and takes the
result time of those that have.  Gives the distance to the nearest one as well. -/
def watch (lowest : Nat) : List Nat → Entry → (nearest : Option Nat) →
    Faulting Thread (Entry × Option Nat)
  | [], e, nearest => pure (e, nearest)
  | seq :: rest, e, nearest =>
    if seq < lowest then watch lowest rest (e.dropProducer seq) nearest
    else do
      let (i, producer) ← Faulting.ofExcept ((← get).locate seq)
      let nearest := some (nearer (e.seq - seq) nearest)
      if producer.isDone then
        watch lowest rest ((e.observe producer.done).dropProducer seq) nearest
      else do
        let producer ← Faulting.ofExcept (producer.addDependant e.seq)
        modify (·.setEntry i producer)
        watch lowest rest e nearest

/-- Links `e` to the entries in flight that it waits for. -/
def link (forwarding : Bool) (e : Entry) : Faulting Thread Entry := do
  let th ← get
  let lowest := th.frontSeq?.getD e.seq
  let e ← Faulting.ofExcept (if e.u.op.isStore then th.linkAddress lowest e else .ok e)
  let u ← Faulting.ofExcept (th.registers.await lowest e.u)
  let (u, stores) ← Faulting.ofExcept (th.stores.link u lowest)
  let e := { e with u }
  let e ← Faulting.ofExcept
    (if forwarding && u.op.isLoad then th.forward lowest e u.producers.toList else .ok e)
  modify fun th => { th with registers := th.registers.note lowest u, stores }
  let (e, nearest) ← watch lowest e.u.producers.toList e none
  Faulting.zoom (·.stats) (fun stats th => { th with stats })
    (ThreadStats.recordDistance (nearest.getD 0))
  pure e.settle

/-! ## Dispatching -/

/-- What became of an attempt to dispatch. -/
inductive Dispatched
  /-- The front end is held up; nothing changes before `event`. -/
  | blocked (event : Time)
  /-- A micro-op entered, and may issue from `ready` on. -/
  | entered (ready : Time)

/-- Begins the dispatch of a cycle: forgets why dispatch stopped, and the long loads that are
done. -/
def beginDispatch (now : Time) (th : Thread) : Thread :=
  { th with stall := none, longLoads := th.longLoads.filter fun load => now < load.done }

/-- Whether the instruction of the next entry, `e`, has been fetched.  If not, the fetch begins; the
next attempt, after the stall, finds it done. -/
def fetchNext (clock : Clock) (e : Entry) (th : Thread) : Bool × Thread :=
  if e.u.fetchHit = .l1i then (true, th)
  else if th.fetching then
    (true, { th.setEntry th.inWindow { e with u := { e.u with fetchHit := .l1i } } with
      fetching := false })
  else
    (false, { th with
      stalledUntil := clock.afterCycles e.u.fetchLatency
      fetching := true
      stall := some (.instructionCache e.u.fetchHit) })

/-- The long load to wait for when too many are in flight. -/
def blockingLoad? (th : Thread) : Option LongLoad :=
  if th.longLoads.length < LongLoad.maxOutstanding then none else LongLoad.earliest? th.longLoads

/-- Places `e` into the window behind the others. -/
def enter (e : Entry) (th : Thread) : Thread :=
  { th.setEntry th.inWindow e with
    inWindow := th.inWindow + 1
    nextEvent := min th.nextEvent e.ready }

/-- Moves the oldest buffered entry into the window if nothing holds it up. -/
def dispatchOne (forwarding : Bool) (clock : Clock) (stationFree : Bool) :
    Faulting Thread Dispatched := do
  let th ← get
  match th.ring.get? th.inWindow with
  | none => pure (.blocked .never)
  | some e =>
    if !(← modifyGet (fetchNext clock e)) then pure (.blocked .never)
    else if !stationFree then
      modify fun th => { th with stall := some .stationsFull }
      pure (.blocked .never)
    else
      match (← get).blockingLoad? with
      | some load =>
        modify fun th => { th with stall := some (.dataCache load.hit) }
        pure (.blocked load.done)
      | none =>
        let e ← link forwarding { e with u := { e.u with fetchHit := .l1i } }
        let e := { e with dispatched := clock.now, ready := max e.ready clock.next }
        modify (enter e)
        pure (.entered e.ready)

end Thread

end CoreTiming
