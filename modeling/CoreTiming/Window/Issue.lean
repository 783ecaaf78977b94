import CoreTiming.Window.Basic

/-!
# The issue stage

Entries leave their reservation stations once their producers' results are there, out of order
unless a rule of ordering keeps them:

* a serializing micro-op and a fence issue only behind nothing but issued entries, once all stores
  have drained; no younger entry passes the former, no younger load or store the latter;
* a store issues only behind nothing but issued entries;
* loads and stores need a free unit of their queue.

An entry that issues learns its latency, asks memory if it has to, and wakes its consumers.
-/

namespace CoreTiming

/-- Whether the access of `u` is left to be resolved by memory. -/
def OpInstance.needsMemory (u : OpInstance) : Bool :=
  (u.op.isLoad || u.op.isStore) && u.dataHit == .unresolved

/-- The data access of `u`. -/
def OpInstance.access (u : OpInstance) : MemoryAccess :=
  { address := u.address, size := u.op.accessSize, isWrite := u.op.isStore, ip := u.op.ip }

/-- Asks memory how long the access of entry `i` takes, if that is not known yet. -/
def Lane.resolve {M : Type} [MemorySystem M] (period : Period) (i : Nat) :
    Faulting (Lane M) Unit := do
  match (← get).thread.ring.get? i with
  | none => pure ()
  | some e =>
    if e.u.needsMemory then
      let served ← Faulting.zoom (·.memory) (fun memory lane => { lane with memory })
        (MemorySystem.access e.u.access)
      let cycles ← Faulting.ofExcept (served.latency.divideRounded period.length)
      let u ← Faulting.ofExcept (e.u.resolveData served.hit cycles)
      modify fun lane => { lane with thread := lane.thread.setEntry i { e with u } }

namespace Thread

/-! ## Waking consumers -/

/-- Tells the store `e` that producer `seq` of its address is done at `done`.  Its address is known
once every producer of it has issued; producers older than `front` have committed. -/
def observeAddress (th : Thread) (front seq : Nat) (done : Time) (e : Entry) :
    List Nat → (latest : Time) → (resolved : Bool) → Except Fault Entry
  | [], latest, resolved =>
    .ok { e with
      addressReadyMax := latest
      addressReady := if resolved then latest else e.addressReady }
  | producer :: rest, latest, resolved =>
    if producer < front then observeAddress th front seq done e rest latest resolved
    else do
      let latest := if producer = seq then max latest done else latest
      let (_, p) ← th.locate producer
      observeAddress th front seq done e rest latest (resolved && p.isDone)

/-- Tells the consumer numbered `consumer` that producer `seq` is done at `done`. -/
def wake (front seq : Nat) (done : Time) (consumer : Nat) : Faulting Thread Unit := do
  let th ← get
  let (i, e) ← Faulting.ofExcept (th.locate consumer)
  let e := ((e.observe done).dropProducer seq).settle
  let e ← Faulting.ofExcept
    (if e.u.op.isStore && e.addressReady.isNever then
      th.observeAddress front seq done e e.addressProducers.toList e.addressReadyMax true
    else .ok e)
  modify (·.setEntry i e)

/-- Wakes the consumers one after the other. -/
def wakeAll (front seq : Nat) (done : Time) : List Nat → Faulting Thread Unit
  | [] => pure ()
  | consumer :: rest => do
    wake front seq done consumer
    wakeAll front seq done rest

/-- Counts a load or store of the given latency. -/
def countAccess (op : MicroOp) (latency : Time) (s : ThreadStats) : ThreadStats :=
  if op.isLoad then
    { s with loadsCount := s.loadsCount + 1, loadsLatency := s.loadsLatency + latency }
  else if op.isStore then
    { s with storesCount := s.storesCount + 1, storesLatency := s.storesLatency + latency }
  else s

/-- Entry `i`, which is `e`, issues at `now` and is done at `done`; its consumers wake. -/
def start (i : Nat) (e : Entry) (now done latency : Time) : Faulting Thread Unit := do
  let front := (← get).frontSeq?.getD e.seq
  modify fun th =>
    { th.setEntry i { e with issued := now, done } with
      stats := countAccess e.u.op latency th.stats }
  wakeAll front e.seq done e.dependants.toList

/-! ## Long loads -/

/-- Counts entry `i`, which has just issued, if it is a long load that missed its first-level
cache. -/
def accountLongLoad (cutoff : Nat) (now : Time) (i : Nat) (th : Thread) : Thread :=
  match th.ring.get? i with
  | none => th
  | some e =>
    if e.u.isLongLoad cutoff && e.u.dataHit != .l1 then
      let done := max now e.done
      let accounted := max th.accountedUntil now
      let span := if accounted < done then done - accounted else 0
      { th with
        accountedUntil := max accounted done
        longLoads := th.longLoads ++ [{ done, hit := e.u.dataHit }]
        stats := { th.stats with
          longLoadTime := th.stats.longLoadTime + (done - now)
          longLoadSpan := th.stats.longLoadSpan + span } }
    else th

end Thread

namespace Window

variable {M : Type} [MemorySystem M]

/-! ## Which entries issue -/

/-- What has happened in one pass over the window of a thread. -/
structure IssuePass where
  /-- Entries that issued. -/
  issued : Nat := 0
  /-- Whether every entry seen so far has issued. -/
  atHead : Bool := true
  /-- Whether a fence holds back loads and stores. -/
  fenced : Bool := false
  /-- Whether the address of a store seen so far is unknown. -/
  unknownStore : Bool := false
  /-- The earliest time at which something may change. -/
  event : Time := .never

/-- What an entry does in a pass. -/
inductive Verdict
  /-- It issues. -/
  | issue
  /-- It stays where it is. -/
  | wait
  /-- It stays where it is and holds back loads and stores. -/
  | fence
  /-- It stays where it is and ends the pass. -/
  | stop
  deriving DecidableEq

/-- Whether all stores that issued have drained. -/
def storesDrained (w : Window M) : Bool := w.lastStoreDone ≤ w.clock.now

/-- What the entry `e` does. -/
def judge (w : Window M) (pass : IssuePass) (e : Entry) : Verdict :=
  let now := w.clock.now
  let op := e.u.op
  if now < e.ready then .wait
  else if pass.fenced && (op.isLoad || op.isStore) then .wait
  else if op.serializing then (if pass.atHead && w.storesDrained then .issue else .stop)
  else if op.fence then (if pass.atHead && w.storesDrained then .issue else .fence)
  else if op.isLoad then
    if !w.loadQueue.hasFree now then .wait
    else if !w.config.window.disambiguation && pass.unknownStore then .wait
    else .issue
  else if op.isStore then (if pass.atHead && w.storeQueue.hasFree now then .issue else .wait)
  else .issue

/-- The pass after an entry that stays. -/
def IssuePass.hold (pass : IssuePass) (now : Time) (e : Entry) (fence : Bool) : IssuePass :=
  { pass with
    atHead := false
    fenced := pass.fenced || fence
    unknownStore := pass.unknownStore || (e.u.op.isStore && now < e.addressReady) }

/-! ## Issuing -/

/-- Takes a unit of the queue for a load or store, and counts what issues. -/
def accept (op : MicroOp) (latency : Time) (w : Window M) : Window M :=
  let now := w.clock.now
  { w with
    loadQueue := if op.isLoad then (w.loadQueue.serve now latency).2 else w.loadQueue
    storeQueue := if op.isStore then (w.storeQueue.serve now latency).2 else w.storeQueue
    lastStoreDone :=
      if op.isStore then max w.lastStoreDone (now + latency + w.clock.period.length)
      else w.lastStoreDone
    serializations := w.serializations + (if op.serializing then 1 else 0)
    fences := w.fences + (if op.fence then 1 else 0)
    stationsUsed := w.stationsUsed - 1 }

/-- Issues entry `i` of lane `lane`.  Gives the time at which its result is available: for a store,
which leaves the window once it is handed to memory, that is the next cycle. -/
def issueEntry (lane i : Nat) : Faulting (Window M) Time := do
  let clock := (← get).clock
  onLane lane (Lane.resolve clock.period i)
  let th ← Faulting.ofExcept ((← get).thread lane)
  match th.ring.get? i with
  | none => pure .never
  | some e =>
    let latency := clock.period.cycles e.u.latency
    let done := if e.u.op.isStore then clock.next else clock.now + latency
    modify (accept e.u.op latency)
    onThread lane (Thread.start i e clock.now done latency)
    pure done

/-- Looks at `n` entries of lane `lane` from position `i` on, and issues those that may. -/
def issueFrom (lane : Nat) : (n i : Nat) → IssuePass → Faulting (Window M) IssuePass
  | 0, _, pass => pure pass
  | n + 1, i, pass => do
    let w ← get
    let th ← Faulting.ofExcept (w.thread lane)
    match th.ring.get? i with
    | none => pure pass
    | some e =>
      if e.isDone then issueFrom lane n (i + 1) { pass with event := min pass.event e.done }
      else
        let pass := { pass with event := min pass.event e.ready }
        let clock := w.clock
        let width := w.config.core.dispatchWidth
        let cutoff := w.config.core.longLatencyCutoff
        let inOrder := w.config.window.inOrder
        match w.judge pass e with
        | .stop => pure pass
        | .issue =>
          let done ← issueEntry lane i
          modifyThread lane (Thread.accountLongLoad cutoff clock.now i)
          let pass := { pass with issued := pass.issued + 1, event := min pass.event done }
          -- entries behind the last one that may issue are not looked at
          if width ≤ pass.issued then pure { pass with event := min pass.event clock.next }
          else issueFrom lane n (i + 1) pass
        | verdict =>
          let pass := pass.hold clock.now e (verdict = .fence)
          if inOrder then pure pass else issueFrom lane n (i + 1) pass

/-- The turn of lane `lane` in the issue stage.  Gives whether anything issued. -/
def issueLane (lane : Nat) (event : Time) : Faulting (Window M) (Bool × Time) := do
  let w ← get
  let th ← Faulting.ofExcept (w.thread lane)
  if w.clock.now < th.nextEvent then pure (false, min event th.nextEvent)
  else if th.inWindow = 0 then pure (false, event)
  else
    let pass ← issueFrom lane th.inWindow 0 {}
    modifyThread lane fun th => { th with nextEvent := pass.event }
    pure (0 < pass.issued, min event pass.event)

/-- Gives each of the lanes its turn.  Unless several may issue in one cycle, the first that does
is the last.  Gives the lane that ended the stage, if one did. -/
def issueLanes : List Nat → (event : Time) → Faulting (Window M) (Option Nat × Time)
  | [], event => pure (none, event)
  | lane :: rest, event => do
    let (any, event) ← issueLane lane event
    if any && !(← get).config.window.simultaneousIssue then pure (some lane, event)
    else issueLanes rest event

/-- The issue stage.  Gives the earliest time at which it may have more to do. -/
def issue : Faulting (Window M) Time := do
  let w ← get
  let first := w.issueTurn % w.lanes.size
  let (last, event) ← issueLanes (w.rotation first) .never
  modify fun w => { w with issueTurn := w.turnAfter (last.getD first) }
  pure event

end Window

end CoreTiming
