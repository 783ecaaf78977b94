import CoreTiming.Barrier.Basic

/-!
# Host threads in the barrier

Every slot is served by one host thread, which calls `simulate` after pushing micro-ops and
`finish` after its last push.  All state is behind one lock, and a host thread gives the lock up at
two places only: while it is parked, and while its client synchronizes across cores.  Between such
places it runs alone, so a call is a sequence of sections, and `Host` says in front of which
section a host thread stands.

`Session.step` runs the next section of one host thread.  Any interleaving of host threads and of
other calls is a sequence of such steps in which a host thread that is `looping`, and so holds the
lock, goes first.
-/

namespace CoreTiming

/-- Where a host thread stands.  `draining` tells `finish` from `simulate`. -/
inductive Host
  /-- In no call. -/
  | outside
  /-- Parked in the barrier, or woken and about to leave it. -/
  | parked (draining : Bool)
  /-- Inside the synchronization of its client, without the lock. -/
  | syncing (draining : Bool)
  /-- At the head of the loop of `finish`, with the lock. -/
  | looping
  deriving DecidableEq, Inhabited, Repr

/-- Where a host thread stands when it is through with one round. -/
def Host.afterRound (draining : Bool) : Host := if draining then .looping else .outside

namespace Barrier

variable {E : Type} [SharedEngine E]

/-- Buffered micro-ops up to which a host thread does not bother to enter the barrier. -/
def simulateThreshold : Nat := 128

/-- The end of a round of driving: whoever lacks micro-ops is released. -/
def finishDrive (t : Nat) (draining : Bool) : Faulting (Barrier E) Host := do
  modify fun b => { b with syncing := false }
  let _ ← release true (some t)
  pure (.afterRound draining)

/-- Drives the engine on behalf of slot `t`. -/
def drive (t : Nat) (draining : Bool) : Faulting (Barrier E) Host := do
  let slots := (← get).slots
  onEngine (SharedEngine.execute t slots)
  modify fun b => { b with driver := none }
  if (← Faulting.ofExcept ((← get).slot t)).hasClient then
    modify fun b => { b with syncing := true }
    pure (.syncing draining)
  else finishDrive t draining

/-- Leaves the barrier, and drives the engine if selected. -/
def leave (t : Nat) (draining : Bool) : Faulting (Barrier E) Host := do
  let b ← get
  if b.enabled && b.driver == some t then drive t draining else pure (.afterRound draining)

/-- Enters the barrier.  The one that completes it releases somebody, perhaps itself. -/
def enter (t : Nat) (draining : Bool) : Faulting (Barrier E) Host := do
  if !(← get).enabled then pure (.afterRound draining)
  else
    modify (modifySlot t fun s => { s with inBarrier := true })
    if (← get).isReached then
      if ← release false (some t) then modify (wake t)
    if (← Faulting.ofExcept ((← get).slot t)).inBarrier then pure (.parked draining)
    else leave t draining

/-- Goes on with `finish`: another round while something is left to drain, or else the end of the
thread. -/
def drainOrEnd (t : Nat) : Faulting (Barrier E) Host := do
  let b ← get
  let s ← Faulting.ofExcept (b.slot t)
  let drained ← Faulting.ofExcept (SharedEngine.isDrained b.engine t)
  if b.enabled && s.running && !drained then enter t true
  else
    modify (modifySlot t fun s => { s with running := false })
    notifyActive
    signal
    pure .outside

/-- A call that a host thread makes on its slot. -/
inductive HostCall
  /-- Lets the engine advance if enough micro-ops are buffered. -/
  | simulate
  /-- Drains the thread after its last push, and ends it. -/
  | finish
  deriving DecidableEq, Inhabited, Repr

/-- The first section of a call. -/
def begin (t : Nat) : HostCall → Faulting (Barrier E) Host
  | .simulate => do
    let surplus ← Faulting.ofExcept (SharedEngine.surplus (← get).engine t)
    if simulateThreshold < surplus then enter t false else pure .outside
  | .finish => do
    onEngine (SharedEngine.markEndOfStream t)
    pure .looping

/-- The next section of the host thread of slot `t`. -/
def proceed (t : Nat) : Host → Faulting (Barrier E) Host
  | .outside => pure .outside
  | .parked draining => do
    let s ← Faulting.ofExcept ((← get).slot t)
    if s.inBarrier then pure (.parked draining) else leave t draining
  | .syncing draining => finishDrive t draining
  | .looping => drainOrEnd t

end Barrier

/-! ## Sessions -/

/-- A barrier and the host threads around it. -/
structure Session (E : Type) where
  /-- The barrier. -/
  barrier : Barrier E
  /-- The host thread of each slot. -/
  hosts : Array Host := #[]

namespace Session

variable {E : Type} [SharedEngine E]

instance : Inhabited (Session E) := ⟨{ barrier := default }⟩

/-- Runs an operation on the barrier. -/
@[inline] def onBarrier {α : Type} (x : Faulting (Barrier E) α) : Faulting (Session E) α :=
  Faulting.zoom (·.barrier) (fun barrier s => { s with barrier }) x

/-- Where the host thread of slot `t` stands. -/
def host (s : Session E) (t : Nat) : Host := s.hosts.getD t .outside

/-- Moves the host thread of slot `t`. -/
def setHost (t : Nat) (h : Host) (s : Session E) : Session E :=
  { s with hosts := s.hosts.setIfInBounds t h }

/-- The host thread of slot `t` begins a call. -/
def start (t : Nat) (c : Barrier.HostCall) : Faulting (Session E) Unit := do
  let h ← onBarrier (Barrier.begin t c)
  modify (setHost t h)

/-- The host thread of slot `t` runs its next section. -/
def step (t : Nat) : Faulting (Session E) Unit := do
  let h ← onBarrier (Barrier.proceed t ((← get).host t))
  modify (setHost t h)

/-- Whether slot `t` has been woken and its host thread has not left the barrier yet. -/
def isWoken (s : Session E) (t : Nat) : Bool :=
  match s.host t, s.barrier.slots[t]? with
  | .parked _, some slot => !slot.inBarrier
  | _, _ => false

/-- Runs the host thread of slot `t` while it holds the lock, for at most `n` sections. -/
def runLoop (t : Nat) : (n : Nat) → Faulting (Session E) Unit
  | 0 => pure ()
  | n + 1 => do
    if (← get).host t = .looping then
      step t
      runLoop t n

/-- Rounds of draining that are granted to one `finish` at a stretch. -/
def maxRounds : Nat := 0x100000

/-- Begins a call and runs it until it parks, synchronizes or returns. -/
def call (t : Nat) (c : Barrier.HostCall) : Faulting (Session E) Unit := do
  start t c
  runLoop t maxRounds

/-- Runs a host thread that was woken, or whose client has synchronized, until it parks,
synchronizes or returns. -/
def resume (t : Nat) : Faulting (Session E) Unit := do
  step t
  runLoop t maxRounds

end Session

end CoreTiming
