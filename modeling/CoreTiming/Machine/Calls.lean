import CoreTiming.Barrier.Schedule
import CoreTiming.Machine.Basic

/-!
# Calls on the models of a machine

Each model is driven by a host thread of its own, which makes one call after the other.  A call on
a model that shares a window may have to wait in the barrier; it goes on with `resume` once its
host thread has been woken.
-/

namespace CoreTiming

/-- A call on a model. -/
inductive ModelCall
  /-- Times an instruction. -/
  | instruction (u : InstrInstance)
  /-- Queues what is known about a memory operand. -/
  | info (info : MemoryInfo)
  /-- Moves the model's clock. -/
  | setTime (t : Time)
  /-- Starts timing. -/
  | enable
  /-- Stops timing: instructions are taken and ignored. -/
  | disable
  /-- Lets a shared window advance. -/
  | synchronize
  /-- Tells a shared window that the model's clock was moved. -/
  | notify
  /-- The end of the instruction stream: drains a shared window. -/
  | finish
  deriving DecidableEq, Inhabited

/-- How far a call has come. -/
inductive Progress
  /-- It waits in the barrier. -/
  | waiting
  /-- It was refused. -/
  | refused (e : CallError)
  /-- It is done; an instruction was timed, unless information on its operands is missing. -/
  | completed (timed : Bool)
  deriving DecidableEq, Inhabited

namespace Machine

variable {M : Type} [MemorySystem M]

/-! ## Models that share a window -/

/-- Where the host thread of a slot stands. -/
def hostOf (m : Machine M) (w : Windowed) : Host :=
  match m.session? w.master with
  | some s => s.host w.slot
  | none => .outside

/-- Adds to model `i` what its slot has not been told yet. -/
def collect (i : Nat) (w : Windowed) : Faulting (Machine M) Unit := do
  let (n, t) ← onBarrier w.master (Barrier.returnLatency w.slot)
  modifyState i (·.elapse n t)

/-- The end of a turn of the host thread of model `i`.  One that was draining its slot and is through
with it collects what is left. -/
def progress (i : Nat) (w : Windowed) (draining : Bool) : Faulting (Machine M) Progress := do
  if (← get).hostOf w = .outside then
    if draining then collect i w
    pure (.completed true)
  else pure .waiting

/-- Lets the window advance if enough micro-ops are buffered. -/
def simulate (i : Nat) (w : Windowed) : Faulting (Machine M) Progress := do
  onGroup w.master (Session.call w.slot .simulate)
  progress i w false

/-- Hands the micro-ops of an instruction to the window. -/
def timeWindowed (i : Nat) (w : Windowed) (u : InstrInstance) : Faulting (Machine M) Progress := do
  match ← Faulting.ofExcept (w.state.crack u) with
  | .error e => pure (.refused e)
  | .ok (ops, state) =>
    modifyState i fun _ => state
    let (n, t) ← onBarrier w.master (Barrier.push w.slot ops)
    modifyState i (·.elapse n t)
    simulate i w

/-- Drains the slot. -/
def finishWindowed (i : Nat) (w : Windowed) : Faulting (Machine M) Progress := do
  onGroup w.master (Session.call w.slot .finish)
  progress i w true

/-! ## All models -/

/-- Times an instruction; a disabled model takes it and does nothing. -/
def timeInstruction (i : Nat) (model : Model M) (u : InstrInstance) :
    Faulting (Machine M) Progress := do
  if !model.state.enabled then pure (.completed true)
  else match model.windowed? with
    | some w => timeWindowed i w u
    | none =>
      match ← onModel i (Model.time u.instruction) with
      | .ok timed => pure (.completed timed)
      | .error e => pure (.refused e)

/-- Starts or stops timing, in a shared window too. -/
def setEnabled (i : Nat) (w? : Option Windowed) (enabled : Bool) : Faulting (Machine M) Unit := do
  modifyState i (·.setEnabled enabled)
  if let some w := w? then
    onBarrier w.master (Barrier.handle (if enabled then .enable else .disable))

/-- A call on model `i`. -/
def call (i : Nat) (c : ModelCall) : Faulting (Machine M) Progress := do
  let model ← Faulting.ofExcept ((← get).model i)
  match c, model.windowed? with
  | .instruction u, _ => timeInstruction i model u
  | .info info, _ => modifyState i (·.pushInfo info) *> pure (.completed true)
  | .setTime t, _ =>
    onModel i (do set (← Faulting.ofExcept ((← get).setTime t))) *> pure (.completed true)
  | .enable, w? => setEnabled i w? true *> pure (.completed true)
  | .disable, w? => setEnabled i w? false *> pure (.completed true)
  | .synchronize, some w => simulate i w
  | .notify, some w =>
    onBarrier w.master (Barrier.synchronize w.slot w.state.clock.now) *> pure (.completed true)
  | .finish, some w => finishWindowed i w
  | .synchronize, none | .notify, none | .finish, none => pure (.completed true)

/-- Goes on with the call on model `i` that waits in the barrier. -/
def resume (i : Nat) : Faulting (Machine M) Progress := do
  match (← Faulting.ofExcept ((← get).model i)).windowed? with
  | none => pure (.completed true)
  | some w =>
    let draining := (← get).hostOf w == .parked true
    onGroup w.master (Session.resume w.slot)
    progress i w draining

/-- Gives up the call on model `i`. -/
def abandon (i : Nat) (m : Machine M) : Machine M :=
  match m.models[i]? with
  | some (.windowed w) =>
    { m with
      groups := m.groups.map fun g =>
        if g.master = w.master then { g with session := g.session.setHost w.slot .outside } else g }
  | _ => m

/-- The models whose calls can go on. -/
def woken (m : Machine M) : List Nat :=
  (List.range m.models.size).filter fun i =>
    match m.models[i]? with
    | some (.windowed w) => (m.session? w.master).any (·.isWoken w.slot)
    | _ => false

/-- The effect of an event on every group. -/
def handleAll (e : Barrier.Event) : Faulting (Machine M) Unit := do
  (List.range (← get).groups.size).forM fun k => onGroupAt k (Session.onBarrier (Barrier.handle e))

end Machine

end CoreTiming
