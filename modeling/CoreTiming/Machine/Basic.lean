import CoreTiming.Barrier.Host
import CoreTiming.Barrier.Calls
import CoreTiming.InOrder.Basic
import CoreTiming.Model.Serial
import CoreTiming.Model.Windowed
import CoreTiming.Window.Shared

/-!
# Machines

A machine has a timing model for each of its cores.  Cores whose instructions go through a window
form groups: the cores of a group are the hardware threads of one physical core, and share its
window behind a barrier.  A group is named after its lowest core.
-/

namespace CoreTiming

/-- The lowest core of the group that `core` belongs to. -/
def masterCore (core smtThreads : Nat) : Nat := core - core % max smtThreads 1

/-- Cores that share a window. -/
structure Group (M : Type) where
  /-- The lowest core of the group. -/
  master : Nat
  /-- The window behind its barrier, and the host threads. -/
  session : Session (Window M)

/-- The timing model of one core. -/
inductive Model (M : Type)
  /-- Memory latency and static cost. -/
  | simple (s : ModelState)
  /-- Memory latency and one cycle. -/
  | magic (s : ModelState)
  /-- In-order issue with out-of-order memory. -/
  | inOrder (m : InOrder M)
  /-- A share in an out-of-order window. -/
  | windowed (w : Windowed)

namespace Model

variable {M : Type} [MemorySystem M]

instance : Inhabited (Model M) := ⟨.simple default⟩

/-- What the model has in common with all others. -/
def state : Model M → ModelState
  | .simple s | .magic s => s
  | .inOrder m => m.state
  | .windowed w => w.state

/-- Changes what the model has in common with all others. -/
def modifyState (f : ModelState → ModelState) : Model M → Model M
  | .simple s => .simple (f s)
  | .magic s => .magic (f s)
  | .inOrder m => .inOrder { m with state := f m.state }
  | .windowed w => .windowed { w with state := f w.state }

/-- The share in a window, if the model is one. -/
def windowed? : Model M → Option Windowed
  | .windowed w => some w
  | _ => none

/-- Moves the clock. -/
def setTime (t : Time) : Model M → Except Fault (Model M)
  | .magic s => .magic <$> s.setTimeForward t
  | m => pure (m.modifyState (·.setTime t))

/-- Times `i` in a model that depends on no other core; a share in a window times nothing here. -/
def time (i : Instruction) : Faulting (Model M) (Except CallError Bool)
  | .simple s => serially .simple (s.timeSerially i (s.staticCost i)) (.simple s)
  | .magic s => serially .magic (s.timeSerially i (s.unitCost i)) (.magic s)
  | .inOrder m =>
    match InOrder.time i m with
    | .ok r m => .ok r (.inOrder m)
    | .error f m => .error f (.inOrder m)
  | .windowed w => .ok (.ok true) (.windowed w)
where
  /-- Takes over a new state, unless the call was refused. -/
  serially (wrap : ModelState → Model M) (r : Except CallError (Bool × ModelState)) :
      Faulting (Model M) (Except CallError Bool) := do
    match r with
    | .error e => pure (.error e)
    | .ok (timed, s) =>
      set (wrap s)
      pure (.ok timed)

end Model

/-- A machine. -/
structure Machine (M : Type) where
  /-- The groups, by their lowest cores. -/
  groups : Array (Group M) := #[]
  /-- The models, in the order in which they were added. -/
  models : Array (Model M) := #[]
  deriving Inhabited

namespace Machine

variable {M : Type} [MemorySystem M]

/-! ## Parts of a machine -/

/-- The model numbered `i`. -/
def model (m : Machine M) (i : Nat) : Except Fault (Model M) :=
  match m.models[i]? with
  | some model => .ok model
  | none => .error .indexOutOfBounds

/-- Runs an operation on model `i`.  The model is taken out while the operation runs. -/
@[inline] def onModel {α : Type} (i : Nat) (x : Faulting (Model M) α) : Faulting (Machine M) α := do
  if i < (← get).models.size then
    Faulting.zoom (fun m => m.models.getD i default)
      (fun model m => { m with models := m.models.setIfInBounds i model }) x
  else throw .indexOutOfBounds

/-- Changes the common state of model `i`. -/
def modifyState (i : Nat) (f : ModelState → ModelState) : Faulting (Machine M) Unit :=
  onModel i (modify (Model.modifyState f))

/-- The position of the group named after `master`. -/
def findGroup? (m : Machine M) (master : Nat) : Option Nat :=
  m.groups.findIdx? (·.master == master)

/-- Runs an operation on the group at position `k`.  The group's session is taken out while the
operation runs. -/
@[inline] def onGroupAt {α : Type} (k : Nat) (x : Faulting (Session (Window M)) α) :
    Faulting (Machine M) α :=
  Faulting.zoom (fun m => (m.groups[k]?.map (·.session)).getD default)
    (fun session m => { m with groups := m.groups.modify k fun g => { g with session } }) x

/-- Runs an operation on the group named after `master`. -/
@[inline] def onGroup {α : Type} (master : Nat) (x : Faulting (Session (Window M)) α) :
    Faulting (Machine M) α := do
  match (← get).findGroup? master with
  | some k => onGroupAt k x
  | none => throw .indexOutOfBounds

/-- Runs an operation on the barrier of the group named after `master`. -/
def onBarrier {α : Type} (master : Nat) (x : Faulting (Barrier (Window M)) α) :
    Faulting (Machine M) α := onGroup master (Session.onBarrier x)

/-- The session of the group named after `master`. -/
def session? (m : Machine M) (master : Nat) : Option (Session (Window M)) := do
  let k ← m.findGroup? master
  let g ← m.groups[k]?
  pure g.session

/-! ## Building a machine -/

/-- Makes sure that there is a group named after `master`. -/
def ensureGroup (config : Config) (master : Nat) : Faulting (Machine M) Unit := do
  if ((← get).findGroup? master).isNone then
    let window ← Faulting.ofExcept (Window.new config)
    let g : Group M := { master, session := { barrier := { engine := window } } }
    modify fun m =>
      { m with
        groups := m.groups.filter (·.master < master) ++ #[g] ++
          m.groups.filter (master < ·.master) }

/-- Adds a hardware thread for `core` to its group and gives the group's name and the slot.  An
application thread, if there is one, is bound to the slot and started. -/
def joinGroup (config : Config) (core : Nat) (app : Option Nat) (memory : M) :
    Faulting (Machine M) (Nat × Nat) := do
  let predictor ← Faulting.ofExcept (Predictor.new config.predictor)
  let master := masterCore core config.core.smtThreads
  ensureGroup config master
  let slot ← onGroup master
    (Session.register core false fun t => Window.initializeThread t memory predictor)
  if let some app := app then
    onBarrier master do
      let _ ← Barrier.bind core app
      Barrier.handle (.start app)
  pure (master, slot)

/-- Adds a model for `core`. -/
def attach (config : Config) (core : Nat) (app : Option Nat) (memory : M) :
    Faulting (Machine M) Unit := do
  let period ← Faulting.ofExcept config.period
  let costs := config.core.instructionCosts
  let model ← match config.core.model with
    | .simple => pure (.simple (.new period costs))
    | .magic => pure (.magic (.new period costs))
    | .iocoom => pure (.inOrder (.new period costs config.inOrder memory))
    | .robSmt => do
      let (master, slot) ← joinGroup config core app memory
      pure (.windowed { state := .new period costs, master, slot })
  modify fun m => { m with models := m.models.push model }

/-! ## Reading out -/

/-- The counters of all windows. -/
def reports (m : Machine M) : List WindowReport :=
  m.groups.toList.map (·.session.barrier.engine.report)

end Machine

end CoreTiming
