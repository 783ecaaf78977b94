import CoreTiming.Proofs.Outcome
import CoreTiming.Proofs.TimeOrder
import Mathlib.Logic.Relation

/-!
# What a hardware thread can do

Everything that happens to the micro-ops of a hardware thread is one of a few elementary steps.  A
`Thread.Work` step moves a micro-op along inside the thread; an `Account.Step` also takes a micro-op
in, lets one out, or moves the clock.  An `Account` is a thread together with what has gone in and
come out so far, which the thread itself does not remember.

Facts about all runs are proved on steps, one case for each constructor, and carried over to runs by
`Account.Reachable`.
-/

namespace CoreTiming

/-! ## Section 1: Work inside a thread -/

/-- Both threads hold the same micro-ops in the same state. -/
structure Thread.SameFlow (th th' : Thread) : Prop where
  /-- The entries. -/
  ring : th'.ring = th.ring
  /-- How many of them are in the window. -/
  inWindow : th'.inWindow = th.inWindow
  /-- The next number. -/
  nextSeq : th'.nextSeq = th.nextSeq
  /-- Who writes which register. -/
  registers : th'.registers = th.registers
  /-- The stores in flight and the latest fence. -/
  stores : th'.stores = th.stores
  /-- The instructions committed. -/
  retired : th'.retired = th.retired
  /-- What is on record of them. -/
  commitLog : th'.stats.commitLog = th.stats.commitLog

theorem Thread.SameFlow.refl (th : Thread) : th.SameFlow th := ⟨rfl, rfl, rfl, rfl, rfl, rfl, rfl⟩

/-- The entry `e` as it is once its instruction has been fetched. -/
def Entry.fetched (e : Entry) : Entry := { e with u := { e.u with fetchHit := .l1i } }

/-- The time at which the result of `e` is available if `e` issues now. -/
def Entry.doneFrom (e : Entry) (clock : Clock) : Time :=
  if e.u.op.isStore then clock.next else clock.now + clock.period.cycles e.u.latency

theorem Entry.le_doneFrom (e : Entry) (clock : Clock) : clock.now ≤ e.doneFrom clock := by
  unfold doneFrom
  split
  · exact Clock.le_next _
  · exact Time.le_add_right _ _

/-- An elementary step inside a thread while the clock stands still. -/
inductive Thread.Work (config : Config) (clock : Clock) : Thread → Thread → Prop
  /-- Bookkeeping that touches no micro-op. -/
  | keep {th th' : Thread} (same : th.SameFlow th') : Work config clock th th'
  /-- The instruction of the oldest buffered micro-op has been fetched. -/
  | fetch {th : Thread} {e : Entry} (next : th.ring.get? th.inWindow = some e) :
      Work config clock th (th.setEntry th.inWindow e.fetched)
  /-- The oldest buffered micro-op enters the window. -/
  | dispatch {th th' : Thread} {e e' : Entry} (next : th.ring.get? th.inWindow = some e)
      (linked : Thread.link config.window.forwarding e.fetched th = .ok e' th') :
      Work config clock th
        (th'.enter { e' with dispatched := clock.now, ready := max e'.ready clock.next })
  /-- Memory has said how long the access of a micro-op in the window takes. -/
  | resolve {th : Thread} {i : Nat} {e : Entry} {hit : Location} {cycles : Nat} {u : OpInstance}
      (inside : i < th.inWindow) (entry : th.ring.get? i = some e) (waiting : e.isDone = false)
      (resolved : e.u.resolveData hit cycles = .ok u) :
      Work config clock th (th.setEntry i { e with u })
  /-- A micro-op in the window issues. -/
  | issue {th th' : Thread} {i : Nat} {e : Entry} {latency : Time} (inside : i < th.inWindow)
      (entry : th.ring.get? i = some e) (waiting : e.isDone = false) (ready : e.ready ≤ clock.now)
      (started : Thread.start i e clock.now (e.doneFrom clock) latency th = .ok () th') :
      Work config clock th th'

/-- An elementary step inside a thread on which nothing in the window moves: the next micro-op may enter
it. -/
inductive Thread.Intake (config : Config) (clock : Clock) : Thread → Thread → Prop
  /-- Bookkeeping that touches no micro-op. -/
  | keep {th th' : Thread} (same : th.SameFlow th') : Intake config clock th th'
  /-- The instruction of the oldest buffered micro-op has been fetched. -/
  | fetch {th : Thread} {e : Entry} (next : th.ring.get? th.inWindow = some e) :
      Intake config clock th (th.setEntry th.inWindow e.fetched)
  /-- The oldest buffered micro-op enters the window. -/
  | dispatch {th th' : Thread} {e e' : Entry} (next : th.ring.get? th.inWindow = some e)
      (linked : Thread.link config.window.forwarding e.fetched th = .ok e' th') :
      Intake config clock th
        (th'.enter { e' with dispatched := clock.now, ready := max e'.ready clock.next })

theorem Thread.Intake.work {config : Config} {clock : Clock} {th th' : Thread}
    (h : Intake config clock th th') : Work config clock th th' := by
  cases h with
  | keep same => exact .keep same
  | fetch next => exact .fetch next
  | dispatch next linked => exact .dispatch next linked

/-- Any number of steps inside a thread. -/
abbrev Thread.Works (config : Config) (clock : Clock) : Thread → Thread → Prop :=
  Relation.ReflTransGen (Thread.Work config clock)

/-! ## Section 2: What goes in and comes out -/

/-- An entry that has left the window, and when it did. -/
structure Retirement where
  /-- The entry as it was when it left. -/
  entry : Entry
  /-- When it left. -/
  time : Time

/-- What is put on record of a retirement. -/
def Retirement.record (r : Retirement) : CommitRecord := Thread.commitRecord r.entry r.time

/-- A hardware thread, the clock of its core, and what has gone in and come out. -/
structure Account where
  /-- The clock. -/
  clock : Clock
  /-- The thread. -/
  thread : Thread
  /-- The micro-ops taken in, in program order. -/
  pushed : List OpInstance := []
  /-- The entries let out, the first one first. -/
  retired : List Retirement := []

/-- Both are the same micro-op: they differ at most in what the front end finds out when it takes
one in, which is where the fetch is served and whether a branch was predicted wrongly. -/
def OpInstance.SameAtFront (u v : OpInstance) : Prop :=
  v = { u with
    fetchHit := v.fetchHit
    fetchLatency := v.fetchLatency
    mispredicted := v.mispredicted }

/-- Whether the window starts over behind the entry. -/
def Entry.flushes (e : Entry) : Bool := e.u.op.isBranch && e.u.mispredicted

/-- The account with another thread. -/
abbrev Account.withThread (a : Account) (th : Thread) : Account := { a with thread := th }

/-- The account after the oldest entry, `e`, has left. -/
abbrev Account.release (config : Config) (a : Account) (e : Entry) : Account :=
  { a with
    thread := a.thread.retire config.window.commitLog a.clock.now e
    retired := a.retired ++ [{ entry := e, time := a.clock.now }] }

/-- An elementary step of a thread on its core. -/
inductive Account.Step (config : Config) : Account → Account → Prop
  /-- A step inside the thread. -/
  | work {a : Account} {th : Thread} (work : Thread.Work config a.clock a.thread th) :
      Step config a (a.withThread th)
  /-- A micro-op is taken in. -/
  | push {a : Account} {th : Thread} {lane : Nat} {u v : OpInstance} (same : u.SameAtFront v)
      (pushed : Window.enqueue lane v a.thread = .ok () th) :
      Step config a { a with thread := th, pushed := a.pushed ++ [u] }
  /-- The oldest entry leaves. -/
  | retire {a : Account} {e : Entry} (oldest : a.thread.oldest? = some e)
      (done : e.done ≤ a.clock.now) (stays : e.flushes = false) :
      Step config a (a.release config e)
  /-- The oldest entry leaves, and the window starts over. -/
  | flush {a : Account} {e : Entry} {th : Thread} (oldest : a.thread.oldest? = some e)
      (done : e.done ≤ a.clock.now) (flushes : e.flushes = true)
      (flushed : (a.release config e).thread.flush a.clock config.predictor.penalty = .ok th) :
      Step config a ((a.release config e).withThread th)
  /-- Time passes. -/
  | tick {a : Account} {clock : Clock} (period : clock.period = a.clock.period)
      (later : a.clock.now ≤ clock.now) : Step config a { a with clock }

/-- An elementary step of a thread on its core on which no micro-op moves inside the thread. -/
inductive Account.Drift (config : Config) : Account → Account → Prop
  /-- Bookkeeping that touches no micro-op. -/
  | keep {a : Account} {th : Thread} (same : a.thread.SameFlow th) : Drift config a (a.withThread th)
  /-- A micro-op is taken in. -/
  | push {a : Account} {th : Thread} {lane : Nat} {u v : OpInstance} (same : u.SameAtFront v)
      (pushed : Window.enqueue lane v a.thread = .ok () th) :
      Drift config a { a with thread := th, pushed := a.pushed ++ [u] }
  /-- The oldest entry leaves. -/
  | retire {a : Account} {e : Entry} (oldest : a.thread.oldest? = some e)
      (done : e.done ≤ a.clock.now) (stays : e.flushes = false) :
      Drift config a (a.release config e)
  /-- The oldest entry leaves, and the window starts over. -/
  | flush {a : Account} {e : Entry} {th : Thread} (oldest : a.thread.oldest? = some e)
      (done : e.done ≤ a.clock.now) (flushes : e.flushes = true)
      (flushed : (a.release config e).thread.flush a.clock config.predictor.penalty = .ok th) :
      Drift config a ((a.release config e).withThread th)
  /-- Time passes. -/
  | tick {a : Account} {clock : Clock} (period : clock.period = a.clock.period)
      (later : a.clock.now ≤ clock.now) : Drift config a { a with clock }

theorem Account.Drift.step {config : Config} {a b : Account} (h : Drift config a b) :
    Step config a b := by
  cases h with
  | keep same => exact .work (.keep same)
  | push same pushed => exact .push same pushed
  | retire oldest done stays => exact .retire oldest done stays
  | flush oldest done flushes flushed => exact .flush oldest done flushes flushed
  | tick period later => exact .tick period later

/-- Any number of steps. -/
abbrev Account.Steps (config : Config) : Account → Account → Prop :=
  Relation.ReflTransGen (Account.Step config)

/-- What steps can make of a new thread. -/
inductive Account.Reachable (config : Config) : Account → Prop
  /-- A new thread. -/
  | new {clock : Clock} {th : Thread} {predictor : Option Predictor}
      (made : Thread.new config.core.windowSize config.window.loadHistogram predictor = .ok th) :
      Reachable config { clock, thread := th }
  /-- One more step. -/
  | step {a b : Account} : Reachable config a → Step config a b → Reachable config b

namespace Account

variable {config : Config} {a b : Account}

theorem Reachable.steps (reached : Reachable config a) (steps : Steps config a b) :
    Reachable config b := by
  induction steps with
  | refl => exact reached
  | tail _ step ih => exact .step ih step

theorem Steps.of_works {th : Thread} (works : Thread.Works config a.clock a.thread th) :
    Steps config a (a.withThread th) := by
  induction works with
  | refl => exact .refl
  | tail _ work ih => exact ih.tail (.work (a := a.withThread _) work)

end Account

end CoreTiming
