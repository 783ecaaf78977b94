import CoreTiming.Instruction.Basic

/-!
# Configuration

Every parameter that the timing models read, with its default.  The defaults describe a
four-wide out-of-order core of 2.66 GHz with two levels of cache.

A cache that is described on its own starts out disabled, with the geometry of a first level; the
memory section as a whole starts out with both first levels and the second level enabled.
-/

namespace CoreTiming

/-- Which timing model a core uses. -/
inductive ModelKind
  /-- A static cost per instruction after its memory latency. -/
  | simple
  /-- One cycle per instruction after its memory latency. -/
  | magic
  /-- In-order issue with out-of-order memory. -/
  | iocoom
  /-- An out-of-order window shared by hardware threads. -/
  | robSmt
  deriving DecidableEq, Inhabited, Repr

/-- The name of a model in reports. -/
def ModelKind.name : ModelKind → String
  | .simple => "Simple"
  | .magic => "Magic"
  | .iocoom => "Iocoom"
  | .robSmt => "RobSmt"

/-- Which line of a cache set makes room. -/
inductive ReplacementKind
  /-- The line used least recently. -/
  | lru
  /-- The lines in turn. -/
  | fifo
  deriving DecidableEq, Inhabited, Repr

/-- The name of a replacement policy in listings. -/
def ReplacementKind.name : ReplacementKind → String
  | .lru => "Lru"
  | .fifo => "Fifo"

/-- Which branch predictor a hardware thread has. -/
inductive PredictorKind
  /-- No predictor: mispredictions are those that the front end marks. -/
  | none
  /-- Always not taken. -/
  | static
  /-- Counters indexed by address and global history. -/
  | gshare
  deriving DecidableEq, Inhabited, Repr

/-- The name of a predictor in listings. -/
def PredictorKind.name : PredictorKind → String
  | .none => "None"
  | .static => "Static"
  | .gshare => "GShare"

/-- Parameters of a core. -/
structure CoreConfig where
  /-- Clock frequency in GHz. -/
  frequencyGhz : Float := 2.66
  /-- The timing model. -/
  model : ModelKind := .robSmt
  /-- Hardware threads that share one window. -/
  smtThreads : Nat := 1
  /-- Micro-ops dispatched in one cycle. -/
  dispatchWidth : Nat := 4
  /-- Entries of the window. -/
  windowSize : Nat := 128
  /-- Loads slower than this many cycles are long; zero switches the test off. -/
  longLatencyCutoff : Nat := 30
  /-- Static costs of instructions. -/
  instructionCosts : CostTable := {}
  deriving DecidableEq, Inhabited

/-- Parameters of the out-of-order window. -/
structure WindowConfig where
  /-- Micro-ops committed in one cycle per thread. -/
  commitWidth : Nat := 4
  /-- Reservation stations. -/
  stations : Nat := 36
  /-- Size of the load queue; zero is unlimited. -/
  outstandingLoads : Nat := 48
  /-- Size of the store queue; zero is unlimited. -/
  outstandingStores : Nat := 32
  /-- Loads take the producers of the store that they read from. -/
  forwarding : Bool := true
  /-- Loads may pass stores whose address is not known. -/
  disambiguation : Bool := true
  /-- Micro-ops issue in program order. -/
  inOrder : Bool := false
  /-- The window is split between running threads only. -/
  repartition : Bool := true
  /-- Several threads may issue in one cycle. -/
  simultaneousIssue : Bool := true
  /-- Collect a histogram of outstanding loads. -/
  loadHistogram : Bool := false
  /-- Keep the times of every committed micro-op. -/
  commitLog : Bool := false
  deriving DecidableEq, Inhabited

/-- Parameters of the in-order model. -/
structure InOrderConfig where
  /-- Entries of the store buffer. -/
  storeBufferEntries : Nat := 20
  /-- Loads that may be outstanding together. -/
  outstandingLoads : Nat := 32
  deriving DecidableEq, Inhabited

/-- Parameters of branch prediction. -/
structure PredictorConfig where
  /-- The predictor. -/
  kind : PredictorKind := .gshare
  /-- Cycles lost by a misprediction. -/
  penalty : Nat := 8
  /-- Entries of the target buffer, a power of two. -/
  targetBufferSize : Nat := 512
  deriving DecidableEq, Inhabited

/-- Parameters of one cache. -/
structure CacheConfig where
  /-- Whether the level exists. -/
  enabled : Bool := false
  /-- Its size in bytes. -/
  sizeBytes : Nat := 32768
  /-- The size of a line in bytes. -/
  lineBytes : Nat := 64
  /-- Lines in a set. -/
  ways : Nat := 8
  /-- Which line makes room. -/
  policy : ReplacementKind := .lru
  /-- Cycles that an access takes. -/
  latency : Nat := 4
  deriving DecidableEq, Inhabited

/-- How many sets the geometry yields; none for a degenerate one. -/
def CacheConfig.numSets (c : CacheConfig) : Nat := c.sizeBytes / c.lineBytes / c.ways

/-- Parameters of the memory hierarchy. -/
structure MemoryConfig where
  /-- Level-1 instruction cache. -/
  l1i : CacheConfig := { enabled := true }
  /-- Level-1 data cache. -/
  l1d : CacheConfig := { enabled := true }
  /-- Level 2, for instructions and data. -/
  l2 : CacheConfig := { enabled := true, sizeBytes := 262144, latency := 8 }
  /-- Level 3, for instructions and data. -/
  l3 : CacheConfig := {}
  /-- Cycles that main memory takes. -/
  dramLatency : Nat := 120
  deriving DecidableEq, Inhabited

/-- All parameters. -/
structure Config where
  /-- The core. -/
  core : CoreConfig := {}
  /-- The out-of-order window. -/
  window : WindowConfig := {}
  /-- The in-order model. -/
  inOrder : InOrderConfig := {}
  /-- Branch prediction. -/
  predictor : PredictorConfig := {}
  /-- The memory hierarchy. -/
  memory : MemoryConfig := {}
  deriving DecidableEq, Inhabited

/-! ## Validation -/

/-- Why a configuration cannot be used. -/
inductive ConfigError
  /-- The file could not be read. -/
  | unreadable
  /-- The text is not JSON of the right form. -/
  | malformed
  /-- A field holds a value that no model can run with. -/
  | invalid (field reason : String)
  deriving DecidableEq, Inhabited

/-- The wording of a configuration error, as far as it is this program's own. -/
def ConfigError.message : ConfigError → String
  | .unreadable => "failed to read configuration"
  | .malformed => "failed to parse configuration"
  | .invalid field reason => s!"invalid configuration value for \x60{field}\x60: {reason}"

namespace Config

/-- Whether `n` is a power of two. -/
def isPowerOfTwo (n : Nat) : Bool := n != 0 && n &&& (n - 1) == 0

/-- The demands on a configuration in the order in which they are checked, each with the field
and the reason reported where it fails. -/
def demands (c : Config) : List (Bool × String × String) :=
  let atLeastOne (n : Nat) (field : String) := (n != 0, field, "must be at least 1")
  let roomy (cache : CacheConfig) (field : String) :=
    (!cache.enabled || cache.numSets != 0, field, "size must hold at least one set of lines")
  [ (c.core.frequencyGhz > 0.0 && c.core.frequencyGhz.isFinite, "core.frequency_ghz",
      "must be a positive number"),
    atLeastOne c.core.smtThreads "core.smt_threads",
    atLeastOne c.core.dispatchWidth "core.dispatch_width",
    atLeastOne c.core.windowSize "core.window_size",
    (c.core.dispatchWidth ≤ c.core.windowSize, "core.window_size",
      s!"window of {c.core.windowSize} cannot hold one dispatch group of {c.core.dispatchWidth}"),
    atLeastOne c.window.commitWidth "rob_timer.commit_width",
    atLeastOne c.window.stations "rob_timer.rs_entries",
    atLeastOne c.inOrder.storeBufferEntries "iocoom.num_store_buffer_entries",
    atLeastOne c.inOrder.outstandingLoads "iocoom.num_outstanding_loads",
    (isPowerOfTwo c.predictor.targetBufferSize, "branch_predictor.btb_size",
      "must be a power of two"),
    roomy c.memory.l1i "memory.l1_i",
    roomy c.memory.l1d "memory.l1_d",
    roomy c.memory.l2 "memory.l2",
    roomy c.memory.l3 "memory.l3" ]

/-- The first demand that the configuration does not meet. -/
def validate (c : Config) : Except ConfigError Unit :=
  match c.demands.find? (fun d => !d.1) with
  | some (_, field, reason) => .error (.invalid field reason)
  | none => .ok ()

/-- The clock period of the core. -/
def period (c : Config) : Except Fault Period := Period.ofGhz c.core.frequencyGhz

end Config

end CoreTiming
