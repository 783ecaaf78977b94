import CoreTiming.Config.Basic
import CoreTiming.Document

/-!
# Configurations written out

Every section of a configuration as a document, with the keys under which the reader takes them.
-/

namespace CoreTiming

/-- The costs as a document. -/
def CostTable.document (c : CostTable) : Document :=
  .record "InstructionCosts" [
    ("generic", c.generic), ("add", c.add), ("sub", c.sub), ("mul", c.mul), ("div", c.div),
    ("fadd", c.fadd), ("fsub", c.fsub), ("fmul", c.fmul), ("fdiv", c.fdiv), ("jmp", c.jmp),
    ("branch", c.branch)]

/-- The core section as a document. -/
def CoreConfig.document (c : CoreConfig) : Document :=
  .record "CoreConfig" [
    ("frequency_ghz", c.frequencyGhz),
    ("model", .choice c.model.name),
    ("smt_threads", c.smtThreads),
    ("dispatch_width", c.dispatchWidth),
    ("window_size", c.windowSize),
    ("long_latency_cutoff", c.longLatencyCutoff),
    ("instruction_costs", c.instructionCosts.document)]

/-- The window section as a document. -/
def WindowConfig.document (c : WindowConfig) : Document :=
  .record "RobTimerConfig" [
    ("commit_width", c.commitWidth),
    ("rs_entries", c.stations),
    ("outstanding_loads", c.outstandingLoads),
    ("outstanding_stores", c.outstandingStores),
    ("store_to_load_forwarding", c.forwarding),
    ("address_disambiguation", c.disambiguation),
    ("in_order", c.inOrder),
    ("rob_repartition", c.repartition),
    ("simultaneous_issue", c.simultaneousIssue),
    ("mlp_histogram", c.loadHistogram),
    ("commit_log", c.commitLog)]

/-- The in-order section as a document. -/
def InOrderConfig.document (c : InOrderConfig) : Document :=
  .record "IocoomConfig" [
    ("num_store_buffer_entries", c.storeBufferEntries),
    ("num_outstanding_loads", c.outstandingLoads)]

/-- The branch prediction section as a document. -/
def PredictorConfig.document (c : PredictorConfig) : Document :=
  .record "BranchPredictorConfig" [
    ("kind", .choice c.kind.name),
    ("mispredict_penalty", c.penalty),
    ("btb_size", c.targetBufferSize)]

/-- A cache as a document. -/
def CacheConfig.document (c : CacheConfig) : Document :=
  .record "CacheConfig" [
    ("enabled", c.enabled),
    ("size_bytes", c.sizeBytes),
    ("line_bytes", c.lineBytes),
    ("ways", c.ways),
    ("policy", .choice c.policy.name),
    ("latency", c.latency)]

/-- The memory section as a document. -/
def MemoryConfig.document (c : MemoryConfig) : Document :=
  .record "MemoryConfig" [
    ("l1_i", c.l1i.document),
    ("l1_d", c.l1d.document),
    ("l2", c.l2.document),
    ("l3", c.l3.document),
    ("dram_latency", c.dramLatency)]

/-- A configuration as a document. -/
def Config.document (c : Config) : Document :=
  .record "Config" [
    ("core", c.core.document),
    ("rob_timer", c.window.document),
    ("iocoom", c.inOrder.document),
    ("branch_predictor", c.predictor.document),
    ("memory", c.memory.document)]

end CoreTiming
