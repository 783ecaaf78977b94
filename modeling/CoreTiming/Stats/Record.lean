import CoreTiming.Cache.SetAssociative
import CoreTiming.Document
import CoreTiming.Stats.Report

/-!
# Counters as documents

All counters of a report, none of them derived, under stable keys.
-/

namespace CoreTiming

instance : Coe Time Document := ⟨fun t => .number t.toNat⟩

/-- The counts of a cache as a document. -/
def CacheStats.document (s : CacheStats) : Document :=
  .record "CacheStats" [("hits", s.hits), ("misses", s.misses), ("writebacks", s.writebacks)]

/-- The counts of a pool as a document. -/
def PoolStats.document (s : PoolStats) : Document :=
  .record "ContentionStats" [
    ("requests", s.requests),
    ("barriers", s.barriers),
    ("out_of_order", s.outOfOrder),
    ("simultaneous", s.simultaneous),
    ("total_delay", s.totalDelay),
    ("total_barrier_delay", s.totalBarrierDelay)]

/-- Times as a document. -/
def timesDocument (ts : List Time) : Document := .list (ts.map fun t => .number t.toNat)

/-- Counts as a document. -/
def countsDocument (ns : List Nat) : Document := .list (ns.map fun n : Nat => .number n)

/-- The time by cause as a document. -/
def CpiStack.document (s : CpiStack) : Document :=
  .record "CpiStack" [
    ("base", s.base),
    ("smt", s.smt),
    ("idle", s.idle),
    ("branch_predictor", s.branchPredictor),
    ("serialization", s.serialization),
    ("rs_full", s.stationsFull),
    ("instruction_cache", timesDocument s.instructionCache.toList),
    ("data_cache", timesDocument s.dataCache.toList)]

/-- A committed micro-op as a document. -/
def CommitRecord.document (r : CommitRecord) : Document :=
  .record "CommitRecord" [
    ("sequence_number", r.seq),
    ("dispatched", r.dispatched),
    ("issued", r.issued),
    ("done", r.done),
    ("committed", r.committed)]

/-- The counters of a thread as a document. -/
def ThreadStats.document (s : ThreadStats) : Document :=
  .record "RobThreadStats" [
    ("cpi", s.cpi.document),
    ("uops_total", s.opsTotal),
    ("uops_x87", s.opsX87),
    ("uops_pause", s.opsPause),
    ("uops_by_subtype", countsDocument s.opsByKind.toList),
    ("loads_count", s.loadsCount),
    ("loads_latency", s.loadsLatency),
    ("stores_count", s.storesCount),
    ("stores_latency", s.storesLatency),
    ("producer_distance", countsDocument s.producerDistance.toList),
    ("total_producer_distance", s.totalProducerDistance),
    ("total_consumers", s.totalConsumers),
    ("outstanding_long_latency_insns", s.longLoadTime),
    ("outstanding_long_latency_cycles", s.longLoadSpan),
    ("mlp_histogram", timesDocument s.loadHistogram.toList),
    ("branch_predictions", s.branches),
    ("branch_mispredictions", s.mispredictions),
    ("commit_log", .list (s.commitLog.toList.map CommitRecord.document))]

/-- The snapshot of a thread as a document. -/
def ThreadReport.document (r : ThreadReport) : Document :=
  .record "ThreadReport" [
    ("thread", r.thread),
    ("instructions", r.instructions),
    ("elapsed", r.elapsed),
    ("stats", r.stats.document)]

/-- The snapshot of a window as a document. -/
def WindowReport.document (r : WindowReport) : Document :=
  .record "TimerReport" [
    ("period", r.period),
    ("threads", .list (r.threads.map ThreadReport.document)),
    ("time_skipped", r.timeSkipped),
    ("load_queue", r.loadQueue.document),
    ("store_queue", r.storeQueue.document),
    ("serializations", r.serializations),
    ("mfences", r.fences)]

end CoreTiming
