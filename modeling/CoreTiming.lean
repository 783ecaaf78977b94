import CoreTiming.Barrier.Basic
import CoreTiming.Barrier.Calls
import CoreTiming.Barrier.Host
import CoreTiming.Barrier.Plan
import CoreTiming.Barrier.Run
import CoreTiming.Barrier.Schedule
import CoreTiming.Bounded
import CoreTiming.Branch.Predictor
import CoreTiming.Branch.TargetBuffer
import CoreTiming.Cache.Replacement
import CoreTiming.Cache.SetAssociative
import CoreTiming.CallError
import CoreTiming.Clock
import CoreTiming.CommandLine.Command
import CoreTiming.CommandLine.Options
import CoreTiming.CommandLine.Outcome
import CoreTiming.Config.Basic
import CoreTiming.Config.Listing
import CoreTiming.Config.Reader
import CoreTiming.Decimal.Binary64
import CoreTiming.Decimal.Places
import CoreTiming.Decimal.Shortest
import CoreTiming.Dependency.RegisterTable
import CoreTiming.Dependency.StoreTable
import CoreTiming.Document
import CoreTiming.Fault
import CoreTiming.InOrder.Basic
import CoreTiming.InOrder.Slots
import CoreTiming.InOrder.StoreBuffer
import CoreTiming.Instruction.Basic
import CoreTiming.Instruction.Decode
import CoreTiming.Json.Number
import CoreTiming.Json.Text
import CoreTiming.Location
import CoreTiming.Machine.Basic
import CoreTiming.Machine.Calls
import CoreTiming.Machine.Run
import CoreTiming.Main
import CoreTiming.Memory.Hierarchy
import CoreTiming.Memory.System
import CoreTiming.MicroOp.Basic
import CoreTiming.MicroOp.Instance
import CoreTiming.Model.Serial
import CoreTiming.Model.State
import CoreTiming.Model.Windowed
import CoreTiming.Proofs.Abreast
import CoreTiming.Proofs.AbreastCycles
import CoreTiming.Proofs.AbreastThreads
import CoreTiming.Proofs.AbreastWindows
import CoreTiming.Proofs.Accounting
import CoreTiming.Proofs.Advancing
import CoreTiming.Proofs.Alike
import CoreTiming.Proofs.AlikeWindows
import CoreTiming.Proofs.Batching
import CoreTiming.Proofs.Bookkeeping
import CoreTiming.Proofs.Capacity
import CoreTiming.Proofs.Charging
import CoreTiming.Proofs.Chronicle
import CoreTiming.Proofs.Completion
import CoreTiming.Proofs.Conservation
import CoreTiming.Proofs.Dataflow
import CoreTiming.Proofs.Draining
import CoreTiming.Proofs.Exactness
import CoreTiming.Proofs.Exclusion
import CoreTiming.Proofs.Feeding
import CoreTiming.Proofs.Flushing
import CoreTiming.Proofs.Grid
import CoreTiming.Proofs.Interleaving
import CoreTiming.Proofs.IssueOrder
import CoreTiming.Proofs.IssuePass
import CoreTiming.Proofs.Linking
import CoreTiming.Proofs.Locating
import CoreTiming.Proofs.Lockstep
import CoreTiming.Proofs.MemoryOrder
import CoreTiming.Proofs.Moves
import CoreTiming.Proofs.Outcome
import CoreTiming.Proofs.Outlook
import CoreTiming.Proofs.Overlay
import CoreTiming.Proofs.Passage
import CoreTiming.Proofs.Pointwise
import CoreTiming.Proofs.Positions
import CoreTiming.Proofs.ProgramOrder
import CoreTiming.Proofs.Progress
import CoreTiming.Proofs.Quiet
import CoreTiming.Proofs.ReadAfterWrite
import CoreTiming.Proofs.Renumbering
import CoreTiming.Proofs.Selection
import CoreTiming.Proofs.Seniority
import CoreTiming.Proofs.Serialization
import CoreTiming.Proofs.Skipping
import CoreTiming.Proofs.Stages
import CoreTiming.Proofs.Stamping
import CoreTiming.Proofs.Standstill
import CoreTiming.Proofs.Stations
import CoreTiming.Proofs.Bandwidth
import CoreTiming.Proofs.Steps
import CoreTiming.Proofs.Tables
import CoreTiming.Proofs.TimeOrder
import CoreTiming.Proofs.Told
import CoreTiming.Proofs.Turns
import CoreTiming.Proofs.Upkeep
import CoreTiming.Proofs.Waiting
import CoreTiming.Proofs.Waking
import CoreTiming.Proofs.Watching
import CoreTiming.Ring
import CoreTiming.Simulation.Basic
import CoreTiming.Simulation.Feed
import CoreTiming.Simulation.Summary
import CoreTiming.Stats.CpiStack
import CoreTiming.Stats.Record
import CoreTiming.Stats.Report
import CoreTiming.Stats.ThreadStats
import CoreTiming.Time
import CoreTiming.UnitPool
import CoreTiming.Window.Admission
import CoreTiming.Window.Basic
import CoreTiming.Window.Calls
import CoreTiming.Window.Commit
import CoreTiming.Window.Cycle
import CoreTiming.Window.Dispatch
import CoreTiming.Window.Entry
import CoreTiming.Window.Issue
import CoreTiming.Window.Shared
import CoreTiming.Window.Thread
import CoreTiming.Workload
import CoreTiming.Proofs.IssueLog
import CoreTiming.Proofs.SerialOrder
import CoreTiming.Proofs.Keeping
import CoreTiming.Proofs.Sharing
import CoreTiming.Proofs.Machines
import CoreTiming.Proofs.Agreement
import CoreTiming.Proofs.WholeCalls
import CoreTiming.Proofs.SingleSlot
import CoreTiming.Proofs.Buffering
import CoreTiming.Proofs.Cracking
import CoreTiming.Proofs.SingleCore
import CoreTiming.Proofs.Streams
import CoreTiming.Proofs.Overflow
import CoreTiming.Proofs.Reckoning
import CoreTiming.Proofs.Requiting
import CoreTiming.Proofs.Room
import CoreTiming.Proofs.WakeUpGraph
import CoreTiming.Proofs.Partition
import CoreTiming.Proofs.StoreAddresses
import CoreTiming.Proofs.Rhythm
import CoreTiming.Proofs.FrontEnd
import CoreTiming.Proofs.Writers
import CoreTiming.Proofs.AddressRecords
import CoreTiming.Proofs.AddressOrder
import CoreTiming.Proofs.Queues
import CoreTiming.Proofs.Choice
import CoreTiming.Proofs.Gathering
import CoreTiming.Proofs.Issuing
import CoreTiming.Proofs.LongLoads
import CoreTiming.Proofs.InOrderIssue
import CoreTiming.Proofs.SingleAccess
import CoreTiming.Proofs.Residency
import CoreTiming.Proofs.Stays
import CoreTiming.Proofs.Lookup
import CoreTiming.Proofs.Latencies
import CoreTiming.Proofs.Ranking
import CoreTiming.Proofs.Turnover
import CoreTiming.Proofs.Occupancy
import CoreTiming.Proofs.Serving
import CoreTiming.Proofs.StoreHistory
import CoreTiming.Proofs.InOrderCores
import CoreTiming.Proofs.OperandInfo
import CoreTiming.Proofs.Retrying
import CoreTiming.Proofs.Intake
import CoreTiming.Proofs.Deliveries
import CoreTiming.Proofs.ValueFlow
import CoreTiming.Proofs.Learning
import CoreTiming.Proofs.LastWriters
import CoreTiming.Proofs.ListedTime
import CoreTiming.Proofs.Provision
import CoreTiming.Proofs.HostThreads
import CoreTiming.Proofs.StoresInFlight
import CoreTiming.Proofs.Rounding
