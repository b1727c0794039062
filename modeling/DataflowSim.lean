import DataflowSim.Library.Run
import DataflowSim.Library.Tally
import DataflowSim.Memory.Fill
import DataflowSim.Memory.Traffic
import DataflowSim.Memory.WriteLoss
import DataflowSim.Memory.Held
import DataflowSim.Memory.MemSystem
import DataflowSim.Memory.Conservation
import DataflowSim.Memory.ExactlyOnce
import DataflowSim.Execution.Channel
import DataflowSim.Execution.Lse
import DataflowSim.Memory.Placement
import DataflowSim.Memory.Reservation
import DataflowSim.Execution.Clock
import DataflowSim.Execution.Speedup
import DataflowSim.Execution.Threads
import DataflowSim.Execution.GraphScheduler
import DataflowSim.Execution.SwitchLaw
import DataflowSim.Execution.Buffers
import DataflowSim.Execution.PartialMux
import DataflowSim.Execution.Lc
import DataflowSim.Execution.LoopVar
import DataflowSim.Execution.LoopEnd
import DataflowSim.Library.Pipeline
import DataflowSim.Execution.SGMF
import DataflowSim.Execution.TagFlags
import DataflowSim.Execution.TagMatch
import DataflowSim.Execution.Network
import DataflowSim.Execution.Kahn
import DataflowSim.Execution.Capacity
import DataflowSim.Memory.Address
import DataflowSim.Memory.NoFreeLine
import DataflowSim.Memory.Recency
import DataflowSim.Execution.Branch
import DataflowSim.Library.Adjacency
import DataflowSim.Graph.ControlTree
import DataflowSim.Graph.ChanGraph
import DataflowSim.Graph.AddChanDGSF
import DataflowSim.Graph.Complete
import DataflowSim.Graph.Dfg
import DataflowSim.Graph.GenChanGraph
import DataflowSim.Registry.Table
import DataflowSim.Registry.GenConnect
import DataflowSim.Library.Search
import DataflowSim.Graph.Traverse
import DataflowSim.Graph.Subgraphs
import DataflowSim.Library.Labels
import DataflowSim.Graph.Peeling
import DataflowSim.Graph.Halving
import DataflowSim.Graph.PartitionLaw
import DataflowSim.Library.Precedence
import DataflowSim.Graph.Sequence
import DataflowSim.Library.Strides
import DataflowSim.Memory.RoundRobin
import DataflowSim.Memory.DramClock
import DataflowSim.Library.DelayLine
import DataflowSim.Memory.MemoryDataBus
import DataflowSim.Memory.Spm
import DataflowSim.Memory.Attribution
import DataflowSim.Execution.LseRun
import DataflowSim.Execution.LseOrder
import DataflowSim.Execution.LsePush
import DataflowSim.Memory.MshrLedger
import DataflowSim.Memory.MshrRuns
import DataflowSim.Graph.Relay
import DataflowSim.Graph.RelayPath
import DataflowSim.Graph.RelayWiring
import DataflowSim.Graph.RelayLaw
import DataflowSim.Execution.LseIssue
import DataflowSim.Graph.SetSpeedup
import DataflowSim.Graph.SortLaw
import DataflowSim.Registry.Profiler
import DataflowSim.Util.ReadFile
import DataflowSim.Graph.PathLaw
import DataflowSim.Graph.LoopForest
import DataflowSim.Execution.ConfigChan
import DataflowSim.Execution.MuxLaw
import DataflowSim.Execution.SelectO3
import DataflowSim.Memory.BankOrder
import DataflowSim.Memory.Phases
import DataflowSim.Memory.Ports
import DataflowSim.Execution.KeepMode
import DataflowSim.Execution.LastTag
import DataflowSim.Execution.KeepPairs
import DataflowSim.Graph.PrintRegions
import DataflowSim.Graph.RegionHierarchy
import DataflowSim.Execution.Partition
import DataflowSim.Execution.Progress
import DataflowSim.Graph.Scatter
import DataflowSim.Graph.ScatterLaw
import DataflowSim.Registry.ChanConnect
import DataflowSim.Registry.GenChan
import DataflowSim.Registry.Compile
import DataflowSim.Library.Buckets
import DataflowSim.Registry.ConfigGraphScheduler
import DataflowSim.Execution.SchedulerInit
import DataflowSim.Registry.Schedule
import DataflowSim.Execution.Utilization
import DataflowSim.Execution.Watchdog
