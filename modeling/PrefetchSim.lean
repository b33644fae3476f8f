import PrefetchSim.Dcpt.LastPrefetch
import PrefetchSim.Dcpt.History
import PrefetchSim.Dcpt.Issued
import PrefetchSim.Sequential.Tagged
import PrefetchSim.Mem.MissFlag
import PrefetchSim.Mem.Deadlock
import PrefetchSim.Mem.Overflow
import PrefetchSim.Mem.Leak
import PrefetchSim.Mem.Writeback
import PrefetchSim.Mem.FlatMemory
import PrefetchSim.Mem.BusArbitration
import PrefetchSim.Mem.PortTable
import PrefetchSim.Mem.BridgeDelivery
import PrefetchSim.Mem.MemoryLocks
import PrefetchSim.Mem.TargetLimit
import PrefetchSim.Mem.PrefetchBit
import PrefetchSim.Mem.LoadLocked
import PrefetchSim.Mem.LruMap
import PrefetchSim.Mem.PrefetchQueue
import PrefetchSim.Mem.PrefetchOrder
import PrefetchSim.Mem.Refused
import PrefetchSim.Mem.QueueRuns
import PrefetchSim.Mem.ReadData
import PrefetchSim.Mem.TimingPort
import PrefetchSim.Sim.Simulate
import PrefetchSim.Mem.IicFill
import PrefetchSim.Mem.Coherence
import PrefetchSim.Mem.LruAddress
import PrefetchSim.Mem.OccupancyRuns
import PrefetchSim.Mem.FaRefines
