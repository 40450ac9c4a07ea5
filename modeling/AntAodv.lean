import AntAodv.Library.Transition
import AntAodv.Library.Potential
import AntAodv.Library.Refinement
import AntAodv.Library.LoopErasure
import AntAodv.Library.Roulette
import AntAodv.Library.Lockstep
import AntAodv.Library.Placement
import AntAodv.Library.Smoothing
import AntAodv.Library.Linked
import AntAodv.Library.Custody
import AntAodv.Library.Text
import AntAodv.Library.Awk
import AntAodv.Library.Perl
import AntAodv.Library.Printf
import AntAodv.Library.Numerals
import AntAodv.Common
import AntAodv.Neighbors
import AntAodv.Rtable
import AntAodv.Rtable.Rows
import AntAodv.Rtable.NextHop
import AntAodv.Rtable.Sampling
import AntAodv.Packet
import AntAodv.PacketFormat
import AntAodv.PacketFormat.Commands
import AntAodv.PacketPool
import AntAodv.PacketPool.Stock
import AntAodv.PacketPool.Users
import AntAodv.Traffic
import AntAodv.Traffic.Samples
import AntAodv.Traffic.Estimates
import AntAodv.Traffic.Reinforcement
import AntAodv.Traffic.Variance
import AntAodv.Traffic.Window
import AntAodv.PriQueue
import AntAodv.PriQueue.Priority
import AntAodv.PriQueue.Operations
import AntAodv.PriQueue.Conservation
import AntAodv.Agent
import AntAodv.Agent.Memory
import AntAodv.Agent.Forward
import AntAodv.Agent.Walk
import AntAodv.Agent.Retrace
import AntAodv.Agent.Restart
import AntAodv.Agent.Independence
import AntAodv.Agent.Sharing
import AntAodv.Agent.Disposal
import AntAodv.Network
import AntAodv.Network.Ants
import AntAodv.Network.WellFormed
import AntAodv.Network.Calls
import AntAodv.Network.History
import AntAodv.Network.Identity
import AntAodv.Network.Return
import AntAodv.Network.Overflow
import AntAodv.Network.Pheromone
import AntAodv.Network.Distribution
import AntAodv.Network.Selection
import AntAodv.Network.Interference
import AntAodv.Network.Commute
import AntAodv.Network.Phase
import AntAodv.Network.Ttl
import AntAodv.Network.Ownership
import AntAodv.Network.Queued
import AntAodv.Network.Timed
import AntAodv.Network.Fates
import AntAodv.Network.Trail
import AntAodv.Network.Congestion
import AntAodv.Network.Drain
import AntAodv.Network.Scenario
import AntAodv.Scripts.ResidualEnergy
import AntAodv.Scripts.DelayAwk
import AntAodv.Scripts.DelayPl
import AntAodv.CmuTrace
import AntAodv.CmuTrace.Fields
import AntAodv.Scripts.Throughput
import AntAodv.Scripts.Antnetanalizer
import AntAodv.CmuTrace.Patterns
import AntAodv.CmuTrace.Lines
import AntAodv.CmuTrace.AntLines
import AntAodv.Scripts.DelayTrace
import AntAodv.Scripts.ThroughputTimes
