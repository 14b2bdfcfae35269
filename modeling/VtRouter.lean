import VtRouter.Library.Transition
import VtRouter.Library.MachineInt
import VtRouter.Library.CText
import VtRouter.Library.Words
import VtRouter.Library.Forwarder
import VtRouter.Library.ChainedTable
import VtRouter.Library.DoublyLinked
import VtRouter.Library.HexText
import VtRouter.Library.OnesComplement
import VtRouter.Library.Dictionary
import VtRouter.Library.Framing
import VtRouter.Library.Network
import VtRouter.Library.Flow
import VtRouter.Library.FlowPath
import VtRouter.Model.Command
import VtRouter.Model.Routing
import VtRouter.Model.Hashmap
import VtRouter.Model.ProcessThread
import VtRouter.Model.MainLoop
import VtRouter.Model.System
import VtRouter.Model.RouterN
import VtRouter.Model.UpdateStub
import VtRouter.Model.Client
import VtRouter.Model.LinkedList
import VtRouter.Model.WriteResults
import VtRouter.Model.PktInfo
import VtRouter.Model.UdpClient
import VtRouter.Model.Topology
import VtRouter.Model.Tunnel
import VtRouter.Model.Launch
import VtRouter.Model.Wiring
import VtRouter.Model.TestPrograms
import VtRouter.Model.TimedProgram
import VtRouter.Interface.CommandReading
import VtRouter.Interface.RouteText
import VtRouter.Interface.Channels
import VtRouter.Interface.Phases
import VtRouter.Interface.Ledger
import VtRouter.Interface.Forwarding
import VtRouter.Interface.Hashmap
import VtRouter.Interface.LinkedList
import VtRouter.Interface.HexDump
import VtRouter.Interface.ArpText
import VtRouter.Interface.Network
import VtRouter.Interface.TimedProgram
import VtRouter.Interface.Dialogue
import VtRouter.Analysis.CommandLoop
import VtRouter.Analysis.CommandResult
import VtRouter.Analysis.Hashmap
import VtRouter.Analysis.UpdateStub
import VtRouter.Analysis.Client
import VtRouter.Analysis.LinkedList
import VtRouter.Analysis.RouteLookup
import VtRouter.Analysis.RouteLayout
import VtRouter.Analysis.Handshake
import VtRouter.Analysis.Shutdown
import VtRouter.Analysis.Waiting
import VtRouter.Analysis.VirtualTime
import VtRouter.Analysis.Forwarding
import VtRouter.Analysis.Histories
import VtRouter.Analysis.Bypass
import VtRouter.Analysis.RouteBounds
import VtRouter.Analysis.LayoutIndependence
import VtRouter.Analysis.WriteResults
import VtRouter.Analysis.HexDump
import VtRouter.Analysis.PktInfo
import VtRouter.Analysis.Checksum
import VtRouter.Analysis.Packet
import VtRouter.Analysis.ArpTable
import VtRouter.Analysis.Topology
import VtRouter.Analysis.ArpTopology
import VtRouter.Analysis.Tunnel
import VtRouter.Analysis.Network
import VtRouter.Analysis.Rounds
import VtRouter.Analysis.TimedProgram
import VtRouter.Analysis.ClientThread
import VtRouter.Analysis.HostShutdown
import VtRouter.Analysis.HostHistories
import VtRouter.Analysis.Dialogue
import VtRouter.Analysis.Turns
import VtRouter.Analysis.Launch
