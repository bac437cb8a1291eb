import MipStack.Library.Execution
import MipStack.Library.Relaxation
import MipStack.Library.DistanceVector
import MipStack.Library.Convergence
import MipStack.Library.KeyedList
import MipStack.Library.ByteLayout
import MipStack.Library.Pipeline
import MipStack.Library.GoBackN
import MipStack.Library.PollSet
import MipStack.Library.Chunks
import MipStack.Library.SlotArray
import MipStack.Library.ByteCopy
import MipStack.Library.Heap
import MipStack.Library.LinkedChain
import MipStack.Library.Placement
import MipStack.Commons.Definitions
import MipStack.Commons.MIPDMessage
import MipStack.Commons.ClientPackage
import MipStack.Commons.LinkedList
import MipStack.Commons.ListLoops
import MipStack.Commons.ListRuns
import MipStack.Commons.OwnedList
import MipStack.Routerd.MIPRouteTable
import MipStack.Routerd.RouteRefinement
import MipStack.Routerd.LatestWord
import MipStack.Routerd.MergeMinimum
import MipStack.Routerd.RouterServer
import MipStack.Routerd.PackageLayout
import MipStack.Routerd.Cli
import MipStack.Mipd.Packaging
import MipStack.Mipd.Link
import MipStack.Mipd.Outcome
import MipStack.Mipd.Interface
import MipStack.Mipd.MipArp
import MipStack.Mipd.Routing
import MipStack.Mipd.SplitHorizon
import MipStack.Mipd.MIPDServer
import MipStack.Mipd.Handlers
import MipStack.Mipd.Daemon
import MipStack.Mipd.ForwardAnswers
import MipStack.Mipd.DirectRouted
import MipStack.Mipd.Traffic
import MipStack.Mipd.Availability
import MipStack.Mipd.ApplicationStream
import MipStack.Mipd.ApplicationMessages
import MipStack.Mipd.Polling
import MipStack.Mipd.ArpAnswers
import MipStack.Mipd.MipArpSlots
import MipStack.Mipd.ArpMap
import MipStack.Mipd.ArpTraffic
import MipStack.Mipd.FrameBounds
import MipStack.Mipd.WireContents
import MipStack.Network.RoutePackages
import MipStack.Network.RouteNetwork
import MipStack.Network.RouteSimulation
import MipStack.Network.RouteGuarantees
import MipStack.Network.Convergence
import MipStack.Network.TransportNetwork
import MipStack.Network.PackageLifetime
import MipStack.Network.ArpNetwork
import MipStack.Routerd.PackageRoundTrip
import MipStack.Routerd.RouterRun
import MipStack.Routerd.RouteAging
import MipStack.Routerd.TableMemory
import MipStack.Routerd.TableRuns
import MipStack.Network.Relay
import MipStack.Network.Delivery
import MipStack.Network.NextHops
import MipStack.Network.RoutedDelivery
import MipStack.Miptpd.MIPTPPackage
import MipStack.Miptpd.MIPTPSendJob
import MipStack.Miptpd.SendWindow
import MipStack.Miptpd.WindowMoves
import MipStack.Miptpd.MIPTPReceiveJob
import MipStack.Miptpd.AppConnection
import MipStack.Miptpd.Transfer
import MipStack.Miptpd.Reassembly
import MipStack.Miptpd.MIPTPAppController
import MipStack.Miptpd.MIPTPServer
import MipStack.Miptpd.WireFormats
import MipStack.Miptpd.AppSession
import MipStack.Miptpd.Completion
import MipStack.Miptpd.PortIsolation
import MipStack.Miptpd.TransferSafety
import MipStack.Miptpd.AppIsolation
import MipStack.Miptpd.AppPolling
import MipStack.Miptpd.ConnectionMemory
import MipStack.Miptpd.ConnectionRuns
import MipStack.Network.Ping
import MipStack.Network.FileTransfer
import MipStack.Network.Parcels
import MipStack.Network.MessageSteps
import MipStack.Network.Conservation
import MipStack.Mipd.PackageMemory
import MipStack.Mipd.HandlerMemory
import MipStack.Mipd.BranchMemory
import MipStack.Mipd.MemoryRuns
