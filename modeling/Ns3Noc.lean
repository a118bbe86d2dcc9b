import Ns3Noc.PartialRuns
import Ns3Noc.MixedRadixIndices
import Ns3Noc.BlockedLoops
import Ns3Noc.NocHeader
import Ns3Noc.NocWiring
import Ns3Noc.DimensionWiring
import Ns3Noc.NdTopologies
import Ns3Noc.DorRouting
import Ns3Noc.DorDelivery
import Ns3Noc.MeshTopologies2D
import Ns3Noc.XyRouting
import Ns3Noc.IrvineRouter
import Ns3Noc.IrvineDelivery
import Ns3Noc.BestOf
import Ns3Noc.AdaptiveHeader
import Ns3Noc.AdaptiveOutputs
import Ns3Noc.LoadRouter
import Ns3Noc.NeighborLoad
import Ns3Noc.CtgProgress
import Ns3Noc.CtgPacketization
import Ns3Noc.CtgVolume
import Ns3Noc.NocCtgApplicationHelper
import Ns3Noc.CtgWaiting
import Ns3Noc.NocNetwork
import Ns3Noc.BitFields
import Ns3Noc.NixVector
import Ns3Noc.HeapOrder
import Ns3Noc.HeapScheduler
import Ns3Noc.DefaultSimulatorImpl
import Ns3Noc.SimulatorRuns
import Ns3Noc.GridTopologies
import Ns3Noc.NdLinks
import Ns3Noc.GridLinks
import Ns3Noc.EventBuckets
import Ns3Noc.CalendarScheduler
import Ns3Noc.Ns2CalendarScheduler
import Ns3Noc.Ns2CalendarRuns
import Ns3Noc.Buffer
import Ns3Noc.BufferRuns
import Ns3Noc.BufferOffsets
import Ns3Noc.BufferSharing
import Ns3Noc.BufferWrites
import Ns3Noc.BufferFamilies
import Ns3Noc.BufferRefinement
import Ns3Noc.Coverings
import Ns3Noc.MprComputation
import Ns3Noc.LinkSensing
import Ns3Noc.LinkSets
import Ns3Noc.LinkRuns
import Ns3Noc.Ipv6Headers
import Ns3Noc.Ipv6Reassembly
import Ns3Noc.ReassemblyRuns
import Ns3Noc.Ipv6Fragmentation
import Ns3Noc.LosslessFragments
import Ns3Noc.ArpCache
import Ns3Noc.ArpRuns
import Ns3Noc.NdiscCache
import Ns3Noc.NdiscMessages
import Ns3Noc.NdiscTimers
import Ns3Noc.NdiscRuns
import Ns3Noc.NdiscQueues
import Ns3Noc.NdiscQueueRuns
import Ns3Noc.TcMessages
import Ns3Noc.TopologyRuns
import Ns3Noc.BlockAckCache
import Ns3Noc.BlockAckScoreboard
import Ns3Noc.MacRxMiddle
import Ns3Noc.RxStreams
import Ns3Noc.BusyPeriods
import Ns3Noc.DcfManager
import Ns3Noc.DcfRuns
import Ns3Noc.BridgeNetDevice
import Ns3Noc.BridgeRuns
import Ns3Noc.CsmaNetDevice
import Ns3Noc.CsmaRuns
import Ns3Noc.BigEndian
import Ns3Noc.WimaxTlv
import Ns3Noc.WimaxCodec
import Ns3Noc.PeerLink
import Ns3Noc.PeerManagement
import Ns3Noc.PeerLinkReactions
import Ns3Noc.PeeringAgreement
import Ns3Noc.PeeringTimers
import Ns3Noc.HwmpRtable
import Ns3Noc.HwmpProtocol
import Ns3Noc.HwmpReception
import Ns3Noc.HwmpPaths
import Ns3Noc.HwmpQueue
import Ns3Noc.HwmpQueueSteps
import Ns3Noc.HwmpRequests
import Ns3Noc.HwmpQueueRuns
import Ns3Noc.FlowControl
import Ns3Noc.MeshDisplacements
import Ns3Noc.TorusDisplacements
import Ns3Noc.XyzRouting
import Ns3Noc.FlowMonitor
import Ns3Noc.FlowAccounts
import Ns3Noc.FlowConservation
import Ns3Noc.Names
import Ns3Noc.NocWakeups
import Ns3Noc.NameTrees
import Ns3Noc.NameCalls
import Ns3Noc.NameRuns
import Ns3Noc.ObjectAggregates
import Ns3Noc.SortedAggregates
import Ns3Noc.ObjectAggregation
import Ns3Noc.ObjectRuns
import Ns3Noc.FlameMesh
import Ns3Noc.FlameReception
import Ns3Noc.FlameEntries
import Ns3Noc.FlameTurns
import Ns3Noc.FlameRuns
import Ns3Noc.FaultInsertion
import Ns3Noc.TrafficPattern
import Ns3Noc.PowerAccounting
import Ns3Noc.SyncApplication
import Ns3Noc.SyncPackets
import Ns3Noc.MeteredNetwork
import Ns3Noc.ClockDivisions
import Ns3Noc.RouterLoad
import Ns3Noc.CalendarWidths
import Ns3Noc.BufferCopies
import Ns3Noc.BufferExtensions
import Ns3Noc.SequenceNumber
import Ns3Noc.StaticLookup
import Ns3Noc.HighPrecision
import Ns3Noc.FixedPointProducts
import Ns3Noc.FixedPointQuotients
import Ns3Noc.TimeConversion
import Ns3Noc.HighPrecisionText
import Ns3Noc.RouterAdvertisement
import Ns3Noc.Ipv6Options
import Ns3Noc.ChunkedLists
import Ns3Noc.PendingData
import Ns3Noc.PaddedSections
import Ns3Noc.BufferSerialization
import Ns3Noc.BufferConcatenation
import Ns3Noc.Ipv4AddressGenerator
import Ns3Noc.Ipv4AddressRanges
import Ns3Noc.OlsrHeader
import Ns3Noc.OlsrRoundTrip
import Ns3Noc.OlsrForwarding
import Ns3Noc.AodvQueue
import Ns3Noc.AodvQueueRuns
import Ns3Noc.AodvTable
import Ns3Noc.AodvErrors
import Ns3Noc.AodvErrorReports
import Ns3Noc.AodvErrorCompleteness
import Ns3Noc.WifiFragmentation
import Ns3Noc.StateLogs
import Ns3Noc.WifiPhyStateHelper
import Ns3Noc.WifiPhyStateRuns
import Ns3Noc.MsduAggregation
import Ns3Noc.EdcaAggregation
import Ns3Noc.AodvDiscovery
import Ns3Noc.AodvDiscoverySearch
import Ns3Noc.AodvDiscoveryRuns
import Ns3Noc.Ipv6AddressText
import Ns3Noc.PacketLossCounter
import Ns3Noc.CsmaFraming
import Ns3Noc.CsmaMembership
import Ns3Noc.WifiMacHeader
import Ns3Noc.WimaxMacQueue
import Ns3Noc.HwmpPathErrors
import Ns3Noc.PeerAdmission
import Ns3Noc.GlobalRouteManager
import Ns3Noc.StubNodes
import Ns3Noc.MetadataRecords
import Ns3Noc.MetadataBlocks
import Ns3Noc.MetadataSerialization
import Ns3Noc.PacketSerialization
import Ns3Noc.FlitConservation
import Ns3Noc.BodyFlits
