import RoutePlatform.RouteTableSearch
import RoutePlatform.ThreadTimers
import RoutePlatform.DampRuns
import RoutePlatform.WorkQueueRuns
import RoutePlatform.RibRedistribution
import RoutePlatform.RibStatic
import RoutePlatform.AttrReferences
import RoutePlatform.BgpProcessRuns
import RoutePlatform.VrrpElection
import RoutePlatform.VrrpRuns
import RoutePlatform.LldpReading
import RoutePlatform.DrTakeover
import RoutePlatform.NsmRuns
import RoutePlatform.PacketSoundness
import RoutePlatform.MaxageRuns
import RoutePlatform.BabelLoops
import RoutePlatform.BabelSending
import RoutePlatform.EigrpDistances
import RoutePlatform.EigrpItemRoundTrip
import RoutePlatform.LspRuns
import RoutePlatform.RouteMapRuns
import RoutePlatform.RouteTableTraversal
import RoutePlatform.SnpExchange
import RoutePlatform.TlvCodec
import RoutePlatform.FletcherChecksum
import RoutePlatform.BestPathSymmetry
import RoutePlatform.CommunityText
import RoutePlatform.MultipathNexthops
import RoutePlatform.AsPathText
import RoutePlatform.AnnounceCheck
import RoutePlatform.AttrMerging
import RoutePlatform.BufferWindow
import RoutePlatform.CapabilityMessages
import RoutePlatform.NlriCodec
import RoutePlatform.PacketAspath
import RoutePlatform.PrefixListUndo
import RoutePlatform.LinkStateIds
import RoutePlatform.LsdbCounters
import RoutePlatform.VrrpTracking
import RoutePlatform.VrrpAnnouncements
import RoutePlatform.EigrpComposite
import RoutePlatform.EigrpSequenceHello
import RoutePlatform.NexthopIteration
import RoutePlatform.ExternalRoutes
import RoutePlatform.NexthopLookup
import RoutePlatform.NexthopResolution
import RoutePlatform.RouteTableForks
