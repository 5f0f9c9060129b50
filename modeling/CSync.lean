import CSync.Announcement.Polite
import CSync.Rtimer.Pending
import CSync.Rtimer.Stamps
import CSync.Node.Conserve
import CSync.Node.Collect
import CSync.Safety.Assignment
import CSync.Safety.BridgePlacing
import CSync.Safety.Election
import CSync.Safety.Bridges
import CSync.Safety.PhaseLoop
import CSync.Safety.Discovery
import CSync.Safety.Heads
import CSync.Safety.Blacklist
import CSync.Mac.FrameCodec
import CSync.Mac.FrameReads
import CSync.Apps.Netcmd
import CSync.Core.Gcr
import CSync.Core.CcmStar
import CSync.Rime.ChameleonTrip
import CSync.Mac.Sequence
import CSync.Sicslowpan.Fragments
import CSync.Timers.Trickle
import CSync.Store.SettingsRuns
import CSync.Timers.Ctimer
import CSync.Mac.ElementCodec
import CSync.Tsch.Reports
import CSync.Mac.CsmaAccounts
import CSync.Coffee.LogIndex
import CSync.Coffee.Search
import CSync.Coffee.Failures
import CSync.Rpl.BestParent
import CSync.Rpl.DaoAckRuns
import CSync.Rpl.DioOutput
import CSync.Rpl.MessageBounds
import CSync.Rpl.ParentDios
import CSync.Rpl.SourceRouteRuns
import CSync.Tsch.AdaptiveTimesync
import CSync.Tsch.AssociationUse
import CSync.Tsch.Input
import CSync.Tsch.NextLink
import CSync.Tsch.PointerRuns
import CSync.Apps.OmaTlvNumbers
import CSync.Apps.JsonparseRuns
import CSync.Apps.LvmRanges
import CSync.Apps.LvmBounds
import CSync.Apps.MqttRuns
import CSync.Coap.Block1
import CSync.Coap.ParseBounds
import CSync.Coap.TransactionPeers
import CSync.Ip.ExtHeaderBounds
import CSync.Mac.Noncoresec
import CSync.Ip.RouteRuns
import CSync.Ip.ReassWhole
import CSync.Core.QueuebufRuns
import CSync.Core.RingbufRuns
import CSync.Core.ProcessRuns
import CSync.Rime.RunicastRuns
import CSync.Core.ChainRuns
import CSync.Core.Mmem
import CSync.Ftsp.Average
