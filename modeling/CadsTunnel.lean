import CadsTunnel.AccessWindow
import CadsTunnel.AdmissionBatch
import CadsTunnel.AgentBindings
import CadsTunnel.AgentDirectory
import CadsTunnel.AgentKeyLog
import CadsTunnel.AgentMembership
import CadsTunnel.AlertLimits
import CadsTunnel.AlertStore
import CadsTunnel.AlertTransitions
import CadsTunnel.AsciiCase
import CadsTunnel.Assignment
import CadsTunnel.AuctionTools
import CadsTunnel.ByteReads
import CadsTunnel.CaBudget
import CadsTunnel.CanonicalJson
import CadsTunnel.CanonicalValues
import CadsTunnel.CapsuleStream
import CadsTunnel.CertAdmission
import CadsTunnel.CertStore
import CadsTunnel.CertSweep
import CadsTunnel.ChallengeStore
import CadsTunnel.ChannelAcks
import CadsTunnel.ChannelAuthorizer
import CadsTunnel.ChannelObjects
import CadsTunnel.ChannelPairer
import CadsTunnel.ChannelRefusals
import CadsTunnel.ChannelStore
import CadsTunnel.CivilDates
import CadsTunnel.ClientHello
import CadsTunnel.ConvergenceCoalescer
import CadsTunnel.CookieRules
import CadsTunnel.CreditLedger
import CadsTunnel.CutoverAgreement
import CadsTunnel.CutoverPump
import CadsTunnel.CutoverSound
import CadsTunnel.Delimited
import CadsTunnel.DeliveryAgreement
import CadsTunnel.DeliveryDiscipline
import CadsTunnel.DeliveryNegotiation
import CadsTunnel.DeliveryPump
import CadsTunnel.DeliveryRecords
import CadsTunnel.DeliverySound
import CadsTunnel.DirectServing
import CadsTunnel.DnsAnswers
import CadsTunnel.DnsEcho
import CadsTunnel.DnsMessage
import CadsTunnel.DurableFiles
import CadsTunnel.EdgeAccounting
import CadsTunnel.EdgeAccounts
import CadsTunnel.EdgeAgentKeys
import CadsTunnel.EdgeConnections
import CadsTunnel.EdgeControl
import CadsTunnel.EdgeFallback
import CadsTunnel.EdgeGauges
import CadsTunnel.EdgeHosts
import CadsTunnel.EdgeMesh
import CadsTunnel.EdgeRegistrations
import CadsTunnel.EdgeRevocation
import CadsTunnel.EdgeRouting
import CadsTunnel.EdgeServe
import CadsTunnel.EdgeSessions
import CadsTunnel.EdgeState
import CadsTunnel.EdgeSteps
import CadsTunnel.EdgeTunnels
import CadsTunnel.Enrollment
import CadsTunnel.FallbackFraming
import CadsTunnel.FramedRelay
import CadsTunnel.FreeTierCaps
import CadsTunnel.FrontDoor
import CadsTunnel.GrantRevocations
import CadsTunnel.Gregorian
import CadsTunnel.HexText
import CadsTunnel.HostnameGrammar
import CadsTunnel.Hostnames
import CadsTunnel.InstallationBounds
import CadsTunnel.Installations
import CadsTunnel.Ja4
import CadsTunnel.KeepaliveAccounting
import CadsTunnel.LikePattern
import CadsTunnel.LogThrottle
import CadsTunnel.LoginGate
import CadsTunnel.Machine
import CadsTunnel.MarketCommitments
import CadsTunnel.MarketMatching
import CadsTunnel.MembershipWire
import CadsTunnel.NetworkPolicy
import CadsTunnel.NoiseFraming
import CadsTunnel.Oneshot
import CadsTunnel.OrderedMap
import CadsTunnel.OverlayForest
import CadsTunnel.OverlayPlan
import CadsTunnel.OverlayShortcuts
import CadsTunnel.PaddleWebhook
import CadsTunnel.ParkPump
import CadsTunnel.ParkedHandoff
import CadsTunnel.PeriodicFlips
import CadsTunnel.PipelineAuction
import CadsTunnel.PipelineConvene
import CadsTunnel.PipelineEscrow
import CadsTunnel.PipelineFairness
import CadsTunnel.PipelineSelection
import CadsTunnel.PortalNext
import CadsTunnel.Preimage
import CadsTunnel.Programs
import CadsTunnel.QueueOrder
import CadsTunnel.Quorum
import CadsTunnel.RateLimit
import CadsTunnel.RateLimitRuns
import CadsTunnel.ReceiptChain
import CadsTunnel.ReceiptEmission
import CadsTunnel.ReceiptExports
import CadsTunnel.ReceiptSegments
import CadsTunnel.Redemptions
import CadsTunnel.ReplayCache
import CadsTunnel.RestBridge
import CadsTunnel.Satellites
import CadsTunnel.ServiceTools
import CadsTunnel.SessionTokens
import CadsTunnel.SettlementChain
import CadsTunnel.SettlementElection
import CadsTunnel.SettlementEscrow
import CadsTunnel.SettlementNonces
import CadsTunnel.SettlementObjects
import CadsTunnel.SettlementOverflow
import CadsTunnel.SettlementPayouts
import CadsTunnel.SettlementReplication
import CadsTunnel.SettlementSound
import CadsTunnel.SettlementSweep
import CadsTunnel.SettlementTamper
import CadsTunnel.SettlementWire
import CadsTunnel.ShareLinks
import CadsTunnel.ShortStrings
import CadsTunnel.SigningDomains
import CadsTunnel.Slices
import CadsTunnel.SocketText
import CadsTunnel.SplitText
import CadsTunnel.Sql
import CadsTunnel.StableSort
import CadsTunnel.StapleCache
import CadsTunnel.StreamDecoder
import CadsTunnel.SweepCompleteness
import CadsTunnel.TopologyAuthorization
import CadsTunnel.TopologyMigration
import CadsTunnel.TopologyStore
import CadsTunnel.TrailingWindow
import CadsTunnel.TunnelReceipts
import CadsTunnel.TunnelStore
import CadsTunnel.TunnelUptime
import CadsTunnel.UncoveredGaps
import CadsTunnel.UpgradableSession
import CadsTunnel.UpgradeCoordination
import CadsTunnel.UpgradeFallback
import CadsTunnel.UpgradeTermination
import CadsTunnel.VerifiedLogins
import CadsTunnel.Words
import CadsTunnel.ClientLadder
import CadsTunnel.LedgerRetention
import CadsTunnel.LiveSplices
import CadsTunnel.RendezvousGate
import CadsTunnel.AgentKeyExchange
import CadsTunnel.AgentKeyProofs
