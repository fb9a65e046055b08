import Rubix.Application.Blocking
import Rubix.Application.PeerAnswers
import Rubix.Application.PeerHistory
import Rubix.Application.RateWindow
import Rubix.Application.ResetIdentity
import Rubix.Application.SendLimits
import Rubix.Application.Receiver
import Rubix.Application.SendWindow
import Rubix.Notifications.SystemNotifier
import Rubix.Application.SendMessage
import Rubix.Domain.PeerLife
import Rubix.Domain.PeerRefresh
import Rubix.Networking.Admission
import Rubix.Networking.Backpressure
import Rubix.Networking.Browser
import Rubix.Networking.ConnectionTask
import Rubix.Networking.ActiveConnections
import Rubix.Networking.Client
import Rubix.Networking.ConnectionManager
import Rubix.Networking.Disconnect
import Rubix.Networking.FrameStream
import Rubix.Networking.KeyReuse
import Rubix.Networking.KnownPeers
import Rubix.Networking.Lan
import Rubix.Networking.Listener
import Rubix.Networking.Mdns
import Rubix.Networking.Server
import Rubix.Networking.Shutdown
import Rubix.Networking.SizeLimits
import Rubix.Networking.TrustRestart
import Rubix.Networking.UdpDiscovery
import Rubix.Networking.ReliableChannel
import Rubix.Persistence.PeerRepository
import Rubix.Persistence.AddPeer
import Rubix.Persistence.Migrations
import Rubix.Persistence.PeerReads
import Rubix.Persistence.RecipientIndex
import Rubix.Persistence.StoredMessages
import Rubix.Persistence.TrustedSet
import Rubix.Security.Binding
import Rubix.Security.BlobParser
import Rubix.Security.ConcurrentCreate
import Rubix.Security.DomainIdentity
import Rubix.Security.HonestHandshake
import Rubix.Security.NonceHistory
import Rubix.Security.PerHandshake
import Rubix.Security.Replay
import Rubix.Security.SharedCache
import Rubix.Security.StoreLifetime
import Rubix.Security.Tampering
