import Yip.Crypto.Opening
import Yip.Crypto.Promotion
import Yip.Crypto.Sealing
import Yip.Transport.Accounting
import Yip.Transport.ControlCodec
import Yip.Transport.Decode
import Yip.Transport.MixedSizes
import Yip.Transport.Resolved
import Yip.Transport.Retention
import Yip.Transport.Rlnc
import Yip.Transport.RsSimd
import Yip.Transport.Storage
import Yip.PathMtu
import Yip.SplitTunnel
import Yip.Io.Coalescer
import Yip.Io.Gso
import Yip.Io.Nonce
import Yip.ObfEgress
import Yip.Ca.Assignment
import Yip.Ca.Availability
import Yip.Ca.Blame
import Yip.Ca.Nonces
import Yip.Members.Convergence
import Yip.Members.Trust
import Yip.Rdv.Front
import Yip.Rdv.Punch
import Yip.Rdv.RateLimit
import Yip.Rdv.Refresh
import Yip.Rdv.RelayClient
import Yip.Reality.Connect
import Yip.Reality.ReplayGuard
import Yip.Canonical
import Yip.CertSweep
import Yip.PeerManager.Agreement
import Yip.PeerManager.Revival
import Yip.PeerManager.Roaming
import Yip.PeerManager.ScheduledEgress
import Yip.Sharding.Affinity
import Yip.Sharding.Duplicates
import Yip.SymbolSize
import Yip.TlsPump
