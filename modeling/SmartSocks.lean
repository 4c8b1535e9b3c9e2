import SmartSocks.Library.Machine
import SmartSocks.Library.Transducer
import SmartSocks.Jvm.ByteBuffer
import SmartSocks.Crypto.CryptBase
import SmartSocks.Utils.EasyValue
import SmartSocks.Tunnel.Socks5Tunnel
import SmartSocks.Crypto.Segmentation
import SmartSocks.Http.HttpHeaderParser
import SmartSocks.Http.SniBounds
import SmartSocks.Dns.ReadDomain
import SmartSocks.Library.Chain
import SmartSocks.Dns.Compression
import SmartSocks.TcpIp.Checksum
import SmartSocks.TcpIp.IPPacket
import SmartSocks.Dns.DNSPacket
import SmartSocks.Dns.Queries
import SmartSocks.Sslocal.UDPProxyServer
import SmartSocks.Sslocal.Answers
import SmartSocks.TcpIp.Process
import SmartSocks.Sslocal.Sessions
import SmartSocks.Http.SniEnds
import SmartSocks.Dns.Accepts
import SmartSocks.TcpIp.Survival
import SmartSocks.Sslocal.TCPProxyServer
import SmartSocks.Tunnel.Handlers
import SmartSocks.Tunnel.Wired
import SmartSocks.Sslocal.SelectorRuns
import SmartSocks.Sslocal.SelectorSurvival
import SmartSocks.Sslocal.Isolation
import SmartSocks.Sslocal.StreamIntegrity
import SmartSocks.Sslocal.FlowControl
import SmartSocks.Sslocal.Teardown
import SmartSocks.Library.OnesComplement
import SmartSocks.TcpIp.ValidPackets
import SmartSocks.Ssvpn.VpnThread
import SmartSocks.Dns.Overflow
import SmartSocks.Ssvpn.Shutdown
import SmartSocks.Jvm.JString
import SmartSocks.Rtc.RtcSignalling
import SmartSocks.Jvm.OrgJson
import SmartSocks.Library.Pool
import SmartSocks.Rtc.RtcAgent
import SmartSocks.Rtc.RtcAgentContainer
import SmartSocks.Rtc.Ownership
import SmartSocks.Rtc.RtcEngine
import SmartSocks.Jvm.JsonText
import SmartSocks.Rtc.Harmless
import SmartSocks.Rtc.PeerMap
import SmartSocks.Jvm.Utf8
import SmartSocks.Library.IteratedHash
import SmartSocks.Crypto.ShadowSocksKey
import SmartSocks.Ssserver.CryptoDeriveKey
import SmartSocks.Sslocal.AnswerPackets
import SmartSocks.TcpIp.ForwardedQueries
import SmartSocks.Crypto.SingleIV
import SmartSocks.Sslocal.Encryption
import SmartSocks.Ssserver.RelayHeader
import SmartSocks.Jvm.JsonStrings
import SmartSocks.Jvm.JsonObjects
import SmartSocks.Rtc.PeerObserver
import SmartSocks.Dns.WellFormed
import SmartSocks.Dns.NameDecoding
import SmartSocks.Sslocal.QueryAnswers
import SmartSocks.Sslocal.GenuineAnswers
import SmartSocks.Dns.Encoding
import SmartSocks.Dns.RoundTrip
import SmartSocks.Http.ClientHello
import SmartSocks.Http.SniAnswers
import SmartSocks.Utils.Decoding
import SmartSocks.Utils.Splitting
import SmartSocks.Http.Request
import SmartSocks.Http.HostAnswers
import SmartSocks.TcpIp.ChecksumLaw
import SmartSocks.Dns.Extents
import SmartSocks.TcpIp.SessionRecords
import SmartSocks.Rtc.LiveConnections
import SmartSocks.Rtc.IceServers
import SmartSocks.Rtc.SendDataChannel
import SmartSocks.Library.View
import SmartSocks.App.PeerListAdapter
import SmartSocks.Ssserver.StopSignal
import SmartSocks.Library.Trace
import SmartSocks.Library.Base64
import SmartSocks.Ssserver.CryptoInit
import SmartSocks.Ssserver.ServerOptions
import SmartSocks.Ssserver.SSProxyServer
import SmartSocks.Ssserver.SameKey
import SmartSocks.Ssserver.Startup
import SmartSocks.Ssserver.TcpRelay
import SmartSocks.Ssserver.RelayPhases
import SmartSocks.Ssserver.RelayCallbacks
import SmartSocks.Ssserver.RelayRuns
import SmartSocks.Crypto.AeadStream
import SmartSocks.Crypto.StreamEnds
import SmartSocks.Crypto.Screening
import SmartSocks.Crypto.Datagrams
import SmartSocks.Ssserver.RelayEnds
import SmartSocks.Ssserver.RelayStreams
import SmartSocks.Ssserver.RelayReplay
import SmartSocks.Library.Lru
import SmartSocks.Ssserver.UdpRelay
import SmartSocks.Ssserver.UdpRuns
import SmartSocks.Ssserver.UdpTraffic
