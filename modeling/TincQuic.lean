import TincQuic.Lib.PtrTree
import TincQuic.Lib.PtrList
import TincQuic.Splay.Model
import TincQuic.Splay.BottomUp
import TincQuic.Splay.Operations
import TincQuic.Splay.Refinement
import TincQuic.Http3.Frames
import TincQuic.Http3.Stream
import TincQuic.Lib.CText
import TincQuic.Protocol.Rejection
import TincQuic.Daemon.Authority
import TincQuic.Daemon.ConnIndex
import TincQuic.Daemon.Indexes
import TincQuic.Daemon.Links
import TincQuic.Invite.Authorisation
import TincQuic.Network.Tiebreak
import TincQuic.Daemon.Lookup
import TincQuic.Daemon.LookupCache
import TincQuic.Daemon.SubnetTables
import TincQuic.Quic.Datagram
import TincQuic.Daemon.ShortestPaths
import TincQuic.Quic.Buffers
import TincQuic.Quic.Contexts
import TincQuic.Lib.Flooding
import TincQuic.Daemon.Reaching
import TincQuic.Daemon.SpanningTree
import TincQuic.Network.Broadcast
import TincQuic.Invite.Url
import TincQuic.Daemon.Codec
import TincQuic.Daemon.Dispatch
import TincQuic.Daemon.Holders
import TincQuic.Daemon.LongestPrefix
import TincQuic.Daemon.MinimalTree
import TincQuic.Daemon.NextHops
import TincQuic.Daemon.Pointers
import TincQuic.Daemon.PurgeExact
import TincQuic.Invite.HostsJson
import TincQuic.Network.AddressCache
import TincQuic.Network.Info
import TincQuic.Network.Outgoing
import TincQuic.Network.Route
import TincQuic.Quic.Padding
import TincQuic.Lib.Varint
import TincQuic.Http3.Parsing
import TincQuic.Invite.Allocation
import TincQuic.Invite.HostNames
import TincQuic.Protocol.Buffer
import TincQuic.Quic.PaddedPackets
import TincQuic.Daemon.SubnetNumbers
import TincQuic.Network.TimeToLive
import TincQuic.Network.Fragments
import TincQuic.Network.IcmpErrors
import TincQuic.Network.ClampMss
import TincQuic.Daemon.Timers
import TincQuic.Network.RecentAddresses
import TincQuic.Conf.ParseLine
import TincQuic.Invite.Pem
import TincQuic.Conf.Enumeration
import TincQuic.Conf.Reload
import TincQuic.Network.Autoconnect
import TincQuic.Network.AutoconnectRuns
import TincQuic.Conf.Edits
import TincQuic.Invite.Tokens
import TincQuic.Daemon.Duplicates
import TincQuic.Network.Keepalive
import TincQuic.Network.Admission
import TincQuic.Daemon.EventLoop
import TincQuic.Daemon.LinkedList
import TincQuic.Conf.Exchange
