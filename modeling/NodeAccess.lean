import NodeAccess.Foundation.Transition
import NodeAccess.Foundation.Table
import NodeAccess.Foundation.Slice
import NodeAccess.Foundation.Decimal
import NodeAccess.Foundation.FixedWindow
import NodeAccess.Relay.Peer
import NodeAccess.Foundation.Json
import NodeAccess.Relay.Session
import NodeAccess.Foundation.Channel
import NodeAccess.Relay.PeerQueue
import NodeAccess.Relay.SlowConsumer
import NodeAccess.Relay.Connection
import NodeAccess.Relay.Representation
import NodeAccess.Foundation.JsonText
import NodeAccess.Relay.Delivery
import NodeAccess.Relay.Routing
import NodeAccess.Relay.Eviction
import NodeAccess.Relay.Mute
import NodeAccess.Relay.ControlView
import NodeAccess.Relay.Registry
import NodeAccess.Relay.Noninterference
import NodeAccess.Relay.Tenancy
import NodeAccess.Crypto.FrameCrypto
import NodeAccess.Crypto.Nonce
import NodeAccess.Mux.Frame
import NodeAccess.Mux.Stream
import NodeAccess.Mux.ReadContract
import NodeAccess.Mux.Endpoint
import NodeAccess.Mux.StreamTable
import NodeAccess.Mux.TableConsistency
import NodeAccess.Mux.Invariant
import NodeAccess.Mux.Arrival
import NodeAccess.Mux.Loops
import NodeAccess.Mux.Pair
import NodeAccess.Mux.StreamIds
import NodeAccess.Mux.Messages
import NodeAccess.Mux.Ending
import NodeAccess.Mux.Interception
import NodeAccess.Mux.WireFormat
import NodeAccess.Relay.Forwarding
import NodeAccess.Access.System
import NodeAccess.Access.Isolation
import NodeAccess.Relay.LiveSockets
import NodeAccess.Relay.ControlReset
import NodeAccess.Relay.ResetIdentity
import NodeAccess.Relay.RunPeer
import NodeAccess.Relay.ExplicitClose
import NodeAccess.Serve.Mapping
import NodeAccess.Serve.Node
import NodeAccess.Serve.Ownership
import NodeAccess.Serve.Announcement
import NodeAccess.Serve.Provider
import NodeAccess.Serve.Reachability
import NodeAccess.Socks.ExactRead
import NodeAccess.Socks.Serve
import NodeAccess.Socks.Conformance
import NodeAccess.Relay.Admission
import NodeAccess.Relay.Config
import NodeAccess.Relay.Refusal
import NodeAccess.Relay.RateLimit
import NodeAccess.Serve.MappingText
import NodeAccess.Foundation.FormUrlencoded
import NodeAccess.Foundation.Url
import NodeAccess.Relay.Handler
import NodeAccess.Access.RelayWs
import NodeAccess.Mux.Handover
import NodeAccess.Mux.Payloads
import NodeAccess.Tunnel.Pipe
import NodeAccess.Tunnel.Carrying
import NodeAccess.Tunnel.Invariant
import NodeAccess.Tunnel.EndToEnd
import NodeAccess.Tunnel.Progress
import NodeAccess.Tunnel.Untouched
import NodeAccess.Tunnel.Apart
import NodeAccess.Nodes.Tasks
import NodeAccess.Nodes.Invariant
import NodeAccess.Nodes.Visits
import NodeAccess.Transit.Line
import NodeAccess.Transit.Relayed
import NodeAccess.Relay.Atomic
import NodeAccess.Relay.RoutingV1
import NodeAccess.Transit.Ahead
import NodeAccess.Transit.Deployed
import NodeAccess.Serve.ControlLoop
import NodeAccess.Tunnel.Told
import NodeAccess.Serve.Acknowledgement
import NodeAccess.Nodes.Answers
import NodeAccess.Nodes.Proxied
import NodeAccess.Transit.Services
