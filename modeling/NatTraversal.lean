import NatTraversal.Net
import NatTraversal.Punch.Handshake
import NatTraversal.Punch.Peer
import NatTraversal.Punch.Invariant
import NatTraversal.Punch.Soundness
import NatTraversal.Punch.Progress
import NatTraversal.Punch.Link
import NatTraversal.Punch.World
import NatTraversal.Punch.Stream
import NatTraversal.Punch.Meet
import NatTraversal.Punch.Network
import NatTraversal.Mapping.Echo
import NatTraversal.Mapping.Map
import NatTraversal.Mapping.Join
import NatTraversal.Rendezvous
import NatTraversal.Demo.UdpHolePunch
