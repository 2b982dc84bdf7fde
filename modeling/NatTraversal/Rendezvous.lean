import NatTraversal.Mapping.Join
import NatTraversal.Punch.Network

/-!
# From a mapped socket to a punched connection

The two engines of `nat_traversal` run one after the other. Each host creates a
socket with `MappedTcpSocket::new`, which binds it and maps it; builds its
rendezvous info from the endpoints found with `gen_rendezvous_info`; sends the
public half to the peer; and calls `tcp_punch_hole` with the mapped socket, its
private half and the peer's public half (`MappedTcpSocket.punchCall`).

* `MappedTcpSocket.new_eq_wOk`: the socket `new` returns reports its address,
  and its endpoints are those `map` found at that address;
* `mapped_sockets_can_meet`: when B's socket is bound to an IPv4 address of its
  host, or to the unspecified address on a host whose context lists its IPv4
  interfaces, some run of the two calls on the network returns `WOk` on both
  sides, with the two ends of one connection from A's socket to B's first
  endpoint. This holds whatever the gateways and echo servers of either host
  answer.
-/

set_option autoImplicit false

namespace NatTraversal

open Mapping Punch

/-- Modelled from the spec: the `tcp_punch_hole` call of a host that mapped `m`.
It passes the socket, the private half of the rendezvous info that
`gen_rendezvous_info` made from `m`'s endpoints with `secret`, and the peer's
public half. -/
def Mapping.MappedTcpSocket.punchCall (m : MappedTcpSocket) (secret : Bytes4)
    (theirs : PubRendezvousInfo) : Call :=
  ⟨m.socket, (genRendezvousInfo m.endpoints secret).1, theirs⟩

/-! ## What `new` returns -/

theorem Mapping.MappedTcpSocket.new_eq_wOk {codec : EchoCodec} {igd : Igd} {io : Nat → EchoIo}
    {mc : MappingContext} {calls : ReuseCalls} {localAddr : Except IoError SocketAddr}
    {m : MappedTcpSocket} {ws : List MappedTcpSocketMapWarning}
    (h : MappedTcpSocket.new codec igd io mc calls localAddr = .wOk m ws) :
    ∃ a, localAddr = .ok a ∧ m.socket = ⟨.v4, localAddr⟩ ∧
      m.endpoints = (directEndpoints igd mc a).endpoints ++
        echoEndpoints (mappingThreads codec a mc.simpleTcpServers io) := by
  simp only [MappedTcpSocket.new] at h
  repeat' split at h
  all_goals try cases h
  cases localAddr with
  | error e => cases h
  | ok a =>
    rw [map_eq_wOk codec igd io _ mc rfl] at h
    cases h
    exact ⟨a, rfl, rfl, rfl⟩

/-- The socket's own addresses come first in the endpoints of `map`. -/
theorem directEndpoints_ne_nil {igd : Igd} {mc : MappingContext} {localAddr : SocketAddr}
    (h : ownAddrs igd mc localAddr ≠ []) :
    (directEndpoints igd mc localAddr).endpoints ≠ [] := by
  obtain ⟨requests, eps, ws, hb, hd⟩ := directEndpoints_extends igd mc localAddr
  rw [hd]
  simpa only [List.nil_append, ne_eq, hb.eps_eq_nil_iff] using h

/-- The first endpoint the direct phase finds is the socket's first own address. -/
theorem Mapping.Blocks.eps_head {own : SocketAddr} {g : Option Gateway}
    {owns : List (SocketAddr × Option Gateway)} {requests : List IgdRequest}
    {eps : List MappedSocketAddr} {ws : List MappedTcpSocketMapWarning}
    (h : Blocks ((own, g) :: owns) requests eps ws) : ∃ rest, eps = ⟨own, false⟩ :: rest := by
  cases h <;> exact ⟨_, rfl⟩

/-- A socket bound to an IPv4 address of its host, or to the unspecified address
on a host whose context lists only the host's interfaces, is reached at each of
its own addresses. -/
theorem ownAddrs_mem_socketAddrs (igd : Igd) {mc : MappingContext} {h : Host}
    {b : SocketAddrV4} (hb : b.ip.isUnspecified ∨ b.ip ∈ h.v4)
    (hif : ∀ iface ∈ mc.interfacesV4, iface.addr ∈ h.v4) :
    ∀ x ∈ ownAddrs igd mc (.v4 b), x.1 ∈ h.socketAddrs (.v4 b) := by
  intro x hx
  by_cases hu : b.ip.isUnspecified
  · simp only [ownAddrs, hu, if_true, List.mem_map] at hx
    obtain ⟨iface, hi, rfl⟩ := hx
    simp only [Host.socketAddrs, hu, if_true, List.mem_map]
    exact ⟨iface.addr, hif iface hi, rfl⟩
  · simp only [ownAddrs, hu, Bool.false_eq_true, if_false, List.mem_singleton] at hx
    simp only [hx, Host.socketAddrs, hu, Bool.false_eq_true, if_false, hb.resolve_left hu,
      if_true, List.mem_singleton]

/-- A socket with an IPv4 address on a host with an IPv4 interface has an own
address. -/
theorem ownAddrs_v4_ne_nil (igd : Igd) {mc : MappingContext} (b : SocketAddrV4)
    (h : mc.interfacesV4 ≠ []) : ownAddrs igd mc (.v4 b) ≠ [] := by
  simp only [ownAddrs]
  split <;> simp [h]

/-! ## Mapping, then punching -/

/-- Two hosts map their sockets with `MappedTcpSocket::new`, exchange the public
halves of their rendezvous infos and call `tcp_punch_hole`, on a network
without address translation. Let B's socket be bound to an IPv4 address of B's
host, or to the unspecified address with B's context listing an IPv4 interface
and only interfaces of B's host, and let `src` be an address of A's socket on
A's host. Then some run of the two calls on the network returns `WOk` on both
sides without warnings. A returns the stream of its first connector and B the
stream it accepted, and these are the two ends of the one connection, from
`src` to an address of B's socket. This holds whatever the gateways and echo
servers of either host answer. -/
theorem mapped_sockets_can_meet (codec : EchoCodec) {net : Network} {igdA igdB : Igd}
    {ioA ioB : Nat → EchoIo} {mcA mcB : MappingContext} {callsA callsB : ReuseCalls}
    {a src : SocketAddr} {b : SocketAddrV4} {mA mB : MappedTcpSocket}
    {wsA wsB : List MappedTcpSocketMapWarning}
    (hA : MappedTcpSocket.new codec igdA ioA mcA callsA (.ok a) = .wOk mA wsA)
    (hB : MappedTcpSocket.new codec igdB ioB mcB callsB (.ok (.v4 b)) = .wOk mB wsB)
    (hsrc : src ∈ net.hostA.socketAddrs a) (hb : b.ip.isUnspecified ∨ b.ip ∈ net.hostB.v4)
    (hif : mcB.interfacesV4 ≠ [])
    (hhost : ∀ iface ∈ mcB.interfacesV4, iface.addr ∈ net.hostB.v4)
    (secretA secretB : Bytes4) :
    ∃ nw, NetWorldReachable net (mA.punchCall secretA (genRendezvousInfo mB.endpoints secretB).2)
        (mB.punchCall secretB (genRendezvousInfo mA.endpoints secretA).2) nw ∧
      nw.world.a.main = .returned (.wOk 0 []) ∧
      nw.world.b.main = .returned (.wOk mA.endpoints.length []) ∧
      nw.world.conns = [⟨some 0, some mA.endpoints.length, [], []⟩] ∧
      ∃ dst ∈ net.hostB.socketAddrs (.v4 b), nw.addrs = [(src, dst)] := by
  obtain ⟨_, ⟨⟩, hsA, -⟩ := MappedTcpSocket.new_eq_wOk hA
  obtain ⟨_, ⟨⟩, hsB, hepsB⟩ := MappedTcpSocket.new_eq_wOk hB
  obtain ⟨requests, eps, ws, hblocks, hd⟩ := directEndpoints_extends igdB mcB (.v4 b)
  obtain ⟨⟨own, g⟩, owns, hown⟩ :=
    List.exists_cons_of_ne_nil (ownAddrs_v4_ne_nil igdB b hif)
  rw [hown] at hblocks
  obtain ⟨rest, rfl⟩ := hblocks.eps_head
  have hends : mB.endpoints = ⟨own, false⟩ :: (rest ++ echoEndpoints
      (mappingThreads codec (.v4 b) mcB.simpleTcpServers ioB)) := by
    rw [hepsB, hd]; rfl
  have hdst : own ∈ net.hostB.socketAddrs (.v4 b) :=
    ownAddrs_mem_socketAddrs igdB hb hhost (own, g) (hown ▸ List.mem_cons_self _ _)
  obtain ⟨nw, hrun, hnw⟩ := Option.map_eq_some'.mp <| @NetWorld.run_meetMoves net
    (mA.punchCall secretA (genRendezvousInfo mB.endpoints secretB).2)
    (mB.punchCall secretB (genRendezvousInfo mA.endpoints secretA).2) _ _ _ _ src
    (by rw [MappedTcpSocket.punchCall, hsA]) (by rw [MappedTcpSocket.punchCall, hsB]) rfl rfl
    hends hsrc hdst
  simp only [Prod.mk.injEq] at hnw
  obtain ⟨h1, h2, h3, h4⟩ := hnw
  exact ⟨nw, NetWorldReachable.run net _ _ .init hrun, h1, h2, h3, own, hdst, h4⟩

/-- Host B of the example below: the two interfaces of `Mapping.twoInterfaces`. -/
def twoInterfaceHost : Host := ⟨[lanInterface.addr, vpnInterface.addr], []⟩

/-- Host A, with the one interface `192.0.2.1`, and host B with two interfaces. -/
def rendezvousNetwork : Network := ⟨exampleHostA, twoInterfaceHost, by decide, by decide⟩

/-- Host A's context: its one interface, with no gateway, and no echo server. -/
def singleInterface : MappingContext := ⟨[⟨⟨⟨[192, 0, 2, 1], rfl⟩⟩, none⟩], [], []⟩

/-- The socket `new` returns on host A: bound to `0.0.0.0:40000`, with the
address of its one interface. -/
def singleInterfaceSocket : MappedTcpSocket :=
  ⟨⟨.v4, .ok unspecifiedAddr⟩, [⟨hostAAddr, false⟩]⟩

/-- The socket `new` returns on the two-interface host of `Mapping.twoInterfaces`:
bound to `0.0.0.0:40000`, with the first interface's address, the address its
gateway mapped, and the second interface's address. -/
def twoInterfaceSocket : MappedTcpSocket :=
  ⟨⟨.v4, .ok unspecifiedAddr⟩, [⟨.v4 ⟨lanInterface.addr, 40000⟩, false⟩,
    ⟨.v4 gatewayMappedAddr, false⟩, ⟨.v4 ⟨vpnInterface.addr, 40000⟩, false⟩]⟩

theorem mapped_sockets_can_meet_two_interfaces :
    MappedTcpSocket.new compactCodec mappingIgd noEchoIo singleInterface .allOk
        (.ok unspecifiedAddr) = .wOk singleInterfaceSocket [] ∧
    MappedTcpSocket.new compactCodec mappingIgd noEchoIo twoInterfaces .allOk
        (.ok (.v4 ⟨⟨⟨[0, 0, 0, 0], rfl⟩⟩, 40000⟩)) = .wOk twoInterfaceSocket [] ∧
    hostAAddr ∈ rendezvousNetwork.hostA.socketAddrs unspecifiedAddr ∧
    ((⟨⟨[0, 0, 0, 0], rfl⟩⟩ : Ipv4Addr).isUnspecified ∨
      (⟨⟨[0, 0, 0, 0], rfl⟩⟩ : Ipv4Addr) ∈ rendezvousNetwork.hostB.v4) ∧
    twoInterfaces.interfacesV4 ≠ [] ∧
    (∀ iface ∈ twoInterfaces.interfacesV4, iface.addr ∈ rendezvousNetwork.hostB.v4) ∧
    ∃ nw, NetWorldReachable rendezvousNetwork
        (singleInterfaceSocket.punchCall ourExampleSecret
          (genRendezvousInfo twoInterfaceSocket.endpoints theirExampleSecret).2)
        (twoInterfaceSocket.punchCall theirExampleSecret
          (genRendezvousInfo singleInterfaceSocket.endpoints ourExampleSecret).2) nw ∧
      nw.world.a.main = .returned (.wOk 0 []) ∧
      nw.world.b.main = .returned (.wOk singleInterfaceSocket.endpoints.length []) ∧
      nw.world.conns = [⟨some 0, some singleInterfaceSocket.endpoints.length, [], []⟩] ∧
      ∃ dst ∈
          rendezvousNetwork.hostB.socketAddrs (.v4 ⟨⟨⟨[0, 0, 0, 0], rfl⟩⟩, 40000⟩),
        nw.addrs = [(hostAAddr, dst)] := by
  have hnewA : MappedTcpSocket.new compactCodec mappingIgd noEchoIo singleInterface .allOk
      (.ok unspecifiedAddr) = .wOk singleInterfaceSocket [] := by decide
  have hnewB : MappedTcpSocket.new compactCodec mappingIgd noEchoIo twoInterfaces .allOk
      (.ok (.v4 ⟨⟨⟨[0, 0, 0, 0], rfl⟩⟩, 40000⟩)) = .wOk twoInterfaceSocket [] := by
    decide
  have hsrc : hostAAddr ∈ rendezvousNetwork.hostA.socketAddrs unspecifiedAddr := by decide
  have hb : (⟨⟨[0, 0, 0, 0], rfl⟩⟩ : Ipv4Addr).isUnspecified ∨
      (⟨⟨[0, 0, 0, 0], rfl⟩⟩ : Ipv4Addr) ∈ rendezvousNetwork.hostB.v4 := by decide
  have hhost :
      ∀ iface ∈ twoInterfaces.interfacesV4, iface.addr ∈ rendezvousNetwork.hostB.v4 := by
    decide
  exact ⟨hnewA, hnewB, hsrc, hb, by decide, hhost,
    mapped_sockets_can_meet compactCodec hnewA hnewB hsrc hb (by decide) hhost _ _⟩

end NatTraversal
