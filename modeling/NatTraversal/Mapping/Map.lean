import NatTraversal.Mapping.Echo

/-!
# `MappedTcpSocket::map`: the endpoints of a socket

`map` (lines 232-402 of `mapped_tcp_socket.rs`) collects the endpoints of a
bound socket in one list and its warnings in another. First the socket's own
addresses: for a socket bound to the unspecified address, one per local
interface of its family at its port, otherwise its own address. Each own IPv4
address whose interface has an IGD gateway (for a specified address, found by
interface or by `search_gateway_from_timeout`) is at once followed by the
external address the gateway maps for it, or a `GetExternalPort` warning. Then
one mapping thread per simple TCP server, joined in the order they were
spawned; each success is an endpoint with `nat_restricted` set, each failure a
warning.

`directEndpoints` is the first phase, written as the source's loops, with the
`get_any_address` requests kept as ghost data. `Blocks` says what that phase
is for: each own address, in order, followed by what its gateway request
brought, and each request one endpoint or one warning. The faithful model
refines it:

* `directEndpoints_blocks`: the direct phase is `Blocks` of `ownAddrs`, after
  the warning of a failed gateway search, and every request is answered as the
  gateways answer it;
* `map_eq_wOk`: `map` returns the direct phase followed by the successful
  mapping threads in server order, and their failures after its warnings;
* `map_unspecified_interleaves_igd`: with two interfaces of which the first has
  a gateway, the second interface's endpoint comes after the first gateway's
  external endpoint;
* `map_endpoints_blocks_then_echo`: what holds instead, for every context;
* `map_unrestricted_iff_own_addrs`: `map` finds an unrestricted endpoint
  exactly when the socket has an own address, so a socket bound to `::` on a
  host with IPv4 interfaces only gets none.
-/

set_option autoImplicit false

namespace NatTraversal.Mapping

/-! ## The mapping context and the IGD gateways -/

/-- `igd::Gateway`; its control URL is only read inside the igd crate. -/
structure Gateway where
  addr : SocketAddrV4
  deriving DecidableEq, Repr

/-- `igd::PortMappingProtocol`. -/
inductive PortMappingProtocol where
  | tcp
  | udp
  deriving DecidableEq, Repr

/-- Modelled from the spec: `mapping_context::InterfaceV4`, a local IPv4
interface and the IGD gateway found behind it, if any. -/
structure InterfaceV4 where
  addr : Ipv4Addr
  gateway : Option Gateway
  deriving DecidableEq, Repr

/-- Modelled from the spec: `mapping_context::InterfaceV6`. -/
structure InterfaceV6 where
  addr : Ipv6Addr
  deriving DecidableEq, Repr

/-- Modelled from the spec: the parts of a `MappingContext` that TCP mapping
reads, `interfaces_v4`, `interfaces_v6` and `simple_tcp_servers`. -/
structure MappingContext where
  interfacesV4 : List InterfaceV4
  interfacesV6 : List InterfaceV6
  simpleTcpServers : List SocketAddr
  deriving DecidableEq, Repr

/-- What the IGD gateways answer: `search_gateway_from_timeout` on an address
with a timeout in seconds, and the `n`-th `get_any_address` request of one
`map` call, with its arguments. -/
structure Igd where
  searchGatewayFromTimeout : Ipv4Addr → Nat → Except SearchError Gateway
  getAnyAddress : Nat → Gateway → PortMappingProtocol → SocketAddrV4 → Nat → String →
    Except AddAnyPortError SocketAddrV4

/-- The description `map` gives its port mappings. -/
def mappingDescription : String := "rust nat_traversal"

/-- A `get_any_address` request: the gateway asked, the internal address to
map, and the answer. -/
structure IgdRequest where
  gateway : Gateway
  localAddr : SocketAddrV4
  answer : Except AddAnyPortError SocketAddrV4
  deriving DecidableEq, Repr

/-- The `endpoints` and `warnings` vectors of `map`; `requests` is ghost: the
`get_any_address` requests made so far, in order. -/
structure Discovery where
  endpoints : List MappedSocketAddr
  warnings : List MappedTcpSocketMapWarning
  requests : List IgdRequest
  deriving DecidableEq, Repr

/-- Nothing found yet. -/
def Discovery.empty : Discovery := ⟨[], [], []⟩

/-- `endpoints.push(MappedSocketAddr { addr, nat_restricted: false })`. -/
def Discovery.push (d : Discovery) (addr : SocketAddr) : Discovery :=
  { d with endpoints := d.endpoints ++ [⟨addr, false⟩] }

/-- Lines 250-269 and 296-312: if there is a gateway, ask it to map
`localAddr`, and push the external address it returns or a `GetExternalPort`
warning. -/
def Discovery.askGateway (igd : Igd) (localAddr : SocketAddrV4) (d : Discovery) :
    Option Gateway → Discovery
  | none => d
  | some gateway =>
    let answer := igd.getAnyAddress d.requests.length gateway .tcp localAddr 0 mappingDescription
    let d : Discovery := { d with requests := d.requests ++ [⟨gateway, localAddr, answer⟩] }
    match answer with
    | .ok externalAddr => { d with endpoints := d.endpoints ++ [⟨.v4 externalAddr, false⟩] }
    | .error err => { d with warnings := d.warnings ++ [.getExternalPort gateway.addr err] }

/-- One turn of the loop over the IPv4 interfaces (lines 245-271). -/
def Discovery.visitInterfaceV4 (igd : Igd) (port : UInt16) (d : Discovery)
    (iface : InterfaceV4) : Discovery :=
  let localIfaceAddr : SocketAddrV4 := ⟨iface.addr, port⟩
  (d.push (.v4 localIfaceAddr)).askGateway igd localIfaceAddr iface.gateway

/-- Lines 278-294: the gateway of the first interface with the socket's
address; otherwise the one `search_gateway_from_timeout` finds, or none and the
warning of the failed search. -/
def gatewayFor (igd : Igd) (ifaces : List InterfaceV4) (ip : Ipv4Addr) :
    Option Gateway × List MappedTcpSocketMapWarning :=
  match (ifaces.find? (·.addr = ip)).map (·.gateway) with
  | some gatewayOpt => (gatewayOpt, [])
  | none =>
    match igd.searchGatewayFromTimeout ip 1 with
    | .ok gateway => (some gateway, [])
    | .error err => (none, [.findGateway err])

/-- Lines 238-344: the endpoints and warnings found before the mapping threads
are spawned. -/
def directEndpoints (igd : Igd) (mc : MappingContext) : SocketAddr → Discovery
  | .v4 a =>
    if a.ip.isUnspecified then
      mc.interfacesV4.foldl (Discovery.visitInterfaceV4 igd a.port) .empty
    else
      let localAddrV4 : SocketAddrV4 := ⟨a.ip, a.port⟩
      let d := Discovery.empty.push (.v4 localAddrV4)
      let found := gatewayFor igd mc.interfacesV4 a.ip
      { d with warnings := d.warnings ++ found.2 }.askGateway igd localAddrV4 found.1
  | .v6 a =>
    if a.ip.isUnspecified then
      mc.interfacesV6.foldl (fun d iface => d.push (.v6 ⟨iface.addr, a.port, 0, 0⟩)) .empty
    else Discovery.empty.push (.v6 ⟨a.ip, a.port, 0, 0⟩)

/-! ## The mapping threads and the result -/

/-- The results of the mapping threads, one per simple server in order; `io i`
is what the calls of the `i`-th thread are answered. -/
def mappingThreads (codec : EchoCodec) (localAddr : SocketAddr) (servers : List SocketAddr)
    (io : Nat → EchoIo) : List (Except MappedTcpSocketMapWarning SocketAddr) :=
  servers.mapIdx fun i simpleServer => mappingWorker codec localAddr simpleServer (io i)

/-- `results` holds one result per simple server, in server order: the `i`-th is
what the mapping thread for the `i`-th server returns, with the answers `io i`. -/
def ThreadResults (codec : EchoCodec) (localAddr : SocketAddr) (servers : List SocketAddr)
    (io : Nat → EchoIo) (results : List (Except MappedTcpSocketMapWarning SocketAddr)) : Prop :=
  ∀ i, results[i]? =
    servers[i]?.map fun simpleServer => mappingWorker codec localAddr simpleServer (io i)

/-- The threads `map` spawns give one result per server, in server order. -/
theorem mappingThreads_results (codec : EchoCodec) (localAddr : SocketAddr)
    (servers : List SocketAddr) (io : Nat → EchoIo) :
    ThreadResults codec localAddr servers io (mappingThreads codec localAddr servers io) :=
  fun _ => List.getElem?_mapIdx

/-- One turn of the join loop (lines 385-397). -/
def Discovery.joinOne (d : Discovery) : Except MappedTcpSocketMapWarning SocketAddr → Discovery
  | .ok externalAddr => { d with endpoints := d.endpoints ++ [⟨externalAddr, true⟩] }
  | .error e => { d with warnings := d.warnings ++ [e] }

/-- `MappedTcpSocketMapError`. -/
inductive MappedTcpSocketMapError where
  | socketLocalAddr (err : IoError)
  deriving DecidableEq, Repr

/-- `MappedTcpSocket`. -/
structure MappedTcpSocket where
  socket : TcpBuilder
  endpoints : List MappedSocketAddr
  deriving DecidableEq

/-- `MappedTcpSocket::map`. -/
def MappedTcpSocket.map (codec : EchoCodec) (igd : Igd) (io : Nat → EchoIo) (socket : TcpBuilder)
    (mc : MappingContext) :
    WResult MappedTcpSocket MappedTcpSocketMapWarning MappedTcpSocketMapError :=
  match socket.localAddr with
  | .error e => .wErr (.socketLocalAddr e)
  | .ok localAddr =>
    let d := (mappingThreads codec localAddr mc.simpleTcpServers io).foldl Discovery.joinOne
      (directEndpoints igd mc localAddr)
    .wOk ⟨socket, d.endpoints⟩ d.warnings

/-- `MappedTcpSocketNewError`. -/
inductive MappedTcpSocketNewError where
  | createSocket (err : IoError)
  | enableReuseAddr (err : IoError)
  | enableReusePort (err : IoError)
  | bind (err : IoError)
  | map (err : MappedTcpSocketMapError)
  deriving DecidableEq, Repr

/-- `MappedTcpSocket::new`: an IPv4 socket with both reuse flags, bound to
`0.0.0.0:0`, then mapped; `localAddr` is the address the socket then reports. -/
def MappedTcpSocket.new (codec : EchoCodec) (igd : Igd) (io : Nat → EchoIo) (mc : MappingContext)
    (calls : ReuseCalls) (localAddr : Except IoError SocketAddr) :
    WResult MappedTcpSocket MappedTcpSocketMapWarning MappedTcpSocketNewError :=
  match calls.create with
  | .error e => .wErr (.createSocket e)
  | .ok () =>
    match calls.reuseAddress with
    | .error e => .wErr (.enableReuseAddr e)
    | .ok () =>
      match calls.enableSoReuseport with
      | .error e => .wErr (.enableReusePort e)
      | .ok () =>
        match calls.bind with
        | .error e => .wErr (.bind e)
        | .ok () => (MappedTcpSocket.map codec igd io ⟨.v4, localAddr⟩ mc).mapErr .map

/-! ## What the direct phase finds -/

/-- The socket's own addresses, each with the gateway `map` asks to map it: one
per interface of the socket's family, at the socket's port, when the socket is
bound to the unspecified address, and the socket's address otherwise. -/
def ownAddrs (igd : Igd) (mc : MappingContext) : SocketAddr → List (SocketAddr × Option Gateway)
  | .v4 a =>
    if a.ip.isUnspecified then
      mc.interfacesV4.map fun iface => (.v4 ⟨iface.addr, a.port⟩, iface.gateway)
    else [(.v4 ⟨a.ip, a.port⟩, (gatewayFor igd mc.interfacesV4 a.ip).1)]
  | .v6 a =>
    if a.ip.isUnspecified then
      mc.interfacesV6.map fun iface => (.v6 ⟨iface.addr, a.port, 0, 0⟩, none)
    else [(.v6 ⟨a.ip, a.port, 0, 0⟩, none)]

/-- The warning of a failed gateway search: the one warning of the direct
phase that is not about a `get_any_address` request. -/
def searchWarnings (igd : Igd) (mc : MappingContext) : SocketAddr → List MappedTcpSocketMapWarning
  | .v4 a => if a.ip.isUnspecified then [] else (gatewayFor igd mc.interfacesV4 a.ip).2
  | .v6 _ => []

/-- `Blocks owns requests eps ws`: the own addresses `owns`, each with the
gateway it is mapped through, give the endpoints `eps` and the warnings `ws`
when the `get_any_address` requests are `requests`. Each own address is
followed by the external address its request returned; each request gives one
endpoint or one `GetExternalPort` warning. -/
inductive Blocks : List (SocketAddr × Option Gateway) → List IgdRequest →
    List MappedSocketAddr → List MappedTcpSocketMapWarning → Prop
  | nil : Blocks [] [] [] []
  | unmapped {own : SocketAddr} {owns requests eps ws} :
      Blocks owns requests eps ws → Blocks ((own, none) :: owns) requests (⟨own, false⟩ :: eps) ws
  | mapped {own : SocketAddrV4} {gateway : Gateway} {externalAddr : SocketAddrV4}
      {owns requests eps ws} :
      Blocks owns requests eps ws →
      Blocks ((.v4 own, some gateway) :: owns) (⟨gateway, own, .ok externalAddr⟩ :: requests)
        (⟨.v4 own, false⟩ :: ⟨.v4 externalAddr, false⟩ :: eps) ws
  | refused {own : SocketAddrV4} {gateway : Gateway} {err : AddAnyPortError}
      {owns requests eps ws} :
      Blocks owns requests eps ws →
      Blocks ((.v4 own, some gateway) :: owns) (⟨gateway, own, .error err⟩ :: requests)
        (⟨.v4 own, false⟩ :: eps) (.getExternalPort gateway.addr err :: ws)

theorem Blocks.append {o₁ o₂ : List (SocketAddr × Option Gateway)} {r₁ r₂ : List IgdRequest}
    {e₁ e₂ : List MappedSocketAddr} {w₁ w₂ : List MappedTcpSocketMapWarning}
    (h₁ : Blocks o₁ r₁ e₁ w₁) (h₂ : Blocks o₂ r₂ e₂ w₂) :
    Blocks (o₁ ++ o₂) (r₁ ++ r₂) (e₁ ++ e₂) (w₁ ++ w₂) := by
  induction h₁ with
  | nil => exact h₂
  | unmapped _ ih => exact .unmapped ih
  | mapped _ ih => exact .mapped ih
  | refused _ ih => exact .refused ih

/-- The direct phase finds no endpoint that only an echo server can reach. -/
theorem Blocks.not_restricted {owns : List (SocketAddr × Option Gateway)}
    {requests : List IgdRequest} {eps : List MappedSocketAddr}
    {ws : List MappedTcpSocketMapWarning} (h : Blocks owns requests eps ws) :
    ∀ e ∈ eps, e.natRestricted = false := by
  induction h with
  | nil => simp
  | unmapped _ ih => simpa using ih
  | mapped _ ih => simpa using ih
  | refused _ ih => simpa using ih

/-- The direct phase finds an endpoint exactly when the socket has an own
address. -/
theorem Blocks.eps_eq_nil_iff {owns : List (SocketAddr × Option Gateway)}
    {requests : List IgdRequest} {eps : List MappedSocketAddr}
    {ws : List MappedTcpSocketMapWarning} (h : Blocks owns requests eps ws) :
    eps = [] ↔ owns = [] := by
  cases h <;> simp

theorem Blocks.nil_inv {requests : List IgdRequest} {eps : List MappedSocketAddr}
    {ws : List MappedTcpSocketMapWarning} (h : Blocks [] requests eps ws) :
    requests = [] ∧ eps = [] ∧ ws = [] := by
  cases h; exact ⟨rfl, rfl, rfl⟩

/-- `d'` is `d` with the blocks of `owns` added. -/
def Discovery.Extends (owns : List (SocketAddr × Option Gateway)) (d d' : Discovery) : Prop :=
  ∃ requests eps ws, Blocks owns requests eps ws ∧
    d' = ⟨d.endpoints ++ eps, d.warnings ++ ws, d.requests ++ requests⟩

theorem Discovery.Extends.refl (d : Discovery) : d.Extends [] d :=
  ⟨[], [], [], .nil, by simp⟩

theorem Discovery.Extends.trans {o₁ o₂ : List (SocketAddr × Option Gateway)}
    {d d' d'' : Discovery} (h₁ : d.Extends o₁ d') (h₂ : d'.Extends o₂ d'') :
    d.Extends (o₁ ++ o₂) d'' := by
  obtain ⟨r₁, e₁, w₁, hb₁, rfl⟩ := h₁
  obtain ⟨r₂, e₂, w₂, hb₂, rfl⟩ := h₂
  exact ⟨_, _, _, hb₁.append hb₂, by simp⟩

theorem Discovery.push_extends (d : Discovery) (own : SocketAddr) :
    d.Extends [(own, none)] (d.push own) :=
  ⟨[], [⟨own, false⟩], [], .unmapped .nil, by simp [Discovery.push]⟩

/-- Pushing an own IPv4 address and asking its gateway adds one block. -/
theorem Discovery.askGateway_extends (igd : Igd) (d : Discovery) (own : SocketAddrV4)
    (gateway : Option Gateway) :
    d.Extends [(.v4 own, gateway)] ((d.push (.v4 own)).askGateway igd own gateway) := by
  cases gateway with
  | none => exact d.push_extends _
  | some gateway =>
    simp only [Discovery.askGateway, Discovery.push]
    split
    next externalAddr h => exact ⟨[⟨gateway, own, .ok externalAddr⟩], _, [], .mapped .nil, by simp [h]⟩
    next err h => exact ⟨[⟨gateway, own, .error err⟩], _, _, .refused .nil, by simp [h]⟩

theorem Discovery.foldl_visitInterfaceV4_extends (igd : Igd) (port : UInt16)
    (ifaces : List InterfaceV4) (d : Discovery) :
    d.Extends (ifaces.map fun iface => (.v4 ⟨iface.addr, port⟩, iface.gateway))
      (ifaces.foldl (Discovery.visitInterfaceV4 igd port) d) := by
  induction ifaces generalizing d with
  | nil => exact .refl d
  | cons iface ifaces ih =>
    exact (d.askGateway_extends igd ⟨iface.addr, port⟩ iface.gateway).trans (ih _)

theorem Discovery.foldl_push_v6_extends (port : UInt16) (ifaces : List InterfaceV6)
    (d : Discovery) :
    d.Extends (ifaces.map fun iface => (.v6 ⟨iface.addr, port, 0, 0⟩, none))
      (ifaces.foldl (fun d iface => d.push (.v6 ⟨iface.addr, port, 0, 0⟩)) d) := by
  induction ifaces generalizing d with
  | nil => exact .refl d
  | cons iface ifaces ih => exact (d.push_extends _).trans (ih _)

/-- The direct phase is the blocks of the socket's own addresses, after the
warning of a failed gateway search. -/
theorem directEndpoints_extends (igd : Igd) (mc : MappingContext) (localAddr : SocketAddr) :
    Discovery.Extends (ownAddrs igd mc localAddr) ⟨[], searchWarnings igd mc localAddr, []⟩
      (directEndpoints igd mc localAddr) := by
  cases localAddr with
  | v4 a =>
    by_cases ha : a.ip.isUnspecified
    · simpa [directEndpoints, ownAddrs, searchWarnings, ha] using
        Discovery.foldl_visitInterfaceV4_extends igd a.port mc.interfacesV4 .empty
    · simpa [directEndpoints, ownAddrs, searchWarnings, ha] using
        Discovery.askGateway_extends igd ⟨[], (gatewayFor igd mc.interfacesV4 a.ip).2, []⟩
          ⟨a.ip, a.port⟩ (gatewayFor igd mc.interfacesV4 a.ip).1
  | v6 a =>
    by_cases ha : a.ip.isUnspecified
    · simpa [directEndpoints, ownAddrs, searchWarnings, ha] using
        Discovery.foldl_push_v6_extends a.port mc.interfacesV6 .empty
    · simpa [directEndpoints, ownAddrs, searchWarnings, ha] using
        Discovery.push_extends .empty (.v6 ⟨a.ip, a.port, 0, 0⟩)

/-! ## The requests are answered by the gateways -/

/-- The `i`-th recorded request got the gateways' answer to the `i`-th request. -/
def RequestsAnswered (igd : Igd) (requests : List IgdRequest) : Prop :=
  ∀ i r, requests[i]? = some r →
    r.answer = igd.getAnyAddress i r.gateway .tcp r.localAddr 0 mappingDescription

theorem Discovery.askGateway_answered (igd : Igd) (d : Discovery) (own : SocketAddrV4)
    (gateway : Option Gateway) (h : RequestsAnswered igd d.requests) :
    RequestsAnswered igd (d.askGateway igd own gateway).requests := by
  cases gateway with
  | none => exact h
  | some gateway =>
    have hreq : (d.askGateway igd own (some gateway)).requests = d.requests ++
        [⟨gateway, own, igd.getAnyAddress d.requests.length gateway .tcp own 0 mappingDescription⟩] := by
      simp only [Discovery.askGateway]; split <;> rfl
    intro i r hr
    rw [hreq] at hr
    by_cases hi : i < d.requests.length
    · rw [List.getElem?_append_left hi] at hr
      exact h i r hr
    · obtain rfl : i = d.requests.length := by
        have := (List.getElem?_eq_some_iff.mp hr).1
        simp only [List.length_append, List.length_singleton] at this
        omega
      simp only [List.getElem?_append_right (Nat.le_refl _), Nat.sub_self, List.getElem?_cons_zero,
        Option.some.injEq] at hr
      subst hr; rfl

theorem Discovery.foldl_visitInterfaceV4_answered (igd : Igd) (port : UInt16)
    (ifaces : List InterfaceV4) (d : Discovery) (h : RequestsAnswered igd d.requests) :
    RequestsAnswered igd (ifaces.foldl (Discovery.visitInterfaceV4 igd port) d).requests := by
  induction ifaces generalizing d with
  | nil => exact h
  | cons iface ifaces ih => exact ih _ (Discovery.askGateway_answered igd _ _ _ h)

theorem Discovery.foldl_push_requests (port : UInt16) (ifaces : List InterfaceV6) (d : Discovery) :
    (ifaces.foldl (fun d iface => d.push (.v6 ⟨iface.addr, port, 0, 0⟩)) d).requests =
      d.requests := by
  induction ifaces generalizing d with
  | nil => rfl
  | cons iface ifaces ih => exact ih _

theorem directEndpoints_answered (igd : Igd) (mc : MappingContext) (localAddr : SocketAddr) :
    RequestsAnswered igd (directEndpoints igd mc localAddr).requests := by
  have hnil : RequestsAnswered igd [] := by simp [RequestsAnswered]
  cases localAddr with
  | v4 a =>
    by_cases ha : a.ip.isUnspecified
    · simpa [directEndpoints, ha] using
        Discovery.foldl_visitInterfaceV4_answered igd a.port mc.interfacesV4 .empty hnil
    · simpa [directEndpoints, ha] using Discovery.askGateway_answered igd
        ⟨[⟨.v4 ⟨a.ip, a.port⟩, false⟩], (gatewayFor igd mc.interfacesV4 a.ip).2, []⟩
        ⟨a.ip, a.port⟩ (gatewayFor igd mc.interfacesV4 a.ip).1 hnil
  | v6 a =>
    by_cases ha : a.ip.isUnspecified
    · simpa [directEndpoints, ha, Discovery.foldl_push_requests] using hnil
    · simpa [directEndpoints, ha] using hnil

/-! ## The result of `map` -/

/-- The endpoints the mapping threads add: the address each successful thread
returned, in server order. -/
def echoEndpoints (results : List (Except MappedTcpSocketMapWarning SocketAddr)) :
    List MappedSocketAddr :=
  results.filterMap fun
    | .ok externalAddr => some ⟨externalAddr, true⟩
    | .error _ => none

/-- The warnings the mapping threads add: each failed thread's, in server order. -/
def echoWarnings (results : List (Except MappedTcpSocketMapWarning SocketAddr)) :
    List MappedTcpSocketMapWarning :=
  results.filterMap fun
    | .ok _ => none
    | .error e => some e

theorem echoEndpoints_restricted (results : List (Except MappedTcpSocketMapWarning SocketAddr)) :
    ∀ e ∈ echoEndpoints results, e.natRestricted = true := by
  intro e he
  obtain ⟨r, -, hr⟩ := List.mem_filterMap.mp he
  cases r <;> simp at hr
  exact hr ▸ rfl

/-- A socket without own addresses is bound to the unspecified address, and its
direct phase searches for no gateway. -/
theorem searchWarnings_of_ownAddrs_eq_nil {igd : Igd} {mc : MappingContext}
    {localAddr : SocketAddr} (h : ownAddrs igd mc localAddr = []) :
    searchWarnings igd mc localAddr = [] := by
  cases localAddr with
  | v4 a => by_cases ha : a.ip.isUnspecified <;> simp_all [ownAddrs, searchWarnings]
  | v6 a => rfl

theorem Discovery.foldl_joinOne (results : List (Except MappedTcpSocketMapWarning SocketAddr))
    (d : Discovery) :
    results.foldl Discovery.joinOne d =
      ⟨d.endpoints ++ echoEndpoints results, d.warnings ++ echoWarnings results, d.requests⟩ := by
  induction results generalizing d with
  | nil => simp [echoEndpoints, echoWarnings]
  | cons r results ih =>
    cases r <;> simp [ih, Discovery.joinOne, echoEndpoints, echoWarnings]

/-- Once the socket's address is known, `map` succeeds with the direct phase's
endpoints followed by the successful threads' addresses, and the direct phase's
warnings followed by the failed threads' warnings. -/
theorem map_eq_wOk (codec : EchoCodec) (igd : Igd) (io : Nat → EchoIo) (socket : TcpBuilder)
    (mc : MappingContext) {localAddr : SocketAddr} (h : socket.localAddr = .ok localAddr) :
    MappedTcpSocket.map codec igd io socket mc =
      .wOk ⟨socket, (directEndpoints igd mc localAddr).endpoints ++
          echoEndpoints (mappingThreads codec localAddr mc.simpleTcpServers io)⟩
        ((directEndpoints igd mc localAddr).warnings ++
          echoWarnings (mappingThreads codec localAddr mc.simpleTcpServers io)) := by
  simp [MappedTcpSocket.map, h, Discovery.foldl_joinOne]

/-! ## Interface endpoints and IGD endpoints interleave -/

/-- The unspecified IPv4 address at the port the examples' socket is bound to. -/
def unspecifiedAddr : SocketAddr := .v4 ⟨⟨⟨[0, 0, 0, 0], rfl⟩⟩, 40000⟩

/-- The examples' first interface, and the gateway behind it. -/
def lanInterface : InterfaceV4 :=
  ⟨⟨⟨[192, 168, 1, 10], rfl⟩⟩, some ⟨⟨⟨⟨[192, 168, 1, 1], rfl⟩⟩, 1900⟩⟩⟩

/-- The examples' second interface, with no gateway. -/
def vpnInterface : InterfaceV4 := ⟨⟨⟨[10, 8, 0, 2], rfl⟩⟩, none⟩

/-- The external address the examples' gateway maps. -/
def gatewayMappedAddr : SocketAddrV4 := ⟨⟨⟨[198, 51, 100, 20], rfl⟩⟩, 50000⟩

/-- Gateways that map every request to `gatewayMappedAddr`; no search succeeds. -/
def mappingIgd : Igd := ⟨fun _ _ => .error ⟨0⟩, fun _ _ _ _ _ _ => .ok gatewayMappedAddr⟩

/-- The examples' context: the two interfaces and no echo server. -/
def twoInterfaces : MappingContext := ⟨[lanInterface, vpnInterface], [], []⟩

/-- The answers of the mapping threads of the examples' socket (it has none). -/
def noEchoIo : Nat → EchoIo := fun _ => ⟨.allOk, .ok (), .ok 4, .ok []⟩

/-- `MappedTcpSocket::new` binds to `0.0.0.0`; with two interfaces of which the
first has a gateway that maps the port, the second interface's endpoint comes
after the endpoint the first gateway mapped. -/
theorem map_unspecified_interleaves_igd :
    MappedTcpSocket.new compactCodec mappingIgd noEchoIo twoInterfaces .allOk (.ok unspecifiedAddr) =
      .wOk ⟨⟨.v4, .ok unspecifiedAddr⟩,
        [⟨.v4 ⟨lanInterface.addr, 40000⟩, false⟩, ⟨.v4 gatewayMappedAddr, false⟩,
          ⟨.v4 ⟨vpnInterface.addr, 40000⟩, false⟩]⟩ [] := by
  decide

/-- For every context, `map` lists the blocks of the socket's own addresses,
each own address followed by the external address its gateway mapped for it,
each request answered as the gateways answer it, and after them the addresses
the mapping threads of the simple servers returned, in server order. -/
theorem map_endpoints_blocks_then_echo (codec : EchoCodec) (igd : Igd) (io : Nat → EchoIo)
    (socket : TcpBuilder) (mc : MappingContext) {localAddr : SocketAddr}
    (h : socket.localAddr = .ok localAddr) :
    ∃ requests eps ws results, Blocks (ownAddrs igd mc localAddr) requests eps ws ∧
      RequestsAnswered igd requests ∧
      ThreadResults codec localAddr mc.simpleTcpServers io results ∧ ∃ warnings,
        MappedTcpSocket.map codec igd io socket mc = .wOk ⟨socket, eps ++ echoEndpoints results⟩
          warnings := by
  obtain ⟨requests, eps, ws, hb, hd⟩ := directEndpoints_extends igd mc localAddr
  have hans := directEndpoints_answered igd mc localAddr
  rw [hd] at hans
  refine ⟨requests, eps, ws, _, hb, by simpa using hans, mappingThreads_results codec localAddr
    mc.simpleTcpServers io, searchWarnings igd mc localAddr ++ ws ++
    echoWarnings (mappingThreads codec localAddr mc.simpleTcpServers io), ?_⟩
  simp [map_eq_wOk codec igd io socket mc h, hd]

theorem map_endpoints_blocks_then_echo_two_interfaces :
    (⟨.v4, .ok unspecifiedAddr⟩ : TcpBuilder).localAddr = .ok unspecifiedAddr ∧
    ∃ requests eps ws results,
      Blocks (ownAddrs mappingIgd twoInterfaces unspecifiedAddr) requests eps ws ∧
      RequestsAnswered mappingIgd requests ∧
      ThreadResults compactCodec unspecifiedAddr twoInterfaces.simpleTcpServers noEchoIo results ∧
      ∃ warnings, MappedTcpSocket.map compactCodec mappingIgd noEchoIo ⟨.v4, .ok unspecifiedAddr⟩
        twoInterfaces = .wOk ⟨⟨.v4, .ok unspecifiedAddr⟩, eps ++ echoEndpoints results⟩ warnings :=
  ⟨rfl, map_endpoints_blocks_then_echo compactCodec mappingIgd noEchoIo _ twoInterfaces rfl⟩

/-- `map` finds an endpoint that is not restricted to one echo server exactly
when the socket has an own address: it is bound to a specified address, or
there is an interface of its family. Without one, `map` returns only what the
mapping threads found. -/
theorem map_unrestricted_iff_own_addrs (codec : EchoCodec) (igd : Igd) (io : Nat → EchoIo)
    (socket : TcpBuilder) (mc : MappingContext) {localAddr : SocketAddr}
    (h : socket.localAddr = .ok localAddr) :
    ∃ m ws, MappedTcpSocket.map codec igd io socket mc = .wOk m ws ∧
      ((∃ e ∈ m.endpoints, e.natRestricted = false) ↔ ownAddrs igd mc localAddr ≠ []) ∧
      (ownAddrs igd mc localAddr = [] →
        m.endpoints = echoEndpoints (mappingThreads codec localAddr mc.simpleTcpServers io) ∧
        ws = echoWarnings (mappingThreads codec localAddr mc.simpleTcpServers io)) := by
  obtain ⟨requests, eps, ws, hb, hd⟩ := directEndpoints_extends igd mc localAddr
  refine ⟨_, _, map_eq_wOk codec igd io socket mc h, ?_, fun hnil => ?_⟩
  · simp only [hd, List.nil_append, List.mem_append, ne_eq, ← hb.eps_eq_nil_iff]
    constructor
    · rintro ⟨e, he | he, hr⟩ rfl
      · simp at he
      · simp [echoEndpoints_restricted _ e he] at hr
    · intro hne
      obtain ⟨e, he⟩ := List.exists_mem_of_ne_nil eps hne
      exact ⟨e, .inl he, hb.not_restricted e he⟩
  · rw [hnil] at hb
    obtain ⟨-, rfl, rfl⟩ := hb.nil_inv
    simp [hd, searchWarnings_of_ownAddrs_eq_nil hnil]

theorem map_unrestricted_iff_own_addrs_two_interfaces :
    (⟨.v4, .ok unspecifiedAddr⟩ : TcpBuilder).localAddr = .ok unspecifiedAddr ∧
    ∃ m ws, MappedTcpSocket.map compactCodec mappingIgd noEchoIo ⟨.v4, .ok unspecifiedAddr⟩
        twoInterfaces = .wOk m ws ∧
      ((∃ e ∈ m.endpoints, e.natRestricted = false) ↔
        ownAddrs mappingIgd twoInterfaces unspecifiedAddr ≠ []) ∧
      (ownAddrs mappingIgd twoInterfaces unspecifiedAddr = [] →
        m.endpoints = echoEndpoints
          (mappingThreads compactCodec unspecifiedAddr twoInterfaces.simpleTcpServers noEchoIo) ∧
        ws = echoWarnings
          (mappingThreads compactCodec unspecifiedAddr twoInterfaces.simpleTcpServers noEchoIo)) :=
  ⟨rfl, map_unrestricted_iff_own_addrs compactCodec mappingIgd noEchoIo _ twoInterfaces rfl⟩

end NatTraversal.Mapping
