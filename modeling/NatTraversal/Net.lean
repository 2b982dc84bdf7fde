import Mathlib.Data.List.Basic

/-!
# Addresses, I/O errors and warnable results

The data that both engines of `nat_traversal` pass around: socket addresses
(`std::net` and `socket_addr::SocketAddr`), the `io::Error` values the socket
calls return, the discovered endpoints `MappedSocketAddr`, the 4-byte secrets
of the rendezvous info, and the `WResult` of `w_result`, which carries the
warnings of a successful call next to its value.

`newReusablyBoundSocket` is the socket factory of `mapped_tcp_socket.rs`: four
calls, each of which can fail, checked in the source's order. Its error names
the call that failed (`newReusablyBoundSocket_eq_ok_iff`).

The rendezvous-info and socket-utility helpers the source imports are not in
the repository; the few of them the engines use are modelled from the spec.
-/

set_option autoImplicit false

namespace NatTraversal

/-- Decidable equality of `Except`, so that states holding call outcomes can be
compared by `decide`. -/
instance instDecidableEqExcept {ε α : Type} [DecidableEq ε] [DecidableEq α] :
    DecidableEq (Except ε α)
  | .ok a, .ok b => decidable_of_iff (a = b) (by simp)
  | .error a, .error b => decidable_of_iff (a = b) (by simp)
  | .ok _, .error _ => isFalse (by simp)
  | .error _, .ok _ => isFalse (by simp)

/-- `[u8; n]`. -/
structure Octets (n : Nat) where
  toList : List UInt8
  length_toList : toList.length = n
  deriving DecidableEq, Repr

theorem Octets.ext_toList {n : Nat} {a b : Octets n} (h : a.toList = b.toList) : a = b := by
  cases a
  cases b
  cases h
  rfl

theorem Octets.exists_toList_eq_cons {n : Nat} (x : Octets (n + 1)) :
    ∃ b bs, x.toList = b :: bs ∧ bs.length = n := by
  obtain ⟨_ | ⟨b, bs⟩, h⟩ := x
  · cases h
  · exact ⟨b, bs, rfl, Nat.succ.inj h⟩

/-- A `[u8; 4]`: the rendezvous secret and the handshake buffer. -/
abbrev Bytes4 := Octets 4

/-- An IPv4 address, as its four octets. -/
structure Ipv4Addr where
  octets : Octets 4
  deriving DecidableEq, Repr

/-- An IPv6 address, as its sixteen octets. -/
structure Ipv6Addr where
  octets : Octets 16
  deriving DecidableEq, Repr

/-- `net::SocketAddrV4`. -/
structure SocketAddrV4 where
  ip : Ipv4Addr
  port : UInt16
  deriving DecidableEq, Repr

/-- `net::SocketAddrV6`, built by the source with flow info and scope id `0`. -/
structure SocketAddrV6 where
  ip : Ipv6Addr
  port : UInt16
  flowinfo : UInt32
  scopeId : UInt32
  deriving DecidableEq, Repr

/-- `net::SocketAddr`; `socket_addr::SocketAddr` is a newtype around it. -/
inductive SocketAddr where
  | v4 (a : SocketAddrV4)
  | v6 (a : SocketAddrV6)
  deriving DecidableEq, Repr

/-- `SocketAddr::port`. -/
def SocketAddr.port : SocketAddr → UInt16
  | .v4 a => a.port
  | .v6 a => a.port

/-- Modelled from the spec: `socket_utils::ipv4_is_unspecified`, true of
`0.0.0.0`. -/
def Ipv4Addr.isUnspecified (a : Ipv4Addr) : Bool := a.octets.toList.all (· == 0)

/-- Modelled from the spec: `socket_utils::ipv6_is_unspecified`, true of `::`. -/
def Ipv6Addr.isUnspecified (a : Ipv6Addr) : Bool := a.octets.toList.all (· == 0)

/-- The kinds of `io::Error` that `write_all` and `read_exact` tell apart; every
other error is `other` with its OS code. -/
inductive IoErrorKind where
  | interrupted
  | writeZero
  | unexpectedEof
  | other (code : Nat)
  deriving DecidableEq, Repr

/-- `io::Error`. -/
structure IoError where
  kind : IoErrorKind
  deriving DecidableEq, Repr

/-- `MappedSocketAddr`: an endpoint, and whether it was learnt from an echo
server and so may be reachable only from that server. -/
structure MappedSocketAddr where
  addr : SocketAddr
  natRestricted : Bool
  deriving DecidableEq, Repr

/-- `w_result::WResult`: a value with its warnings, or an error. -/
inductive WResult (T W E : Type) where
  | wOk (t : T) (ws : List W)
  | wErr (e : E)
  deriving DecidableEq, Repr

/-- `WResult::map_err`. -/
def WResult.mapErr {T W E F : Type} (f : E → F) : WResult T W E → WResult T W F
  | .wOk t ws => .wOk t ws
  | .wErr e => .wErr (f e)

/-- Modelled from the spec: `PrivRendezvousInfo`, the half of the rendezvous
info that is kept locally. -/
structure PrivRendezvousInfo where
  secret : Bytes4
  deriving DecidableEq, Repr

/-- Modelled from the spec: `PubRendezvousInfo`, the half sent to the peer. -/
structure PubRendezvousInfo where
  endpoints : List MappedSocketAddr
  secret : Bytes4
  deriving DecidableEq, Repr

/-- Modelled from the spec: `gen_rendezvous_info`, both halves from one
endpoint list and one secret (the secret is drawn at random by the source). -/
def genRendezvousInfo (endpoints : List MappedSocketAddr) (secret : Bytes4) :
    PrivRendezvousInfo × PubRendezvousInfo :=
  (⟨secret⟩, ⟨endpoints, secret⟩)

/-- Modelled from the spec: `rendezvous_info::get_priv_secret`. -/
def getPrivSecret (info : PrivRendezvousInfo) : Bytes4 := info.secret

/-- Modelled from the spec: `rendezvous_info::decompose`. -/
def decompose (info : PubRendezvousInfo) : List MappedSocketAddr × Bytes4 :=
  (info.endpoints, info.secret)

theorem decompose_genRendezvousInfo (endpoints : List MappedSocketAddr) (secret : Bytes4) :
    decompose (genRendezvousInfo endpoints secret).2 = (endpoints, secret) ∧
      getPrivSecret (genRendezvousInfo endpoints secret).1 = secret := ⟨rfl, rfl⟩

/-! ## The reusable socket factory -/

/-- The address family of a socket: `TcpBuilder::new_v4` or `new_v6`. -/
inductive IpFamily where
  | v4
  | v6
  deriving DecidableEq, Repr

/-- `SocketAddrExt::ip`, down to the family the factory reads from it. -/
def SocketAddr.family : SocketAddr → IpFamily
  | .v4 _ => .v4
  | .v6 _ => .v6

/-- A `net2::TcpBuilder`, as far as the modelled code reads it: its family and
the answer `socket_utils::tcp_builder_local_addr` gives for it. -/
structure TcpBuilder where
  family : IpFamily
  localAddr : Except IoError SocketAddr
  deriving DecidableEq

/-- `NewReusablyBoundSocketError`. -/
inductive NewReusablyBoundSocketError where
  | create (err : IoError)
  | enableReuseAddr (err : IoError)
  | enableReusePort (err : IoError)
  | bind (err : IoError)
  deriving DecidableEq, Repr

/-- What the operating system answers to the four calls of
`new_reusably_bound_socket`: creating the socket, `reuse_address(true)`,
`socket_utils::enable_so_reuseport` and `bind`. -/
structure ReuseCalls where
  create : Except IoError Unit
  reuseAddress : Except IoError Unit
  enableSoReuseport : Except IoError Unit
  bind : Except IoError Unit
  deriving DecidableEq

/-- The answers under which every call of the factory succeeds. -/
def ReuseCalls.allOk : ReuseCalls := ⟨.ok (), .ok (), .ok (), .ok ()⟩

/-- `new_reusably_bound_socket`: a socket of `localAddr`'s family with both
reuse flags set, bound to `localAddr`; the first failing call is the error. -/
def newReusablyBoundSocket (localAddr : SocketAddr) (calls : ReuseCalls) :
    Except NewReusablyBoundSocketError TcpBuilder :=
  match calls.create with
  | .error e => .error (.create e)
  | .ok () =>
    match calls.reuseAddress with
    | .error e => .error (.enableReuseAddr e)
    | .ok () =>
      match calls.enableSoReuseport with
      | .error e => .error (.enableReusePort e)
      | .ok () =>
        match calls.bind with
        | .error e => .error (.bind e)
        | .ok () => .ok ⟨localAddr.family, .ok localAddr⟩

/-- The factory succeeds exactly when all four calls do, and the socket it
returns is bound to the address it was given. -/
theorem newReusablyBoundSocket_eq_ok_iff (localAddr : SocketAddr) (calls : ReuseCalls)
    (b : TcpBuilder) :
    newReusablyBoundSocket localAddr calls = .ok b ↔
      calls = .allOk ∧ b = ⟨localAddr.family, .ok localAddr⟩ := by
  obtain ⟨c, r, p, d⟩ := calls
  cases c <;> cases r <;> cases p <;> cases d <;>
    simp [newReusablyBoundSocket, ReuseCalls.allOk, eq_comm]

/-- With every call answered `Ok`, the factory returns a socket bound to the
address it was given. -/
theorem newReusablyBoundSocket_allOk (localAddr : SocketAddr) :
    newReusablyBoundSocket localAddr .allOk = .ok ⟨localAddr.family, .ok localAddr⟩ := rfl

end NatTraversal
