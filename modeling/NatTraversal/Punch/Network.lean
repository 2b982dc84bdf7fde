import NatTraversal.Punch.Meet

/-!
# The two calls on a network

`World` lets a connector reach the other peer's listener whatever address it
dials, so the results proved over it hold of more runs than a network allows.
`NetWorld` is the same world on a network without address translation, where
each connection carries its address pair: A's address first, then B's. A
connector connects only from an address of its own socket, only to an address
at which the other peer's socket is reached, and only while that peer's
listener is open. Two connectors dialing each other's sockets open one
connection together. No two connections share an address pair. The addresses
of a socket are those of its host (`Host.socketAddrs`), and the two hosts share
no address (`Network`).

* `NetWorld.step_world` and `NetWorldReachable.world`: every addressed move is a
  move of the world, so every result proved over `World` holds of every run
  on a network;
* `NetInv.reachable`: in every run, the connections and their address pairs
  correspond one to one, no two connections share an address pair, and each
  pair is an address of A's socket and one of B's;
* `punch_hole_peers_can_meet`: two honest calls meet when A's first endpoint
  for B is an address of B's socket;
* `punch_hole_peers_disagree`: A dials two addresses of B's host, both
  handshakes succeed on both connections, and the calls return ends of
  different connections.
-/

set_option autoImplicit false

namespace NatTraversal.Punch

/-! ## Hosts and networks -/

/-- The addresses of a host's interfaces. -/
structure Host where
  v4 : List Ipv4Addr
  v6 : List Ipv6Addr
  deriving DecidableEq, Repr

/-- The addresses of a socket bound to `a` on the host `h`: for an
unspecified address, every interface of its family at its port; otherwise the
address itself, when it is one of the host's. -/
def Host.socketAddrs (h : Host) : SocketAddr → List SocketAddr
  | .v4 a =>
    if a.ip.isUnspecified then h.v4.map fun ip => .v4 ⟨ip, a.port⟩
    else if a.ip ∈ h.v4 then [.v4 a] else []
  | .v6 a =>
    if a.ip.isUnspecified then h.v6.map fun ip => .v6 ⟨ip, a.port, 0, 0⟩
    else if a.ip ∈ h.v6 then [.v6 a] else []

/-- A network without address translation between the hosts of A and B: no
interface address belongs to both. -/
structure Network where
  hostA : Host
  hostB : Host
  disjoint_v4 : ∀ ip ∈ hostA.v4, ip ∉ hostB.v4
  disjoint_v6 : ∀ ip ∈ hostA.v6, ip ∉ hostB.v6

/-- The addresses of a call's socket on the host `h`; none when the socket
reports no address. -/
def Call.socketAddrs (c : Call) (h : Host) : List SocketAddr :=
  match c.socket.localAddr with
  | .ok a => h.socketAddrs a
  | .error _ => []

/-- The address a worker is connecting to, if it is in `connect`. -/
def Worker.dialing (w : Worker) : Option SocketAddr :=
  match w.stage with
  | .connecting addr => some addr
  | _ => none

/-- The call's listener is open: it has listened, and its acceptor has not
stopped. -/
def Peer.listenerOpen (p : Peer) : Bool :=
  match p.acceptor with
  | .accepting | .reporting _ _ => true
  | _ => false

/-! ## Addressed runs -/

/-- A move that opens a connection. -/
def Move.opensConn : Move → Bool
  | .dial _ | .simOpen _ _ => true
  | _ => false

/-- A move of either peer that opens a connection. -/
def WorldMove.opensConn : WorldMove → Bool
  | .a m | .b m => m.opensConn

/-- The world, and the address pair of each of its connections, A's first. -/
structure NetWorld where
  world : World
  addrs : List (SocketAddr × SocketAddr)
  deriving DecidableEq, Repr

/-- Both calls made, no connection yet. -/
def NetWorld.init : NetWorld := ⟨.init, []⟩

/-- A move on the network. -/
inductive NetMove where
  /-- A move of the world that opens no connection. -/
  | move (m : WorldMove)
  /-- A's `i`-th worker connects from `src` to B's listener. -/
  | dialA (i : Nat) (src : SocketAddr)
  /-- B's `j`-th worker connects from `src` to A's listener. -/
  | dialB (j : Nat) (src : SocketAddr)
  /-- A's `i`-th worker and B's `j`-th worker, each dialing the other's
  address, open one connection together. -/
  | simOpen (i j : Nat)
  deriving DecidableEq

section Step

variable (net : Network) (cA cB : Call)

/-- One move on the network; `none` where the network does not allow it. -/
def NetWorld.step (nw : NetWorld) : NetMove → Option NetWorld
  | .move m =>
    if m.opensConn then none else (nw.world.step cA cB m).map fun w => ⟨w, nw.addrs⟩
  | .dialA i src =>
    match (nw.world.a.workers[i]?).bind Worker.dialing with
    | some dst =>
      if src ∈ cA.socketAddrs net.hostA ∧ dst ∈ cB.socketAddrs net.hostB ∧
          nw.world.b.listenerOpen ∧ (src, dst) ∉ nw.addrs then
        (nw.world.step cA cB (.a (.dial i))).map fun w => ⟨w, nw.addrs ++ [(src, dst)]⟩
      else none
    | none => none
  | .dialB j src =>
    match (nw.world.b.workers[j]?).bind Worker.dialing with
    | some dst =>
      if src ∈ cB.socketAddrs net.hostB ∧ dst ∈ cA.socketAddrs net.hostA ∧
          nw.world.a.listenerOpen ∧ (dst, src) ∉ nw.addrs then
        (nw.world.step cA cB (.b (.dial j))).map fun w => ⟨w, nw.addrs ++ [(dst, src)]⟩
      else none
    | none => none
  | .simOpen i j =>
    match (nw.world.a.workers[i]?).bind Worker.dialing,
        (nw.world.b.workers[j]?).bind Worker.dialing with
    | some dstA, some dstB =>
      if dstB ∈ cA.socketAddrs net.hostA ∧ dstA ∈ cB.socketAddrs net.hostB ∧
          (dstB, dstA) ∉ nw.addrs then
        (nw.world.step cA cB (.a (.simOpen i j))).map fun w => ⟨w, nw.addrs ++ [(dstB, dstA)]⟩
      else none
    | _, _ => none

/-- The addressed worlds some run of the two calls reaches on the network. -/
inductive NetWorldReachable : NetWorld → Prop
  | init : NetWorldReachable .init
  | step {nw nw' : NetWorld} (m : NetMove) :
      NetWorldReachable nw → nw.step net cA cB m = some nw' → NetWorldReachable nw'

/-- The moves `ms` made one after the other; `none` when one cannot be made. -/
def NetWorld.run : NetWorld → List NetMove → Option NetWorld
  | nw, [] => some nw
  | nw, m :: ms => (nw.step net cA cB m).bind fun nw' => nw'.run ms

/-- The world's move that an addressed move makes. -/
def NetMove.toWorld : NetMove → WorldMove
  | .move m => m
  | .dialA i _ => .a (.dial i)
  | .dialB j _ => .b (.dial j)
  | .simOpen i j => .a (.simOpen i j)

/-- Every addressed move is the world's move, with the address pairs of the
connections it opens. -/
theorem NetWorld.step_world {nw nw' : NetWorld} {m : NetMove}
    (h : nw.step net cA cB m = some nw') :
    nw.world.step cA cB m.toWorld = some nw'.world ∧
      (nw'.addrs = nw.addrs ∧ m.toWorld.opensConn = false ∨
        ∃ p, nw'.addrs = nw.addrs ++ [p] ∧ m.toWorld.opensConn = true ∧
          p.1 ∈ cA.socketAddrs net.hostA ∧ p.2 ∈ cB.socketAddrs net.hostB ∧
          p ∉ nw.addrs) := by
  cases m with
  | move m =>
    simp only [NetWorld.step] at h
    split_ifs at h with ho
    obtain ⟨w, hw, rfl⟩ := Option.map_eq_some'.mp h
    exact ⟨hw, .inl ⟨rfl, by simpa using ho⟩⟩
  | dialA i src =>
    simp only [NetWorld.step] at h
    split at h
    · split_ifs at h with hg
      obtain ⟨w, hw, rfl⟩ := Option.map_eq_some'.mp h
      exact ⟨hw, .inr ⟨_, rfl, rfl, hg.1, hg.2.1, hg.2.2.2⟩⟩
    · cases h
  | dialB j src =>
    simp only [NetWorld.step] at h
    split at h
    · split_ifs at h with hg
      obtain ⟨w, hw, rfl⟩ := Option.map_eq_some'.mp h
      exact ⟨hw, .inr ⟨_, rfl, rfl, hg.2.1, hg.1, hg.2.2.2⟩⟩
    · cases h
  | simOpen i j =>
    simp only [NetWorld.step] at h
    split at h
    · split_ifs at h with hg
      obtain ⟨w, hw, rfl⟩ := Option.map_eq_some'.mp h
      exact ⟨hw, .inr ⟨_, rfl, rfl, hg.1, hg.2.1, hg.2.2⟩⟩
    · cases h

/-- Every run on the network is a run of the world. -/
theorem NetWorldReachable.world {nw : NetWorld} (h : NetWorldReachable net cA cB nw) :
    WorldReachable cA cB nw.world := by
  induction h with
  | init => exact .init
  | step m _ hs ih => exact .step _ ih (NetWorld.step_world net cA cB hs).1

theorem NetWorldReachable.run :
    ∀ {nw nw' : NetWorld} {ms : List NetMove}, NetWorldReachable net cA cB nw →
      nw.run net cA cB ms = some nw' → NetWorldReachable net cA cB nw'
  | nw, nw', [], hw, h => by cases h; exact hw
  | nw, nw', m :: ms, hw, h => by
    obtain ⟨nw'', hs, h⟩ := Option.bind_eq_some.mp h
    exact NetWorldReachable.run (.step m hw hs) h

/-- A run from the start that ends in a world satisfying `P`, evaluated by
`decide`, shows a reachable world satisfying `P`. -/
theorem netWorldReachable_of_run {ms : List NetMove} {P : NetWorld → Bool}
    (h : (NetWorld.init.run net cA cB ms).map P = some true) :
    ∃ nw, NetWorldReachable net cA cB nw ∧ P nw = true := by
  obtain ⟨nw, hr, hP⟩ := Option.map_eq_some'.mp h
  exact ⟨nw, NetWorldReachable.run net cA cB .init hr, hP⟩

theorem NetWorld.run_append_of_eq {nw nw' : NetWorld} {ms : List NetMove}
    (h : nw.run net cA cB ms = some nw') (ms' : List NetMove) :
    nw.run net cA cB (ms ++ ms') = nw'.run net cA cB ms' := by
  induction ms generalizing nw with
  | nil => cases h; rfl
  | cons m ms ih =>
    obtain ⟨nw'', hs, h⟩ := Option.bind_eq_some.mp h
    rw [List.cons_append, NetWorld.run, hs, Option.some_bind, ih h]

/-- Moves that open no connection are made on the network as in the world. -/
theorem NetWorld.run_moves :
    ∀ {nw : NetWorld} {ms : List WorldMove} {w' : World}, (∀ m ∈ ms, m.opensConn = false) →
      nw.world.run cA cB ms = some w' →
      nw.run net cA cB (ms.map .move) = some ⟨w', nw.addrs⟩
  | _, [], _, _, h => by cases h; rfl
  | nw, m :: ms, w', ho, h => by
    obtain ⟨w₁, hs, h⟩ := Option.bind_eq_some.mp h
    have ih := @NetWorld.run_moves ⟨w₁, nw.addrs⟩ ms w' (fun x hx => ho x (.tail _ hx)) h
    simpa only [List.map_cons, NetWorld.run, NetWorld.step, ho m (.head _), Bool.false_eq_true,
      if_false, hs, Option.map_some', Option.some_bind] using ih

/-- A's worker connects to B's listener when the network lets it. -/
theorem NetWorld.step_dialA {nw : NetWorld} {i : Nat} {wk : Worker} {src dst : SocketAddr}
    (hi : nw.world.a.workers[i]? = some wk) (hd : wk.dialing = some dst)
    (hsrc : src ∈ cA.socketAddrs net.hostA) (hdst : dst ∈ cB.socketAddrs net.hostB)
    (hl : nw.world.b.listenerOpen = true) (hfresh : (src, dst) ∉ nw.addrs) :
    nw.step net cA cB (.dialA i src) =
      (nw.world.step cA cB (.a (.dial i))).map fun w => ⟨w, nw.addrs ++ [(src, dst)]⟩ := by
  simp only [NetWorld.step, hi, Option.some_bind, hd]
  rw [if_pos ⟨hsrc, hdst, hl, hfresh⟩]

end Step

/-! ## The network's invariant -/

/-- What every addressed run keeps: one address pair per connection, no two
connections on one pair, and each pair an address of A's socket and one of
B's. -/
structure NetInv (net : Network) (cA cB : Call) (nw : NetWorld) : Prop where
  length_eq : nw.addrs.length = nw.world.conns.length
  nodup : nw.addrs.Nodup
  mem : ∀ p ∈ nw.addrs, p.1 ∈ cA.socketAddrs net.hostA ∧ p.2 ∈ cB.socketAddrs net.hostB

theorem World.stepA_conns_length {cA cB : Call} {w w' : World} {m : Move}
    (h : w.stepA cA cB m = some w') :
    w'.conns.length = w.conns.length + if m.opensConn then 1 else 0 := by
  cases m with
  | thread act =>
    simp only [World.stepA] at h
    split_ifs at h
    obtain ⟨a, -, rfl⟩ := Option.map_eq_some'.mp h
    rfl
  | dial i =>
    simp only [World.stepA] at h
    split at h
    · obtain ⟨a, -, rfl⟩ := Option.map_eq_some'.mp h
      simp [Move.opensConn]
    · cases h
  | simOpen i j =>
    simp only [World.stepA] at h
    repeat' split at h
    all_goals cases h
    simp [Move.opensConn]
  | accept k =>
    simp only [World.stepA] at h
    split at h
    · split_ifs at h <;> obtain ⟨a, -, rfl⟩ := Option.map_eq_some'.mp h <;>
        simp [Move.opensConn]
    · cases h
  | write i k n =>
    simp only [World.stepA] at h
    repeat' split at h
    all_goals try cases h
    obtain ⟨a, -, rfl⟩ := Option.map_eq_some'.mp h
    simp [Move.opensConn]
  | read i k n =>
    simp only [World.stepA] at h
    repeat' split at h
    all_goals try cases h
    obtain ⟨a, -, rfl⟩ := Option.map_eq_some'.mp h
    simp [Move.opensConn]

theorem World.step_conns_length {cA cB : Call} {w w' : World} {m : WorldMove}
    (h : w.step cA cB m = some w') :
    w'.conns.length = w.conns.length + if m.opensConn then 1 else 0 := by
  cases m with
  | a m => exact World.stepA_conns_length h
  | b m =>
    obtain ⟨w'', hs, rfl⟩ := Option.map_eq_some'.mp h
    simpa [World.swap] using World.stepA_conns_length hs

theorem NetInv.init (net : Network) (cA cB : Call) : NetInv net cA cB .init :=
  ⟨rfl, List.nodup_nil, fun _ h => by cases h⟩

theorem NetInv.step {net : Network} {cA cB : Call} {nw nw' : NetWorld} {m : NetMove}
    (hi : NetInv net cA cB nw) (h : nw.step net cA cB m = some nw') : NetInv net cA cB nw' := by
  obtain ⟨hw, hm⟩ := NetWorld.step_world net cA cB h
  have hlen := World.step_conns_length hw
  rcases hm with ⟨hp, ho⟩ | ⟨p, hp, ho, h1, h2, hfresh⟩
  · rw [ho, if_neg (by simp)] at hlen
    exact ⟨by rw [hp, hlen, hi.length_eq]; rfl, hp ▸ hi.nodup, hp ▸ hi.mem⟩
  · rw [ho, if_pos rfl] at hlen
    refine ⟨by simp [hp, hlen, hi.length_eq], ?_, ?_⟩
    · rw [hp]
      refine List.pairwise_append.mpr
        ⟨hi.nodup, List.pairwise_singleton _ p, fun x hx y hy => ?_⟩
      rw [List.mem_singleton] at hy
      exact fun hxy => hfresh (hy ▸ hxy ▸ hx)
    · intro q hq
      rw [hp, List.mem_append, List.mem_singleton] at hq
      rcases hq with hq | rfl
      · exact hi.mem q hq
      · exact ⟨h1, h2⟩

/-- In every run on the network, each connection has its own address pair, no
two share one, and each pair is an address of A's socket and one of B's. -/
theorem NetInv.reachable {net : Network} {cA cB : Call} {nw : NetWorld}
    (h : NetWorldReachable net cA cB nw) : NetInv net cA cB nw := by
  induction h with
  | init => exact NetInv.init net cA cB
  | step m _ hs ih => exact ih.step hs

/-! ## Two honest calls can meet -/

/-- The setup of a call with every call answered `Ok`. -/
def setupActs (c : Call) : List Act :=
  .localAddr :: (c.theirEndpoints.map fun _ => .bind .allOk) ++ [.listen (.ok ())]

/-- The meeting of two calls: both set up, A's first connector dials B from
`src` and B accepts; both set their timeouts, write their secrets in one
`write` and read the other's in one `read`; both report, and both result loops
receive the report. -/
def meetMoves (cA cB : Call) (src : SocketAddr) : List NetMove :=
  ((setupActs cA).map fun act => WorldMove.a (.thread act)).map .move ++
  ((setupActs cB).map fun act => WorldMove.b (.thread act)).map .move ++
  .dialA 0 src :: ([.b (.accept 0)] ++
    ([.a (.thread (.worker 0 (.setWriteTimeout (.ok ())))),
      .a (.thread (.worker 0 (.setReadTimeout (.ok ())))),
      .b (.thread (.worker cB.theirEndpoints.length (.setWriteTimeout (.ok ())))),
      .b (.thread (.worker cB.theirEndpoints.length (.setReadTimeout (.ok ()))))] ++
    ([.a (.write 0 0 4), .b (.write cB.theirEndpoints.length 0 4), .a (.read 0 0 4),
      .b (.read cB.theirEndpoints.length 0 4)] ++
    [.a (.thread (.send 0)), .a (.thread .recv), .b (.thread (.send cB.theirEndpoints.length)),
     .b (.thread .recv)])) : List WorldMove).map .move

/-- Thread moves open no connection. -/
theorem threads_not_opensConn (actsA actsB : List Act) :
    ∀ m ∈ actsA.map (fun act => WorldMove.a (.thread act)) ++
      actsB.map (fun act => WorldMove.b (.thread act)), m.opensConn = false := by
  simp only [List.mem_append, List.mem_map]
  rintro m (⟨act, -, rfl⟩ | ⟨act, -, rfl⟩) <;> rfl

/-- The meeting runs on the network when A's first endpoint for B is an address
of B's socket and `src` one of A's: both calls return `WOk` without warnings,
on the two ends of the one connection, from `src` to that endpoint. -/
theorem NetWorld.run_meetMoves {net : Network} {cA cB : Call} {a b : SocketAddr}
    {e : MappedSocketAddr} {rest : List MappedSocketAddr} {src : SocketAddr}
    (ha : cA.socket.localAddr = .ok a) (hb : cB.socket.localAddr = .ok b)
    (hAB : cA.theirSecret = cB.ourSecret) (hBA : cB.theirSecret = cA.ourSecret)
    (hends : cA.theirEndpoints = e :: rest) (hsrc : src ∈ net.hostA.socketAddrs a)
    (hdst : e.addr ∈ net.hostB.socketAddrs b) :
    (NetWorld.init.run net cA cB (meetMoves cA cB src)).map
        (fun nw => (nw.world.a.main, nw.world.b.main, nw.world.conns, nw.addrs)) =
      some (.returned (.wOk 0 []), .returned (.wOk cB.theirEndpoints.length []),
        [⟨some 0, some cB.theirEndpoints.length, [], []⟩], [(src, e.addr)]) := by
  obtain ⟨wsA, -, hidxA, hsetA⟩ := Peer.run_setup cA ha
  obtain ⟨wsB, hlenB, -, hsetB⟩ := Peer.run_setup cB hb
  obtain ⟨wsA, rfl⟩ : ∃ ws, wsA = .connector e.addr 0 :: ws := by
    have h0 := hidxA 0
    rw [hends] at h0
    cases wsA with
    | nil => simp at h0
    | cons wk ws => exact ⟨ws, by simpa using h0⟩
  have hA₁ := @World.run_threadA cA cB .init (setupActs cA) _ (setup_isLocal cA) hsetA
  have hB₁ := @World.run_threadB cA cB
    ⟨Peer.listening a (.connector e.addr 0 :: wsA), .init, []⟩ (setupActs cB) _
    (setup_isLocal cB) hsetB
  have hsetupW := (World.run_append_of_eq hA₁ _).trans hB₁
  have hsetup := @NetWorld.run_moves net cA cB NetWorld.init _ _
    (threads_not_opensConn _ _) hsetupW
  rw [List.map_append] at hsetup
  have hconnect := @meetWorld_connect cA cB a b e wsA wsB
  rw [World.run] at hconnect
  obtain ⟨w₁, hdial, haccept⟩ := Option.bind_eq_some.mp hconnect
  have hdialNet := @NetWorld.step_dialA net cA cB
    ⟨⟨Peer.listening a (.connector e.addr 0 :: wsA), Peer.listening b wsB, []⟩, []⟩ 0
    (.connector e.addr 0) src e.addr (List.getElem?_cons_zero ..) rfl
    (by simpa only [Call.socketAddrs, ha] using hsrc)
    (by simpa only [Call.socketAddrs, hb] using hdst) rfl (List.not_mem_nil _)
  rw [hdial, Option.map_some'] at hdialNet
  obtain ⟨w, hw, hmain⟩ := Option.map_eq_some'.mp (@meetWorld_report cA cB a b e wsA wsB _ _)
  have hrestW := (World.run_append_of_eq haccept _).trans <|
    (World.run_append_of_eq meetWorld_timeouts _).trans <|
    (World.run_append_of_eq (meetWorld_exchange hAB hBA) _).trans hw
  have hrest := @NetWorld.run_moves net cA cB ⟨w₁, [(src, e.addr)]⟩ _ _
    (by simp [WorldMove.opensConn, Move.opensConn]) hrestW
  rw [meetMoves, NetWorld.run_append_of_eq net cA cB hsetup]
  dsimp only [NetWorld.init]
  rw [NetWorld.run, hdialNet, Option.some_bind, ← hlenB]
  simp only [List.nil_append]
  rw [hrest]
  simp only [Prod.mk.injEq] at hmain
  simp [hmain]

/-- Two honest calls can meet on a network. Take two calls whose sockets report
their addresses, each holding the secret the other writes, where A's first
endpoint for B is an address at which B's socket is reached and `src` is an
address of A's socket. Then some run on the network has both calls return `WOk`
without warnings: A the stream of its first connector, B the stream it
accepted, numbered after its connectors. The run has one connection, from `src`
to that endpoint; the two streams are its two ends, with no byte in flight. -/
theorem punch_hole_peers_can_meet {net : Network} {cA cB : Call} {a b : SocketAddr}
    {e : MappedSocketAddr} {rest : List MappedSocketAddr} {src : SocketAddr}
    (ha : cA.socket.localAddr = .ok a) (hb : cB.socket.localAddr = .ok b)
    (hAB : cA.theirSecret = cB.ourSecret) (hBA : cB.theirSecret = cA.ourSecret)
    (hends : cA.theirEndpoints = e :: rest) (hsrc : src ∈ net.hostA.socketAddrs a)
    (hdst : e.addr ∈ net.hostB.socketAddrs b) :
    ∃ nw, NetWorldReachable net cA cB nw ∧ nw.world.a.main = .returned (.wOk 0 []) ∧
      nw.world.b.main = .returned (.wOk cB.theirEndpoints.length []) ∧
      nw.world.conns = [⟨some 0, some cB.theirEndpoints.length, [], []⟩] ∧
      nw.addrs = [(src, e.addr)] := by
  obtain ⟨nw, hrun, hnw⟩ :=
    Option.map_eq_some'.mp (NetWorld.run_meetMoves ha hb hAB hBA hends hsrc hdst)
  simp only [Prod.mk.injEq] at hnw
  exact ⟨nw, NetWorldReachable.run net cA cB .init hrun, hnw⟩

/-- Host A, with the one interface `192.0.2.1`. -/
def exampleHostA : Host := ⟨[⟨⟨[192, 0, 2, 1], rfl⟩⟩], []⟩

/-- Host B, with the two interfaces `198.51.100.1` and `198.51.100.2`. -/
def exampleHostB : Host :=
  ⟨[⟨⟨[198, 51, 100, 1], rfl⟩⟩, ⟨⟨[198, 51, 100, 2], rfl⟩⟩], []⟩

/-- The network of the two example hosts. -/
def exampleNetwork : Network := ⟨exampleHostA, exampleHostB, by decide, by decide⟩

/-- A's socket address, `192.0.2.1:40000`. -/
def hostAAddr : SocketAddr := .v4 ⟨⟨⟨[192, 0, 2, 1], rfl⟩⟩, 40000⟩

/-- B's socket address on its first interface, `198.51.100.1:40000`. -/
def hostBAddr₁ : SocketAddr := .v4 ⟨⟨⟨[198, 51, 100, 1], rfl⟩⟩, 40000⟩

/-- B's socket address on its second interface, `198.51.100.2:40000`. -/
def hostBAddr₂ : SocketAddr := .v4 ⟨⟨⟨[198, 51, 100, 2], rfl⟩⟩, 40000⟩

/-- A's call on host A: its socket is bound to `192.0.2.1:40000`, and B's
endpoints are the addresses of B's socket on its two interfaces. -/
def multihomedCallA : Call :=
  ⟨⟨.v4, .ok hostAAddr⟩, ⟨ourExampleSecret⟩,
    ⟨[⟨hostBAddr₁, false⟩, ⟨hostBAddr₂, false⟩], theirExampleSecret⟩⟩

/-- B's call on host B: its socket is bound to `0.0.0.0:40000`, and A's one
endpoint is A's socket address. -/
def multihomedCallB : Call :=
  ⟨⟨.v4, .ok (.v4 ⟨⟨⟨[0, 0, 0, 0], rfl⟩⟩, 40000⟩)⟩, ⟨theirExampleSecret⟩,
    ⟨[⟨hostAAddr, false⟩], ourExampleSecret⟩⟩

theorem punch_hole_peers_can_meet_example_calls :
    multihomedCallA.socket.localAddr = .ok hostAAddr ∧
    multihomedCallB.socket.localAddr = .ok (.v4 ⟨⟨⟨[0, 0, 0, 0], rfl⟩⟩, 40000⟩) ∧
    multihomedCallA.theirSecret = multihomedCallB.ourSecret ∧
    multihomedCallB.theirSecret = multihomedCallA.ourSecret ∧
    multihomedCallA.theirEndpoints = ⟨hostBAddr₁, false⟩ :: [⟨hostBAddr₂, false⟩] ∧
    hostAAddr ∈ exampleNetwork.hostA.socketAddrs hostAAddr ∧
    hostBAddr₁ ∈
      exampleNetwork.hostB.socketAddrs (.v4 ⟨⟨⟨[0, 0, 0, 0], rfl⟩⟩, 40000⟩) ∧
    ∃ nw, NetWorldReachable exampleNetwork multihomedCallA multihomedCallB nw ∧
      nw.world.a.main = .returned (.wOk 0 []) ∧
      nw.world.b.main = .returned (.wOk multihomedCallB.theirEndpoints.length []) ∧
      nw.world.conns = [⟨some 0, some multihomedCallB.theirEndpoints.length, [], []⟩] ∧
      nw.addrs = [(hostAAddr, hostBAddr₁)] :=
  ⟨rfl, rfl, rfl, rfl, rfl, by decide, by decide,
    @punch_hole_peers_can_meet exampleNetwork multihomedCallA multihomedCallB _ _ _ _ hostAAddr
      rfl rfl rfl rfl rfl (by decide) (by decide)⟩

/-! ## Two connections to two addresses of one listener -/

/-- A's two connectors dial B's socket at its two addresses, and B accepts both
connections; the handshakes succeed on both; A receives the report of the
handshake on the first connection first, and B that on the second first. -/
def twoAddressRun : List NetMove :=
  (([.a (.thread .localAddr), .a (.thread (.bind .allOk)), .a (.thread (.bind .allOk)),
    .a (.thread (.listen (.ok ()))),
    .b (.thread .localAddr), .b (.thread (.bind .allOk)), .b (.thread (.listen (.ok ())))] :
      List WorldMove).map .move) ++
  [.dialA 0 hostAAddr, .move (.b (.accept 0)), .dialA 1 hostAAddr, .move (.b (.accept 1))] ++
  (([.a (.thread (.worker 0 (.setWriteTimeout (.ok ())))),
    .a (.thread (.worker 0 (.setReadTimeout (.ok ())))),
    .b (.thread (.worker 1 (.setWriteTimeout (.ok ())))),
    .b (.thread (.worker 1 (.setReadTimeout (.ok ())))),
    .a (.write 0 0 4), .b (.write 1 0 4), .a (.read 0 0 4), .b (.read 1 0 4),
    .a (.thread (.worker 1 (.setWriteTimeout (.ok ())))),
    .a (.thread (.worker 1 (.setReadTimeout (.ok ())))),
    .b (.thread (.worker 2 (.setWriteTimeout (.ok ())))),
    .b (.thread (.worker 2 (.setReadTimeout (.ok ())))),
    .a (.write 1 1 4), .b (.write 2 1 4), .a (.read 1 1 4), .b (.read 2 1 4),
    .a (.thread (.send 0)), .a (.thread .recv), .b (.thread (.send 2)), .b (.thread .recv)] :
      List WorldMove).map .move)

/-- On the network of a one-interface host A and a two-interface host B whose
socket is bound to `0.0.0.0`, two honest calls can both return `WOk` with ends
of different connections: A the end of the connection to B's first address,
B the end of the connection to its second. -/
theorem punch_hole_peers_disagree :
    multihomedCallA.theirSecret = multihomedCallB.ourSecret ∧
    multihomedCallB.theirSecret = multihomedCallA.ourSecret ∧
    ∃ nw, NetWorldReachable exampleNetwork multihomedCallA multihomedCallB nw ∧
      nw.world.a.main = .returned (.wOk 0 []) ∧ nw.world.b.main = .returned (.wOk 2 []) ∧
      nw.world.conns = [⟨some 0, some 1, [], []⟩, ⟨some 1, some 2, [], []⟩] ∧
      nw.addrs = [(hostAAddr, hostBAddr₁), (hostAAddr, hostBAddr₂)] ∧
      ¬ ∃ c ∈ nw.world.conns, c.aEnd = some 0 ∧ c.bEnd = some 2 := by
  refine ⟨rfl, rfl, ?_⟩
  obtain ⟨nw, hnw, hP⟩ := @netWorldReachable_of_run exampleNetwork multihomedCallA
    multihomedCallB twoAddressRun
    (fun nw => decide (nw.world.a.main = .returned (.wOk 0 []) ∧
      nw.world.b.main = .returned (.wOk 2 []) ∧
      nw.world.conns = [⟨some 0, some 1, [], []⟩, ⟨some 1, some 2, [], []⟩] ∧
      nw.addrs = [(hostAAddr, hostBAddr₁), (hostAAddr, hostBAddr₂)])) (by decide)
  simp only [decide_eq_true_eq] at hP
  obtain ⟨ha, hb, hc, hd⟩ := hP
  exact ⟨nw, hnw, ha, hb, hc, hd, by simp [hc]⟩

end NatTraversal.Punch
