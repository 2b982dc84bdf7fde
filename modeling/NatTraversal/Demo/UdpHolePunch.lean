import NatTraversal.Net

/-!
# The UDP hole-punching demo

`examples/udp-hole-punch.rs` is a chat over the UDP engine of `nat_traversal`,
whose code is not in the repository. Its `main` creates a mapping context,
reads the addresses of simple servers from stdin until a blank line, maps a UDP
socket, prints its public rendezvous info, reads lines until one decodes as the
peer's, punches a hole, and then sends every line it reads to the peer while a
thread prints what the peer sends back.

Every read of stdin is `read_line`, which at the end of the input returns
`Ok(0)` and appends nothing. The three loops return on `Err(_)` only, so an end
of input is an ordinary empty line to them. `Main.step` is one `read_line`
answer taken by the loop `main` is in; the calls `main` makes into other crates
are answered by `Env`.

* `main_successful_run`: a run in which every call succeeds registers the first
  address of each non-blank line up to the first blank line, then waits in the
  info loop until a line decodes, and then sends every line it reads, each
  end of input as an empty datagram, without ever returning;
* `main_exits_only_on_failure`: in every run, `main` has returned only after a
  call failed, and it names that call.

The receive thread is `recvAndPrint`, over the answers of its `recv_from`
calls.
-/

set_option autoImplicit false

namespace NatTraversal.Demo

/-! ## Text -/

/-- `char::is_whitespace`: the characters with Unicode's `White_Space`
property. -/
def isWhitespace (c : Char) : Bool :=
  let n := c.toNat
  (9 ≤ n && n ≤ 13) || n == 0x20 || n == 0x85 || n == 0xA0 || n == 0x1680 ||
    (0x2000 ≤ n && n ≤ 0x200A) || n == 0x2028 || n == 0x2029 || n == 0x202F ||
    n == 0x205F || n == 0x3000

/-- `str::trim`: the text without its leading and trailing whitespace. -/
def strTrim (s : String) : String :=
  ⟨((s.data.dropWhile isWhitespace).reverse.dropWhile isWhitespace).reverse⟩

/-! ## The calls `main` makes into other crates -/

/-- What the calls of `main` outside this repository answer: the mapping context
and the UDP engine of `nat_traversal`, the resolver, the JSON decoder, and the
socket calls of the chat. Their warnings and errors are only printed, so each
fallible call is its success value or a failure. -/
structure Env where
  /-- `MappingContext::new()` returned `WOk`. -/
  mappingContextOk : Bool
  /-- `addr_str.to_socket_addrs()`. -/
  toSocketAddrs : String → Except IoError (List SocketAddr)
  /-- `MappedUdpSocket::new(&mapping_context)`, for the simple servers added to
  the context, in order: the endpoints of the mapped socket. -/
  mappedUdpSocketNew : List SocketAddr → Option (List MappedSocketAddr)
  /-- The secret `gen_rendezvous_info` draws. -/
  secret : Bytes4
  /-- `rustc_serialize::json::decode(&info_str)`. -/
  jsonDecode : String → Option PubRendezvousInfo
  /-- `PunchedUdpSocket::punch_hole(socket, our_priv_info, their_pub_info)`:
  the `peer_addr` of the punched socket. -/
  punchHole : PrivRendezvousInfo → PubRendezvousInfo → Option SocketAddr
  /-- `socket.try_clone()` returned `Ok`. -/
  tryCloneOk : Bool
  /-- The `n`-th `socket.send_to(line.as_bytes(), peer_addr.0)` of the chat loop. -/
  sendTo : Nat → String → SocketAddr → Except IoError Unit

/-! ## `main` -/

/-- Why `main` returned: one variant per `return` of the source. -/
inductive Exit where
  | mappingContext
  | readLine (err : IoError)
  | mappedSocket
  | punchHole
  | tryClone
  | sendTo (err : IoError)
  deriving DecidableEq, Repr

/-- Where `main` is: one of its three stdin loops, or returned. -/
inductive Stage where
  /-- The loop reading the addresses of simple servers. -/
  | servers
  /-- The loop reading the peer's public rendezvous info, holding our private
  info. -/
  | info (ours : PrivRendezvousInfo)
  /-- The chat loop, sending to the punched peer address. -/
  | chat (peerAddr : SocketAddr)
  | exited (why : Exit)
  deriving DecidableEq, Repr

/-- The main thread: where it is, the simple servers it added to the mapping
context, and the datagrams it sent, each a line and its destination. -/
structure Main where
  stage : Stage
  servers : List SocketAddr
  sent : List (String × SocketAddr)
  deriving DecidableEq, Repr

section Main

variable (env : Env)

/-- Lines 18-30: the mapping context, and then the server loop. -/
def Main.init : Main :=
  ⟨if env.mappingContextOk then .servers else .exited .mappingContext, [], []⟩

/-- Lines 73-92, after the server loop: map a UDP socket with the servers added
so far and keep our private rendezvous info. -/
def Main.mapSocket (m : Main) : Main :=
  match env.mappedUdpSocketNew m.servers with
  | some endpoints => { m with stage := .info (genRendezvousInfo endpoints env.secret).1 }
  | none => { m with stage := .exited .mappedSocket }

/-- Lines 135-160, after the info loop: punch the hole and clone the socket for
the receive thread. -/
def Main.punch (m : Main) (ours : PrivRendezvousInfo) (theirs : PubRendezvousInfo) : Main :=
  match env.punchHole ours theirs with
  | some peerAddr =>
    if env.tryCloneOk then { m with stage := .chat peerAddr }
    else { m with stage := .exited .tryClone }
  | none => { m with stage := .exited .punchHole }

/-- One `read_line` answer, taken by the loop `main` is in (lines 34-70,
103-131 and 187-207); every loop returns on a read error. -/
def Main.step (m : Main) (answer : Except IoError String) : Main :=
  match m.stage, answer with
  | .exited _, _ => m
  | _, .error e => { m with stage := .exited (.readLine e) }
  | .servers, .ok addrStr =>
    if strTrim addrStr = "" then m.mapSocket env
    else
      match env.toSocketAddrs (strTrim addrStr) with
      | .ok (addr :: _) => { m with servers := m.servers ++ [addr] }
      | _ => m
  | .info ours, .ok infoStr =>
    match env.jsonDecode infoStr with
    | some theirs => m.punch env ours theirs
    | none => m
  | .chat peerAddr, .ok line =>
    match env.sendTo m.sent.length line peerAddr with
    | .ok () => { m with sent := m.sent ++ [(line, peerAddr)] }
    | .error e => { m with stage := .exited (.sendTo e) }

/-- `main` after stdin has given `answers`. -/
def Main.run (answers : List (Except IoError String)) : Main :=
  answers.foldl (Main.step env) (Main.init env)

/-- The server a line of the server loop adds: the first address its trimmed
text resolves to. -/
def Env.resolvedAddr (line : String) : Option SocketAddr :=
  match env.toSocketAddrs (strTrim line) with
  | .ok (addr :: _) => some addr
  | _ => none

/-! ## One answer -/

theorem Main.step_exited {m : Main} {why : Exit} (h : m.stage = .exited why)
    (answer : Except IoError String) : m.step env answer = m := by
  simp only [Main.step, h]

theorem Main.step_servers_line {m : Main} {line : String} (h : m.stage = .servers)
    (hl : strTrim line ≠ "") :
    m.step env (.ok line) = { m with servers := m.servers ++ (env.resolvedAddr line).toList } := by
  obtain ⟨stage, servers, sent⟩ := m
  obtain rfl : stage = .servers := h
  simp only [Main.step, hl, if_false, Env.resolvedAddr]
  split <;> simp_all

theorem Main.step_servers_blank {m : Main} {line : String} (h : m.stage = .servers)
    (hl : strTrim line = "") : m.step env (.ok line) = m.mapSocket env := by
  simp only [Main.step, h, hl, if_true]

theorem Main.step_info_none {m : Main} {ours : PrivRendezvousInfo} {line : String}
    (h : m.stage = .info ours) (hd : env.jsonDecode line = none) : m.step env (.ok line) = m := by
  simp only [Main.step, h, hd]

theorem Main.step_info_some {m : Main} {ours : PrivRendezvousInfo} {line : String}
    {theirs : PubRendezvousInfo} (h : m.stage = .info ours)
    (hd : env.jsonDecode line = some theirs) :
    m.step env (.ok line) = m.punch env ours theirs := by
  simp only [Main.step, h, hd]

theorem Main.step_chat {m : Main} {peerAddr : SocketAddr} {line : String}
    (h : m.stage = .chat peerAddr) (hs : env.sendTo m.sent.length line peerAddr = .ok ()) :
    m.step env (.ok line) = { m with sent := m.sent ++ [(line, peerAddr)] } := by
  simp only [Main.step, h, hs]

theorem Main.step_error {m : Main} (h : ∀ why, m.stage ≠ .exited why) (e : IoError) :
    m.step env (.error e) = { m with stage := .exited (.readLine e) } := by
  obtain ⟨stage, servers, sent⟩ := m
  cases stage <;> simp_all [Main.step]

theorem Main.step_chat_error {m : Main} {peerAddr : SocketAddr} {line : String} {e : IoError}
    (h : m.stage = .chat peerAddr) (hs : env.sendTo m.sent.length line peerAddr = .error e) :
    m.step env (.ok line) = { m with stage := .exited (.sendTo e) } := by
  simp only [Main.step, h, hs]

/-! ## The three loops -/

/-- The server loop adds the first resolved address of each non-blank line. -/
theorem Main.run_servers (lines : List String) (hl : ∀ l ∈ lines, strTrim l ≠ "") :
    ∀ m : Main, m.stage = .servers →
      (lines.map .ok).foldl (Main.step env) m =
        { m with servers := m.servers ++ lines.filterMap env.resolvedAddr } := by
  induction lines with
  | nil => intro m _; simp
  | cons line lines ih =>
    intro m h
    have hl' := hl line (.head _)
    rw [List.map_cons, List.foldl_cons, Main.step_servers_line env h hl',
      ih (fun l hm => hl l (.tail _ hm))
      { m with servers := m.servers ++ (env.resolvedAddr line).toList } h]
    cases hr : env.resolvedAddr line <;> simp [List.filterMap_cons, hr]

/-- The info loop waits for as long as no line decodes. -/
theorem Main.run_info (lines : List String) (hd : ∀ l ∈ lines, env.jsonDecode l = none) :
    ∀ (m : Main) (ours : PrivRendezvousInfo), m.stage = .info ours →
      (lines.map .ok).foldl (Main.step env) m = m := by
  induction lines with
  | nil => intro m _ _; rfl
  | cons line lines ih =>
    intro m ours h
    rw [List.map_cons, List.foldl_cons, Main.step_info_none env h (hd line (.head _))]
    exact ih (fun l hm => hd l (.tail _ hm)) m ours h

/-- The chat loop sends every line it reads to the peer, and stays. -/
theorem Main.run_chat {peerAddr : SocketAddr}
    (hs : ∀ n line, env.sendTo n line peerAddr = .ok ()) (lines : List String) :
    ∀ m : Main, m.stage = .chat peerAddr →
      (lines.map .ok).foldl (Main.step env) m =
        { m with sent := m.sent ++ lines.map fun line => (line, peerAddr) } := by
  induction lines with
  | nil => intro m _; simp
  | cons line lines ih =>
    intro m h
    rw [List.map_cons, List.foldl_cons, Main.step_chat env h (hs _ _),
      ih { m with sent := m.sent ++ [(line, peerAddr)] } h]
    simp

/-! ## Where the state of `main` comes from -/

/-- `peerAddr` is what `punch_hole` answered for the private info made from the
endpoints `MappedUdpSocket::new` returned for `servers`, and for the peer's
info decoded from a line of `answers`. -/
def Env.PunchedTo (answers : List (Except IoError String)) (servers : List SocketAddr)
    (peerAddr : SocketAddr) : Prop :=
  ∃ endpoints info theirs, env.mappedUdpSocketNew servers = some endpoints ∧
    .ok info ∈ answers ∧ env.jsonDecode info = some theirs ∧
    env.punchHole (genRendezvousInfo endpoints env.secret).1 theirs = some peerAddr

/-- The failure behind an exit of a run that took the `read_line` answers
`answers` and ended in `m`: the call the exit names failed, with the arguments
`main` gave it. -/
def Exit.Justified (answers : List (Except IoError String)) (m : Main) : Exit → Prop
  | .mappingContext => env.mappingContextOk = false
  | .readLine e => .error e ∈ answers
  | .mappedSocket => env.mappedUdpSocketNew m.servers = none
  | .punchHole => ∃ endpoints info theirs, env.mappedUdpSocketNew m.servers = some endpoints ∧
      .ok info ∈ answers ∧ env.jsonDecode info = some theirs ∧
      env.punchHole (genRendezvousInfo endpoints env.secret).1 theirs = none
  | .tryClone => env.tryCloneOk = false
  | .sendTo e => ∃ line peerAddr, .ok line ∈ answers ∧
      env.PunchedTo answers m.servers peerAddr ∧ env.sendTo m.sent.length line peerAddr = .error e

/-- What every state of `main` owes to the answers it took: in the info loop,
our private info is made from the endpoints mapped for the servers added; in
the chat loop, the peer is what `punch_hole` answered; once returned, the exit
is justified. -/
def Main.Traced (answers : List (Except IoError String)) (m : Main) : Prop :=
  match m.stage with
  | .servers => True
  | .info ours => ∃ endpoints, env.mappedUdpSocketNew m.servers = some endpoints ∧
      ours = (genRendezvousInfo endpoints env.secret).1
  | .chat peerAddr => env.PunchedTo answers m.servers peerAddr
  | .exited why => why.Justified env answers m

theorem Env.PunchedTo.mono {answers answers' : List (Except IoError String)}
    {servers : List SocketAddr} {peerAddr : SocketAddr} (h : env.PunchedTo answers servers peerAddr)
    (hsub : answers ⊆ answers') : env.PunchedTo answers' servers peerAddr := by
  obtain ⟨endpoints, info, theirs, hm, hi, hrest⟩ := h
  exact ⟨endpoints, info, theirs, hm, hsub hi, hrest⟩

theorem Main.Traced.mono {answers answers' : List (Except IoError String)} {m : Main}
    (h : m.Traced env answers) (hsub : answers ⊆ answers') : m.Traced env answers' := by
  obtain ⟨stage, servers, sent⟩ := m
  cases stage with
  | chat peerAddr => exact Env.PunchedTo.mono env h hsub
  | exited why =>
    cases why with
    | readLine e => exact hsub h
    | punchHole =>
      obtain ⟨endpoints, info, theirs, hm, hi, hrest⟩ := h
      exact ⟨endpoints, info, theirs, hm, hsub hi, hrest⟩
    | sendTo e =>
      obtain ⟨line, peerAddr, hl, hp, hs⟩ := h
      exact ⟨line, peerAddr, hsub hl, Env.PunchedTo.mono env hp hsub, hs⟩
    | _ => exact h
  | _ => exact h

theorem Main.Traced.exited {answers : List (Except IoError String)} {m : Main} {why : Exit}
    (h : m.Traced env answers) (hw : m.stage = .exited why) : why.Justified env answers m := by
  unfold Main.Traced at h
  rw [hw] at h
  exact h

theorem Main.Traced.init : (Main.init env).Traced env [] := by
  cases hctx : env.mappingContextOk
  · simp only [Main.Traced, Main.init, hctx]
    exact hctx
  · simp only [Main.Traced, Main.init, hctx, if_true]

/-- Every answer keeps the state traced to the answers taken. -/
theorem Main.Traced.step {answers : List (Except IoError String)} {m : Main}
    (h : m.Traced env answers) (answer : Except IoError String) :
    (m.step env answer).Traced env (answers ++ [answer]) := by
  have hsub : answers ⊆ answers ++ [answer] := List.subset_append_left _ _
  have hmem : answer ∈ answers ++ [answer] := List.mem_append_right _ (List.mem_singleton_self _)
  by_cases hx : ∃ why, m.stage = .exited why
  · obtain ⟨why, hw⟩ := hx
    rw [Main.step_exited env hw]
    exact h.mono env hsub
  cases answer with
  | error e =>
    rw [Main.step_error env (not_exists.mp hx) e]
    exact hmem
  | ok line =>
    obtain ⟨stage, servers, sent⟩ := m
    cases stage with
    | exited why => exact absurd ⟨why, rfl⟩ hx
    | servers =>
      by_cases hl : strTrim line = ""
      · rw [Main.step_servers_blank env rfl hl]
        cases hm : env.mappedUdpSocketNew servers with
        | none =>
          simp only [Main.mapSocket, hm]
          exact hm
        | some endpoints =>
          simp only [Main.mapSocket, hm]
          exact ⟨endpoints, hm, rfl⟩
      · rw [Main.step_servers_line env rfl hl]
        trivial
    | info ours =>
      obtain ⟨endpoints, hm, rfl⟩ := h
      cases hd : env.jsonDecode line with
      | none =>
        rw [Main.step_info_none env rfl hd]
        exact ⟨endpoints, hm, rfl⟩
      | some theirs =>
        rw [Main.step_info_some env rfl hd]
        cases hp : env.punchHole (genRendezvousInfo endpoints env.secret).1 theirs with
        | none =>
          simp only [Main.punch, hp]
          exact ⟨endpoints, line, theirs, hm, hmem, hd, hp⟩
        | some peerAddr =>
          cases hc : env.tryCloneOk
          · simp only [Main.punch, hp, hc]
            exact hc
          · simp only [Main.punch, hp, hc, if_true]
            exact ⟨endpoints, line, theirs, hm, hmem, hd, hp⟩
    | chat peerAddr =>
      cases hs : env.sendTo sent.length line peerAddr with
      | ok u =>
        rw [Main.step_chat env rfl hs]
        exact Env.PunchedTo.mono env h hsub
      | error e =>
        rw [Main.step_chat_error env rfl hs]
        exact ⟨line, peerAddr, hmem, Env.PunchedTo.mono env h hsub, hs⟩

theorem Main.Traced.foldl (answers' : List (Except IoError String)) :
    ∀ (answers : List (Except IoError String)) (m : Main), m.Traced env answers →
      (answers'.foldl (Main.step env) m).Traced env (answers ++ answers') := by
  induction answers' with
  | nil => intro answers m h; simpa using h
  | cons answer answers' ih =>
    intro answers m h
    simpa using ih _ _ (h.step env answer)

end Main

/-! ## What a run of `main` does -/

/-- A run in which every call succeeds: the server loop adds the first address
of each non-blank line and ends at the first blank line (an end of input is
one); the info loop waits until a line decodes (an end of input does not); and
from then on every line read is sent to the peer, an end of input as an empty
datagram, and `main` never returns. -/
theorem main_successful_run (env : Env) (hctx : env.mappingContextOk = true)
    {lines infos chat : List String} {blank info : String}
    {endpoints : List MappedSocketAddr} {theirs : PubRendezvousInfo} {peerAddr : SocketAddr}
    (hl : ∀ l ∈ lines, strTrim l ≠ "") (hb : strTrim blank = "")
    (hmap : env.mappedUdpSocketNew (lines.filterMap env.resolvedAddr) = some endpoints)
    (hd : ∀ l ∈ infos, env.jsonDecode l = none) (hinfo : env.jsonDecode info = some theirs)
    (hpunch : env.punchHole (genRendezvousInfo endpoints env.secret).1 theirs = some peerAddr)
    (hclone : env.tryCloneOk = true) (hs : ∀ n line, env.sendTo n line peerAddr = .ok ()) :
    Main.run env ((lines ++ blank :: infos ++ info :: chat).map .ok) =
      ⟨.chat peerAddr, lines.filterMap env.resolvedAddr,
        chat.map fun line => (line, peerAddr)⟩ := by
  have hservers : (lines.map .ok).foldl (Main.step env) (Main.init env) =
      ⟨.servers, lines.filterMap env.resolvedAddr, []⟩ := by
    rw [Main.run_servers env lines hl _ (by simp [Main.init, hctx])]
    simp [Main.init, hctx]
  generalize lines.filterMap env.resolvedAddr = servers at hservers hmap ⊢
  have hblank : (⟨.servers, servers, []⟩ : Main).step env (.ok blank) =
      ⟨.info (genRendezvousInfo endpoints env.secret).1, servers, []⟩ := by
    rw [Main.step_servers_blank env rfl hb]
    simp [Main.mapSocket, hmap]
  have hinfos := Main.run_info env infos hd
    ⟨.info (genRendezvousInfo endpoints env.secret).1, servers, []⟩ _ rfl
  have hdecoded : (⟨.info (genRendezvousInfo endpoints env.secret).1, servers, []⟩ : Main).step
      env (.ok info) = ⟨.chat peerAddr, servers, []⟩ := by
    rw [Main.step_info_some env rfl hinfo]
    simp [Main.punch, hpunch, hclone]
  have hchat := Main.run_chat env hs chat ⟨.chat peerAddr, servers, []⟩ rfl
  simp only [Main.run, List.map_append, List.map_cons, List.foldl_append, List.foldl_cons,
    hservers, hblank, hinfos, hdecoded, hchat, List.nil_append]

/-- The simple server of the examples' run. -/
def exampleServer : SocketAddr := .v4 ⟨⟨⟨[192, 0, 2, 1], rfl⟩⟩, 5483⟩

/-- The peer of the examples' run, as its public info names it. -/
def examplePeer : SocketAddr := .v4 ⟨⟨⟨[203, 0, 113, 9], rfl⟩⟩, 6000⟩

/-- Calls that all succeed: every line resolves to `exampleServer`, the mapped
socket's endpoints are its servers, only the line `peer-info` decodes, and the
hole is punched to the first endpoint of the peer's info. -/
def exampleEnv : Env where
  mappingContextOk := true
  toSocketAddrs := fun _ => .ok [exampleServer]
  mappedUdpSocketNew := fun servers => some (servers.map fun addr => ⟨addr, true⟩)
  secret := ⟨[1, 2, 3, 4], rfl⟩
  jsonDecode := fun info =>
    if info = "peer-info\n" then some ⟨[⟨examplePeer, false⟩], ⟨[5, 6, 7, 8], rfl⟩⟩
    else none
  punchHole := fun _ theirs => theirs.endpoints.head?.map MappedSocketAddr.addr
  tryCloneOk := true
  sendTo := fun _ _ _ => .ok ()

/-- An end of input ends the server loop, is skipped by the info loop, and in
the chat is sent as an empty datagram. -/
theorem main_successful_run_end_of_input :
    Main.run exampleEnv
        ((["192.0.2.1:5483\n"] ++ "" :: ["\n", ""] ++ "peer-info\n" :: ["hello\n", ""]).map .ok) =
      ⟨.chat examplePeer, ["192.0.2.1:5483\n"].filterMap exampleEnv.resolvedAddr,
        ["hello\n", ""].map fun line => (line, examplePeer)⟩ :=
  main_successful_run exampleEnv rfl (by decide) (by decide) rfl (by decide)
    (rfl : exampleEnv.jsonDecode "peer-info\n" =
      some ⟨[⟨examplePeer, false⟩], ⟨[5, 6, 7, 8], rfl⟩⟩) rfl rfl fun _ _ => rfl

/-- In every run, `main` has returned only after a call failed, and the exit
names it with the arguments `main` gave it: `MappingContext::new`; a
`read_line` that answered an error; `MappedUdpSocket::new` for the servers
added; `punch_hole` for our info made from the mapped endpoints and the info
decoded from a line read; `try_clone`; or the last `send_to`, of a line read, to
the peer `punch_hole` answered. An end of input is not an error of `read_line`,
so it never makes `main` return. -/
theorem main_exits_only_on_failure (env : Env) (answers : List (Except IoError String))
    {why : Exit} (h : (Main.run env answers).stage = .exited why) :
    why.Justified env answers (Main.run env answers) :=
  (Main.Traced.foldl env answers [] _ (Main.Traced.init env)).exited env h

theorem main_exits_only_on_failure_read_error :
    (Main.run exampleEnv [.ok "", .ok "", .ok "peer-info\n", .error ⟨.other 5⟩]).stage =
      .exited (.readLine ⟨.other 5⟩) ∧
    (Exit.readLine ⟨.other 5⟩).Justified exampleEnv
      [.ok "", .ok "", .ok "peer-info\n", .error ⟨.other 5⟩]
      (Main.run exampleEnv [.ok "", .ok "", .ok "peer-info\n", .error ⟨.other 5⟩]) :=
  ⟨by decide, main_exits_only_on_failure exampleEnv _ (by decide)⟩

/-! ## The receive thread -/

/-- What the receive thread prints for one answer of `recv_from`. -/
inductive Printed where
  | recvError (err : IoError)
  | text (s : String)
  | invalidUtf8
  deriving DecidableEq, Repr

/-- The receive buffer, `[0u8; 1024]`. -/
def recvBufferSize : Nat := 1024

/-- The receive thread (lines 165-183), over the answers of its `recv_from`
calls: a datagram and its source, of which the buffer keeps the first 1024
bytes, or an error, after which it goes on. `fromUtf8` is
`std::str::from_utf8`. -/
def recvAndPrint (fromUtf8 : List UInt8 → Option String) (peerAddr : SocketAddr) :
    List (Except IoError (List UInt8 × SocketAddr)) → List Printed
  | [] => []
  | .error e :: answers => .recvError e :: recvAndPrint fromUtf8 peerAddr answers
  | .ok (datagram, addr) :: answers =>
    if addr ≠ peerAddr then recvAndPrint fromUtf8 peerAddr answers
    else
      (match fromUtf8 (datagram.take recvBufferSize) with
        | some s => .text s
        | none => .invalidUtf8) :: recvAndPrint fromUtf8 peerAddr answers

end NatTraversal.Demo
