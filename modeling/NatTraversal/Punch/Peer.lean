import NatTraversal.Punch.Handshake

/-!
# One call of `tcp_punch_hole` as a system of threads

The main thread of `tcp_punch_hole` gets the local address of the socket, binds a
reusable socket for each of the peer's endpoints and starts a connector on it,
listens, starts the acceptor and the timeout sentinel, and then reads the results
channel until it gets `Some(Ok(stream))` or `None`. Every thread is a component
of `Peer`, and `Peer.step` runs one call of one thread; which thread runs and
what the operating system answers is the action `Act`. Runs interleave the
threads in every order, with every answer.

The results channel keeps every message ever placed on it (`Channel.sent`) and
how many of them the main thread has received (`Channel.delivered`): an `mpsc`
channel delivers in the order of sending. Each message carries, as ghost data,
the thread that sent it (`Origin`). A send after the receiver was dropped is
lost, as `Sender::send` fails then; the main thread's `recv` fails only when no
sender is left (`Peer.senders`).

`thread::park_timeout` may return before its timeout (`Wake.spurious`); the
clock `Peer.now` counts milliseconds and moves by `Act.tick`.
-/

set_option autoImplicit false

namespace NatTraversal.Punch

/-- The total timeout of `tcp_punch_hole`, `Duration::from_secs(20)`, in
milliseconds. -/
def timeoutMs : Nat := 20000

/-- The arguments of a call `tcp_punch_hole(socket, our_priv_rendezvous_info,
their_pub_rendezvous_info)`. -/
structure Call where
  socket : TcpBuilder
  ours : PrivRendezvousInfo
  theirs : PubRendezvousInfo

/-- `our_secret`. -/
def Call.ourSecret (c : Call) : Bytes4 := getPrivSecret c.ours

/-- `their_endpoints`. -/
def Call.theirEndpoints (c : Call) : List MappedSocketAddr := (decompose c.theirs).1

/-- `their_secret`. -/
def Call.theirSecret (c : Call) : Bytes4 := (decompose c.theirs).2

/-- The thread that sent a message: the worker with that index, the acceptor
for its `k`-th accept error, or the timeout sentinel. -/
inductive Origin where
  | worker (i : Nat)
  | acceptor (k : Nat)
  | sentinel
  deriving DecidableEq, Repr

/-- A message of the results channel, `Option<Result<TcpStream, TcpPunchHoleWarning>>`. -/
abbrev Msg := Option (Except TcpPunchHoleWarning StreamId)

/-- A message with its sender. -/
structure Sent where
  origin : Origin
  msg : Msg
  deriving DecidableEq, Repr

/-- The results channel: the messages placed on it, how many the main thread
has received, and whether `results_rx` is still alive. -/
structure Channel where
  sent : List Sent
  delivered : Nat
  rxAlive : Bool
  deriving DecidableEq, Repr

/-- `results_tx.send(m)`: lost once the receiver is gone. -/
def Channel.send (ch : Channel) (m : Sent) : Channel :=
  if ch.rxAlive then { ch with sent := ch.sent ++ [m] } else ch

/-- The main thread. `spawning a rest` binds sockets and starts connectors for
the endpoints `rest`; `receiving a ws` is the result loop with the warnings `ws`. -/
inductive Main where
  | start
  | spawning (localAddr : SocketAddr) (rest : List MappedSocketAddr)
  | receiving (localAddr : SocketAddr) (warnings : List TcpPunchHoleWarning)
  | returned (r : WResult StreamId TcpPunchHoleWarning TcpPunchHoleError)
  | panicked
  deriving DecidableEq, Repr

/-- The acceptor thread `tcp_punch_hole listen`; `reporting k e` is about to send
its `k`-th accept error. -/
inductive Acceptor where
  | notStarted
  | accepting
  | reporting (k : Nat) (err : IoError)
  | stopped
  deriving DecidableEq, Repr

/-- Why `thread::park_timeout` returned. -/
inductive Wake where
  | timedOut
  | unparked
  | spurious
  deriving DecidableEq, Repr

/-- The timeout sentinel `tcp_punch_hole timeout`, with the time it started to
wait and the reason it woke. -/
inductive Sentinel where
  | notStarted
  | parked (since : Nat)
  | firing (since : Nat) (why : Wake)
  | done (since : Nat) (why : Wake)
  deriving DecidableEq, Repr

/-- The threads of one call and what they share. `shutdown` is set when
`listener_shutdown_tx` is dropped, `unparked` when the sentinel is unparked.
Streams are numbered from `nextStream`. -/
structure Peer where
  main : Main
  workers : List Worker
  acceptor : Acceptor
  acceptErrors : Nat
  sentinel : Sentinel
  chan : Channel
  shutdown : Bool
  unparked : Bool
  nextStream : StreamId
  now : Nat
  deriving DecidableEq, Repr

/-- The state at the call. -/
def Peer.init : Peer :=
  ⟨.start, [], .notStarted, 0, .notStarted, ⟨[], 0, true⟩, false, false, 0, 0⟩

/-- One step of one thread, with the answer of the operating system. -/
inductive Act where
  | localAddr
  | bind (calls : ReuseCalls)
  | listen (r : Except IoError Unit)
  | recv
  | worker (i : Nat) (ev : Event)
  | send (i : Nat)
  | accept (r : Except IoError Unit)
  | acceptorSend
  | wake (why : Wake)
  | sentinelSend
  | tick (d : Nat)
  deriving DecidableEq

/-- The number of live `results_tx` clones: the main thread's until it returns,
and one for each thread that has not finished. -/
def Peer.senders (p : Peer) : Nat :=
  (match p.main with
    | .returned _ | .panicked => 0
    | _ => 1) +
  p.workers.countP (fun w => w.stage ≠ .done) +
  (match p.acceptor with
    | .accepting | .reporting _ _ => 1
    | _ => 0) +
  (match p.sentinel with
    | .parked _ | .firing _ _ => 1
    | _ => 0)

/-- Return `r` from the call: `results_rx` is dropped. -/
def Peer.ret (p : Peer) (r : WResult StreamId TcpPunchHoleWarning TcpPunchHoleError) : Peer :=
  { p with main := .returned r, chan := { p.chan with rxAlive := false } }

/-- Leave the result loop with `r`: unpark the sentinel, drop
`listener_shutdown_tx`, nudge the listener, return. -/
def Peer.finish (p : Peer) (r : WResult StreamId TcpPunchHoleWarning TcpPunchHoleError) : Peer :=
  { p with unparked := true, shutdown := true }.ret r

/-- One turn of the result loop: `results_rx.recv()` and its three arms. -/
def Peer.recv (p : Peer) (a : SocketAddr) (ws : List TcpPunchHoleWarning) : Option Peer :=
  match p.chan.sent[p.chan.delivered]? with
  | some m =>
    let q := { p with chan := { p.chan with delivered := p.chan.delivered + 1 } }
    match m.msg with
    | none => some (q.finish (.wErr (.timedOut ws)))
    | some (.ok s) => some (q.finish (.wOk s ws))
    | some (.error w) => some { q with main := .receiving a (ws ++ [w]) }
  | none => if p.senders = 0 then some { p with main := .panicked } else none

/-- Whether `park_timeout` may return for the reason `why`: at the timeout,
after an `unpark`, or spuriously at any time. -/
def Wake.allowed (since now : Nat) (unparked : Bool) : Wake → Bool
  | .timedOut => since + timeoutMs ≤ now
  | .unparked => unparked
  | .spurious => true

/-- One step of the call `c`; `none` when the thread cannot take it. -/
def Peer.step (c : Call) (p : Peer) : Act → Option Peer
  | .localAddr =>
    match p.main, c.socket.localAddr with
    | .start, .ok a => some { p with main := .spawning a c.theirEndpoints }
    | .start, .error e => some (p.ret (.wErr (.socketLocalAddr e)))
    | _, _ => none
  | .bind calls =>
    match p.main with
    | .spawning a (e :: rest) =>
      match newReusablyBoundSocket a calls with
      | .ok _ => some { p with
          main := .spawning a rest
          workers := p.workers ++ [.connector e.addr p.nextStream]
          nextStream := p.nextStream + 1 }
      | .error err => some (p.ret (.wErr (.newReusablyBoundSocket err)))
    | _ => none
  | .listen r =>
    match p.main, r with
    | .spawning a [], .ok () =>
      some { p with main := .receiving a [], acceptor := .accepting, sentinel := .parked p.now }
    | .spawning _ [], .error e => some (p.ret (.wErr (.listen e)))
    | _, _ => none
  | .recv =>
    match p.main with
    | .receiving a ws => p.recv a ws
    | _ => none
  | .worker i ev =>
    match p.workers[i]? with
    | some w => (w.step c.ourSecret c.theirSecret ev).map fun w' => { p with workers := p.workers.set i w' }
    | none => none
  | .send i =>
    match p.workers[i]? with
    | some w =>
      match w.stage with
      | .report r => some { p with
          workers := p.workers.set i { w with stage := .done }
          chan := p.chan.send ⟨.worker i, some r⟩ }
      | _ => none
    | none => none
  | .accept r =>
    match p.acceptor with
    | .accepting =>
      if p.shutdown then some { p with acceptor := .stopped }
      else
        match r with
        | .ok () => some { p with
            workers := p.workers ++ [.listenHandshake p.nextStream]
            nextStream := p.nextStream + 1 }
        | .error e => some { p with
            acceptor := .reporting p.acceptErrors e
            acceptErrors := p.acceptErrors + 1 }
    | _ => none
  | .acceptorSend =>
    match p.acceptor with
    | .reporting k e =>
      if p.chan.rxAlive then
        some { p with acceptor := .accepting, chan := p.chan.send ⟨.acceptor k, some (.error (.accept e))⟩ }
      else some { p with acceptor := .stopped }
    | _ => none
  | .wake why =>
    match p.sentinel with
    | .parked since =>
      if why.allowed since p.now p.unparked then some { p with sentinel := .firing since why } else none
    | _ => none
  | .sentinelSend =>
    match p.sentinel with
    | .firing since why => some { p with
        sentinel := .done since why
        chan := p.chan.send ⟨.sentinel, none⟩ }
    | _ => none
  | .tick d => some { p with now := p.now + d }

@[simp] theorem Channel.send_delivered (ch : Channel) (m : Sent) :
    (ch.send m).delivered = ch.delivered := by
  unfold Channel.send; split <;> rfl

@[simp] theorem Channel.send_rxAlive (ch : Channel) (m : Sent) :
    (ch.send m).rxAlive = ch.rxAlive := by
  unfold Channel.send; split <;> rfl

theorem Channel.send_sent (ch : Channel) (m : Sent) :
    ∃ extra, (ch.send m).sent = ch.sent ++ extra ∧ (extra = [] ∨ extra = [m]) := by
  unfold Channel.send; split
  · exact ⟨[m], rfl, .inr rfl⟩
  · exact ⟨[], by simp, .inl rfl⟩

theorem Channel.mem_send_sent {ch : Channel} {m m' : Sent} (h : m' ∈ (ch.send m).sent) :
    m' ∈ ch.sent ∨ m' = m := by
  unfold Channel.send at h; split at h <;> simp_all

theorem Channel.mem_send_of_mem {ch : Channel} {m : Sent} (m' : Sent) (h : m ∈ ch.sent) :
    m ∈ (ch.send m').sent := by
  obtain ⟨extra, hs, -⟩ := Channel.send_sent ch m'
  rw [hs]
  exact List.mem_append_left _ h

theorem Channel.send_sent_of_rxAlive {ch : Channel} (m : Sent) (h : ch.rxAlive = true) :
    (ch.send m).sent = ch.sent ++ [m] := by
  simp [Channel.send, h]

/-- What a step does to the sentinel: nothing, starts it, wakes it, or lets it
send. -/
theorem Peer.step_sentinel {c : Call} {p q : Peer} {a : Act} (hs : p.step c a = some q) :
    q.sentinel = p.sentinel ∨ (∃ since, q.sentinel = .parked since) ∨
      (∃ since why, a = .wake why ∧ q.sentinel = .firing since why) ∨
      (∃ since why, p.sentinel = .firing since why ∧ q.sentinel = .done since why) := by
  cases a with
  | localAddr | bind _ | listen _ | send _ | acceptorSend | accept _ =>
    simp only [Peer.step] at hs
    repeat' split at hs
    all_goals cases hs
    all_goals simp [Peer.ret]
  | recv =>
    simp only [Peer.step, Peer.recv] at hs
    repeat' split at hs
    all_goals cases hs
    all_goals simp [Peer.ret, Peer.finish]
  | worker i ev =>
    simp only [Peer.step] at hs
    split at hs
    · obtain ⟨_, -, rfl⟩ := Option.map_eq_some'.mp hs; exact .inl rfl
    · cases hs
  | wake why =>
    simp only [Peer.step] at hs
    repeat' split at hs
    all_goals cases hs
    exact .inr (.inr (.inl ⟨_, _, rfl, rfl⟩))
  | sentinelSend =>
    simp only [Peer.step] at hs
    split at hs
    · cases hs; exact .inr (.inr (.inr ⟨_, _, ‹_›, rfl⟩))
    · cases hs
  | tick _ => cases hs; exact .inl rfl

/-- The states a run of the call `c` can reach using only actions that satisfy
`allowed`. -/
inductive ReachableBy (c : Call) (allowed : Act → Prop) : Peer → Prop where
  | init : ReachableBy c allowed .init
  | step {p q : Peer} (a : Act) :
      ReachableBy c allowed p → allowed a → p.step c a = some q → ReachableBy c allowed q

/-- The states some run of the call `c` can reach. -/
abbrev Reachable (c : Call) : Peer → Prop := ReachableBy c fun _ => True

/-- The actions `as` run one after the other; `none` when one cannot be taken. -/
def Peer.run (c : Call) : Peer → List Act → Option Peer
  | p, [] => some p
  | p, a :: as => (p.step c a).bind fun q => q.run c as

theorem Peer.run_append (c : Call) :
    ∀ (p : Peer) (as bs : List Act), p.run c (as ++ bs) = (p.run c as).bind fun q => q.run c bs
  | _, [], _ => rfl
  | p, a :: as, bs => by
    simp only [List.cons_append, List.append_eq, Peer.run, Option.bind_assoc, Peer.run_append]

theorem ReachableBy.mono {c : Call} {allowed allowed' : Act → Prop}
    (h : ∀ a, allowed a → allowed' a) {p : Peer} (hp : ReachableBy c allowed p) :
    ReachableBy c allowed' p := by
  induction hp with
  | init => exact .init
  | step a _ ha hs ih => exact .step a ih (h a ha) hs

theorem ReachableBy.run {c : Call} {allowed : Act → Prop} :
    ∀ {p q : Peer} {as : List Act}, ReachableBy c allowed p → (∀ a ∈ as, allowed a) →
      p.run c as = some q → ReachableBy c allowed q
  | p, q, [], hp, _, h => by cases h; exact hp
  | p, q, a :: as, hp, has, h => by
    obtain ⟨p', hs, h⟩ := Option.bind_eq_some.mp h
    exact ReachableBy.run (.step a hp (has a (by simp)) hs) (fun b hb => has b (by simp [hb])) h

/-- A run from the call, of allowed actions, that ends in a state satisfying `P`
shows a reachable state satisfying `P`; `P` is evaluated by `decide`. -/
theorem reachableBy_of_run {c : Call} {A : Act → Prop} {l : List Act} {P : Peer → Bool}
    (hall : ∀ a ∈ l, A a) (h : (Peer.init.run c l).map P = some true) :
    ∃ p, ReachableBy c A p ∧ P p = true := by
  obtain ⟨p, hr, hp⟩ := Option.map_eq_some'.mp h
  exact ⟨p, ReachableBy.run .init hall hr, hp⟩

theorem reachable_of_run {c : Call} {l : List Act} {P : Peer → Bool}
    (h : (Peer.init.run c l).map P = some true) : ∃ p, Reachable c p ∧ P p = true :=
  reachableBy_of_run (fun _ _ => trivial) h

end NatTraversal.Punch
