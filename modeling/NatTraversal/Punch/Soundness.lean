import NatTraversal.Punch.Invariant

/-!
# What a call of `tcp_punch_hole` returns

The invariant of `NatTraversal.Punch.Invariant` read at the result:

- `punched_stream_wrote_then_read`: every `Some(Ok(stream))` on the results
  channel, and so every stream the call returns, is a stream on which a worker
  of this call wrote our whole secret and then read exactly their secret; the
  remote host's bytes and the interleaving are arbitrary.
- `result_loop_returns_first_terminal`: the call returns at the first delivered
  `Some(Ok(_))` or `None`, with the failures delivered before it as its
  warnings, in order; no thread sent two messages, and the main thread never
  panics.
- `setup_failure_started_threads`: a failed setup returns after starting the
  connectors of a prefix of the endpoints, and neither the acceptor nor the
  sentinel. Those connectors run on: after a failed `listen`, a connector can
  still connect, write our secret and finish its handshake
  (`listen_failure_leaves_handshaking_connector`). What they send is lost: the
  call has dropped `results_rx`, so no later step changes the channel
  (`Peer.run_after_return`).
- The sentinel sends `None` as soon as `park_timeout` returns, and that may be
  at once (`timeout_sentinel_fires_early`); without spurious returns, a
  `TimedOut` result comes no earlier than 20 s after the sentinel started
  (`timedOut_not_before_deadline`).
- `accepted_stream_can_return`: whatever the peer's endpoints, empty included,
  a call whose socket reports its address has a run that listens, accepts a
  connection, exchanges the secrets on it and returns that stream; the
  spawning loop is `Peer.run_bind_all`.
-/

set_option autoImplicit false

namespace NatTraversal.Punch

variable {c : Call}

/-- A `Some(Ok(s))` message comes from a worker of this call that holds `s`. -/
theorem Inv.ok_message {p : Peer} (h : Inv c p) {m : Sent} (hm : m ∈ p.chan.sent) {s : StreamId}
    (hs : m.msg = some (.ok s)) :
    ∃ w ∈ p.workers, w.stream = s ∧ WroteThenRead c.ourSecret.toList c.theirSecret.toList w.log := by
  have hok := h.sentOk m hm
  rcases m with ⟨i | k | _, msg⟩ <;> simp only [SentOk] at hok <;> simp only at hs <;> subst hs
  · obtain ⟨w, hw, -, r, hr, hres⟩ := hok
    cases hr
    exact ⟨w, List.getElem?_mem hw, hres.1.symm, hres.2⟩
  · obtain ⟨-, e, he⟩ := hok
    cases he
  · cases hok.1

/-- The messages the main thread has received are messages of the channel. -/
theorem mem_sent_of_delivered {p : Peer} {x : Msg}
    (hx : x ∈ (p.chan.sent.take p.chan.delivered).map Sent.msg) : ∃ m ∈ p.chan.sent, m.msg = x := by
  obtain ⟨m, hm, rfl⟩ := List.mem_map.mp hx
  exact ⟨m, List.mem_of_mem_take hm, rfl⟩

/-- A returned stream is held by a worker of this call that wrote our secret
and then read theirs on it. -/
theorem Inv.returned_stream {p : Peer} (h : Inv c p) {s : StreamId}
    {ws : List TcpPunchHoleWarning} (hret : p.main = .returned (.wOk s ws)) :
    ∃ w ∈ p.workers, w.stream = s ∧ WroteThenRead c.ourSecret.toList c.theirSecret.toList w.log := by
  have hm := h.mainOk
  simp only [MainOk, hret, LoopLog] at hm
  obtain ⟨m, hm', hms⟩ := mem_sent_of_delivered (p := p) (x := some (.ok s)) (by rw [hm]; simp)
  exact h.ok_message hm' hms

/-! ## Fixed calls for the runs below -/

/-- The address of the peer's one endpoint in the runs below, and our socket's. -/
def exampleAddr : SocketAddr := .v4 ⟨⟨⟨[127, 0, 0, 1], rfl⟩⟩, 5000⟩

/-- Our secret and the peer's in the runs below. -/
def ourExampleSecret : Bytes4 := ⟨[1, 2, 3, 4], rfl⟩

def theirExampleSecret : Bytes4 := ⟨[5, 6, 7, 8], rfl⟩

/-- A call against a peer with the endpoints `eps`. -/
def exampleCall (eps : List MappedSocketAddr) : Call :=
  ⟨⟨.v4, .ok exampleAddr⟩, ⟨ourExampleSecret⟩, ⟨eps, theirExampleSecret⟩⟩

/-- The one connector connects, exchanges secrets and reports; the main thread
receives its stream. -/
def connectorWinsRun : List Act :=
  [.localAddr, .bind .allOk, .listen (.ok ()),
   .worker 0 (.connect (.ok ())), .worker 0 (.setWriteTimeout (.ok ())),
   .worker 0 (.setReadTimeout (.ok ())), .worker 0 (.write (.ok 2)), .worker 0 (.write (.ok 2)),
   .worker 0 (.read (.ok [5])), .worker 0 (.read (.ok [6, 7, 8])), .send 0, .recv]

/-- Every `Some(Ok(s))` on the results channel, and every stream the call
returns, is held by a worker of this call that wrote our whole secret on it and
then read exactly their secret. -/
theorem punched_stream_wrote_then_read {p : Peer} (hp : Reachable c p) :
    (∀ m ∈ p.chan.sent, ∀ s, m.msg = some (.ok s) →
      ∃ w ∈ p.workers, w.stream = s ∧ WroteThenRead c.ourSecret.toList c.theirSecret.toList w.log) ∧
    (∀ s ws, p.main = .returned (.wOk s ws) →
      ∃ w ∈ p.workers, w.stream = s ∧ WroteThenRead c.ourSecret.toList c.theirSecret.toList w.log) := by
  have h := Inv.reachable hp
  exact ⟨fun m hm s hs => h.ok_message hm hs, fun s ws hret => h.returned_stream hret⟩

theorem punched_stream_wrote_then_read_connector_run :
    ∃ p, Reachable (exampleCall [⟨exampleAddr, false⟩]) p ∧ p.main = .returned (.wOk 0 []) ∧
      (∃ w ∈ p.workers, w.stream = 0 ∧
        WroteThenRead ourExampleSecret.toList theirExampleSecret.toList w.log) := by
  obtain ⟨p, hp, hP⟩ := reachable_of_run (c := exampleCall [⟨exampleAddr, false⟩])
    (l := connectorWinsRun) (P := fun p => decide (p.main = .returned (.wOk 0 []))) (by decide)
  simp only [decide_eq_true_eq] at hP
  exact ⟨p, hp, hP, (punched_stream_wrote_then_read hp).2 0 [] hP⟩

/-- An accept error, then the connector wins: the result carries the error. -/
def acceptErrorRun : List Act :=
  [.localAddr, .bind .allOk, .listen (.ok ()), .accept (.error ⟨.other 24⟩), .acceptorSend,
   .worker 0 (.connect (.ok ())), .worker 0 (.setWriteTimeout (.ok ())),
   .worker 0 (.setReadTimeout (.ok ())), .worker 0 (.write (.ok 4)),
   .worker 0 (.read (.ok [5, 6, 7, 8])), .send 0, .recv, .recv]

/-- The result loop against the channel: while it runs, it has received the
failures it holds as warnings, in order; it returns at the first `Some(Ok(_))`
or `None` it receives, with the failures before it as warnings; it never
panics; no thread sends twice, and each message is what its sender may send. -/
theorem result_loop_returns_first_terminal {p : Peer} (hp : Reachable c p) :
    (∀ a ws, p.main = .receiving a ws →
      (p.chan.sent.take p.chan.delivered).map Sent.msg = ws.map fun w => some (.error w)) ∧
    (∀ s ws, p.main = .returned (.wOk s ws) →
      (p.chan.sent.take p.chan.delivered).map Sent.msg =
        ws.map (fun w => some (.error w)) ++ [some (.ok s)]) ∧
    (∀ ws, p.main = .returned (.wErr (.timedOut ws)) →
      (p.chan.sent.take p.chan.delivered).map Sent.msg = ws.map (fun w => some (.error w)) ++ [none]) ∧
    p.main ≠ .panicked ∧
    (p.chan.sent.map Sent.origin).Nodup ∧
    (∀ m ∈ p.chan.sent, SentOk c p m) := by
  have h := Inv.reachable hp
  have hm := h.mainOk
  refine ⟨fun a ws hr => ?_, fun s ws hr => ?_, fun ws hr => ?_, fun hr => ?_, h.nodup, h.sentOk⟩
  all_goals simp only [MainOk, LoopLog, hr, List.append_nil] at hm
  all_goals exact hm

theorem result_loop_returns_first_terminal_accept_error_run :
    ∃ p, Reachable (exampleCall [⟨exampleAddr, false⟩]) p ∧
      p.main = .returned (.wOk 0 [.accept ⟨.other 24⟩]) ∧
      (p.chan.sent.take p.chan.delivered).map Sent.msg =
        [some (.error (.accept ⟨.other 24⟩)), some (.ok 0)] ∧
      (p.chan.sent.map Sent.origin).Nodup := by
  obtain ⟨p, hp, hP⟩ := reachable_of_run (c := exampleCall [⟨exampleAddr, false⟩])
    (l := acceptErrorRun) (P := fun p => decide (p.main = .returned (.wOk 0 [.accept ⟨.other 24⟩])))
    (by decide)
  simp only [decide_eq_true_eq] at hP
  have h := result_loop_returns_first_terminal hp
  exact ⟨p, hp, hP, h.2.1 _ _ hP, h.2.2.2.2.1⟩

/-! ## After the call returns -/

/-- `results_tx.send` once `results_rx` is gone changes nothing. -/
theorem Channel.send_of_not_rxAlive {ch : Channel} (m : Sent) (h : ch.rxAlive = false) :
    ch.send m = ch := by
  simp [Channel.send, h]

/-- Once the call has returned and `results_rx` is dropped, a step of the
threads still running changes neither the result nor the channel: what they
send is lost. -/
theorem Peer.step_after_return {p q : Peer} {a : Act}
    {r : WResult StreamId TcpPunchHoleWarning TcpPunchHoleError} (hr : p.main = .returned r)
    (hrx : p.chan.rxAlive = false) (hs : p.step c a = some q) :
    q.main = p.main ∧ q.chan = p.chan := by
  cases a with
  | localAddr | bind _ | listen _ | recv => simp [Peer.step, hr] at hs
  | worker i ev =>
    simp only [Peer.step] at hs
    split at hs
    · obtain ⟨_, -, rfl⟩ := Option.map_eq_some'.mp hs
      exact ⟨rfl, rfl⟩
    · cases hs
  | send _ | accept _ | acceptorSend | wake _ | sentinelSend | tick _ =>
    simp only [Peer.step] at hs
    repeat' split at hs
    all_goals cases hs
    all_goals simp_all [Channel.send_of_not_rxAlive]

/-- Every run from a returned call keeps its result and its channel. -/
theorem Peer.run_after_return {r : WResult StreamId TcpPunchHoleWarning TcpPunchHoleError} :
    ∀ {p q : Peer} {acts : List Act}, p.main = .returned r → p.chan.rxAlive = false →
      p.run c acts = some q → q.main = p.main ∧ q.chan = p.chan
  | _, _, [], _, _, h => by cases h; exact ⟨rfl, rfl⟩
  | p, q, a :: acts, hr, hrx, h => by
    obtain ⟨p', hs, h⟩ := Option.bind_eq_some.mp h
    obtain ⟨hm, hc⟩ := Peer.step_after_return hr hrx hs
    obtain ⟨hm', hc'⟩ := Peer.run_after_return (hm.trans hr) (hc ▸ hrx) h
    exact ⟨hm'.trans hm, hc'.trans hc⟩

/-- A step into a returned state drops `results_rx`, and no step brings it back. -/
theorem Peer.step_dropped {p q : Peer} {a : Act} (hs : p.step c a = some q)
    (h : ∀ r, p.main = .returned r → p.chan.rxAlive = false) :
    ∀ r, q.main = .returned r → q.chan.rxAlive = false := by
  intro r hq
  cases a with
  | worker i ev =>
    simp only [Peer.step] at hs
    split at hs
    · obtain ⟨_, -, rfl⟩ := Option.map_eq_some'.mp hs
      exact h r hq
    · cases hs
  | recv =>
    simp only [Peer.step, Peer.recv] at hs
    repeat' split at hs
    all_goals cases hs
    all_goals simp_all [Peer.finish, Peer.ret]
  | localAddr | bind _ | listen _ | send _ | accept _ | acceptorSend | wake _ | sentinelSend
  | tick _ =>
    simp only [Peer.step] at hs
    repeat' split at hs
    all_goals cases hs
    all_goals simp_all [Peer.ret]

/-- In every run, a call that has returned has dropped `results_rx`. -/
theorem Peer.dropped_of_reachable {allowed : Act → Prop} {p : Peer}
    (hp : ReachableBy c allowed p) : ∀ r, p.main = .returned r → p.chan.rxAlive = false := by
  induction hp with
  | init => exact fun _ h => by cases h
  | step _ _ _ hs ih => exact Peer.step_dropped hs ih

/-- What a failed setup has started. After `local_addr()` fails, no thread;
after the `k`-th `new_reusably_bound_socket` fails, the connectors of the first
`k - 1` endpoints; after `listen` fails, one connector per endpoint. Never the
acceptor or the sentinel. The main thread received no message, and nothing the
connectors do afterwards reaches it: every run from there keeps the result and
the channel as they are. -/
theorem setup_failure_started_threads {p : Peer} (hp : Reachable c p) :
    (∀ e, p.main = .returned (.wErr (.socketLocalAddr e)) → p.workers = [] ∧ Idle p) ∧
    (∀ e, p.main = .returned (.wErr (.newReusablyBoundSocket e)) →
      ∃ k < c.theirEndpoints.length, Connectors c k p ∧ Idle p) ∧
    (∀ e, p.main = .returned (.wErr (.listen e)) →
      Connectors c c.theirEndpoints.length p ∧ Idle p) ∧
    (∀ e, p.main = .returned (.wErr e) → (∀ ws, e ≠ .timedOut ws) →
      p.chan.delivered = 0 ∧
      ∀ acts q, p.run c acts = some q → q.main = p.main ∧ q.chan = p.chan) := by
  have h := Inv.reachable hp
  have hs := h.setupOk
  refine ⟨fun e hr => ?_, fun e hr => ?_, fun e hr => ?_, fun e hr he => ⟨?_, fun acts q hq =>
    Peer.run_after_return hr (Peer.dropped_of_reachable hp _ hr) hq⟩⟩
  · simp only [SetupOk, hr] at hs
    exact ⟨by simpa [Connectors] using hs.1, hs.2⟩
  · simpa only [SetupOk, hr] using hs
  · simpa only [SetupOk, hr] using hs
  · have hm := h.mainOk
    rcases e with _ | _ | _ | ws
    iterate 3 simpa only [MainOk, hr] using hm
    exact (he ws rfl).elim

theorem setup_failure_started_threads_listen_run :
    ∃ p, Reachable (exampleCall [⟨exampleAddr, false⟩]) p ∧
      p.main = .returned (.wErr (.listen ⟨.other 98⟩)) ∧
      Connectors (exampleCall [⟨exampleAddr, false⟩]) 1 p ∧ Idle p ∧ p.chan.delivered = 0 ∧
      ∀ acts q, p.run (exampleCall [⟨exampleAddr, false⟩]) acts = some q →
        q.main = p.main ∧ q.chan = p.chan := by
  obtain ⟨p, hp, hP⟩ := reachable_of_run (c := exampleCall [⟨exampleAddr, false⟩])
    (l := [.localAddr, .bind .allOk, .listen (.error ⟨.other 98⟩)])
    (P := fun p => decide (p.main = .returned (.wErr (.listen ⟨.other 98⟩)))) (by decide)
  simp only [decide_eq_true_eq] at hP
  have h := setup_failure_started_threads hp
  obtain ⟨hc, hi⟩ := h.2.2.1 _ hP
  exact ⟨p, hp, hP, hc, hi, h.2.2.2 _ hP fun _ => by simp⟩

/-- `listen` fails after the connector of the one endpoint started; the connector
then connects, writes our secret and reads the peer's. -/
def listenFailureRun : List Act :=
  [.localAddr, .bind .allOk, .listen (.error ⟨.other 98⟩),
   .worker 0 (.connect (.ok ())), .worker 0 (.setWriteTimeout (.ok ())),
   .worker 0 (.setReadTimeout (.ok ())), .worker 0 (.write (.ok 4)),
   .worker 0 (.read (.ok [5, 6, 7, 8]))]

/-- After `listen` fails and the call returns, its connector can still connect,
write our secret, read theirs and hold an `Ok` report. -/
theorem listen_failure_leaves_handshaking_connector :
    ∃ p, Reachable (exampleCall [⟨exampleAddr, false⟩]) p ∧
      p.main = .returned (.wErr (.listen ⟨.other 98⟩)) ∧
      ∃ w ∈ p.workers, w.role = .connector exampleAddr ∧ w.stage = .report (.ok w.stream) ∧
        WroteThenRead ourExampleSecret.toList theirExampleSecret.toList w.log := by
  obtain ⟨p, hp, hP⟩ := reachable_of_run (c := exampleCall [⟨exampleAddr, false⟩]) (l := listenFailureRun)
    (P := fun p => decide (p.main = .returned (.wErr (.listen ⟨.other 98⟩)) ∧
      p.workers = [⟨.connector exampleAddr, .report (.ok 0), 0,
        [.wrote [1, 2, 3, 4], .read [5, 6, 7, 8]]⟩])) (by decide)
  simp only [decide_eq_true_eq] at hP
  obtain ⟨hmain, hw⟩ := hP
  refine ⟨p, hp, hmain, ?_⟩
  rw [hw]
  exact ⟨_, List.mem_singleton_self _, rfl, rfl, [[1, 2, 3, 4]], [[5, 6, 7, 8]], rfl, rfl, rfl⟩

/-- With no endpoint, `park_timeout` returns at once and the sentinel sends `None`. -/
def earlyTimeoutRun : List Act := [.localAddr, .listen (.ok ()), .wake .spurious, .sentinelSend, .recv]

/-- The sentinel can wake spuriously at once, and the call then returns
`TimedOut` before 20 s have passed. -/
theorem timeout_sentinel_fires_early :
    ∃ p, Reachable (exampleCall []) p ∧ p.main = .returned (.wErr (.timedOut [])) ∧
      ∃ since why, p.sentinel = .done since why ∧ p.now < since + timeoutMs := by
  obtain ⟨p, hp, hP⟩ := reachable_of_run (c := exampleCall []) (l := earlyTimeoutRun)
    (P := fun p => decide (p.main = .returned (.wErr (.timedOut [])) ∧
      p.sentinel = .done 0 .spurious ∧ p.now = 0)) (by decide)
  simp only [decide_eq_true_eq] at hP
  obtain ⟨hmain, hsen, hnow⟩ := hP
  exact ⟨p, hp, hmain, 0, .spurious, hsen, by simp [hnow, timeoutMs]⟩

/-! ## No early timeout without spurious wake-ups -/

/-- A run whose `park_timeout` never returns spuriously. -/
def NoSpurious (a : Act) : Prop := a ≠ .wake .spurious

theorem sentinel_not_spurious {p : Peer} (hp : ReachableBy c NoSpurious p) :
    ∀ since, p.sentinel ≠ .firing since .spurious ∧ p.sentinel ≠ .done since .spurious := by
  induction hp with
  | init => simp [Peer.init]
  | step a _ ha hs ih =>
    intro since
    rcases Peer.step_sentinel hs with h | ⟨since', h⟩ | ⟨since', why, rfl, h⟩ | ⟨since', why, hp, h⟩
    · rw [h]; exact ih since
    · simp [h]
    · simp only [h, ne_eq, Sentinel.firing.injEq, not_and, reduceCtorEq, not_false_eq_true,
        and_true]
      rintro rfl rfl
      exact ha rfl
    · simp only [h, ne_eq, reduceCtorEq, not_false_eq_true, Sentinel.done.injEq, not_and, true_and]
      rintro rfl rfl
      exact (ih since').1 hp

/-- In a run whose `park_timeout` never returns spuriously, a `TimedOut` result
comes from the sentinel woken by its timeout, no earlier than 20 s after it
started. -/
theorem timedOut_not_before_deadline {p : Peer} (hp : ReachableBy c NoSpurious p)
    {ws : List TcpPunchHoleWarning} (hr : p.main = .returned (.wErr (.timedOut ws))) :
    ∃ since, p.sentinel = .done since .timedOut ∧ since + timeoutMs ≤ p.now := by
  have h := Inv.reachable hp
  have hm := h.mainOk
  simp only [MainOk, hr, LoopLog] at hm
  obtain ⟨m, hm', hmsg⟩ := mem_sent_of_delivered (p := p) (x := none) (by rw [hm]; simp)
  have hok := h.sentOk m hm'
  rcases m with ⟨i | k | _, msg⟩ <;> simp only [SentOk] at hok <;> simp only at hmsg <;> subst hmsg
  · obtain ⟨-, -, -, r, hr', -⟩ := hok
    cases hr'
  · obtain ⟨-, e, he⟩ := hok
    cases he
  · obtain ⟨-, since, why, hdone⟩ := hok
    cases why with
    | timedOut => exact ⟨since, hdone, h.timerOk since (.inr hdone)⟩
    | unparked => exact absurd rfl ((h.sentinelOk since (.inr hdone)).2 _ hm')
    | spurious => exact absurd hdone (sentinel_not_spurious hp since).2

/-- The sentinel wakes at its timeout and the main thread times out. -/
def deadlineRun : List Act :=
  [.localAddr, .listen (.ok ()), .tick timeoutMs, .wake .timedOut, .sentinelSend, .recv]

theorem timedOut_not_before_deadline_run :
    ∃ p, ReachableBy (exampleCall []) NoSpurious p ∧ p.main = .returned (.wErr (.timedOut [])) ∧
      ∃ since, p.sentinel = .done since .timedOut ∧ since + timeoutMs ≤ p.now := by
  obtain ⟨p, hp, hP⟩ := reachableBy_of_run (c := exampleCall []) (A := NoSpurious)
    (l := deadlineRun) (P := fun p => decide (p.main = .returned (.wErr (.timedOut []))))
    (by simp [deadlineRun, NoSpurious]) (by decide)
  simp only [decide_eq_true_eq] at hP
  exact ⟨p, hp, hP, timedOut_not_before_deadline hp hP⟩

/-! ## Every call can return an accepted stream -/

/-- The spawning loop binds a socket and starts a connector for each endpoint
left, in order and on consecutive streams, and changes nothing else. -/
theorem Peer.run_bind_all (c : Call) (a : SocketAddr) :
    ∀ (rest : List MappedSocketAddr) (p : Peer), p.main = .spawning a rest →
      ∃ ws : List Worker, ws.length = rest.length ∧
        (∀ i, ws[i]? = rest[i]?.map fun e => Worker.connector e.addr (p.nextStream + i)) ∧
        p.run c (rest.map fun _ => .bind .allOk) =
          some { p with main := .spawning a [], workers := p.workers ++ ws,
                        nextStream := p.nextStream + rest.length }
  | [], p, hp => ⟨[], rfl, fun _ => rfl, by cases p; subst hp; simp [Peer.run]⟩
  | e :: rest, p, hp => by
    obtain ⟨ws, hlen, hidx, hrun⟩ := Peer.run_bind_all c a rest
      { p with main := .spawning a rest, workers := p.workers ++ [.connector e.addr p.nextStream],
               nextStream := p.nextStream + 1 } rfl
    refine ⟨.connector e.addr p.nextStream :: ws, by simp [hlen], fun i => ?_, ?_⟩
    · cases i with
      | zero => simp
      | succ i => simpa [Nat.add_assoc, Nat.add_comm 1] using hidx i
    · simp only [List.map_cons, Peer.run, Peer.step, hp, newReusablyBoundSocket_allOk,
        Option.some_bind, hrun, List.append_assoc, List.singleton_append, List.length_cons]
      rw [Nat.add_assoc, Nat.add_comm 1]

/-- A call in its result loop after a setup in which every call succeeded:
the workers `ws` on the streams from `0`, the acceptor accepting, the sentinel
parked since the start, nothing sent yet. -/
def Peer.listening (a : SocketAddr) (ws : List Worker) : Peer :=
  ⟨.receiving a [], ws, .accepting, 0, .parked 0, ⟨[], 0, true⟩, false, false, ws.length, 0⟩

/-- With every call answered `Ok`, the setup of a call starts a connector for
each of the peer's endpoints, in order, on the streams from `0`, and listens. -/
theorem Peer.run_setup (c : Call) {a : SocketAddr} (ha : c.socket.localAddr = .ok a) :
    ∃ ws : List Worker, ws.length = c.theirEndpoints.length ∧
      (∀ i, ws[i]? = c.theirEndpoints[i]?.map fun e => Worker.connector e.addr i) ∧
      Peer.init.run c (.localAddr :: (c.theirEndpoints.map fun _ => .bind .allOk) ++
        [.listen (.ok ())]) = some (Peer.listening a ws) := by
  obtain ⟨ws, hlen, hidx, hrun⟩ := Peer.run_bind_all c a c.theirEndpoints
    ⟨.spawning a c.theirEndpoints, [], .notStarted, 0, .notStarted, ⟨[], 0, true⟩, false, false,
      0, 0⟩ rfl
  have h₁ : Peer.init.step c .localAddr = some ⟨.spawning a c.theirEndpoints, [], .notStarted, 0,
      .notStarted, ⟨[], 0, true⟩, false, false, 0, 0⟩ := by
    simp [Peer.step, Peer.init, ha]
  refine ⟨ws, hlen, by simpa using hidx, ?_⟩
  rw [Peer.run_append]
  simp only [Peer.run, h₁, Option.some_bind, hrun]
  simp [Peer.run, Peer.step, Peer.listening, hlen]

/-- Whatever the peer's endpoints, a call whose socket reports its address can
return a stream it accepted: the connectors stay at their `connect`, a
connection arrives, its handshake worker exchanges the secrets, and the main
thread receives that worker's report first. The stream is the one numbered
after all the connectors' sockets. -/
theorem accepted_stream_can_return (c : Call) {a : SocketAddr}
    (ha : c.socket.localAddr = .ok a) :
    ∃ p, Reachable c p ∧ p.main = .returned (.wOk c.theirEndpoints.length []) := by
  obtain ⟨ws, hlen, -, hsetup⟩ := Peer.run_setup c ha
  obtain ⟨b, bs, hsec, hbs⟩ := c.theirSecret.exists_toList_eq_cons
  have hrun : ((Peer.listening a ws).run c
      [.accept (.ok ()), .worker ws.length (.setWriteTimeout (.ok ())),
       .worker ws.length (.setReadTimeout (.ok ())), .worker ws.length (.write (.ok 4)),
       .worker ws.length (.read (.ok (b :: bs))), .send ws.length, .recv]).map Peer.main =
      some (.returned (.wOk ws.length [])) := by
    simp only [Peer.listening, Peer.run, Peer.step, Worker.listenHandshake, Worker.step,
      reduceCtorEq, imp_self, implies_true, Worker.writeAll, Worker.readExact, List.length_cons,
      afterRead, List.length_append, hsec, Channel.send, Peer.recv, Peer.finish, Peer.ret,
      Option.bind_some, Option.some_bind, Bool.false_eq_true, ↓reduceIte, List.length_singleton,
      Nat.lt_add_one, List.getElem?_eq_getElem, List.getElem_concat_length, le_refl,
      List.set_append_right, Nat.sub_self, List.set_cons_zero, Option.map_some', Nat.reduceAdd,
      Octets.length_toList, lt_self_iff_false, List.nil_append, List.length_nil, hbs,
      Nat.zero_add, ↓reduceDIte, List.singleton_append, List.getElem_cons_zero]
  obtain ⟨p, hp, hmain⟩ := Option.map_eq_some'.mp hrun
  have hl : Reachable c (Peer.listening a ws) := ReachableBy.init.run (fun _ _ => trivial) hsetup
  exact ⟨p, hl.run (fun _ _ => trivial) hp, hlen ▸ hmain⟩

theorem accepted_stream_can_return_no_endpoints :
    (exampleCall []).socket.localAddr = .ok exampleAddr ∧
    ∃ p, Reachable (exampleCall []) p ∧
      p.main = .returned (.wOk (exampleCall []).theirEndpoints.length []) :=
  ⟨rfl, accepted_stream_can_return _ rfl⟩

end NatTraversal.Punch
