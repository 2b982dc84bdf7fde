import NatTraversal.Punch.Soundness

/-!
# Two peers punching a hole to each other

`tcp_punch_hole` runs on both sides of a rendezvous, each call with the other
side's public info. `World` holds both calls and the TCP connections the
network has set up between their sockets. A connection joins a connector of
one peer to the listener of the other, where it waits in the backlog until the
acceptor accepts it, or two connectors to each other by a simultaneous open.
The bytes a worker writes on its stream travel on its connection to the other
end, which reads them in any pieces. Everything else a thread does, every
failure included, is a step of its own peer alone (`Act.isLocal`).

A world step moves each peer by a step of its own call (`World.stepA_cases`),
so everything proved of one call holds of each peer in the world
(`WorldReachable.peers`). Over it:

* `WorldInv.reachable`: a worker that has moved bytes holds a stream that is
  its peer's end of a connection between the two peers;
* `both_ok_streams_on_connections`: each stream a call returns is its peer's
  end of a connection between the two, and when the network sets up at most
  one connection, the two streams are its two ends. With two connections the
  peers can return ends of different ones (`punch_hole_peers_disagree` in
  `NatTraversal.Punch.Network`).

The world keeps no addresses: a connector reaches the other peer's listener
whatever it dials. It is an over-approximation of the network, so its safety
results hold of every run on a network (`NetWorldReachable.world`).
-/

set_option autoImplicit false

namespace NatTraversal.Punch

/-! ## Steps of one peer that move bytes -/

/-- An answer to a `write` or `read` call that moved bytes. -/
def Event.transfers : Event → Bool
  | .write (.ok (_ + 1)) => true
  | .read (.ok (_ :: _)) => true
  | _ => false

/-- A call that moved no bytes leaves the worker's transfer log as it was. -/
theorem Worker.step_log {our their : Bytes4} {w w' : Worker} {ev : Event}
    (h : w.step our their ev = some w') (hev : ev.transfers = false) : w'.log = w.log := by
  rcases w with ⟨role, stage, s, log⟩
  cases ev with
  | write r =>
    cases stage <;> simp only [Worker.step, reduceCtorEq] at h
    rcases r with _ | _ | n
    · simp only [Worker.writeAll] at h; split_ifs at h <;> cases h <;> rfl
    · cases h; rfl
    · simp [Event.transfers] at hev
  | read r =>
    cases stage <;> simp only [Worker.step, reduceCtorEq] at h
    rcases r with _ | _ | ⟨b, bs⟩
    · simp only [Worker.readExact] at h; split_ifs at h <;> cases h <;> rfl
    · cases h; rfl
    · simp [Event.transfers] at hev
  | connect r | setWriteTimeout r | setReadTimeout r =>
    cases stage <;> cases r <;> simp [Worker.step, Worker.fail] at h <;> rw [← h]

/-- An action of a peer in which no connection between the peers takes part:
anything but a successful `connect` or `accept`, or a `write` or `read` that
moved bytes. -/
def Act.isLocal : Act → Bool
  | .accept (.ok ()) => false
  | .worker _ (.connect (.ok ())) => false
  | .worker _ ev => !ev.transfers
  | _ => true

/-- An action that moved bytes. -/
def Act.transfers : Act → Bool
  | .worker _ ev => ev.transfers
  | _ => false

theorem Act.transfers_of_isLocal {act : Act} (h : act.isLocal = true) : act.transfers = false := by
  rcases act with _ | _ | _ | _ | ⟨i, ev⟩ | _ | _ | _ | _ | _ | _ <;> simp_all [Act.transfers]
  rcases ev with ⟨_ | _⟩ | _ | _ | _ | _ <;> simp_all [Act.isLocal]

/-- A step of a call does nothing to its workers; or starts one, with the next
stream and no transfers; or changes the `i`-th by a call of that worker or by
its sending its outcome. -/
theorem Peer.step_workers {c : Call} {p q : Peer} {act : Act} (hs : p.step c act = some q) :
    (q.workers = p.workers ∧ q.nextStream = p.nextStream) ∨
    (∃ wk, q.workers = p.workers ++ [wk] ∧ wk.stream = p.nextStream ∧ wk.log = [] ∧
      q.nextStream = p.nextStream + 1) ∨
    (∃ i wk wk', p.workers[i]? = some wk ∧ q.workers = p.workers.set i wk' ∧
      q.nextStream = p.nextStream ∧
      ((∃ ev, act = .worker i ev ∧ wk.step c.ourSecret c.theirSecret ev = some wk') ∨
        (act = .send i ∧ wk' = { wk with stage := .done }))) := by
  cases act with
  | worker i ev =>
    simp only [Peer.step] at hs
    split at hs
    · next wk hw =>
      obtain ⟨wk', hstep, rfl⟩ := Option.map_eq_some'.mp hs
      exact .inr (.inr ⟨i, wk, wk', hw, rfl, rfl, .inl ⟨ev, rfl, hstep⟩⟩)
    · cases hs
  | send i =>
    simp only [Peer.step] at hs
    split at hs
    · next wk hw =>
      split at hs
      · cases hs
        exact .inr (.inr ⟨i, wk, _, hw, rfl, rfl, .inr ⟨rfl, rfl⟩⟩)
      · cases hs
    · cases hs
  | _ =>
    simp only [Peer.step, Peer.recv] at hs
    repeat' split at hs
    all_goals cases hs
    all_goals first
      | exact .inl ⟨rfl, rfl⟩
      | exact .inr (.inl ⟨_, rfl, rfl, rfl, rfl⟩)

/-- A step that moves no bytes keeps every worker's stream and transfers, and
starts workers with none. -/
theorem Peer.step_quiet_workers {c : Call} {p q : Peer} {act : Act} (hs : p.step c act = some q)
    (hact : act.transfers = false) :
    q.workers = p.workers ∨ (∃ wk, q.workers = p.workers ++ [wk] ∧ wk.log = []) ∨
      ∃ i wk wk', p.workers[i]? = some wk ∧ q.workers = p.workers.set i wk' ∧
        wk'.stream = wk.stream ∧ wk'.log = wk.log := by
  rcases Peer.step_workers hs with ⟨hw, -⟩ | ⟨wk, hw, -, hlog, -⟩ | ⟨i, wk, wk', hi, hw, -, hev⟩
  · exact .inl hw
  · exact .inr (.inl ⟨wk, hw, hlog⟩)
  · refine .inr (.inr ⟨i, wk, wk', hi, hw, ?_⟩)
    rcases hev with ⟨ev, rfl, hstep⟩ | ⟨-, rfl⟩
    exacts [⟨(Worker.step_frame hstep).2.1, Worker.step_log hstep hact⟩, ⟨rfl, rfl⟩]

/-- The workers with a nonempty transfer log hold streams in `S`. -/
def Peer.LogsOn (S : StreamId → Prop) (p : Peer) : Prop :=
  ∀ w ∈ p.workers, w.log ≠ [] → S w.stream

theorem Peer.LogsOn.mono {S S' : StreamId → Prop} {p : Peer} (h : p.LogsOn S)
    (hS : ∀ s, S s → S' s) : p.LogsOn S' :=
  fun w hw hlog => hS _ (h w hw hlog)

/-- Workers that are new with an empty log, or copies of old workers with the
same stream and log, keep `LogsOn`. -/
theorem Peer.LogsOn.of_workers {S : StreamId → Prop} {p q : Peer} (h : p.LogsOn S)
    (hw : ∀ w ∈ q.workers, w.log = [] ∨ ∃ w₀ ∈ p.workers, w₀.stream = w.stream ∧ w₀.log = w.log) :
    q.LogsOn S := by
  intro w hq hlog
  obtain e | ⟨w₀, hw₀, hs, hl⟩ := hw w hq
  · exact absurd e hlog
  · exact hs ▸ h w₀ hw₀ (hl ▸ hlog)

theorem Peer.LogsOn.of_eq {S : StreamId → Prop} {p q : Peer} (h : p.LogsOn S)
    (hw : q.workers = p.workers) : q.LogsOn S :=
  h.of_workers fun w hq => .inr ⟨w, hw ▸ hq, rfl, rfl⟩

theorem Peer.LogsOn.of_append {S : StreamId → Prop} {p q : Peer} {w' : Worker} (h : p.LogsOn S)
    (hw : q.workers = p.workers ++ [w']) (hlog : w'.log = []) : q.LogsOn S :=
  h.of_workers fun w hq => by
    rw [hw, List.mem_append, List.mem_singleton] at hq
    rcases hq with hq | rfl
    · exact .inr ⟨w, hq, rfl, rfl⟩
    · exact .inl hlog

/-- A step of a worker keeps the other workers and the worker's stream, and
moves bytes only on that stream. -/
theorem Peer.LogsOn.step_worker {S : StreamId → Prop} {c : Call} {p q : Peer} {i : Nat}
    {ev : Event} {wk : Worker} (h : p.LogsOn S) (hs : p.step c (.worker i ev) = some q)
    (hw : p.workers[i]? = some wk) (hS : ev.transfers = true → S wk.stream) : q.LogsOn S := by
  simp only [Peer.step, hw] at hs
  obtain ⟨w', hstep, rfl⟩ := Option.map_eq_some'.mp hs
  intro x hx hlog
  rcases List.mem_or_eq_of_mem_set hx with hx | rfl
  · exact h x hx hlog
  · rw [(Worker.step_frame hstep).2.1]
    cases hev : ev.transfers
    · rw [Worker.step_log hstep hev] at hlog
      exact h wk (List.getElem?_mem hw) hlog
    · exact hS hev

/-- A step that moves no bytes keeps every worker's transfer log. -/
theorem Peer.LogsOn.step_quiet {S : StreamId → Prop} {c : Call} {p q : Peer} {act : Act}
    (h : p.LogsOn S) (hs : p.step c act = some q) (hact : act.transfers = false) :
    q.LogsOn S := by
  rcases Peer.step_quiet_workers hs hact with hw | ⟨wk, hw, hlog⟩ | ⟨i, wk, wk', hi, hw, hst, hlog⟩
  · exact h.of_eq hw
  · exact h.of_append hw hlog
  · refine h.of_workers fun x hx => .inr ?_
    rw [hw] at hx
    rcases List.mem_or_eq_of_mem_set hx with hx | rfl
    · exact ⟨x, hx, rfl, rfl⟩
    · exact ⟨wk, List.getElem?_mem hi, hst.symm, hlog.symm⟩

/-! ## Connections between the peers -/

/-- A TCP connection between the peers' sockets: A's end and B's end once each
side holds a stream for it (a connection to a listener waits in the backlog
until it is accepted), and the bytes in flight to each side. -/
structure Conn where
  aEnd : Option StreamId
  bEnd : Option StreamId
  toA : List UInt8
  toB : List UInt8
  deriving DecidableEq, Repr

/-- The same connection seen from B. -/
def Conn.swap (c : Conn) : Conn := ⟨c.bEnd, c.aEnd, c.toB, c.toA⟩

/-- The two calls of `tcp_punch_hole` and the connections between them. -/
structure World where
  a : Peer
  b : Peer
  conns : List Conn
  deriving DecidableEq, Repr

/-- Both calls made, no connection yet. -/
def World.init : World := ⟨.init, .init, []⟩

/-- The same world seen from B. -/
def World.swap (w : World) : World := ⟨w.b, w.a, w.conns.map Conn.swap⟩

/-- A move of A's threads. -/
inductive Move where
  /-- A step of a thread that involves no connection. -/
  | thread (act : Act)
  /-- A's `i`-th worker connects to B's listener; the connection waits in B's
  backlog. -/
  | dial (i : Nat)
  /-- A's `i`-th worker and B's `j`-th worker connect to each other. -/
  | simOpen (i j : Nat)
  /-- A's acceptor accepts the `k`-th connection. -/
  | accept (k : Nat)
  /-- A's `i`-th worker writes `n` bytes on the `k`-th connection. -/
  | write (i k n : Nat)
  /-- A's `i`-th worker reads `n` bytes from the `k`-th connection. -/
  | read (i k n : Nat)
  deriving DecidableEq

/-- A move of A's threads, with A's call `cA` and B's call `cB`. -/
def World.stepA (cA cB : Call) (w : World) : Move → Option World
  | .thread act =>
    if act.isLocal then (w.a.step cA act).map fun a => { w with a := a } else none
  | .dial i =>
    match w.a.workers[i]? with
    | some wk => (w.a.step cA (.worker i (.connect (.ok ())))).map fun a =>
        { w with a := a, conns := w.conns ++ [⟨some wk.stream, none, [], []⟩] }
    | none => none
  | .simOpen i j =>
    match w.a.workers[i]?, w.b.workers[j]? with
    | some wa, some wb =>
      match w.a.step cA (.worker i (.connect (.ok ()))), w.b.step cB (.worker j (.connect (.ok ()))) with
      | some a, some b => some ⟨a, b, w.conns ++ [⟨some wa.stream, some wb.stream, [], []⟩]⟩
      | _, _ => none
    | _, _ => none
  | .accept k =>
    match w.conns[k]? with
    | some conn =>
      if conn.aEnd = none then
        (w.a.step cA (.accept (.ok ()))).map fun a =>
          { w with
            a := a
            conns := if w.a.shutdown then w.conns
              else w.conns.set k { conn with aEnd := some w.a.nextStream } }
      else none
    | none => none
  | .write i k n =>
    match w.a.workers[i]?, w.conns[k]? with
    | some wk, some conn =>
      match wk.stage with
      | .writing rest =>
        if conn.aEnd = some wk.stream ∧ 0 < n then
          (w.a.step cA (.worker i (.write (.ok n)))).map fun a =>
            { w with a := a, conns := w.conns.set k { conn with toB := conn.toB ++ rest.take n } }
        else none
      | _ => none
    | _, _ => none
  | .read i k n =>
    match w.a.workers[i]?, w.conns[k]? with
    | some wk, some conn =>
      if conn.aEnd = some wk.stream ∧ 0 < n ∧ n ≤ conn.toA.length then
        (w.a.step cA (.worker i (.read (.ok (conn.toA.take n))))).map fun a =>
          { w with a := a, conns := w.conns.set k { conn with toA := conn.toA.drop n } }
      else none
    | _, _ => none

/-- A move of A's threads or of B's. -/
inductive WorldMove where
  | a (m : Move)
  | b (m : Move)
  deriving DecidableEq

/-- One move of the world; B's moves are A's moves of the swapped world. -/
def World.step (cA cB : Call) (w : World) : WorldMove → Option World
  | .a m => w.stepA cA cB m
  | .b m => (w.swap.stepA cB cA m).map World.swap

/-- The worlds some run of the two calls reaches. -/
inductive WorldReachable (cA cB : Call) : World → Prop
  | init : WorldReachable cA cB .init
  | step {w w' : World} (m : WorldMove) :
      WorldReachable cA cB w → w.step cA cB m = some w' → WorldReachable cA cB w'

/-- The moves `ms` made one after the other; `none` when one cannot be made. -/
def World.run (cA cB : Call) : World → List WorldMove → Option World
  | w, [] => some w
  | w, m :: ms => (w.step cA cB m).bind fun w' => w'.run cA cB ms

theorem WorldReachable.run {cA cB : Call} :
    ∀ {w w' : World} {ms : List WorldMove}, WorldReachable cA cB w →
      w.run cA cB ms = some w' → WorldReachable cA cB w'
  | w, w', [], hw, h => by cases h; exact hw
  | w, w', m :: ms, hw, h => by
    obtain ⟨w'', hs, h⟩ := Option.bind_eq_some.mp h
    exact WorldReachable.run (.step m hw hs) h

/-- A run from the start that ends in a world satisfying `P`, evaluated by
`decide`, shows a reachable world satisfying `P`. -/
theorem worldReachable_of_run {cA cB : Call} {ms : List WorldMove} {P : World → Bool}
    (h : (World.init.run cA cB ms).map P = some true) :
    ∃ w, WorldReachable cA cB w ∧ P w = true := by
  obtain ⟨w, hr, hP⟩ := Option.map_eq_some'.mp h
  exact ⟨w, WorldReachable.run .init hr, hP⟩

/-! ## What a move does -/

/-- Every end of a connection of `conns` is an end of a connection of
`conns'`. -/
def EndsGrow (conns conns' : List Conn) : Prop :=
  (∀ s, (∃ c ∈ conns, c.aEnd = some s) → ∃ c ∈ conns', c.aEnd = some s) ∧
  (∀ s, (∃ c ∈ conns, c.bEnd = some s) → ∃ c ∈ conns', c.bEnd = some s)

theorem EndsGrow.refl (conns : List Conn) : EndsGrow conns conns :=
  ⟨fun _ h => h, fun _ h => h⟩

theorem EndsGrow.append (conns extra : List Conn) : EndsGrow conns (conns ++ extra) :=
  ⟨fun _ ⟨c, hc, he⟩ => ⟨c, by simp [hc], he⟩, fun _ ⟨c, hc, he⟩ => ⟨c, by simp [hc], he⟩⟩

/-- Replacing a connection by one that keeps its ends, or gives A an end it
did not have, keeps every end. -/
theorem EndsGrow.set {conns : List Conn} {k : Nat} {c c' : Conn} (hk : conns[k]? = some c)
    (ha : ∀ s, c.aEnd = some s → c'.aEnd = some s) (hb : c'.bEnd = c.bEnd) :
    EndsGrow conns (conns.set k c') := by
  have hlt : k < conns.length := (List.getElem?_eq_some_iff.mp hk).1
  have hmem : c' ∈ conns.set k c' := List.getElem?_mem (List.getElem?_set_self hlt)
  have keep : ∀ x ∈ conns, x = c ∨ x ∈ conns.set k c' := by
    intro x hx
    obtain ⟨j, hj⟩ := List.getElem?_of_mem hx
    by_cases hjk : k = j
    · subst hjk; exact .inl (Option.some.inj (hj.symm.trans hk))
    · exact .inr (List.getElem?_mem ((List.getElem?_set_ne hjk).trans hj))
  constructor
  · rintro s ⟨x, hx, he⟩
    rcases keep x hx with rfl | hx'
    · exact ⟨c', hmem, ha s he⟩
    · exact ⟨x, hx', he⟩
  · rintro s ⟨x, hx, he⟩
    rcases keep x hx with rfl | hx'
    · exact ⟨c', hmem, hb ▸ he⟩
    · exact ⟨x, hx', he⟩

/-- What a move of A does: it keeps every end of every connection, and it is a
step of A's call that moves no bytes (B's call making the other half of a
simultaneous open), or a step of one of A's workers that moves bytes on a
stream which is A's end of a connection. -/
theorem World.stepA_cases {cA cB : Call} {w w' : World} {m : Move}
    (h : w.stepA cA cB m = some w') :
    EndsGrow w.conns w'.conns ∧
    ((∃ act, act.transfers = false ∧ w.a.step cA act = some w'.a ∧
        (w'.b = w.b ∨ ∃ j, w.b.step cB (.worker j (.connect (.ok ()))) = some w'.b)) ∨
      (∃ i ev wk, w.a.workers[i]? = some wk ∧ (∃ c ∈ w.conns, c.aEnd = some wk.stream) ∧
        w.a.step cA (.worker i ev) = some w'.a ∧ w'.b = w.b)) := by
  cases m with
  | thread act =>
    simp only [World.stepA] at h
    split_ifs at h with hl
    obtain ⟨a, ha, rfl⟩ := Option.map_eq_some'.mp h
    exact ⟨.refl _, .inl ⟨act, Act.transfers_of_isLocal hl, ha, .inl rfl⟩⟩
  | dial i =>
    simp only [World.stepA] at h
    split at h
    · obtain ⟨a, ha, rfl⟩ := Option.map_eq_some'.mp h
      exact ⟨.append _ _, .inl ⟨.worker i (.connect (.ok ())), rfl, ha, .inl rfl⟩⟩
    · cases h
  | simOpen i j =>
    simp only [World.stepA] at h
    split at h
    · split at h
      · next a b ha hb =>
        cases h
        exact ⟨.append _ _, .inl ⟨.worker i (.connect (.ok ())), rfl, ha, .inr ⟨j, hb⟩⟩⟩
      · cases h
    · cases h
  | accept k =>
    simp only [World.stepA] at h
    split at h
    · next conn hk =>
      split_ifs at h with hnone
      · obtain ⟨a, ha, rfl⟩ := Option.map_eq_some'.mp h
        exact ⟨.refl _, .inl ⟨.accept (.ok ()), rfl, ha, .inl rfl⟩⟩
      · obtain ⟨a, ha, rfl⟩ := Option.map_eq_some'.mp h
        exact ⟨.set hk (by simp [hnone]) rfl, .inl ⟨.accept (.ok ()), rfl, ha, .inl rfl⟩⟩
    · cases h
  | write i k n =>
    simp only [World.stepA] at h
    split at h
    · next wk conn hw hk =>
      split at h
      · split_ifs at h with hc
        obtain ⟨a, ha, rfl⟩ := Option.map_eq_some'.mp h
        exact ⟨.set hk (fun _ e => e) rfl,
          .inr ⟨i, _, wk, hw, ⟨conn, List.getElem?_mem hk, hc.1⟩, ha, rfl⟩⟩
      · cases h
    · cases h
  | read i k n =>
    simp only [World.stepA] at h
    split at h
    · next wk conn hw hk =>
      split_ifs at h with hc
      obtain ⟨a, ha, rfl⟩ := Option.map_eq_some'.mp h
      exact ⟨.set hk (fun _ e => e) rfl,
        .inr ⟨i, _, wk, hw, ⟨conn, List.getElem?_mem hk, hc.1⟩, ha, rfl⟩⟩
    · cases h

/-- Each peer moves by steps of its own call. -/
theorem World.stepA_peers {cA cB : Call} {w w' : World} {m : Move}
    (h : w.stepA cA cB m = some w') :
    (∃ act, w.a.step cA act = some w'.a) ∧ (w'.b = w.b ∨ ∃ act, w.b.step cB act = some w'.b) := by
  obtain ⟨-, ⟨act, -, ha, hb⟩ | ⟨i, ev, wk, -, -, ha, hb⟩⟩ := World.stepA_cases h
  · exact ⟨⟨act, ha⟩, hb.imp_right fun ⟨j, hj⟩ => ⟨_, hj⟩⟩
  · exact ⟨⟨_, ha⟩, .inl hb⟩

/-- In every run of the world, each peer is in a state its own call reaches,
so everything proved of one call holds of both. -/
theorem WorldReachable.peers {cA cB : Call} {w : World} (h : WorldReachable cA cB w) :
    Reachable cA w.a ∧ Reachable cB w.b := by
  induction h with
  | init => exact ⟨.init, .init⟩
  | step m _ hs ih =>
    cases m with
    | a m =>
      obtain ⟨⟨act, ha⟩, hb⟩ := World.stepA_peers hs
      refine ⟨.step act ih.1 trivial ha, ?_⟩
      rcases hb with hb | ⟨act', hb⟩
      · exact hb ▸ ih.2
      · exact .step act' ih.2 trivial hb
    | b m =>
      obtain ⟨w'', hs', rfl⟩ := Option.map_eq_some'.mp hs
      obtain ⟨⟨act, ha⟩, hb⟩ := World.stepA_peers hs'
      refine ⟨?_, .step act ih.2 trivial ha⟩
      rcases hb with hb | ⟨act', hb⟩
      · show Reachable cA w''.b
        rw [hb]
        exact ih.1
      · exact .step act' ih.1 trivial hb

/-! ## Bytes move only on connections between the peers -/

/-- Every worker that has moved bytes holds its peer's end of a connection. -/
structure WorldInv (w : World) : Prop where
  logsA : w.a.LogsOn fun s => ∃ c ∈ w.conns, c.aEnd = some s
  logsB : w.b.LogsOn fun s => ∃ c ∈ w.conns, c.bEnd = some s

theorem WorldInv.init : WorldInv .init :=
  ⟨fun w hw => by simp [World.init, Peer.init] at hw, fun w hw => by simp [World.init, Peer.init] at hw⟩

theorem WorldInv.swap {w : World} (h : WorldInv w) : WorldInv w.swap :=
  ⟨h.logsB.mono fun _ ⟨c, hc, he⟩ => ⟨c.swap, List.mem_map_of_mem _ hc, he⟩,
    h.logsA.mono fun _ ⟨c, hc, he⟩ => ⟨c.swap, List.mem_map_of_mem _ hc, he⟩⟩

theorem WorldInv.stepA {cA cB : Call} {w w' : World} {m : Move} (h : WorldInv w)
    (hs : w.stepA cA cB m = some w') : WorldInv w' := by
  obtain ⟨hg, ⟨act, hact, ha, hb⟩ | ⟨i, ev, wk, hw, hc, ha, hb⟩⟩ := World.stepA_cases hs
  · refine ⟨(h.logsA.step_quiet ha hact).mono hg.1, ?_⟩
    rcases hb with hb | ⟨j, hb⟩
    · exact hb ▸ h.logsB.mono hg.2
    · exact (h.logsB.step_quiet hb rfl).mono hg.2
  · exact ⟨(h.logsA.step_worker ha hw fun _ => hc).mono hg.1, hb ▸ h.logsB.mono hg.2⟩

theorem WorldInv.step {cA cB : Call} {w w' : World} {m : WorldMove} (h : WorldInv w)
    (hs : w.step cA cB m = some w') : WorldInv w' := by
  cases m with
  | a m => exact h.stepA hs
  | b m =>
    obtain ⟨w'', hs', rfl⟩ := Option.map_eq_some'.mp hs
    exact (h.swap.stepA hs').swap

theorem WorldInv.reachable {cA cB : Call} {w : World} (h : WorldReachable cA cB w) :
    WorldInv w := by
  induction h with
  | init => exact .init
  | step m _ hs ih => exact ih.step hs

/-- A log that read bytes is not empty. -/
theorem WroteThenRead.log_ne_nil {out inp : List UInt8} {log : List Transfer}
    (h : WroteThenRead out inp log) (hinp : inp ≠ []) : log ≠ [] := by
  obtain ⟨ws, rs, rfl, -, rfl⟩ := h
  intro hnil
  simp only [List.append_eq_nil, List.map_eq_nil_iff] at hnil
  simp [hnil.2] at hinp

/-- A stream a call returns is held by a worker that moved bytes on it. -/
theorem Peer.returned_stream_logsOn {c : Call} {p : Peer} {S : StreamId → Prop} {s : StreamId}
    {ws : List TcpPunchHoleWarning} (hp : Reachable c p) (hl : p.LogsOn S)
    (hret : p.main = .returned (.wOk s ws)) : S s := by
  obtain ⟨wk, hwk, rfl, hwr⟩ := (Inv.reachable hp).returned_stream hret
  refine hl wk hwk (hwr.log_ne_nil fun h => ?_)
  simpa [h] using c.theirSecret.length_toList

/-! ## Example calls -/

/-- The address of the other peer in the run below. -/
def peerExampleAddr : SocketAddr := .v4 ⟨⟨⟨[127, 0, 0, 2], rfl⟩⟩, 5001⟩

/-- A's call: our secret, and B's endpoint and secret. -/
def callA : Call :=
  ⟨⟨.v4, .ok exampleAddr⟩, ⟨ourExampleSecret⟩, ⟨[⟨peerExampleAddr, false⟩], theirExampleSecret⟩⟩

/-- B's call: B's secret, and A's endpoint and secret. -/
def callB : Call :=
  ⟨⟨.v4, .ok peerExampleAddr⟩, ⟨theirExampleSecret⟩, ⟨[⟨exampleAddr, false⟩], ourExampleSecret⟩⟩

/-! ## What the peers agree on -/

theorem mem_eq_of_length_le_one {α : Type} {l : List α} {x y : α} (hl : l.length ≤ 1)
    (hx : x ∈ l) (hy : y ∈ l) : x = y := by
  match l, hl with
  | [_], _ => simp only [List.mem_singleton] at hx hy; rw [hx, hy]

/-- When both calls return `WOk`, each returned stream is its peer's end of a
connection between the two peers; when the network set up at most one
connection, the two streams are the two ends of it. -/
theorem both_ok_streams_on_connections {cA cB : Call} {w : World} (hw : WorldReachable cA cB w)
    {sA sB : StreamId} {wsA wsB : List TcpPunchHoleWarning}
    (hA : w.a.main = .returned (.wOk sA wsA)) (hB : w.b.main = .returned (.wOk sB wsB)) :
    (∃ c ∈ w.conns, c.aEnd = some sA) ∧ (∃ c ∈ w.conns, c.bEnd = some sB) ∧
      (w.conns.length ≤ 1 → ∃ c ∈ w.conns, c.aEnd = some sA ∧ c.bEnd = some sB) := by
  have hi := WorldInv.reachable hw
  obtain ⟨ca, hca, hea⟩ := Peer.returned_stream_logsOn hw.peers.1 hi.logsA hA
  obtain ⟨cb, hcb, heb⟩ := Peer.returned_stream_logsOn hw.peers.2 hi.logsB hB
  refine ⟨⟨ca, hca, hea⟩, ⟨cb, hcb, heb⟩, fun hlen => ⟨ca, hca, hea, ?_⟩⟩
  rwa [mem_eq_of_length_le_one hlen hca hcb]

/-- A's connector reaches B's listener, and both handshakes on that one
connection succeed. -/
def singleRun : List WorldMove :=
  [.a (.thread .localAddr), .a (.thread (.bind .allOk)), .a (.thread (.listen (.ok ()))),
   .b (.thread .localAddr), .b (.thread (.bind .allOk)), .b (.thread (.listen (.ok ()))),
   .a (.dial 0), .b (.accept 0),
   .a (.thread (.worker 0 (.setWriteTimeout (.ok ())))),
   .a (.thread (.worker 0 (.setReadTimeout (.ok ())))),
   .b (.thread (.worker 1 (.setWriteTimeout (.ok ())))),
   .b (.thread (.worker 1 (.setReadTimeout (.ok ())))),
   .a (.write 0 0 3), .b (.write 1 0 4), .a (.write 0 0 1), .a (.read 0 0 2), .b (.read 1 0 4),
   .a (.read 0 0 2), .a (.thread (.send 0)), .a (.thread .recv), .b (.thread (.send 1)),
   .b (.thread .recv)]

theorem both_ok_streams_on_connections_single_run :
    ∃ w, WorldReachable callA callB w ∧ w.a.main = .returned (.wOk 0 []) ∧
      w.b.main = .returned (.wOk 1 []) ∧
      ((∃ c ∈ w.conns, c.aEnd = some 0) ∧ (∃ c ∈ w.conns, c.bEnd = some 1) ∧
        (w.conns.length ≤ 1 → ∃ c ∈ w.conns, c.aEnd = some 0 ∧ c.bEnd = some 1)) := by
  obtain ⟨w, hw, hP⟩ := @worldReachable_of_run callA callB singleRun
    (fun w => decide (w.a.main = .returned (.wOk 0 []) ∧ w.b.main = .returned (.wOk 1 [])))
    (by decide)
  simp only [decide_eq_true_eq] at hP
  exact ⟨w, hw, hP.1, hP.2, both_ok_streams_on_connections hw hP.1 hP.2⟩

end NatTraversal.Punch
