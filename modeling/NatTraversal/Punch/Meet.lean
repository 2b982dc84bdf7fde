import NatTraversal.Punch.World
import NatTraversal.Punch.Link

/-!
# Two honest calls can meet

The safety results of `NatTraversal.Punch.World` and `NatTraversal.Punch.Stream`
say what a returned stream is; this module builds the runs in which the
exchange succeeds on both sides. Such a run starts with the setup of each call
(`Peer.run_setup`), lifted to the world by `World.run_threadA` and
`World.run_threadB`, and goes on with the exchange (`meetWorld_connect` to
`meetWorld_report`): A's connector dials B's listener, B accepts, both set their
timeouts, write their secrets, read the other's and report, and both result
loops receive the report. `NatTraversal.Punch.Network` runs it on a network.

The one-connection model of `NatTraversal.Punch.Link` is the world seen through
one connection: `World.linkAt` reads the connection `k`, with A's worker `i` and
B's worker `j` at its ends, as a `Link`, and every step of that link between
honest calls is a move of the world (`World.step_of_link`), so every run of the
link is a run of the two calls (`WorldReachable.of_linkReachable`). With the
link's progress measure this gives `handshake_on_connection_can_complete`: in
any reachable world, once a connection joins two workers at the start of their
exchange, the run can go on until both report their streams.
-/

set_option autoImplicit false

namespace NatTraversal.Punch

/-! ## Runs of the world -/

/-- A run of `ms ++ ms'` is the run of `ms` followed by the run of `ms'`. -/
theorem World.run_append (cA cB : Call) :
    ∀ (w : World) (ms ms' : List WorldMove),
      w.run cA cB (ms ++ ms') = (w.run cA cB ms).bind fun w' => w'.run cA cB ms'
  | _, [], _ => rfl
  | w, m :: ms, ms' => by
    simp only [List.cons_append, List.append_eq, World.run, Option.bind_assoc, World.run_append]

/-- A step of one of B's threads that involves no connection. -/
theorem World.step_b_thread (cA cB : Call) (w : World) (act : Act) :
    w.step cA cB (.b (.thread act)) =
      if act.isLocal then (w.b.step cB act).map fun b => { w with b := b } else none := by
  obtain ⟨a, b, conns⟩ := w
  by_cases hl : act.isLocal
  · simp [World.step, World.stepA, World.swap, Conn.swap, hl, Function.comp_def]
  · simp [World.step, World.stepA, hl]

/-- Steps of A's threads that involve no connection are moves of the world that
leave B and the connections alone. -/
theorem World.run_threadA {cA cB : Call} :
    ∀ {w : World} {acts : List Act} {a : Peer}, (∀ act ∈ acts, act.isLocal = true) →
      w.a.run cA acts = some a →
      w.run cA cB (acts.map fun act => .a (.thread act)) = some { w with a := a }
  | _, [], _, _, h => by cases h; rfl
  | w, act :: acts, a, hl, h => by
    obtain ⟨a₁, hs, h⟩ := Option.bind_eq_some.mp h
    have ih := @World.run_threadA cA cB { w with a := a₁ } _ _ (fun x hx => hl x (.tail _ hx)) h
    simpa only [List.map_cons, World.run, World.step, World.stepA, hl act (.head _), if_true, hs,
      Option.map_some', Option.some_bind] using ih

/-- The same for B's threads. -/
theorem World.run_threadB {cA cB : Call} :
    ∀ {w : World} {acts : List Act} {b : Peer}, (∀ act ∈ acts, act.isLocal = true) →
      w.b.run cB acts = some b →
      w.run cA cB (acts.map fun act => .b (.thread act)) = some { w with b := b }
  | _, [], _, _, h => by cases h; rfl
  | w, act :: acts, b, hl, h => by
    obtain ⟨b₁, hs, h⟩ := Option.bind_eq_some.mp h
    have ih := @World.run_threadB cA cB { w with b := b₁ } _ _ (fun x hx => hl x (.tail _ hx)) h
    simpa only [List.map_cons, World.run, World.step_b_thread, hl act (.head _), if_true, hs,
      Option.map_some', Option.some_bind] using ih

/-- The setup of a call with every call answered `Ok` involves no connection. -/
theorem setup_isLocal (c : Call) :
    ∀ act ∈ (.localAddr :: (c.theirEndpoints.map fun _ => .bind .allOk) ++ [.listen (.ok ())] :
      List Act), act.isLocal = true := by
  intro act h
  simp only [List.cons_append, List.mem_cons, List.mem_append, List.mem_map,
    List.mem_singleton, List.not_mem_nil, or_false] at h
  rcases h with rfl | ⟨_, _, rfl⟩ | rfl <;> rfl

/-- A run of `ms ++ ms'` goes on from where the run of `ms` ends. -/
theorem World.run_append_of_eq {cA cB : Call} {w w' : World} {ms : List WorldMove}
    (h : w.run cA cB ms = some w') (ms' : List WorldMove) :
    w.run cA cB (ms ++ ms') = w'.run cA cB ms' := by
  rw [World.run_append, h, Option.some_bind]

/-! ## The exchange between A's first connector and B's acceptor -/

/-- The world while A's first connector and B's handshake worker of its first
accepted stream exchange their secrets: at the stages `sa` and `sb`, with the
transfers `la` and `lb`, on the one connection between them, with nothing in
flight. -/
def meetWorld (a b : SocketAddr) (e : MappedSocketAddr) (wsA wsB : List Worker) (sa sb : Stage)
    (la lb : List Transfer) : World :=
  ⟨{ Peer.listening a (.connector e.addr 0 :: wsA) with
       workers := ⟨.connector e.addr, sa, 0, la⟩ :: wsA },
   { Peer.listening b wsB with
       workers := wsB ++ [⟨.listenHandshake, sb, wsB.length, lb⟩]
       nextStream := wsB.length + 1 },
   [⟨some 0, some wsB.length, [], []⟩]⟩

section Exchange

variable {cA cB : Call} {a b : SocketAddr} {e : MappedSocketAddr} {wsA wsB : List Worker}

/-- A's first connector connects to B's listener and B accepts the connection. -/
theorem meetWorld_connect :
    (⟨Peer.listening a (.connector e.addr 0 :: wsA), Peer.listening b wsB, []⟩ : World).run
      cA cB [.a (.dial 0), .b (.accept 0)] =
    some (meetWorld a b e wsA wsB .setWriteTimeout .setWriteTimeout [] []) := by
  simp only [World.run, World.step, World.stepA, meetWorld, Peer.listening, Peer.step,
    Worker.step, Worker.connector, Worker.listenHandshake, List.getElem?_cons_zero,
    Option.map_some', List.set_cons_zero, List.nil_append, World.swap, List.map_cons, List.map_nil,
    Conn.swap, Option.some_bind, Bool.false_eq_true, if_false, ite_true, List.length_cons]

/-- Both workers set their timeouts. -/
theorem meetWorld_timeouts :
    (meetWorld a b e wsA wsB .setWriteTimeout .setWriteTimeout [] []).run cA cB
      [.a (.thread (.worker 0 (.setWriteTimeout (.ok ())))),
       .a (.thread (.worker 0 (.setReadTimeout (.ok ())))),
       .b (.thread (.worker wsB.length (.setWriteTimeout (.ok ())))),
       .b (.thread (.worker wsB.length (.setReadTimeout (.ok ()))))] =
    some (meetWorld a b e wsA wsB (.writing cA.ourSecret.toList) (.writing cB.ourSecret.toList)
      [] []) := by
  simp only [World.run, World.step, World.stepA, meetWorld, Peer.listening, Peer.step,
    Worker.step, List.getElem?_cons_zero, Option.map_some', List.set_cons_zero, World.swap,
    List.map_cons, List.map_nil, Conn.swap, Option.some_bind, Act.isLocal, Event.transfers,
    Bool.not_false, ite_true, List.getElem?_concat_length, List.set_append_right, le_refl,
    Nat.sub_self]

/-- Each writes its secret in one `write`, and each reads the other's in one
`read`: when each holds the secret the other writes, both report their stream. -/
theorem meetWorld_exchange (hAB : cA.theirSecret = cB.ourSecret)
    (hBA : cB.theirSecret = cA.ourSecret) :
    (meetWorld a b e wsA wsB (.writing cA.ourSecret.toList) (.writing cB.ourSecret.toList)
      [] []).run cA cB
      [.a (.write 0 0 4), .b (.write wsB.length 0 4), .a (.read 0 0 4), .b (.read wsB.length 0 4)] =
    some (meetWorld a b e wsA wsB (.report (.ok 0)) (.report (.ok wsB.length))
      [.wrote cA.ourSecret.toList, .read cB.ourSecret.toList]
      [.wrote cB.ourSecret.toList, .read cA.ourSecret.toList]) := by
  obtain ⟨x, xs, hx, hxs⟩ := cA.ourSecret.exists_toList_eq_cons
  obtain ⟨y, ys, hy, hys⟩ := cB.ourSecret.exists_toList_eq_cons
  simp only [World.run, World.step, World.stepA, meetWorld, Peer.listening, Peer.step,
    Worker.step, List.getElem?_cons_zero, Option.map_some', List.set_cons_zero, World.swap,
    List.map_cons, List.map_nil, Conn.swap, Option.some_bind, List.getElem?_concat_length,
    List.set_append_right, le_refl, Nat.sub_self, Worker.writeAll, Worker.readExact, hx, hy, hxs,
    hys, hAB, hBA, afterRead, List.length_cons, List.take_of_length_le, List.drop_of_length_le,
    true_and, Nat.reduceLT, ite_true, Nat.lt_irrefl, ite_false, List.nil_append, Nat.reduceAdd,
    List.length_nil, Nat.zero_add, ↓reduceDIte, ↓reduceIte, List.singleton_append]

/-- Both workers send their reports, and both result loops receive them. -/
theorem meetWorld_report {la lb : List Transfer} :
    ((meetWorld a b e wsA wsB (.report (.ok 0)) (.report (.ok wsB.length)) la lb).run cA cB
      [.a (.thread (.send 0)), .a (.thread .recv), .b (.thread (.send wsB.length)),
       .b (.thread .recv)]).map (fun w => (w.a.main, w.b.main, w.conns)) =
    some (.returned (.wOk 0 []), .returned (.wOk wsB.length []),
      [⟨some 0, some wsB.length, [], []⟩]) := by
  simp only [World.run, World.step, World.stepA, meetWorld, Peer.listening, Peer.step,
    List.getElem?_cons_zero, Option.map_some', List.set_cons_zero, World.swap, List.map_cons,
    List.map_nil, Conn.swap, Option.some_bind, Act.isLocal, ite_true, List.getElem?_concat_length,
    List.set_append_right, le_refl, Nat.sub_self, Channel.send, Peer.recv, Peer.finish, Peer.ret,
    List.nil_append]

end Exchange

/-! ## The one-connection model inside the world -/

/-- Seeing the world from B twice gives it back. -/
theorem World.swap_swap (w : World) : w.swap.swap = w := by
  obtain ⟨a, b, conns⟩ := w
  simp [World.swap, Conn.swap, Function.comp_def]

/-- The connection `k` as the `Link` between A's worker `i` and B's worker `j`,
when those workers hold its two ends. -/
def World.linkAt (w : World) (i j k : Nat) : Option Link :=
  match w.a.workers[i]?, w.b.workers[j]?, w.conns[k]? with
  | some wa, some wb, some c =>
    if c.aEnd = some wa.stream ∧ c.bEnd = some wb.stream then some ⟨wa, wb, c.toA, c.toB⟩
    else none
  | _, _, _ => none

theorem World.linkAt_eq_some {w : World} {i j k : Nat} {l : Link} :
    w.linkAt i j k = some l ↔ ∃ c, w.a.workers[i]? = some l.a ∧ w.b.workers[j]? = some l.b ∧
      w.conns[k]? = some c ∧ c.aEnd = some l.a.stream ∧ c.bEnd = some l.b.stream ∧
      c.toA = l.toA ∧ c.toB = l.toB := by
  unfold World.linkAt
  constructor
  · intro h
    split at h
    · split_ifs at h with hends
      cases h
      exact ⟨_, ‹_›, ‹_›, ‹_›, hends.1, hends.2, rfl, rfl⟩
    · cases h
  · rintro ⟨c, hi, hj, hk, ha, hb, hA, hB⟩
    obtain ⟨la, lb, lA, lB⟩ := l
    simp_all

theorem World.linkAt_swap (w : World) (i j k : Nat) :
    w.swap.linkAt j i k = (w.linkAt i j k).map Link.swap := by
  simp only [World.linkAt, World.swap, List.getElem?_map]
  cases w.a.workers[i]? <;> cases w.b.workers[j]? <;> cases w.conns[k]? <;>
    simp [Conn.swap, and_comm]
  split_ifs <;> rfl

/-- Each call of the first end of the link is a move of A's worker `i` on the
connection `k`. -/
theorem World.stepA_of_link {cA cB : Call} {w : World} {i j k : Nat} {l l' : Link} {e : EndAct}
    (hl : w.linkAt i j k = some l) (he : l.stepA cA.ourSecret cA.theirSecret e = some l') :
    ∃ m w', w.stepA cA cB m = some w' ∧ w'.linkAt i j k = some l' := by
  obtain ⟨c, hi, hj, hk, ha, hb, hA, hB⟩ := World.linkAt_eq_some.mp hl
  have hilt : i < w.a.workers.length := (List.getElem?_eq_some_iff.mp hi).1
  have hklt : k < w.conns.length := (List.getElem?_eq_some_iff.mp hk).1
  cases e with
  | setWriteTimeout =>
    obtain ⟨wa, hs, rfl⟩ := Option.map_eq_some'.mp he
    refine ⟨.thread (.worker i (.setWriteTimeout (.ok ()))),
      { w with a := { w.a with workers := w.a.workers.set i wa } },
      by simp [World.stepA, Act.isLocal, Event.transfers, Peer.step, hi, hs], ?_⟩
    exact World.linkAt_eq_some.mpr ⟨c, List.getElem?_set_self hilt, hj, hk,
      (Worker.step_frame hs).2.1 ▸ ha, hb, hA, hB⟩
  | setReadTimeout =>
    obtain ⟨wa, hs, rfl⟩ := Option.map_eq_some'.mp he
    refine ⟨.thread (.worker i (.setReadTimeout (.ok ()))),
      { w with a := { w.a with workers := w.a.workers.set i wa } },
      by simp [World.stepA, Act.isLocal, Event.transfers, Peer.step, hi, hs], ?_⟩
    exact World.linkAt_eq_some.mpr ⟨c, List.getElem?_set_self hilt, hj, hk,
      (Worker.step_frame hs).2.1 ▸ ha, hb, hA, hB⟩
  | write n =>
    simp only [Link.stepA] at he
    split at he
    next rest hrest =>
      split_ifs at he with hn
      obtain ⟨wa, hs, rfl⟩ := Option.map_eq_some'.mp he
      refine ⟨.write i k n,
        { w with
          a := { w.a with workers := w.a.workers.set i wa }
          conns := w.conns.set k { c with toB := c.toB ++ rest.take n } },
        by simp [World.stepA, Peer.step, hi, hk, hrest, ha, hn, hs], ?_⟩
      exact World.linkAt_eq_some.mpr ⟨_, List.getElem?_set_self hilt, hj,
        List.getElem?_set_self hklt, (Worker.step_frame hs).2.1 ▸ ha, hb, hA, by simp [hB]⟩
    next => cases he
  | read n =>
    simp only [Link.stepA] at he
    split_ifs at he with hn
    obtain ⟨wa, hs, rfl⟩ := Option.map_eq_some'.mp he
    refine ⟨.read i k n,
      { w with
        a := { w.a with workers := w.a.workers.set i wa }
        conns := w.conns.set k { c with toA := c.toA.drop n } },
      by simp [World.stepA, Peer.step, hi, hk, ha, hA, hn, hs], ?_⟩
    exact World.linkAt_eq_some.mpr ⟨_, List.getElem?_set_self hilt, hj,
      List.getElem?_set_self hklt, (Worker.step_frame hs).2.1 ▸ ha, hb, by simp [hA], hB⟩

/-- Each step of the link between honest calls is a move of the world: the
first end's calls are moves of A's worker `i`, the second end's of B's worker
`j`. -/
theorem World.step_of_link {cA cB : Call} (hAB : cA.theirSecret = cB.ourSecret)
    (hBA : cB.theirSecret = cA.ourSecret) {w : World} {i j k : Nat} {l l' : Link} {e : LinkAct}
    (hl : w.linkAt i j k = some l) (he : l.step cA.ourSecret cB.ourSecret e = some l') :
    ∃ m w', w.step cA cB m = some w' ∧ w'.linkAt i j k = some l' := by
  cases e with
  | a e =>
    rw [← hAB] at he
    obtain ⟨m, w', hs, hl'⟩ := World.stepA_of_link hl he
    exact ⟨.a m, w', hs, hl'⟩
  | b e =>
    obtain ⟨l'', he', rfl⟩ := Option.map_eq_some'.mp he
    rw [← hBA] at he'
    have hls : w.swap.linkAt j i k = some l.swap := by rw [World.linkAt_swap, hl]; rfl
    obtain ⟨m, w', hs, hl'⟩ := @World.stepA_of_link cB cA _ _ _ _ _ _ _ hls he'
    refine ⟨.b m, w'.swap, by simp [World.step, hs], ?_⟩
    rw [World.linkAt_swap, hl']
    rfl

/-- Every run of the link from the state of the connection in a reachable world
is a run of the two calls. -/
theorem WorldReachable.of_linkReachable {cA cB : Call} (hAB : cA.theirSecret = cB.ourSecret)
    (hBA : cB.theirSecret = cA.ourSecret) {w : World} (hw : WorldReachable cA cB w) {i j k : Nat}
    {l₀ l : Link} (h₀ : w.linkAt i j k = some l₀)
    (hl : LinkReachable cA.ourSecret cB.ourSecret l₀ l) :
    ∃ w', WorldReachable cA cB w' ∧ w'.linkAt i j k = some l := by
  induction hl with
  | start => exact ⟨w, hw, h₀⟩
  | step e _ hs ih =>
    obtain ⟨w₁, hw₁, hl₁⟩ := ih
    obtain ⟨m, w₂, hs₂, hl₂⟩ := World.step_of_link hAB hBA hl₁ hs
    exact ⟨w₂, .step m hw₁ hs₂, hl₂⟩

/-- The ends of a link keep their streams. -/
theorem LinkReachable.streams {sa sb : Bytes4} {l₀ l : Link} (h : LinkReachable sa sb l₀ l) :
    l.a.stream = l₀.a.stream ∧ l.b.stream = l₀.b.stream := by
  induction h with
  | start => exact ⟨rfl, rfl⟩
  | step e _ hs ih =>
    cases e with
    | a e =>
      obtain ⟨⟨ev, hev⟩, hb⟩ := Link.stepA_worker hs
      exact ⟨(Worker.step_frame hev).2.1.trans ih.1, hb ▸ ih.2⟩
    | b e =>
      obtain ⟨l'', hs', rfl⟩ := Option.map_eq_some'.mp hs
      obtain ⟨⟨ev, hev⟩, hb⟩ := Link.stepA_worker hs'
      exact ⟨by simpa [hb] using ih.1, (Worker.step_frame hev).2.1.trans ih.2⟩

/-- From every reachable state of an honest link the exchange can be run to its
end, where both ends report their streams: the link moves until it is stuck,
which it is within `Link.remaining` steps. -/
theorem LinkReachable.exists_both_ok {sa sb : Bytes4} {l₀ l : Link} (h₀ : LinkOk sa sb l₀)
    (hl : LinkReachable sa sb l₀ l) :
    ∃ l', LinkReachable sa sb l₀ l' ∧ l'.a.stage = .report (.ok l'.a.stream) ∧
      l'.b.stage = .report (.ok l'.b.stream) := by
  by_cases hstuck : ∀ e, l.step sa sb e = none
  · exact ⟨l, hl, (h₀.reachable hl).stuck hstuck⟩
  · push_neg at hstuck
    obtain ⟨e, he⟩ := hstuck
    obtain ⟨l', hl'⟩ := Option.ne_none_iff_exists'.mp he
    exact LinkReachable.exists_both_ok h₀ (.step e hl hl')
termination_by l.remaining
decreasing_by exact Link.remaining_step_lt hl'

/-- In any reachable world between honest calls, once the connection `k` joins
A's worker `i` and B's worker `j` at the start of their exchange, the run can go
on until both workers report `Ok` with their streams. -/
theorem handshake_on_connection_can_complete {cA cB : Call}
    (hAB : cA.theirSecret = cB.ourSecret) (hBA : cB.theirSecret = cA.ourSecret)
    {w : World} (hw : WorldReachable cA cB w) {i j k : Nat} {ra rb : Role} {sa sb : StreamId}
    (hl : w.linkAt i j k = some (Link.start ra rb sa sb)) :
    ∃ w', WorldReachable cA cB w' ∧ ∃ l, w'.linkAt i j k = some l ∧
      l.a.stage = .report (.ok sa) ∧ l.b.stage = .report (.ok sb) := by
  obtain ⟨l, hl', ha, hb⟩ := LinkReachable.exists_both_ok (LinkOk.start _ _ ra rb sa sb) .start
  obtain ⟨w', hw', hwl⟩ := WorldReachable.of_linkReachable hAB hBA hw hl hl'
  obtain ⟨hsa, hsb⟩ := hl'.streams
  exact ⟨w', hw', l, hwl, by rw [ha, hsa]; rfl, by rw [hb, hsb]; rfl⟩

/-- Both calls set up, A's connector dials B's listener and B accepts. -/
def dialAcceptRun : List WorldMove :=
  [.a (.thread .localAddr), .a (.thread (.bind .allOk)), .a (.thread (.listen (.ok ()))),
   .b (.thread .localAddr), .b (.thread (.bind .allOk)), .b (.thread (.listen (.ok ()))),
   .a (.dial 0), .b (.accept 0)]

theorem handshake_on_connection_can_complete_after_accept :
    ∃ w, WorldReachable callA callB w ∧
      w.linkAt 0 1 0 = some (Link.start (.connector peerExampleAddr) .listenHandshake 0 1) ∧
      ∃ w', WorldReachable callA callB w' ∧ ∃ l, w'.linkAt 0 1 0 = some l ∧
        l.a.stage = .report (.ok 0) ∧ l.b.stage = .report (.ok 1) := by
  obtain ⟨w, hw, hP⟩ := @worldReachable_of_run callA callB dialAcceptRun
    (fun w => decide (w.linkAt 0 1 0 =
      some (Link.start (.connector peerExampleAddr) .listenHandshake 0 1))) (by decide)
  have hl := of_decide_eq_true hP
  exact ⟨w, hw, hl,
    @handshake_on_connection_can_complete callA callB rfl rfl _ hw _ _ _ _ _ _ _ hl⟩

end NatTraversal.Punch
