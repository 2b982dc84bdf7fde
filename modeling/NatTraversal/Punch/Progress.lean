import NatTraversal.Punch.Soundness

/-!
# The result loop always ends

Whatever the workers and the acceptor do, even if every one of them blocks for
ever, a call in its result loop can return: `result_loop_can_return`. The
timeout sentinel and the loop suffice. If the sentinel is still parked, the
clock passes its deadline, it wakes by its timeout and sends `None`; the loop
then takes the messages in order (`Peer.recv_returns`) and returns at the first
`Some(Ok(_))` or at that `None`.

The facts this needs beyond `Inv` are `LoopOk`: while the main thread has not
returned, `results_rx` is alive, so a message sent is a message on the channel;
in the loop the sentinel has started, and once it has finished its `None` is on
the channel (`LoopOk.reachable`).
-/

set_option autoImplicit false

namespace NatTraversal.Punch

/-- Whether the main thread still holds `results_rx`: it has not returned. -/
def Main.holdsRx : Main → Bool
  | .returned _ | .panicked => false
  | _ => true

/-- What lets the result loop end: while the main thread has not returned,
`results_rx` is alive; in the result loop the sentinel has started and, once it
has finished, its `None` is on the channel. -/
structure LoopOk (p : Peer) : Prop where
  rxAlive : p.main.holdsRx = true → p.chan.rxAlive = true
  sentinel : ∀ a ws, p.main = .receiving a ws → p.sentinel ≠ .notStarted
  noneSent : ∀ a ws since why, p.main = .receiving a ws → p.sentinel = .done since why →
    ∃ m ∈ p.chan.sent, m.origin = .sentinel

theorem LoopOk.init : LoopOk .init :=
  ⟨fun _ => rfl, fun _ _ h => (by cases h), fun _ _ _ _ h => (by cases h)⟩

variable {c : Call} {p q : Peer}

/-- A step that keeps the sentinel, only adds messages, keeps `results_rx` while
the main thread holds it, and stays in the result loop or leaves it keeps
`LoopOk`. -/
theorem LoopOk.of_frame (h : LoopOk p) (hhold : q.main.holdsRx = true → p.main.holdsRx = true)
    (hrx : q.main.holdsRx = true → q.chan.rxAlive = p.chan.rxAlive)
    (hm : ∀ a ws, q.main = .receiving a ws → ∃ ws', p.main = .receiving a ws')
    (hsent : ∀ m ∈ p.chan.sent, m ∈ q.chan.sent) (hsn : q.sentinel = p.sentinel) :
    LoopOk q where
  rxAlive hq := (hrx hq).trans (h.rxAlive (hhold hq))
  sentinel a ws hq := by
    obtain ⟨_, hp⟩ := hm a ws hq
    exact hsn ▸ h.sentinel a _ hp
  noneSent a ws since why hq hd := by
    obtain ⟨_, hp⟩ := hm a ws hq
    obtain ⟨m, hmem, ho⟩ := h.noneSent a _ since why hp (hsn ▸ hd)
    exact ⟨m, hsent m hmem, ho⟩

/-- Every step keeps `LoopOk`. -/
theorem LoopOk.step {a : Act} (h : LoopOk p) (hs : p.step c a = some q) : LoopOk q := by
  cases a with
  | localAddr | bind _ | accept _ | acceptorSend | send _ | tick _ =>
    simp only [Peer.step] at hs
    repeat' split at hs
    all_goals cases hs
    all_goals apply h.of_frame <;> simp_all [Main.holdsRx, Peer.ret, Channel.mem_send_of_mem]
  | worker i ev =>
    simp only [Peer.step] at hs
    split at hs
    · obtain ⟨_, -, rfl⟩ := Option.map_eq_some'.mp hs
      exact h.of_frame id (fun _ => rfl) (fun _ _ hq => ⟨_, hq⟩) (fun _ hm => hm) rfl
    · cases hs
  | recv =>
    simp only [Peer.step, Peer.recv] at hs
    repeat' split at hs
    all_goals cases hs
    all_goals apply h.of_frame <;> simp_all [Main.holdsRx, Peer.ret, Peer.finish]
  | listen r =>
    simp only [Peer.step] at hs
    repeat' split at hs
    all_goals cases hs
    · exact ⟨fun _ => h.rxAlive (by simp [Main.holdsRx, *]), fun _ _ _ => by simp,
        fun _ _ _ _ _ hd => by cases hd⟩
    · apply h.of_frame <;> simp_all [Main.holdsRx, Peer.ret]
  | wake why =>
    simp only [Peer.step] at hs
    repeat' split at hs
    all_goals cases hs
    exact ⟨h.rxAlive, fun _ _ _ => by simp, fun _ _ _ _ _ hd => by cases hd⟩
  | sentinelSend =>
    simp only [Peer.step] at hs
    split at hs
    · cases hs
      refine ⟨by simpa using h.rxAlive, fun _ _ _ => by simp, fun a ws _ _ hq _ => ?_⟩
      have hrx := h.rxAlive (by simp_all [Main.holdsRx])
      exact ⟨⟨.sentinel, none⟩, by simp [Channel.send, hrx], rfl⟩
    · cases hs

theorem LoopOk.reachable {allowed : Act → Prop} (hp : ReachableBy c allowed p) : LoopOk p := by
  induction hp with
  | init => exact LoopOk.init
  | step _ _ _ hs ih => exact ih.step hs

/-- The result loop takes the messages in order: when a `None` waits `d` places
after the next one, at most `d + 1` turns of the loop return. -/
theorem Peer.recv_returns (c : Call) {m : Sent} (hm : m.msg = none) :
    ∀ (d : Nat) (p : Peer) (a : SocketAddr) (ws : List TcpPunchHoleWarning),
      p.main = .receiving a ws → p.chan.sent[p.chan.delivered + d]? = some m →
      ∃ k r, (p.run c (List.replicate k .recv)).map Peer.main = some (.returned r)
  | d, p, a, ws, hmain, hi => by
    obtain ⟨m₀, h₀⟩ : ∃ m₀, p.chan.sent[p.chan.delivered]? = some m₀ := by
      have := (List.getElem?_eq_some_iff.mp hi).1
      exact ⟨_, List.getElem?_eq_getElem (by omega)⟩
    cases hmsg : m₀.msg with
    | none =>
      exact ⟨1, .wErr (.timedOut ws), by
        simp [Peer.run, Peer.step, hmain, Peer.recv, h₀, hmsg, Peer.finish, Peer.ret]⟩
    | some r =>
      cases r with
      | ok s =>
        exact ⟨1, .wOk s ws, by
          simp [Peer.run, Peer.step, hmain, Peer.recv, h₀, hmsg, Peer.finish, Peer.ret]⟩
      | error w =>
        cases d with
        | zero =>
          rw [Nat.add_zero, h₀] at hi
          cases hi
          simp [hm] at hmsg
        | succ d =>
          obtain ⟨k, r, hrun⟩ := Peer.recv_returns c hm d
            { p with chan := { p.chan with delivered := p.chan.delivered + 1 },
                     main := .receiving a (ws ++ [w]) } a (ws ++ [w]) rfl
            (by simpa [Nat.add_assoc, Nat.add_comm 1] using hi)
          refine ⟨k + 1, r, ?_⟩
          simpa [List.replicate_succ, Peer.run, Peer.step, hmain, Peer.recv, h₀, hmsg] using hrun

/-- The sentinel can wake by its timeout once the clock has passed it. -/
theorem Peer.step_wake_timedOut {since : Nat} (hsn : p.sentinel = .parked since)
    (h : since + timeoutMs ≤ p.now) :
    p.step c (.wake .timedOut) = some { p with sentinel := .firing since .timedOut } := by
  simp only [Peer.step, hsn, Wake.allowed, decide_eq_true h, if_true]

/-- The actions of the result loop, of the sentinel woken by its timeout, and of
the clock. -/
def Act.endsLoop : Act → Bool
  | .recv | .wake .timedOut | .sentinelSend | .tick _ => true
  | _ => false

/-- A `None` reaches the channel after at most three steps of the sentinel and
the clock, and it waits there behind the messages the loop has received. -/
theorem Inv.none_waits (hI : Inv c p) (hL : LoopOk p) {a : SocketAddr}
    {ws : List TcpPunchHoleWarning} (hmain : p.main = .receiving a ws) :
    ∃ acts p₁ i m, (∀ act ∈ acts, act.endsLoop = true) ∧ p.run c acts = some p₁ ∧
      p₁.main = p.main ∧ p₁.chan.delivered ≤ i ∧ p₁.chan.sent[i]? = some m ∧
      m.msg = none := by
  have hrx := hL.rxAlive (by simp [Main.holdsRx, hmain])
  cases hsn : p.sentinel with
  | notStarted => exact absurd hsn (hL.sentinel a ws hmain)
  | parked since =>
    refine ⟨[.tick (since + timeoutMs), .wake .timedOut, .sentinelSend],
      { p with now := p.now + (since + timeoutMs), sentinel := .done since .timedOut,
               chan := p.chan.send ⟨.sentinel, none⟩ },
      p.chan.sent.length, ⟨.sentinel, none⟩, by simp [Act.endsLoop], ?_, rfl,
      by simpa using hI.delivered_le, by simp [Channel.send_sent_of_rxAlive _ hrx], rfl⟩
    have htick : p.step c (.tick (since + timeoutMs)) =
        some { p with now := p.now + (since + timeoutMs) } := rfl
    simp only [Peer.run, htick, Option.some_bind,
      @Peer.step_wake_timedOut c { p with now := p.now + (since + timeoutMs) } since hsn
        (Nat.le_add_left _ _)]
    rfl
  | firing since why =>
    refine ⟨[.sentinelSend],
      { p with sentinel := .done since why, chan := p.chan.send ⟨.sentinel, none⟩ },
      p.chan.sent.length, ⟨.sentinel, none⟩, by simp [Act.endsLoop], ?_, rfl,
      by simpa using hI.delivered_le, by simp [Channel.send_sent_of_rxAlive _ hrx], rfl⟩
    simp [Peer.run, Peer.step, hsn]
  | done since why =>
    obtain ⟨m, hm, ho⟩ := hL.noneSent a ws since why hmain hsn
    have hnone : m.msg = none := by
      have := hI.sentOk m hm
      simp only [SentOk, ho] at this
      exact this.1
    obtain ⟨i, hi⟩ := List.getElem?_of_mem hm
    refine ⟨[], p, i, m, by simp, rfl, rfl, ?_, hi, hnone⟩
    by_contra hlt
    have hlog := hI.mainOk
    simp only [MainOk, hmain, LoopLog, List.append_nil] at hlog
    have hmem : m.msg ∈ (p.chan.sent.take p.chan.delivered).map Sent.msg :=
      List.mem_map_of_mem _ (List.getElem?_mem ((List.getElem?_take_of_lt (by omega)).trans hi))
    rw [hlog, hnone] at hmem
    simp at hmem

/-- From every reachable state of a call in its result loop, a run of the loop,
the sentinel and the clock alone returns. -/
theorem result_loop_can_return {p : Peer} (hp : Reachable c p) {a : SocketAddr}
    {ws : List TcpPunchHoleWarning} (hmain : p.main = .receiving a ws) :
    ∃ acts r, (∀ act ∈ acts, act.endsLoop = true) ∧
      (p.run c acts).map Peer.main = some (.returned r) := by
  obtain ⟨acts, p₁, i, m, hacts, hrun, hmain₁, hdel, hi, hm⟩ :=
    (Inv.reachable hp).none_waits (LoopOk.reachable hp) hmain
  obtain ⟨k, r, hk⟩ := Peer.recv_returns c hm (i - p₁.chan.delivered) p₁ a ws
    (hmain₁.trans hmain) (by rwa [Nat.add_sub_cancel' hdel])
  refine ⟨acts ++ List.replicate k .recv, r, fun act hact => ?_, ?_⟩
  · rcases List.mem_append.mp hact with h | h
    · exact hacts act h
    · rw [List.eq_of_mem_replicate h]
      rfl
  · rw [Peer.run_append, hrun, Option.some_bind]
    exact hk

theorem result_loop_can_return_after_listen :
    ∃ p, Reachable (exampleCall [⟨exampleAddr, false⟩]) p ∧
      p.main = .receiving exampleAddr [] ∧
      ∃ acts r, (∀ act ∈ acts, act.endsLoop = true) ∧
        (p.run (exampleCall [⟨exampleAddr, false⟩]) acts).map Peer.main = some (.returned r) := by
  obtain ⟨p, hp, hP⟩ := reachable_of_run (c := exampleCall [⟨exampleAddr, false⟩])
    (l := [.localAddr, .bind .allOk, .listen (.ok ())])
    (P := fun p => decide (p.main = .receiving exampleAddr [])) (by decide)
  have hmain := of_decide_eq_true hP
  exact ⟨p, hp, hmain, result_loop_can_return hp hmain⟩

end NatTraversal.Punch
