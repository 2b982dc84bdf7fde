import NatTraversal.Punch.Peer

/-!
# The invariant of one `tcp_punch_hole` call

`Inv` collects what holds in every reachable state of one call
(`Inv.reachable`), whatever the interleaving of its threads and whatever the
operating system and the remote hosts answer:

- every worker's transfer log is in step with its stage (`Worker.LogOk`), so a
  successful outcome comes with our secret written and theirs read;
- every message on the results channel says what its sender did (`SentOk`), and
  no sender placed two messages (`Inv.nodup`);
- the main thread's warnings are the failures it has received, in order, and it
  leaves the loop at the first `Some(Ok(_))` or `None` (`MainOk`); it never
  panics, because it holds a sender for the whole loop;
- a failed setup has started connectors for a prefix of the endpoints and
  neither the acceptor nor the sentinel (`SetupOk`);
- a sentinel woken by its timeout woke no earlier than the timeout after it
  started (`Inv.timerOk`).

Each action has one lemma that takes `Inv` across it; `Inv.step` puts them
together.
-/

set_option autoImplicit false

namespace NatTraversal.Punch

variable (c : Call)

/-- What a message on the results channel says about its sender. A worker
sends its outcome once and is then done; the acceptor reports its accept
errors; the sentinel sends `None`. -/
def SentOk (p : Peer) (m : Sent) : Prop :=
  match m.origin with
  | .worker i => ∃ w, p.workers[i]? = some w ∧ w.stage = .done ∧
      ∃ r, m.msg = some r ∧ ResultOk c.ourSecret c.theirSecret w r
  | .acceptor k => k < p.acceptErrors ∧ ∃ e, m.msg = some (.error (.accept e))
  | .sentinel => m.msg = none ∧ ∃ since why, p.sentinel = .done since why

/-- The messages `ms` are the warnings `ws`, in order, followed by `last`. -/
def LoopLog (ms : List Sent) (ws : List TcpPunchHoleWarning) (last : List Msg) : Prop :=
  ms.map Sent.msg = ws.map (fun w => some (.error w)) ++ last

/-- The main thread against the messages it has received. -/
def MainOk (p : Peer) : Prop :=
  match p.main with
  | .start | .spawning _ _ => p.chan.delivered = 0
  | .receiving _ ws => LoopLog (p.chan.sent.take p.chan.delivered) ws []
  | .returned (.wOk s ws) => LoopLog (p.chan.sent.take p.chan.delivered) ws [some (.ok s)]
  | .returned (.wErr (.timedOut ws)) => LoopLog (p.chan.sent.take p.chan.delivered) ws [none]
  | .returned (.wErr _) => p.chan.delivered = 0
  | .panicked => False

/-- The workers are connectors for the first `k` of the peer's endpoints. -/
def Connectors (k : Nat) (p : Peer) : Prop :=
  p.workers.map Worker.role = (c.theirEndpoints.take k).map fun e => .connector e.addr

/-- Neither the acceptor nor the sentinel has been started. -/
def Idle (p : Peer) : Prop := p.acceptor = .notStarted ∧ p.sentinel = .notStarted

/-- The threads started during the setup, and after a failed one. -/
def SetupOk (p : Peer) : Prop :=
  match p.main with
  | .start => Connectors c 0 p ∧ Idle p
  | .spawning _ rest => ∃ k, rest = c.theirEndpoints.drop k ∧ Connectors c k p ∧ Idle p
  | .returned (.wErr (.socketLocalAddr _)) => Connectors c 0 p ∧ Idle p
  | .returned (.wErr (.newReusablyBoundSocket _)) =>
      ∃ k < c.theirEndpoints.length, Connectors c k p ∧ Idle p
  | .returned (.wErr (.listen _)) => Connectors c c.theirEndpoints.length p ∧ Idle p
  | _ => True

/-- What holds in every reachable state of the call `c`. -/
structure Inv (p : Peer) : Prop where
  logOk : ∀ w ∈ p.workers, w.LogOk c.ourSecret c.theirSecret
  sentOk : ∀ m ∈ p.chan.sent, SentOk c p m
  nodup : (p.chan.sent.map Sent.origin).Nodup
  reporting : ∀ k e, p.acceptor = .reporting k e →
    k < p.acceptErrors ∧ ∀ m ∈ p.chan.sent, m.origin ≠ .acceptor k
  delivered_le : p.chan.delivered ≤ p.chan.sent.length
  mainOk : MainOk p
  setupOk : SetupOk c p
  unparkedOk : p.unparked = true → p.chan.rxAlive = false
  sentinelOk : ∀ since, (p.sentinel = .firing since .unparked ∨ p.sentinel = .done since .unparked) →
    p.chan.rxAlive = false ∧ ∀ m ∈ p.chan.sent, m.origin ≠ .sentinel
  timerOk : ∀ since, (p.sentinel = .firing since .timedOut ∨ p.sentinel = .done since .timedOut) →
    since + timeoutMs ≤ p.now

theorem Inv.init : Inv c .init where
  logOk := by simp [Peer.init]
  sentOk := by simp [Peer.init]
  nodup := by simp [Peer.init]
  reporting := by simp [Peer.init]
  delivered_le := by simp [Peer.init]
  mainOk := rfl
  setupOk := ⟨by simp [Connectors, Peer.init], rfl, rfl⟩
  unparkedOk := by simp [Peer.init]
  sentinelOk := by simp [Peer.init]
  timerOk := by simp [Peer.init]

variable {c}

/-! ## Facts the action lemmas share -/

theorem getElem?_append_of_getElem? {α : Type} {l l' : List α} {i : Nat} {a : α}
    (h : l[i]? = some a) : (l ++ l')[i]? = some a := by
  rw [List.getElem?_append_left (List.getElem?_eq_some_iff.mp h).1]; exact h

theorem take_succ_of_drop_eq_cons {α : Type} {l rest : List α} {k : Nat} {e : α}
    (h : l.drop k = e :: rest) : l.take (k + 1) = l.take k ++ [e] ∧ rest = l.drop (k + 1) := by
  have hk : k < l.length := by
    by_contra hk
    rw [List.drop_eq_nil_iff.mpr (by omega)] at h
    cases h
  rw [List.drop_eq_getElem_cons hk, List.cons.injEq] at h
  obtain ⟨rfl, rfl⟩ := h
  exact ⟨by rw [List.take_succ, List.getElem?_eq_getElem hk]; rfl, rfl⟩

theorem forall_mem_append_singleton {α : Type} {P : α → Prop} {l : List α} {a : α}
    (h : ∀ x ∈ l, P x) (ha : P a) : ∀ x ∈ l ++ [a], P x := by
  simp only [List.mem_append, List.mem_singleton]
  rintro x (hx | rfl)
  exacts [h x hx, ha]

/-- A message keeps saying the same once finished workers stay as they are,
accept errors are only added, and a finished sentinel stays finished. -/
theorem Channel.forall_mem_send {P : Sent → Prop} {ch : Channel} {m : Sent}
    (h : ∀ x ∈ ch.sent, P x) (hm : P m) : ∀ x ∈ (ch.send m).sent, P x := fun x hx =>
  (Channel.mem_send_sent hx).elim (h x) fun e => e ▸ hm

theorem Channel.nodup_send {ch : Channel} {m : Sent} (h : (ch.sent.map Sent.origin).Nodup)
    (hm : ∀ x ∈ ch.sent, x.origin ≠ m.origin) : ((ch.send m).sent.map Sent.origin).Nodup := by
  unfold Channel.send
  split
  · simp only [List.map_append, List.map_cons, List.map_nil, List.Nodup, List.pairwise_append,
      List.pairwise_singleton, List.mem_singleton, List.mem_map]
    exact ⟨h, trivial, by rintro _ ⟨x, hx, rfl⟩ _ rfl; exact hm x hx⟩
  · exact h

theorem Channel.length_le_send (ch : Channel) (m : Sent) :
    ch.sent.length ≤ (ch.send m).sent.length := by
  obtain ⟨extra, h, -⟩ := Channel.send_sent ch m
  simp [h]

/-- Setting a worker to one with the same role keeps the list of roles. -/
theorem roles_set {ws : List Worker} {i : Nat} {w w' : Worker} (hw : ws[i]? = some w)
    (hr : w'.role = w.role) : (ws.set i w').map Worker.role = ws.map Worker.role := by
  have hi := (List.getElem?_eq_some_iff.mp hw).1
  apply List.ext_getElem?
  intro j
  simp only [List.getElem?_map, List.getElem?_set]
  split_ifs <;> simp_all

/-- The only message a worker can have sent is that of a finished worker. -/
theorem Inv.not_sent_of_not_done {p : Peer} (h : Inv c p) {i : Nat} {w : Worker}
    (hw : p.workers[i]? = some w) (hd : w.stage ≠ .done) : ∀ m ∈ p.chan.sent, m.origin ≠ .worker i := by
  intro m hm ho
  have := h.sentOk m hm
  simp only [SentOk, ho, hw] at this
  obtain ⟨x, hx, hxd, -⟩ := this
  cases hx
  exact hd hxd

/-- Setting a worker that is not done leaves every finished worker in place. -/
theorem getElem?_set_of_done {ws : List Worker} {i j : Nat} {w w' x : Worker}
    (hw : ws[i]? = some w) (hd : w.stage ≠ .done) (hx : ws[j]? = some x) (hxd : x.stage = .done) :
    (ws.set i w')[j]? = some x := by
  rw [List.getElem?_set_ne]
  · exact hx
  · rintro rfl
    rw [hw] at hx
    cases hx
    exact hd hxd

theorem SentOk.mono {p q : Peer} {m : Sent} (h : SentOk c p m)
    (hw : ∀ (i : Nat) (w : Worker), p.workers[i]? = some w → w.stage = .done → q.workers[i]? = some w)
    (ha : p.acceptErrors ≤ q.acceptErrors)
    (hs : ∀ since why, p.sentinel = .done since why → q.sentinel = .done since why) :
    SentOk c q m := by
  rcases m with ⟨i | k | _, msg⟩ <;> simp only [SentOk] at h ⊢
  · obtain ⟨w, hw1, hw2, hr⟩ := h
    exact ⟨w, hw i w hw1 hw2, hw2, hr⟩
  · exact ⟨by omega, h.2⟩
  · obtain ⟨hmsg, since, why, hsw⟩ := h
    exact ⟨hmsg, since, why, hs since why hsw⟩

/-- Appending messages the main thread has not received keeps `MainOk`. -/
theorem MainOk.of_append {p q : Peer} (h : MainOk p)
    (hle : p.chan.delivered ≤ p.chan.sent.length) (hm : q.main = p.main)
    (hd : q.chan.delivered = p.chan.delivered) (extra : List Sent)
    (hs : q.chan.sent = p.chan.sent ++ extra) : MainOk q := by
  have ht : q.chan.sent.take p.chan.delivered = p.chan.sent.take p.chan.delivered := by
    rw [hs, List.take_append_of_le_length hle]
  simp only [MainOk, hm, ht, hd] at h ⊢
  exact h

theorem SetupOk.congr {p q : Peer} (h : SetupOk c p) (hm : q.main = p.main)
    (hr : q.workers.map Worker.role = p.workers.map Worker.role)
    (ha : q.acceptor = p.acceptor) (hs : q.sentinel = p.sentinel) : SetupOk c q := by
  simp only [SetupOk, Connectors, Idle, hm, hr, ha, hs] at h ⊢
  exact h

/-- Once the acceptor or the sentinel runs, the setup is over. -/
theorem SetupOk.of_not_idle {p q : Peer} (h : SetupOk c p) (hi : ¬Idle p)
    (hm : q.main = p.main) : SetupOk c q := by
  simp only [SetupOk, hm] at h ⊢
  split at h <;> simp_all

theorem Inv.localAddr {p q : Peer} (h : Inv c p) (hs : p.step c .localAddr = some q) : Inv c q := by
  simp only [Peer.step] at hs
  split at hs <;> cases hs
  all_goals
    have hm := h.mainOk; have hu := h.setupOk
    simp only [MainOk, SetupOk, *] at hm hu
  · exact { h with mainOk := hm, setupOk := ⟨0, rfl, hu⟩ }
  · exact { h with
      mainOk := hm
      setupOk := hu
      unparkedOk := fun _ => rfl
      sentinelOk := fun since hsn => ⟨rfl, (h.sentinelOk since hsn).2⟩ }

theorem Inv.bind {p q : Peer} {calls : ReuseCalls} (h : Inv c p)
    (hs : p.step c (.bind calls) = some q) : Inv c q := by
  simp only [Peer.step] at hs
  split at hs
  next a e rest hmain =>
    have hm := h.mainOk; have hu := h.setupOk
    simp only [MainOk, SetupOk, hmain] at hm hu
    obtain ⟨k, hk, hcon, hidle⟩ := hu
    obtain ⟨htake, hrest⟩ := take_succ_of_drop_eq_cons hk.symm
    split at hs <;> cases hs
    · exact { h with
        logOk := forall_mem_append_singleton h.logOk (Worker.logOk_connector _ _ _ _)
        sentOk := fun m hm' => (h.sentOk m hm').mono (fun _ _ hw _ => getElem?_append_of_getElem? hw)
          le_rfl fun _ _ e => e
        mainOk := hm
        setupOk := ⟨k + 1, hrest, by
          simp only [Connectors] at hcon ⊢
          rw [htake, List.map_append, List.map_append, hcon]; rfl, hidle⟩ }
    · have hlt : k < c.theirEndpoints.length := by
        by_contra hlt
        rw [List.drop_eq_nil_iff.mpr (by omega)] at hk
        cases hk
      exact { h with
        mainOk := hm
        setupOk := ⟨k, hlt, hcon, hidle⟩
        unparkedOk := fun _ => rfl
        sentinelOk := fun since hsn => ⟨rfl, (h.sentinelOk since hsn).2⟩ }
  next => cases hs

theorem Inv.listen {p q : Peer} {r : Except IoError Unit} (h : Inv c p)
    (hs : p.step c (.listen r) = some q) : Inv c q := by
  simp only [Peer.step] at hs
  split at hs <;> cases hs
  all_goals
    have hm := h.mainOk; have hu := h.setupOk
    simp only [MainOk, SetupOk, *] at hm hu
    obtain ⟨k, hk, hcon, hidle⟩ := hu
  · have hnot : ∀ since why, p.sentinel ≠ .done since why := by simp [hidle.2]
    exact { h with
      sentOk := fun m hm' => (h.sentOk m hm').mono (fun _ _ hw _ => hw) le_rfl
        fun since why e => absurd e (hnot since why)
      reporting := fun _ _ e => by cases e
      mainOk := by simp [MainOk, LoopLog, hm]
      setupOk := trivial
      sentinelOk := fun _ e => by simp at e
      timerOk := fun _ e => by simp at e }
  · have hall : c.theirEndpoints.take k = c.theirEndpoints.take c.theirEndpoints.length := by
      rw [List.take_of_length_le (List.drop_eq_nil_iff.mp hk.symm), List.take_length]
    exact { h with
      mainOk := hm
      setupOk := ⟨by simpa only [Connectors, hall] using hcon, hidle⟩
      unparkedOk := fun _ => rfl
      sentinelOk := fun since hsn => ⟨rfl, (h.sentinelOk since hsn).2⟩ }

/-- A receiving main thread holds a sender of its own. -/
theorem Peer.senders_pos_of_receiving {p : Peer} {a : SocketAddr} {ws : List TcpPunchHoleWarning}
    (h : p.main = .receiving a ws) : 0 < p.senders := by
  simp only [Peer.senders, h]; omega

theorem Inv.recv {p q : Peer} (h : Inv c p) (hs : p.step c .recv = some q) : Inv c q := by
  simp only [Peer.step] at hs
  split at hs
  next a ws hmain =>
    have hm := h.mainOk
    simp only [MainOk, hmain] at hm
    simp only [Peer.recv] at hs
    split at hs
    next m hget =>
      have hlt := (List.getElem?_eq_some_iff.mp hget).1
      have hlog : LoopLog (p.chan.sent.take (p.chan.delivered + 1)) ws [m.msg] := by
        unfold LoopLog at hm ⊢
        rw [List.take_succ, hget, Option.toList_some, List.map_append, hm]; simp
      split at hs <;> cases hs <;> simp only [*] at hlog
      all_goals first
        | exact { h with
            delivered_le := hlt
            mainOk := hlog
            setupOk := trivial
            unparkedOk := fun _ => rfl
            sentinelOk := fun since hsn => ⟨rfl, (h.sentinelOk since hsn).2⟩ }
        | exact { h with
            delivered_le := hlt
            mainOk := by simpa [MainOk, LoopLog] using hlog
            setupOk := trivial }
    next =>
      split at hs
      · exact absurd ‹p.senders = 0› (Peer.senders_pos_of_receiving hmain).ne'
      · cases hs
  next => cases hs

theorem Inv.worker {p q : Peer} {i : Nat} {ev : Event} (h : Inv c p)
    (hs : p.step c (.worker i ev) = some q) : Inv c q := by
  simp only [Peer.step] at hs
  split at hs
  next w hw =>
    obtain ⟨w', hstep, rfl⟩ := Option.map_eq_some'.mp hs
    obtain ⟨hrole, -, hnd⟩ := Worker.step_frame hstep
    exact { h with
      logOk := fun x hx => (List.mem_or_eq_of_mem_set hx).elim (h.logOk x)
        fun e => e ▸ Worker.logOk_step (h.logOk w (List.getElem?_mem hw)) hstep
      sentOk := fun m hm => (h.sentOk m hm).mono (fun _ _ hx hxd => getElem?_set_of_done hw hnd hx hxd)
        le_rfl fun _ _ e => e
      setupOk := h.setupOk.congr rfl (roles_set hw hrole) rfl rfl }
  next => cases hs

theorem Inv.send {p q : Peer} {i : Nat} (h : Inv c p) (hs : p.step c (.send i) = some q) :
    Inv c q := by
  simp only [Peer.step] at hs
  split at hs
  next w hw =>
    split at hs
    next r hr =>
      cases hs
      have hnd : w.stage ≠ .done := by simp [hr]
      have hres : ResultOk c.ourSecret c.theirSecret { w with stage := .done } r := by
        have := h.logOk w (List.getElem?_mem hw)
        simp only [Worker.LogOk, hr] at this
        cases r <;> exact this
      have hi := (List.getElem?_eq_some_iff.mp hw).1
      obtain ⟨extra, hsent, -⟩ := Channel.send_sent p.chan ⟨.worker i, some r⟩
      exact {
        logOk := fun x hx => (List.mem_or_eq_of_mem_set hx).elim (h.logOk x) fun e => e ▸ trivial
        sentOk := Channel.forall_mem_send
          (fun m hm => (h.sentOk m hm).mono (fun _ _ hx hxd => getElem?_set_of_done hw hnd hx hxd)
            le_rfl fun _ _ e => e)
          ⟨_, List.getElem?_set_self hi, rfl, r, rfl, hres⟩
        nodup := Channel.nodup_send h.nodup (h.not_sent_of_not_done hw hnd)
        reporting := fun k e he => ⟨(h.reporting k e he).1,
          Channel.forall_mem_send (h.reporting k e he).2 (by simp)⟩
        delivered_le := by simpa using le_trans h.delivered_le (Channel.length_le_send p.chan _)
        mainOk := h.mainOk.of_append h.delivered_le rfl (by simp) extra hsent
        setupOk := h.setupOk.congr rfl (roles_set hw rfl) rfl rfl
        unparkedOk := by simpa using h.unparkedOk
        sentinelOk := fun since hsn => ⟨by simpa using (h.sentinelOk since hsn).1,
          Channel.forall_mem_send (h.sentinelOk since hsn).2 (by simp)⟩
        timerOk := h.timerOk }
    next => cases hs
  next => cases hs

theorem Inv.accept {p q : Peer} {r : Except IoError Unit} (h : Inv c p)
    (hs : p.step c (.accept r) = some q) : Inv c q := by
  simp only [Peer.step] at hs
  split at hs
  next hacc =>
    have hni : ¬Idle p := by simp [Idle, hacc]
    split at hs
    · cases hs
      exact { h with
        reporting := fun _ _ e => by cases e
        setupOk := h.setupOk.of_not_idle hni rfl }
    · split at hs <;> cases hs
      · exact { h with
          logOk := forall_mem_append_singleton h.logOk (Worker.logOk_listenHandshake _ _ _)
          sentOk := fun m hm => (h.sentOk m hm).mono (fun _ _ hw _ => getElem?_append_of_getElem? hw)
            le_rfl fun _ _ e => e
          setupOk := h.setupOk.of_not_idle hni rfl }
      · have hfresh : ∀ m ∈ p.chan.sent, m.origin ≠ .acceptor p.acceptErrors := fun m hm ho => by
          have := h.sentOk m hm
          simp only [SentOk, ho] at this
          omega
        exact { h with
          sentOk := fun m hm => (h.sentOk m hm).mono (fun _ _ hw _ => hw) (by simp) fun _ _ e => e
          reporting := fun k e he => by
            simp only [Acceptor.reporting.injEq] at he
            obtain ⟨rfl, -⟩ := he
            exact ⟨by simp, hfresh⟩
          setupOk := h.setupOk.of_not_idle hni rfl }
  next => cases hs

theorem Inv.acceptorSend {p q : Peer} (h : Inv c p) (hs : p.step c .acceptorSend = some q) :
    Inv c q := by
  simp only [Peer.step] at hs
  split at hs
  next k e hrep =>
    have hni : ¬Idle p := by simp [Idle, hrep]
    obtain ⟨hk, hfresh⟩ := h.reporting k e hrep
    split at hs <;> cases hs
    · obtain ⟨extra, hsent, -⟩ := Channel.send_sent p.chan ⟨.acceptor k, some (.error (.accept e))⟩
      exact { h with
        sentOk := Channel.forall_mem_send
          (fun m hm => (h.sentOk m hm).mono (fun _ _ hw _ => hw) le_rfl fun _ _ e => e)
          ⟨hk, e, rfl⟩
        nodup := Channel.nodup_send h.nodup hfresh
        reporting := fun _ _ e => by cases e
        delivered_le := by simpa using le_trans h.delivered_le (Channel.length_le_send p.chan _)
        mainOk := h.mainOk.of_append h.delivered_le rfl (by simp) extra hsent
        setupOk := h.setupOk.of_not_idle hni rfl
        unparkedOk := by simpa using h.unparkedOk
        sentinelOk := fun since hsn => ⟨by simpa using (h.sentinelOk since hsn).1,
          Channel.forall_mem_send (h.sentinelOk since hsn).2 (by simp)⟩ }
    · exact { h with
        reporting := fun _ _ e => by cases e
        setupOk := h.setupOk.of_not_idle hni rfl }
  next => cases hs

theorem Inv.wake {p q : Peer} {why : Wake} (h : Inv c p) (hs : p.step c (.wake why) = some q) :
    Inv c q := by
  simp only [Peer.step] at hs
  split at hs
  next since hpark =>
    split at hs
    next hallowed =>
      cases hs
      have hnone : ∀ m ∈ p.chan.sent, m.origin ≠ .sentinel := fun m hm ho => by
        have := h.sentOk m hm
        simp only [SentOk, ho, hpark] at this
        simp at this
      exact { h with
        sentOk := fun m hm => (h.sentOk m hm).mono (fun _ _ hw _ => hw) le_rfl
          fun _ _ e => by simp [hpark] at e
        setupOk := h.setupOk.of_not_idle (by simp [Idle, hpark]) rfl
        sentinelOk := fun since' hsn => by
          simp only [Sentinel.firing.injEq, reduceCtorEq, or_false] at hsn
          obtain ⟨rfl, rfl⟩ := hsn
          exact ⟨h.unparkedOk (by simpa [Wake.allowed] using hallowed), hnone⟩
        timerOk := fun since' hsn => by
          simp only [Sentinel.firing.injEq, reduceCtorEq, or_false] at hsn
          obtain ⟨rfl, rfl⟩ := hsn
          simpa [Wake.allowed] using hallowed }
    next => cases hs
  next => cases hs

theorem Inv.sentinelSend {p q : Peer} (h : Inv c p) (hs : p.step c .sentinelSend = some q) :
    Inv c q := by
  simp only [Peer.step] at hs
  split at hs
  next since why hfire =>
    cases hs
    have hnone : ∀ m ∈ p.chan.sent, m.origin ≠ .sentinel := fun m hm ho => by
      have := h.sentOk m hm
      simp only [SentOk, ho, hfire] at this
      simp at this
    obtain ⟨extra, hsent, -⟩ := Channel.send_sent p.chan ⟨.sentinel, none⟩
    exact { h with
      sentOk := Channel.forall_mem_send
        (fun m hm => (h.sentOk m hm).mono (fun _ _ hw _ => hw) le_rfl fun _ _ e => by simp [hfire] at e)
        ⟨rfl, since, why, rfl⟩
      nodup := Channel.nodup_send h.nodup hnone
      reporting := fun k e he => ⟨(h.reporting k e he).1,
        Channel.forall_mem_send (h.reporting k e he).2 (by simp)⟩
      delivered_le := by simpa using le_trans h.delivered_le (Channel.length_le_send p.chan _)
      mainOk := h.mainOk.of_append h.delivered_le rfl (by simp) extra hsent
      setupOk := h.setupOk.of_not_idle (by simp [Idle, hfire]) rfl
      unparkedOk := by simpa using h.unparkedOk
      sentinelOk := fun since' hsn => by
        simp only [reduceCtorEq, Sentinel.done.injEq, false_or] at hsn
        obtain ⟨rfl, rfl⟩ := hsn
        have hdead := (h.sentinelOk _ (.inl hfire)).1
        simp only [Channel.send, hdead, Bool.false_eq_true, ite_false]
        exact ⟨trivial, hnone⟩
      timerOk := fun since' hsn => by
        simp only [reduceCtorEq, Sentinel.done.injEq, false_or] at hsn
        obtain ⟨rfl, rfl⟩ := hsn
        exact h.timerOk _ (.inl hfire) }
  next => cases hs

theorem Inv.tick {p q : Peer} {d : Nat} (h : Inv c p) (hs : p.step c (.tick d) = some q) :
    Inv c q := by
  cases hs
  exact { h with timerOk := fun since hsn => le_trans (h.timerOk since hsn) (Nat.le_add_right _ _) }

/-- Every step of the call keeps `Inv`. -/
theorem Inv.step {p q : Peer} {a : Act} (h : Inv c p) (hs : p.step c a = some q) : Inv c q := by
  cases a with
  | localAddr => exact h.localAddr hs
  | bind _ => exact h.bind hs
  | listen _ => exact h.listen hs
  | recv => exact h.recv hs
  | worker _ _ => exact h.worker hs
  | send _ => exact h.send hs
  | accept _ => exact h.accept hs
  | acceptorSend => exact h.acceptorSend hs
  | wake _ => exact h.wake hs
  | sentinelSend => exact h.sentinelSend hs
  | tick _ => exact h.tick hs

theorem Inv.reachable {allowed : Act → Prop} {p : Peer} (hp : ReachableBy c allowed p) : Inv c p := by
  induction hp with
  | init => exact .init c
  | step _ _ _ hs ih => exact ih.step hs

end NatTraversal.Punch
