import NatTraversal.Punch.Link
import NatTraversal.Punch.World

/-!
# What the connections carry

A TCP connection delivers the bytes written at one end to the other end, in
order, each byte once. In every run of the two calls, on every connection
between them, the bytes the worker at one end has written are the bytes the
worker at the other end has read, followed by the bytes still in flight to it
(`StreamInv.reachable`). Three facts of one call carry it: the worker with
index `i` holds stream `i` (`Peer.Indexed`), a step changes the transfers on
no stream but that of the worker that made a call (`Peer.logOf_set`,
`Peer.logOf_step_quiet`), and a worker writes nothing but a prefix of its own
secret (`Peer.WroteOurs`).

* `ok_stream_partner_wrote_secret`: a call returns a stream only when the
  other call's secret is the one it expects. The worker at the other end of
  the returned stream's connection has then written that whole secret, and
  all of it has been read.
* `handshake_reads_partner_secret`: what a worker reads in its handshake is the
  other call's secret, whatever the worker expects. The check is one-sided:
  when A's copy of B's secret is wrong and B's copy of A's is right, A's
  worker reports `InvalidResponse`, while B's call returns its end of the same
  connection (`handshake_reads_partner_secret_wrong_secret`).
-/

set_option autoImplicit false

namespace NatTraversal.Punch

/-! ## What a call of a worker does to its log -/

/-- Whether a worker is still at its `connect` call. -/
def Worker.connecting (w : Worker) : Bool :=
  match w.stage with
  | .connecting _ => true
  | _ => false

theorem Worker.writeAll_connecting {w w' : Worker} {rest : List UInt8} {r : Except IoError Nat}
    (hs : w.stage = .writing rest) (h : w.writeAll rest r = some w') : w'.connecting = false := by
  unfold Worker.writeAll at h
  split at h <;> (try split at h) <;> cases h
  all_goals simp only [Worker.connecting, Worker.fail_stage, hs]
  split_ifs <;> rfl

theorem Worker.readExact_connecting {their : Bytes4} {w w' : Worker} {got : List UInt8}
    {r : Except IoError (List UInt8)} (hs : w.stage = .reading got)
    (h : w.readExact their got r = some w') : w'.connecting = false := by
  unfold Worker.readExact at h
  split at h <;> (try split at h) <;> cases h
  all_goals simp only [Worker.connecting, Worker.fail_stage, hs, afterRead]
  split_ifs <;> rfl

/-- A call of a worker leaves it past its `connect`. -/
theorem Worker.step_connecting {our their : Bytes4} {w w' : Worker} {ev : Event}
    (h : w.step our their ev = some w') : w'.connecting = false := by
  unfold Worker.step at h
  split at h
  case h_7 hs => exact Worker.writeAll_connecting hs h
  case h_8 hs => exact Worker.readExact_connecting hs h
  all_goals cases h <;> rfl

/-- A worker at its `connect` call has moved no bytes. -/
theorem Worker.log_of_connecting {our their : Bytes4} {w : Worker} (hl : w.LogOk our their)
    (hc : w.connecting = true) : w.log = [] := by
  rcases w with ⟨role, stage, s, log⟩
  cases stage <;> simp_all [Worker.connecting, Worker.LogOk]

/-- Only a worker at its `connect` call can connect. -/
theorem Worker.connecting_of_step_connect {our their : Bytes4} {w w' : Worker}
    (h : w.step our their (.connect (.ok ())) = some w') : w.connecting = true := by
  rcases w with ⟨role, stage, s, log⟩
  cases stage <;> simp [Worker.step] at h ⊢
  rfl

/-- A `write` that took `n + 1` bytes logs the first `n + 1` bytes left to write. -/
theorem Worker.step_write_log {our their : Bytes4} {w w' : Worker} {n : Nat}
    (h : w.step our their (.write (.ok (n + 1))) = some w') :
    ∃ rest, w.stage = .writing rest ∧ w'.log = w.log ++ [.wrote (rest.take (n + 1))] := by
  rcases w with ⟨role, stage, s, log⟩
  cases stage <;> simp only [Worker.step, reduceCtorEq] at h
  case writing rest =>
    simp only [Worker.writeAll] at h
    split_ifs at h <;> cases h <;> exact ⟨rest, rfl, rfl⟩

/-- A `read` that returned bytes logs them. -/
theorem Worker.step_read_log {our their : Bytes4} {w w' : Worker} {b : UInt8} {bs : List UInt8}
    (h : w.step our their (.read (.ok (b :: bs))) = some w') :
    w'.log = w.log ++ [.read (b :: bs)] := by
  rcases w with ⟨role, stage, s, log⟩
  cases stage <;> simp only [Worker.step, reduceCtorEq] at h
  case reading got =>
    simp only [Worker.readExact] at h
    split_ifs at h
    cases h
    rfl

/-- A call of a worker keeps what it has written a prefix of its secret: the
bytes of a `write` are taken from what is left of it. -/
theorem Worker.written_prefix_step {our their : Bytes4} {w w' : Worker} {ev : Event}
    (hl : w.LogOk our their) (hp : written w.log <+: our.toList)
    (h : w.step our their ev = some w') : written w'.log <+: our.toList := by
  cases hev : ev.transfers
  · rwa [Worker.step_log h hev]
  rcases ev with r | r | r | (_ | _ | n) | (_ | _ | ⟨b, bs⟩)
  all_goals try simp [Event.transfers] at hev
  · obtain ⟨rest, hst, hlog⟩ := Worker.step_write_log h
    simp only [Worker.LogOk, hst] at hl
    obtain ⟨ws, hws, hour⟩ := hl
    rw [hlog, written_append, written_wrote, hws, written_map_wrote, ← hour]
    exact (List.prefix_append_right_inj _).mpr (List.take_prefix _ _)
  · rwa [Worker.step_read_log h, written_append, written_read, List.append_nil]

/-- An entry of a list with one more element at its end is an old entry or the
new element. -/
theorem getElem?_append_singleton_eq {α : Type} {l : List α} {a x : α} {j : Nat}
    (h : (l ++ [a])[j]? = some x) : l[j]? = some x ∨ (j = l.length ∧ x = a) := by
  rcases Nat.lt_or_ge j l.length with hj | hj
  · exact .inl (by rwa [List.getElem?_append_left hj] at h)
  · obtain ⟨k, rfl⟩ := Nat.exists_eq_add_of_le hj
    rw [List.getElem?_append_right hj, Nat.add_sub_cancel_left] at h
    cases k with
    | zero => exact .inr ⟨rfl, by simpa using h.symm⟩
    | succ k => simp at h

/-- An entry of a list with one element replaced is the new element or an old
entry at another index. -/
theorem getElem?_set_eq {α : Type} {l : List α} {i j : Nat} {a x : α}
    (h : (l.set i a)[j]? = some x) : (j = i ∧ x = a) ∨ (j ≠ i ∧ l[j]? = some x) := by
  rw [List.getElem?_set] at h
  split_ifs at h with hij
  · exact .inl ⟨hij.symm, (Option.some.inj h).symm⟩
  · exact .inr ⟨Ne.symm hij, h⟩

/-! ## Streams are numbered by worker -/

/-- The worker with index `i` holds stream `i`, and the next stream is the next
index: the call numbers its streams in the order it starts their workers. -/
structure Peer.Indexed (p : Peer) : Prop where
  length_eq : p.workers.length = p.nextStream
  stream_eq : ∀ (i : Nat) (wk : Worker), p.workers[i]? = some wk → wk.stream = i

theorem Peer.Indexed.init : Peer.init.Indexed := ⟨rfl, fun _ _ h => by simp [Peer.init] at h⟩

theorem Peer.Indexed.step {c : Call} {p q : Peer} {act : Act} (h : p.Indexed)
    (hs : p.step c act = some q) : q.Indexed := by
  rcases Peer.step_workers hs with ⟨hw, hn⟩ | ⟨wk, hw, hst, -, hn⟩ | ⟨i, wk, wk', hi, hw, hn, hev⟩
  · exact ⟨by rw [hw, hn, h.length_eq], fun j x hx => h.stream_eq j x (hw ▸ hx)⟩
  · refine ⟨by simp [hw, hn, h.length_eq], fun j x hx => ?_⟩
    rw [hw] at hx
    rcases getElem?_append_singleton_eq hx with hx | ⟨rfl, rfl⟩
    · exact h.stream_eq j x hx
    · rw [hst, h.length_eq]
  · have hst : wk'.stream = wk.stream := by
      rcases hev with ⟨ev, -, hstep⟩ | ⟨-, rfl⟩
      exacts [(Worker.step_frame hstep).2.1, rfl]
    refine ⟨by simp [hw, hn, h.length_eq], fun j x hx => ?_⟩
    rw [hw] at hx
    rcases getElem?_set_eq hx with ⟨rfl, rfl⟩ | ⟨-, hx⟩
    · rw [hst, h.stream_eq _ _ hi]
    · exact h.stream_eq j x hx

/-- The worker that holds a stream is the one with that index. -/
theorem Peer.Indexed.getElem?_stream {p : Peer} {wk : Worker} (h : p.Indexed)
    (hw : wk ∈ p.workers) : p.workers[wk.stream]? = some wk := by
  obtain ⟨i, hi⟩ := List.getElem?_of_mem hw
  rwa [h.stream_eq i wk hi]

/-! ## The transfers on each stream -/

/-- The transfers made on stream `s`: those of the worker with index `s`. -/
def Peer.logOf (p : Peer) (s : StreamId) : List Transfer :=
  match p.workers[s]? with
  | some wk => wk.log
  | none => []

theorem Peer.logOf_of_getElem? {p : Peer} {s : StreamId} {wk : Worker}
    (h : p.workers[s]? = some wk) : p.logOf s = wk.log := by
  simp [Peer.logOf, h]

/-- Replacing the `i`-th worker changes the transfers on stream `i` only. -/
theorem Peer.logOf_set {p q : Peer} {i : Nat} {wk wk' : Worker} (hw : q.workers = p.workers.set i wk')
    (hi : p.workers[i]? = some wk) (s : StreamId) :
    q.logOf s = if s = i then wk'.log else p.logOf s := by
  split_ifs with hsi
  · subst hsi
    simp [Peer.logOf, hw, List.getElem?_set_self (List.getElem?_eq_some_iff.mp hi).1]
  · simp only [Peer.logOf, hw, List.getElem?_set_ne fun h => hsi h.symm]

/-- A call of the `i`-th worker replaces it by what the call made of it. -/
theorem Peer.step_worker_eq {c : Call} {p q : Peer} {i : Nat} {ev : Event} {wk : Worker}
    (hs : p.step c (.worker i ev) = some q) (hw : p.workers[i]? = some wk) :
    ∃ wk', wk.step c.ourSecret c.theirSecret ev = some wk' ∧ q.workers = p.workers.set i wk' := by
  simp only [Peer.step, hw] at hs
  obtain ⟨wk', hstep, rfl⟩ := Option.map_eq_some'.mp hs
  exact ⟨wk', hstep, rfl⟩

/-- A step that moves no bytes keeps the transfers on every stream. -/
theorem Peer.logOf_step_quiet {c : Call} {p q : Peer} {act : Act} (hs : p.step c act = some q)
    (hact : act.transfers = false) : q.logOf = p.logOf := by
  funext s
  rcases Peer.step_quiet_workers hs hact with hw | ⟨wk, hw, hlog⟩ | ⟨i, wk, wk', hi, hw, -, hlog⟩
  · simp only [Peer.logOf, hw]
  · rcases Nat.lt_or_ge s p.workers.length with hlt | hge
    · simp only [Peer.logOf, hw, List.getElem?_append_left hlt]
    · simp only [Peer.logOf, hw, List.getElem?_append_right hge, List.getElem?_eq_none hge]
      cases s - p.workers.length <;> simp [hlog]
  · rw [Peer.logOf_set hw hi s]
    split_ifs with hsi
    · rw [hlog, hsi, Peer.logOf_of_getElem? hi]
    · rfl

/-! ## A worker writes only its secret -/

/-- Every worker of the call `c` has written a prefix of our secret. -/
def Peer.WroteOurs (c : Call) (p : Peer) : Prop :=
  ∀ wk ∈ p.workers, written wk.log <+: c.ourSecret.toList

theorem Peer.WroteOurs.step {c : Call} {p q : Peer} {act : Act} (hi : Inv c p)
    (h : p.WroteOurs c) (hs : p.step c act = some q) : q.WroteOurs c := by
  rcases Peer.step_workers hs with ⟨hw, -⟩ | ⟨wk, hw, -, hlog, -⟩ | ⟨i, wk, wk', hi', hw, -, hev⟩
  · exact fun x hx => h x (hw ▸ hx)
  · rw [Peer.WroteOurs, hw]
    exact forall_mem_append_singleton h (by simp [hlog])
  · intro x hx
    rw [hw] at hx
    rcases List.mem_or_eq_of_mem_set hx with hx | rfl
    · exact h x hx
    · have hmem := List.getElem?_mem hi'
      rcases hev with ⟨ev, -, hstep⟩ | ⟨-, rfl⟩
      · exact Worker.written_prefix_step (hi.logOk wk hmem) (h wk hmem) hstep
      · exact h wk hmem

/-- In every run of one call, streams are numbered by worker and every worker
has written a prefix of our secret. -/
theorem ReachableBy.indexed_wroteOurs {c : Call} {allowed : Act → Prop} {p : Peer}
    (hp : ReachableBy c allowed p) : p.Indexed ∧ p.WroteOurs c := by
  induction hp with
  | init => exact ⟨.init, fun _ h => by simp [Peer.init] at h⟩
  | step _ hp _ hs ih => exact ⟨ih.1.step hs, ih.2.step (Inv.reachable hp) hs⟩

/-! ## The ends of the connections -/

/-- A step keeps every worker that is past its `connect` past it. -/
theorem Peer.step_connected {c : Call} {p q : Peer} {act : Act} (hs : p.step c act = some q)
    {s : StreamId} {wk : Worker} (hw : p.workers[s]? = some wk) (hc : wk.connecting = false) :
    ∃ wk', q.workers[s]? = some wk' ∧ wk'.connecting = false := by
  rcases Peer.step_workers hs with ⟨hq, -⟩ | ⟨x, hq, -⟩ | ⟨i, x, x', hi, hq, -, hev⟩
  · exact ⟨wk, hq ▸ hw, hc⟩
  · exact ⟨wk, by rw [hq]; exact getElem?_append_of_getElem? hw, hc⟩
  · rw [hq]
    by_cases hsi : s = i
    · subst hsi
      refine ⟨x', List.getElem?_set_self (List.getElem?_eq_some_iff.mp hw).1, ?_⟩
      rcases hev with ⟨ev, -, hstep⟩ | ⟨-, rfl⟩
      exacts [Worker.step_connecting hstep, rfl]
    · exact ⟨wk, by rw [List.getElem?_set_ne fun h => hsi h.symm]; exact hw, hc⟩

/-- An accepted connection gets a handshake worker on the next stream, unless
the acceptor is shut down. -/
theorem Peer.step_accept_ok {c : Call} {p q : Peer} (hs : p.step c (.accept (.ok ())) = some q) :
    p.shutdown = true ∨
      (p.shutdown = false ∧ q.workers = p.workers ++ [.listenHandshake p.nextStream]) := by
  simp only [Peer.step] at hs
  split at hs
  · split_ifs at hs with hsd
    · exact .inl hsd
    · cases hs
      exact .inr ⟨by simpa using hsd, rfl⟩
  · cases hs

/-- The stream `s` of `p` may become an end of a connection: a worker past its
`connect` holds it, and it is no end yet. -/
def EndFresh (p : Peer) (f : Conn → Option StreamId) (conns : List Conn) (s : StreamId) : Prop :=
  (∃ wk, p.workers[s]? = some wk ∧ wk.connecting = false) ∧
    ∀ (k : Nat) (c : Conn), conns[k]? = some c → f c ≠ some s

/-- The ends that `f` picks from the connections, as streams of `p`: a worker
past its `connect` holds each, and no stream is the end of two connections. -/
structure EndsOk (p : Peer) (f : Conn → Option StreamId) (conns : List Conn) : Prop where
  held : ∀ (k : Nat) (c : Conn) (s : StreamId), conns[k]? = some c → f c = some s →
    ∃ wk, p.workers[s]? = some wk ∧ wk.connecting = false
  unique : ∀ (k k' : Nat) (c c' : Conn) (s : StreamId), conns[k]? = some c →
    conns[k']? = some c' → f c = some s → f c' = some s → k = k'

section Ends

variable {p : Peer} {f : Conn → Option StreamId} {conns : List Conn}

theorem EndsOk.of_step {c : Call} {q : Peer} {act : Act} (h : EndsOk p f conns)
    (hs : p.step c act = some q) : EndsOk q f conns :=
  ⟨fun k x s hk hf => let ⟨_, hw, hc⟩ := h.held k x s hk hf; Peer.step_connected hs hw hc, h.unique⟩

theorem EndsOk.map_swap {f' : Conn → Option StreamId} (h : EndsOk p f conns)
    (hf : ∀ c, f' c.swap = f c) : EndsOk p f' (conns.map Conn.swap) := by
  have hget : ∀ {k : Nat} {x : Conn}, (conns.map Conn.swap)[k]? = some x →
      ∃ c, conns[k]? = some c ∧ f' x = f c := by
    intro k x hk
    rw [List.getElem?_map] at hk
    obtain ⟨c, hc, rfl⟩ := Option.map_eq_some'.mp hk
    exact ⟨c, hc, hf c⟩
  constructor
  · intro k x s hk hs
    obtain ⟨c, hc, he⟩ := hget hk
    exact h.held k c s hc (he ▸ hs)
  · intro k k' x x' s hk hk' hs hs'
    obtain ⟨c, hc, he⟩ := hget hk
    obtain ⟨c', hc', he'⟩ := hget hk'
    exact h.unique k k' c c' s hc hc' (he ▸ hs) (he' ▸ hs')

/-- A new connection keeps the ends apart when its end is a fresh stream. -/
theorem EndsOk.append {c : Conn} (h : EndsOk p f conns)
    (hc : ∀ s, f c = some s → EndFresh p f conns s) : EndsOk p f (conns ++ [c]) := by
  constructor
  · intro k x s hk hs
    rcases getElem?_append_singleton_eq hk with hk | ⟨-, rfl⟩
    exacts [h.held k x s hk hs, (hc s hs).1]
  · intro k k' x x' s hk hk' hs hs'
    rcases getElem?_append_singleton_eq hk with h₁ | ⟨rfl, rfl⟩ <;>
      rcases getElem?_append_singleton_eq hk' with h₂ | ⟨rfl, rfl⟩
    · exact h.unique k k' x x' s h₁ h₂ hs hs'
    · exact absurd hs ((hc s hs').2 k x h₁)
    · exact absurd hs' ((hc s hs).2 k' x' h₂)
    · rfl

/-- Replacing a connection keeps the ends apart when it keeps its end, or gives
it a fresh stream as end. -/
theorem EndsOk.set {k : Nat} {c c' : Conn} (h : EndsOk p f conns) (hk : conns[k]? = some c)
    (hc : f c' = f c ∨ (f c = none ∧ ∀ s, f c' = some s → EndFresh p f conns s)) :
    EndsOk p f (conns.set k c') := by
  have mixed : ∀ j x s, j ≠ k → conns[j]? = some x → f c' = some s → f x = some s → False := by
    intro j x s hj hx hs hxs
    rcases hc with hc | ⟨-, hc⟩
    · exact hj (h.unique j k x c s hx hk hxs (hc ▸ hs))
    · exact (hc s hs).2 j x hx hxs
  constructor
  · intro j x s hj hs
    rcases getElem?_set_eq hj with ⟨-, rfl⟩ | ⟨-, hj⟩
    · rcases hc with hc | ⟨-, hc⟩
      exacts [h.held k c s hk (hc ▸ hs), (hc s hs).1]
    · exact h.held j x s hj hs
  · intro j j' x x' s hj hj' hs hs'
    rcases getElem?_set_eq hj with ⟨rfl, rfl⟩ | ⟨hjk, h₁⟩ <;>
      rcases getElem?_set_eq hj' with ⟨rfl, rfl⟩ | ⟨hjk', h₂⟩
    · rfl
    · exact (mixed j' x' s hjk' h₂ hs hs').elim
    · exact (mixed j x s hjk h₁ hs' hs).elim
    · exact h.unique j j' x x' s h₁ h₂ hs hs'

/-- What the connecting worker brings to a new connection: a stream that is no
end yet, past its `connect` after it, with no transfers. -/
theorem EndsOk.connect {c : Call} {q : Peer} {i : Nat} {wk : Worker} (h : EndsOk p f conns)
    (hi : Inv c p) (hw : p.workers[i]? = some wk)
    (hs : p.step c (.worker i (.connect (.ok ()))) = some q) :
    EndFresh q f conns i ∧ q.logOf i = [] := by
  obtain ⟨wk', hstep, hq⟩ := Peer.step_worker_eq hs hw
  have hc := Worker.connecting_of_step_connect hstep
  refine ⟨⟨⟨wk', ?_, Worker.step_connecting hstep⟩, fun k x hk hx => ?_⟩, ?_⟩
  · rw [hq, List.getElem?_set_self (List.getElem?_eq_some_iff.mp hw).1]
  · obtain ⟨wk'', hw'', hc''⟩ := h.held k x i hk hx
    rw [hw] at hw''
    cases hw''
    simp [hc] at hc''
  · rw [Peer.logOf_set hq hw, if_pos rfl, Worker.step_log hstep rfl]
    exact Worker.log_of_connecting (hi.logOk wk (List.getElem?_mem hw)) hc

end Ends

/-! ## What every connection carries -/

/-- The transfers at an end of a connection: none before the end is accepted. -/
def Peer.endLog (p : Peer) : Option StreamId → List Transfer
  | some s => p.logOf s
  | none => []

/-- A connection carries the bytes each end wrote, in order: what one end wrote
is what the other end read, followed by what is in flight to it. -/
def Conn.Carries (a b : Peer) (c : Conn) : Prop :=
  written (a.endLog c.aEnd) = readBytes (b.endLog c.bEnd) ++ c.toB ∧
    written (b.endLog c.bEnd) = readBytes (a.endLog c.aEnd) ++ c.toA

/-- Both peers' ends of the connections, and what each connection carries. -/
structure StreamInv (w : World) : Prop where
  endsA : EndsOk w.a Conn.aEnd w.conns
  endsB : EndsOk w.b Conn.bEnd w.conns
  carries : ∀ (k : Nat) (c : Conn), w.conns[k]? = some c → c.Carries w.a w.b

theorem StreamInv.init : StreamInv .init :=
  ⟨⟨by simp [World.init], by simp [World.init]⟩, ⟨by simp [World.init], by simp [World.init]⟩,
    by simp [World.init]⟩

theorem StreamInv.swap {w : World} (h : StreamInv w) : StreamInv w.swap where
  endsA := h.endsB.map_swap fun _ => rfl
  endsB := h.endsA.map_swap fun _ => rfl
  carries k c hk := by
    simp only [World.swap, List.getElem?_map] at hk
    obtain ⟨c, hc, rfl⟩ := Option.map_eq_some'.mp hk
    exact ⟨(h.carries k c hc).2, (h.carries k c hc).1⟩

/-- What a connection carries depends on the peers only through their transfers. -/
theorem Conn.carries_congr {a a' b b' : Peer} (c : Conn) (ha : a'.logOf = a.logOf)
    (hb : b'.logOf = b.logOf) : c.Carries a' b' ↔ c.Carries a b := by
  have hend : ∀ {p p' : Peer}, p'.logOf = p.logOf → p'.endLog = p.endLog := by
    intro p p' hp
    funext e
    cases e <;> simp [Peer.endLog, hp]
  rw [Conn.Carries, Conn.Carries, hend ha, hend hb]

section Moves

variable {w : World}

/-- A step of A's call that moves no bytes. -/
theorem StreamInv.quietA {cA : Call} {a' : Peer} {act : Act} (h : StreamInv w)
    (hs : w.a.step cA act = some a') (hact : act.transfers = false) :
    StreamInv { w with a := a' } :=
  ⟨h.endsA.of_step hs, h.endsB, fun k c hk =>
    (Conn.carries_congr c (Peer.logOf_step_quiet hs hact) rfl).mpr (h.carries k c hk)⟩

/-- A step of B's call that moves no bytes. -/
theorem StreamInv.quietB {cB : Call} {b' : Peer} {act : Act} (h : StreamInv w)
    (hs : w.b.step cB act = some b') (hact : act.transfers = false) :
    StreamInv { w with b := b' } :=
  ⟨h.endsA, h.endsB.of_step hs, fun k c hk =>
    (Conn.carries_congr c rfl (Peer.logOf_step_quiet hs hact)).mpr (h.carries k c hk)⟩

/-- A new connection, with fresh ends, that carries what its ends moved. -/
theorem StreamInv.append {c : Conn} (h : StreamInv w)
    (hA : ∀ s, c.aEnd = some s → EndFresh w.a Conn.aEnd w.conns s)
    (hB : ∀ s, c.bEnd = some s → EndFresh w.b Conn.bEnd w.conns s) (hc : c.Carries w.a w.b) :
    StreamInv { w with conns := w.conns ++ [c] } :=
  ⟨h.endsA.append hA, h.endsB.append hB, fun k x hk => by
    rcases getElem?_append_singleton_eq hk with hk | ⟨-, rfl⟩
    exacts [h.carries k x hk, hc]⟩

/-- A connection that keeps B's end, and keeps A's end or gets a fresh one. -/
theorem StreamInv.set {k : Nat} {c c' : Conn} (h : StreamInv w) (hk : w.conns[k]? = some c)
    (hA : c'.aEnd = c.aEnd ∨
      (c.aEnd = none ∧ ∀ s, c'.aEnd = some s → EndFresh w.a Conn.aEnd w.conns s))
    (hB : c'.bEnd = c.bEnd) (hc : c'.Carries w.a w.b) :
    StreamInv { w with conns := w.conns.set k c' } :=
  ⟨h.endsA.set hk hA, h.endsB.set hk (.inl hB), fun j x hj => by
    rcases getElem?_set_eq hj with ⟨-, rfl⟩ | ⟨-, hj⟩
    exacts [hc, h.carries j x hj]⟩

/-- A's worker on stream `i` moves the bytes of `t` on the `k`-th connection,
whose A end is `i`. -/
theorem StreamInv.transfer {a' : Peer} {k i : Nat} {c c' : Conn} {t : Transfer}
    (h : StreamInv w) (hk : w.conns[k]? = some c) (hi : c.aEnd = some i)
    (hA : c'.aEnd = c.aEnd) (hB : c'.bEnd = c.bEnd)
    (htoB : c'.toB = c.toB ++ written [t]) (htoA : c.toA = readBytes [t] ++ c'.toA)
    (hlog : ∀ s, a'.logOf s = if s = i then w.a.logOf i ++ [t] else w.a.logOf s)
    (hends : EndsOk a' Conn.aEnd w.conns) : StreamInv ⟨a', w.b, w.conns.set k c'⟩ := by
  refine ⟨hends.set hk (.inl hA), h.endsB.set hk (.inl hB), fun j x hj => ?_⟩
  rcases getElem?_set_eq hj with ⟨-, rfl⟩ | ⟨hjk, hj⟩
  · obtain ⟨h₁, h₂⟩ := h.carries k c hk
    have hi' : a'.logOf i = w.a.logOf i ++ [t] := by rw [hlog, if_pos rfl]
    simp only [Conn.Carries, Peer.endLog, hA, hB, hi] at h₁ h₂ ⊢
    rw [hi', written_append, readBytes_append, h₁, htoB, h₂, htoA]
    simp
  · have hother : a'.endLog x.aEnd = w.a.endLog x.aEnd := by
      cases hx : x.aEnd with
      | none => rfl
      | some s =>
        have hsi : s ≠ i := fun hsi => hjk (h.endsA.unique j k x c s hj hk hx (hsi ▸ hi))
        simp [Peer.endLog, hlog, hsi]
    have hc := h.carries j x hj
    rwa [Conn.Carries, ← hother] at hc

end Moves

/-! ## Every run -/

section Steps

variable {cA cB : Call} {w w' : World}

/-- A's worker connects to B's listener: a new connection, with A's end only. -/
theorem StreamInv.dial {i : Nat} (h : StreamInv w) (ia : w.a.Indexed) (hi : Inv cA w.a)
    (hs : w.stepA cA cB (.dial i) = some w') : StreamInv w' := by
  simp only [World.stepA] at hs
  split at hs
  · next wk hw =>
    obtain ⟨a', hsa, rfl⟩ := Option.map_eq_some'.mp hs
    obtain ⟨hfresh, hlog⟩ := h.endsA.connect hi hw hsa
    have hwi : wk.stream = i := ia.stream_eq i wk hw
    refine (h.quietA hsa rfl).append (fun s hs => ?_) (fun _ hs => by cases hs) ?_
    · cases hs
      exact hwi ▸ hfresh
    · simp [Conn.Carries, Peer.endLog, hwi, hlog]
  · cases hs

/-- A's and B's workers connect to each other: a new connection with both ends. -/
theorem StreamInv.simOpen {i j : Nat} (h : StreamInv w) (ia : w.a.Indexed) (ib : w.b.Indexed)
    (hia : Inv cA w.a) (hib : Inv cB w.b) (hs : w.stepA cA cB (.simOpen i j) = some w') :
    StreamInv w' := by
  simp only [World.stepA] at hs
  split at hs
  · next wa wb hwa hwb =>
    split at hs
    · next a' b' hsa hsb =>
      cases hs
      obtain ⟨hfa, hla⟩ := h.endsA.connect hia hwa hsa
      obtain ⟨hfb, hlb⟩ := h.endsB.connect hib hwb hsb
      have hai : wa.stream = i := ia.stream_eq i wa hwa
      have hbj : wb.stream = j := ib.stream_eq j wb hwb
      refine ((h.quietA hsa rfl).quietB hsb rfl).append (fun s hs => ?_) (fun s hs => ?_) ?_
      · cases hs
        exact hai ▸ hfa
      · cases hs
        exact hbj ▸ hfb
      · simp [Conn.Carries, Peer.endLog, hai, hbj, hla, hlb]
    · cases hs
  · cases hs

/-- A's acceptor accepts a connection: its A end becomes the next stream, whose
handshake worker has moved nothing yet. -/
theorem StreamInv.accept {k : Nat} (h : StreamInv w) (ia : w.a.Indexed)
    (hs : w.stepA cA cB (.accept k) = some w') : StreamInv w' := by
  simp only [World.stepA] at hs
  split at hs
  · next conn hk =>
    by_cases hnone : conn.aEnd = none
    swap
    · rw [if_neg hnone] at hs
      cases hs
    rw [if_pos hnone] at hs
    obtain ⟨a', hsa, rfl⟩ := Option.map_eq_some'.mp hs
    have hq := h.quietA hsa rfl
    rcases Peer.step_accept_ok hsa with hsd | ⟨hsd, hw⟩
    · simpa [hsd] using hq
    rw [if_neg (by simp [hsd])]
    have hns : a'.logOf w.a.nextStream = [] := by
      rw [Peer.logOf_step_quiet hsa rfl, Peer.logOf, List.getElem?_eq_none (by rw [ia.length_eq])]
    refine hq.set hk (.inr ⟨hnone, fun s hs => ?_⟩) rfl ?_
    · cases hs
      refine ⟨⟨.listenHandshake w.a.nextStream,
        by rw [hw, ← ia.length_eq]; exact List.getElem?_concat_length _ _, rfl⟩,
        fun k' x hk' hx => ?_⟩
      obtain ⟨wk, hwk, -⟩ := h.endsA.held k' x _ hk' hx
      have hlt := (List.getElem?_eq_some_iff.mp hwk).1
      rw [ia.length_eq] at hlt
      exact Nat.lt_irrefl _ hlt
    · have hc := hq.carries k conn hk
      simp only [Conn.Carries, Peer.endLog, hnone, hns] at hc ⊢
      exact hc
  · cases hs

/-- A's worker writes on its connection. -/
theorem StreamInv.write {i k n : Nat} (h : StreamInv w) (ia : w.a.Indexed)
    (hs : w.stepA cA cB (.write i k n) = some w') : StreamInv w' := by
  simp only [World.stepA] at hs
  split at hs
  · next wk conn hw hk =>
    split at hs
    · next rest hst =>
      split_ifs at hs with hc
      obtain ⟨a', hsa, rfl⟩ := Option.map_eq_some'.mp hs
      obtain ⟨hce, hn⟩ := hc
      obtain ⟨n, rfl⟩ : ∃ n', n = n' + 1 := ⟨n - 1, by omega⟩
      obtain ⟨wk', hstep, hq⟩ := Peer.step_worker_eq hsa hw
      obtain ⟨rest', hst', hlog⟩ := Worker.step_write_log hstep
      rw [hst] at hst'
      cases hst'
      refine h.transfer (t := .wrote (rest.take (n + 1))) hk
        (hce.trans (congrArg some (ia.stream_eq i wk hw))) rfl rfl (by simp) (by simp)
        (fun s => ?_) (h.endsA.of_step hsa)
      rw [Peer.logOf_set hq hw, hlog, Peer.logOf_of_getElem? hw]
    · cases hs
  · cases hs

/-- A's worker reads from its connection. -/
theorem StreamInv.read {i k n : Nat} (h : StreamInv w) (ia : w.a.Indexed)
    (hs : w.stepA cA cB (.read i k n) = some w') : StreamInv w' := by
  simp only [World.stepA] at hs
  split at hs
  · next wk conn hw hk =>
    split_ifs at hs with hc
    obtain ⟨a', hsa, rfl⟩ := Option.map_eq_some'.mp hs
    obtain ⟨hce, hn, hle⟩ := hc
    obtain ⟨b, bs, hbs⟩ : ∃ b bs, conn.toA.take n = b :: bs := by
      obtain ⟨m, rfl⟩ : ∃ m, n = m + 1 := ⟨n - 1, by omega⟩
      cases hA : conn.toA with
      | nil => simp [hA] at hle
      | cons x xs => exact ⟨x, xs.take m, rfl⟩
    obtain ⟨wk', hstep, hq⟩ := Peer.step_worker_eq hsa hw
    rw [hbs] at hstep
    refine h.transfer (t := .read (b :: bs)) hk
      (hce.trans (congrArg some (ia.stream_eq i wk hw))) rfl rfl (by simp) ?_
      (fun s => ?_) (h.endsA.of_step hsa)
    · simp [← hbs]
    · rw [Peer.logOf_set hq hw, Worker.step_read_log hstep, Peer.logOf_of_getElem? hw]
  · cases hs

/-- Every move of A keeps the invariant. -/
theorem StreamInv.stepA {m : Move} (h : StreamInv w) (ha : Reachable cA w.a)
    (hb : Reachable cB w.b) (hs : w.stepA cA cB m = some w') : StreamInv w' := by
  have ia := (ReachableBy.indexed_wroteOurs ha).1
  cases m with
  | thread act =>
    simp only [World.stepA] at hs
    split_ifs at hs with hl
    obtain ⟨a', hsa, rfl⟩ := Option.map_eq_some'.mp hs
    exact h.quietA hsa (Act.transfers_of_isLocal hl)
  | dial i => exact h.dial ia (Inv.reachable ha) hs
  | simOpen i j =>
    exact h.simOpen ia (ReachableBy.indexed_wroteOurs hb).1 (Inv.reachable ha) (Inv.reachable hb) hs
  | accept k => exact h.accept ia hs
  | write i k n => exact h.write ia hs
  | read i k n => exact h.read ia hs

theorem StreamInv.step {m : WorldMove} (h : StreamInv w)
    (hw : WorldReachable cA cB w) (hs : w.step cA cB m = some w') : StreamInv w' := by
  obtain ⟨ha, hb⟩ := hw.peers
  cases m with
  | a m => exact h.stepA ha hb hs
  | b m =>
    obtain ⟨w'', hs', rfl⟩ := Option.map_eq_some'.mp hs
    exact (h.swap.stepA hb ha hs').swap

/-- In every run of the two calls, every connection carries what its ends
wrote, in order and each byte once. -/
theorem StreamInv.reachable (hw : WorldReachable cA cB w) : StreamInv w := by
  induction hw with
  | init => exact .init
  | step m hw hs ih => exact ih.step hw hs

end Steps

/-! ## A returned stream reaches the other call -/

/-- The bytes read at A's end of a connection were written by the worker at
B's end, and what it wrote beyond them is in flight to A. -/
theorem StreamInv.reader_partner {w : World} (h : StreamInv w) {k : Nat} {c : Conn} {s : StreamId}
    (hk : w.conns[k]? = some c) (hs : c.aEnd = some s) (hread : readBytes (w.a.logOf s) ≠ []) :
    ∃ t wb, c.bEnd = some t ∧ w.b.workers[t]? = some wb ∧
      written wb.log = readBytes (w.a.logOf s) ++ c.toA := by
  have hcar := (h.carries k c hk).2
  rw [hs, Peer.endLog] at hcar
  have hne : written [] ≠ readBytes (w.a.logOf s) ++ c.toA := fun he =>
    hread (List.append_eq_nil.mp he.symm).1
  obtain ⟨t, hbt⟩ : ∃ t, c.bEnd = some t := by
    cases hbe : c.bEnd with
    | none => rw [hbe, Peer.endLog] at hcar; exact (hne hcar).elim
    | some t => exact ⟨t, rfl⟩
  cases hwb : w.b.workers[t]? with
  | none => rw [hbt, Peer.endLog, Peer.logOf, hwb] at hcar; exact (hne hcar).elim
  | some wb => exact ⟨t, wb, hbt, hwb, by rwa [hbt, Peer.endLog, Peer.logOf_of_getElem? hwb] at hcar⟩

/-- When A's call returns a stream, B's secret is the one A expects: the worker
at B's end of the stream's connection has written all of B's secret, and A has
read all of it. -/
theorem ok_stream_partner_wrote_secret {cA cB : Call} {w : World} (hw : WorldReachable cA cB w)
    {s : StreamId} {ws : List TcpPunchHoleWarning} (hA : w.a.main = .returned (.wOk s ws)) :
    cA.theirSecret = cB.ourSecret ∧
      ∃ c ∈ w.conns, c.aEnd = some s ∧ c.toA = [] ∧
        ∃ t wb, c.bEnd = some t ∧ w.b.workers[t]? = some wb ∧
          written wb.log = cB.ourSecret.toList := by
  obtain ⟨ha, hb⟩ := hw.peers
  obtain ⟨wk, hwk, rfl, hwr⟩ := (Inv.reachable ha).returned_stream hA
  obtain ⟨c, hc, hend⟩ := Peer.returned_stream_logsOn ha (WorldInv.reachable hw).logsA hA
  obtain ⟨k, hk⟩ := List.getElem?_of_mem hc
  have hread : readBytes (w.a.logOf wk.stream) = cA.theirSecret.toList := by
    rw [Peer.logOf_of_getElem? ((ReachableBy.indexed_wroteOurs ha).1.getElem?_stream hwk)]
    exact hwr.written_readBytes.2
  have hne : cA.theirSecret.toList ≠ [] := List.ne_nil_of_length_pos (by simp [Octets.length_toList])
  obtain ⟨t, wb, hbt, hwb, hwrote⟩ := (StreamInv.reachable hw).reader_partner hk hend (hread ▸ hne)
  rw [hread] at hwrote
  have hpre := (ReachableBy.indexed_wroteOurs hb).2 wb (List.getElem?_mem hwb)
  rw [hwrote] at hpre
  have hnil : c.toA = [] := by
    have hlen := hpre.length_le
    simp only [List.length_append, Octets.length_toList] at hlen
    exact List.eq_nil_of_length_eq_zero (by omega)
  rw [hnil, List.append_nil] at hwrote hpre
  have heq : cA.theirSecret.toList = cB.ourSecret.toList :=
    hpre.eq_of_length (by simp [Octets.length_toList])
  exact ⟨Octets.ext_toList heq, c, hc, hend, hnil, t, wb, hbt, hwb, hwrote.trans heq⟩

theorem ok_stream_partner_wrote_secret_single_run :
    ∃ w, WorldReachable callA callB w ∧ w.a.main = .returned (.wOk 0 []) ∧
      (callA.theirSecret = callB.ourSecret ∧
        ∃ c ∈ w.conns, c.aEnd = some 0 ∧ c.toA = [] ∧
          ∃ t wb, c.bEnd = some t ∧ w.b.workers[t]? = some wb ∧
            written wb.log = callB.ourSecret.toList) := by
  obtain ⟨w, hw, hP⟩ := @worldReachable_of_run callA callB singleRun
    (fun w => decide (w.a.main = .returned (.wOk 0 []))) (by decide)
  simp only [decide_eq_true_eq] at hP
  exact ⟨w, hw, hP, ok_stream_partner_wrote_secret hw hP⟩

/-! ## What a handshake reads -/

/-- What a worker at A's end of a connection has read is a prefix of B's
secret: it is what B's worker at the other end wrote. -/
theorem StreamInv.readBytes_of_partner {cB : Call} {w : World} (h : StreamInv w)
    (hb : w.b.WroteOurs cB) {k : Nat} {c : Conn} {i : StreamId} (hk : w.conns[k]? = some c)
    (hi : c.aEnd = some i) : readBytes (w.a.logOf i) <+: cB.ourSecret.toList := by
  have hcar := (h.carries k c hk).2
  rw [hi, Peer.endLog] at hcar
  refine (List.prefix_append _ c.toA).trans ?_
  rw [← hcar]
  cases c.bEnd with
  | none => exact List.nil_prefix
  | some t =>
    cases hwb : w.b.workers[t]? with
    | none => simp [Peer.endLog, Peer.logOf, hwb]
    | some wb =>
      rw [Peer.endLog, Peer.logOf_of_getElem? hwb]
      exact hb wb (List.getElem?_mem hwb)

/-- Whatever a worker reads in its handshake is the other call's secret, whatever
it expects itself: a worker of A that has read four bytes has read B's secret,
and its comparison with A's `their_secret` decides its outcome. -/
theorem handshake_reads_partner_secret {cA cB : Call} {w : World} (hw : WorldReachable cA cB w)
    {wk : Worker} (hwk : wk ∈ w.a.workers) (h4 : 4 ≤ (readBytes wk.log).length) :
    readBytes wk.log = cB.ourSecret.toList := by
  obtain ⟨ha, hb⟩ := hw.peers
  have hne : wk.log ≠ [] := fun h => by simp [h] at h4
  obtain ⟨c, hc, hend⟩ := (WorldInv.reachable hw).logsA wk hwk hne
  obtain ⟨k, hk⟩ := List.getElem?_of_mem hc
  have hpre := (StreamInv.reachable hw).readBytes_of_partner (ReachableBy.indexed_wroteOurs hb).2 hk hend
  rw [Peer.logOf_of_getElem? ((ReachableBy.indexed_wroteOurs ha).1.getElem?_stream hwk)] at hpre
  have hlen := hpre.length_le
  rw [Octets.length_toList] at hlen
  exact hpre.eq_of_length (by rw [Octets.length_toList]; omega)

/-- A's call with B's secret changed in its last byte. -/
def callAWrongSecret : Call :=
  ⟨⟨.v4, .ok exampleAddr⟩, ⟨ourExampleSecret⟩, ⟨[⟨peerExampleAddr, false⟩], ⟨[5, 6, 7, 9], rfl⟩⟩⟩

theorem handshake_reads_partner_secret_wrong_secret :
    callAWrongSecret.theirSecret ≠ callB.ourSecret ∧
    callB.theirSecret = callAWrongSecret.ourSecret ∧
    ∃ w, WorldReachable callAWrongSecret callB w ∧ w.b.main = .returned (.wOk 1 []) ∧
      w.a.main = .receiving exampleAddr [.invalidResponse callB.ourSecret] ∧
      w.conns = [⟨some 0, some 1, [], []⟩] ∧
      ∃ wk, w.a.workers[0]? = some wk ∧ 4 ≤ (readBytes wk.log).length ∧
        readBytes wk.log = callB.ourSecret.toList := by
  refine ⟨by decide, rfl, ?_⟩
  obtain ⟨w, hw, hP⟩ := @worldReachable_of_run callAWrongSecret callB singleRun
    (fun w => decide (w.b.main = .returned (.wOk 1 []) ∧
      w.a.main = .receiving exampleAddr [.invalidResponse callB.ourSecret] ∧
      w.conns = [⟨some 0, some 1, [], []⟩] ∧
      ((w.a.workers[0]?).map fun wk => (readBytes wk.log).length) = some 4)) (by decide)
  simp only [decide_eq_true_eq] at hP
  obtain ⟨hb, ha, hc, h0⟩ := hP
  obtain ⟨wk, hwk, hlen⟩ := Option.map_eq_some'.mp h0
  exact ⟨w, hw, hb, ha, hc, wk, hwk, hlen.ge,
    handshake_reads_partner_secret hw (List.getElem?_mem hwk) hlen.ge⟩

end NatTraversal.Punch
