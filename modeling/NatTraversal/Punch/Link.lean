import NatTraversal.Punch.Handshake

/-!
# The secret exchange across one TCP connection

Two workers of two peers, joined by one connection: a connector and the peer's
listen handshake worker, or two connectors after a simultaneous open. Each end
runs `Worker.step`, the exchange of `tcp_punch_hole`, with its own secret as
`our_secret` and the other's as `their_secret`: the two peers are honest. The
connection carries the bytes each end writes to the other in order; a `write`
may take any non-empty part of what is left, a `read` any non-empty part of
what has arrived (`Link.step`). No call fails and no timeout expires.

Whatever the segmentation and the interleaving, neither end reports a failure
(`link_no_failure`), every step brings both ends closer to the end of the
exchange (`Link.remaining_step_lt`), and a state in which neither end can move
is one in which both have succeeded (`link_stuck_both_ok`).

The two ends are handled by one lemma each and `Link.swap`: a step of the second
end is a step of the first end of the swapped link.
-/

set_option autoImplicit false

namespace NatTraversal.Punch

/-- The bytes a transfer log wrote, in order. -/
def written (log : List Transfer) : List UInt8 :=
  (log.map fun | .wrote bs => bs | .read _ => []).flatten

/-- The bytes a transfer log read, in order. -/
def readBytes (log : List Transfer) : List UInt8 :=
  (log.map fun | .wrote _ => [] | .read bs => bs).flatten

@[simp] theorem written_append (l l' : List Transfer) : written (l ++ l') = written l ++ written l' := by
  simp [written]

@[simp] theorem readBytes_append (l l' : List Transfer) :
    readBytes (l ++ l') = readBytes l ++ readBytes l' := by
  simp [readBytes]

@[simp] theorem written_nil : written [] = [] := rfl

@[simp] theorem readBytes_nil : readBytes [] = [] := rfl

@[simp] theorem written_wrote (bs : List UInt8) : written [.wrote bs] = bs := by simp [written]

@[simp] theorem written_read (bs : List UInt8) : written [.read bs] = [] := by simp [written]

@[simp] theorem readBytes_wrote (bs : List UInt8) : readBytes [.wrote bs] = [] := by simp [readBytes]

@[simp] theorem readBytes_read (bs : List UInt8) : readBytes [.read bs] = bs := by simp [readBytes]

theorem WroteThenRead.written_readBytes {out inp : List UInt8} {log : List Transfer}
    (h : WroteThenRead out inp log) : written log = out ∧ readBytes log = inp := by
  obtain ⟨ws, rs, rfl, rfl, rfl⟩ := h
  constructor <;> induction ws <;> induction rs <;> simp_all [written, readBytes]

/-- Two workers joined by one connection, with the bytes in flight towards each. -/
structure Link where
  a : Worker
  b : Worker
  toA : List UInt8
  toB : List UInt8
  deriving DecidableEq, Repr

/-- The same connection seen from its other end. -/
def Link.swap (l : Link) : Link := ⟨l.b, l.a, l.toB, l.toA⟩

@[simp] theorem Link.swap_swap (l : Link) : l.swap.swap = l := rfl

@[simp] theorem Link.swap_a (l : Link) : l.swap.a = l.b := rfl

@[simp] theorem Link.swap_b (l : Link) : l.swap.b = l.a := rfl

@[simp] theorem Link.swap_toA (l : Link) : l.swap.toA = l.toB := rfl

@[simp] theorem Link.swap_toB (l : Link) : l.swap.toB = l.toA := rfl

/-- A worker of role `r` on the stream `s` when its exchange starts: a connector
just connected, or a handshake worker just spawned. -/
def Worker.handshaking (r : Role) (s : StreamId) : Worker := ⟨r, .setWriteTimeout, s, []⟩

/-- The connection when both exchanges start. -/
def Link.start (ra rb : Role) (sa sb : StreamId) : Link :=
  ⟨.handshaking ra sa, .handshaking rb sb, [], []⟩

/-- An error-free call of one end. -/
inductive EndAct where
  | setWriteTimeout
  | setReadTimeout
  | write (n : Nat)
  | read (n : Nat)
  deriving DecidableEq, Repr

/-- A call of the first end, whose secret is `our` and which expects `their`. -/
def Link.stepA (our their : Bytes4) (l : Link) : EndAct → Option Link
  | .setWriteTimeout => (l.a.step our their (.setWriteTimeout (.ok ()))).map fun w => { l with a := w }
  | .setReadTimeout => (l.a.step our their (.setReadTimeout (.ok ()))).map fun w => { l with a := w }
  | .write n =>
    match l.a.stage with
    | .writing rest =>
      if 0 < n then
        (l.a.step our their (.write (.ok n))).map fun w => { l with a := w, toB := l.toB ++ rest.take n }
      else none
    | _ => none
  | .read n =>
    if 0 < n ∧ n ≤ l.toA.length then
      (l.a.step our their (.read (.ok (l.toA.take n)))).map fun w => { l with a := w, toA := l.toA.drop n }
    else none

/-- A step of either end. -/
inductive LinkAct where
  | a (e : EndAct)
  | b (e : EndAct)
  deriving DecidableEq, Repr

/-- A step of the connection between the peers with secrets `sa` and `sb`. -/
def Link.step (sa sb : Bytes4) (l : Link) : LinkAct → Option Link
  | .a e => l.stepA sa sb e
  | .b e => (l.swap.stepA sb sa e).map Link.swap

/-- The states the connection reaches from the start of both exchanges. -/
inductive LinkReachable (sa sb : Bytes4) (l₀ : Link) : Link → Prop where
  | start : LinkReachable sa sb l₀ l₀
  | step {l l' : Link} (e : LinkAct) : LinkReachable sa sb l₀ l → l.step sa sb e = some l' →
      LinkReachable sa sb l₀ l'

/-- What a call of the first end does: one of its four calls, each with the
guard under which it can be taken. -/
theorem Link.stepA_cases {our their : Bytes4} {l l' : Link} {e : EndAct}
    (h : l.stepA our their e = some l') :
    (l.a.stage = .setWriteTimeout ∧ l' = { l with a := { l.a with stage := .setReadTimeout } }) ∨
    (l.a.stage = .setReadTimeout ∧ l' = { l with a := { l.a with stage := .writing our.toList } }) ∨
    (∃ rest n, l.a.stage = .writing rest ∧ 0 < n ∧ n ≤ rest.length ∧
      l' = { l with
        a := { l.a with
          stage := if n < rest.length then .writing (rest.drop n) else .reading []
          log := l.a.log ++ [.wrote (rest.take n)] }
        toB := l.toB ++ rest.take n }) ∨
    (∃ got n, l.a.stage = .reading got ∧ 0 < n ∧ n ≤ l.toA.length ∧ got.length + n ≤ 4 ∧
      l' = { l with
        a := { l.a with
          stage := afterRead their l.a.stream (got ++ l.toA.take n)
          log := l.a.log ++ [.read (l.toA.take n)] }
        toA := l.toA.drop n }) := by
  rcases l with ⟨⟨role, stage, s, log⟩, b, toA, toB⟩
  cases e <;> cases stage <;> simp [Link.stepA, Worker.step] at h ⊢
  case setWriteTimeout.setWriteTimeout | setReadTimeout.setReadTimeout => exact h.symm
  case write.writing n rest =>
    obtain ⟨hn, w, hw, rfl⟩ := h
    obtain ⟨m, rfl⟩ : ∃ m, n = m + 1 := ⟨n - 1, by omega⟩
    simp only [Worker.writeAll] at hw
    split at hw
    · cases hw
      exact ⟨m + 1, hn, ‹_›, rfl⟩
    · cases hw
  case read.reading n got =>
    obtain ⟨⟨hn, hle⟩, w, hw, rfl⟩ := h
    have hlen : (toA.take n).length = n := by simp; omega
    obtain ⟨x, xs, hxs⟩ : ∃ x xs, toA.take n = x :: xs := by
      cases htake : toA.take n with
      | nil => rw [htake] at hlen; simp at hlen; omega
      | cons x xs => exact ⟨x, xs, rfl⟩
    rw [hxs] at hw hlen
    simp only [Worker.readExact] at hw
    split at hw
    · cases hw
      exact ⟨n, hn, hle, by simp_all, by rw [hxs]⟩
    · cases hw

/-- The steps `es` taken one after the other. -/
def Link.run (sa sb : Bytes4) : Link → List LinkAct → Option Link
  | l, [] => some l
  | l, e :: es => (l.step sa sb e).bind fun l' => l'.run sa sb es

theorem LinkReachable.run {sa sb : Bytes4} {l₀ : Link} :
    ∀ {l l' : Link} {es : List LinkAct}, LinkReachable sa sb l₀ l → l.run sa sb es = some l' →
      LinkReachable sa sb l₀ l'
  | l, l', [], hl, h => by cases h; exact hl
  | l, l', e :: es, hl, h => by
    obtain ⟨l'', hs, h⟩ := Option.bind_eq_some.mp h
    exact LinkReachable.run (.step e hl hs) h

/-! ## The invariant of one end -/

/-- The stages an end of an honest exchange can be at. -/
def Worker.StageOk (w : Worker) : Prop :=
  match w.stage with
  | .setWriteTimeout | .setReadTimeout | .reading _ => True
  | .writing rest => rest ≠ []
  | .report r => r = .ok w.stream
  | .connecting _ | .done => False

/-- The first end of `l`, with secret `our` and expecting `their`: its log is in
step with its stage, its stage is one of an honest exchange, and what the other
end wrote is what this end read followed by what is in flight towards it. -/
def EndOk (our their : Bytes4) (l : Link) : Prop :=
  l.a.LogOk our their ∧ l.a.StageOk ∧ written l.b.log = readBytes l.a.log ++ l.toA

/-- Both ends. -/
def LinkOk (sa sb : Bytes4) (l : Link) : Prop := EndOk sa sb l ∧ EndOk sb sa l.swap

theorem LinkOk.swap {sa sb : Bytes4} {l : Link} (h : LinkOk sa sb l) : LinkOk sb sa l.swap :=
  ⟨h.2, h.1⟩

theorem written_map_wrote (ws : List (List UInt8)) : written (ws.map .wrote) = ws.flatten := by
  induction ws <;> simp_all [written]

/-- An end past its write has written its whole secret. -/
theorem Worker.written_of_reading {our their : Bytes4} {w : Worker} {got : List UInt8}
    (hl : w.LogOk our their) (hs : w.stage = .reading got) :
    written w.log = our.toList ∧ readBytes w.log = got := by
  simp only [Worker.LogOk, hs] at hl
  exact hl.2.written_readBytes

theorem Worker.written_of_report {our their : Bytes4} {w : Worker} {r : Except TcpPunchHoleWarning StreamId}
    (hl : w.LogOk our their) (hst : w.StageOk) (hs : w.stage = .report r) :
    written w.log = our.toList := by
  simp only [Worker.StageOk, hs] at hst
  simp only [Worker.LogOk, hs, hst, ResultOk] at hl
  exact hl.2.written_readBytes.1

/-- What an end of an honest exchange has written is a prefix of its secret. -/
theorem Worker.written_prefix {our their : Bytes4} {w : Worker} (hl : w.LogOk our their)
    (hst : w.StageOk) : written w.log <+: our.toList := by
  cases hs : w.stage with
  | connecting _ | done => simp [Worker.StageOk, hs] at hst
  | setWriteTimeout | setReadTimeout => simp [Worker.LogOk, hs] at hl; simp [hl]
  | writing rest =>
    simp only [Worker.LogOk, hs] at hl
    obtain ⟨ws, hlog, hour⟩ := hl
    exact ⟨rest, by rw [hlog, written_map_wrote, hour]⟩
  | reading got => exact (Worker.written_of_reading hl hs).1 ▸ List.prefix_refl _
  | report r => exact Worker.written_of_report hl hst hs ▸ List.prefix_refl _

/-- A call of the first end is a call of its worker and leaves the second end alone. -/
theorem Link.stepA_worker {our their : Bytes4} {l l' : Link} {e : EndAct}
    (h : l.stepA our their e = some l') : (∃ ev, l.a.step our their ev = some l'.a) ∧ l'.b = l.b := by
  cases e with
  | setWriteTimeout | setReadTimeout =>
    obtain ⟨w, hw, rfl⟩ := Option.map_eq_some'.mp h
    exact ⟨⟨_, hw⟩, rfl⟩
  | write n =>
    simp only [Link.stepA] at h
    split at h
    · split at h
      · obtain ⟨w, hw, rfl⟩ := Option.map_eq_some'.mp h
        exact ⟨⟨_, hw⟩, rfl⟩
      · cases h
    · cases h
  | read n =>
    simp only [Link.stepA] at h
    split at h
    · obtain ⟨w, hw, rfl⟩ := Option.map_eq_some'.mp h
      exact ⟨⟨_, hw⟩, rfl⟩
    · cases h

/-- Every call of the first end keeps both ends' invariants. -/
theorem LinkOk.stepA {our their : Bytes4} {l l' : Link} {e : EndAct} (h : LinkOk our their l)
    (hs : l.stepA our their e = some l') : LinkOk our their l' := by
  obtain ⟨⟨hlog, hst, hin⟩, hlogB, hstB, hinB⟩ := h
  simp only [Link.swap_a, Link.swap_b, Link.swap_toA] at hlogB hstB hinB
  obtain ⟨⟨ev, hev⟩, -⟩ := Link.stepA_worker hs
  have hlog' := Worker.logOk_step hlog hev
  rcases Link.stepA_cases hs with ⟨hstage, rfl⟩ | ⟨hstage, rfl⟩ |
    ⟨rest, n, hstage, hn, hle, rfl⟩ | ⟨got, n, hstage, hn, hle, h4, rfl⟩
  · exact ⟨⟨hlog', trivial, hin⟩, hlogB, hstB, hinB⟩
  · exact ⟨⟨hlog', List.ne_nil_of_length_pos (by simp [our.length_toList]), hin⟩, hlogB, hstB, hinB⟩
  · refine ⟨⟨hlog', ?_, by simpa using hin⟩, hlogB, hstB, by simp [hinB]⟩
    simp only [Worker.StageOk]
    split_ifs with hlt
    · simpa [List.drop_eq_nil_iff] using hlt
    · trivial
  · have hgot := (Worker.written_of_reading hlog hstage).2
    have hpre : got ++ l.toA.take n <+: their.toList := by
      refine List.IsPrefix.trans ?_ (Worker.written_prefix hlogB hstB)
      rw [hin, hgot]
      exact (List.prefix_append_right_inj got).mpr (List.take_prefix n l.toA)
    refine ⟨⟨hlog', ?_, by simp [hin, hgot]⟩, hlogB, hstB, by simpa using hinB⟩
    simp only [Worker.StageOk, afterRead]
    split_ifs with hlen heq
    · rfl
    · exact (heq (hpre.eq_of_length (by simp [their.length_toList, hlen]))).elim
    · trivial

theorem LinkOk.step {sa sb : Bytes4} {l l' : Link} {e : LinkAct} (h : LinkOk sa sb l)
    (hs : l.step sa sb e = some l') : LinkOk sa sb l' := by
  cases e with
  | a e => exact h.stepA hs
  | b e =>
    obtain ⟨l'', hs', rfl⟩ := Option.map_eq_some'.mp hs
    exact (h.swap.stepA hs').swap

theorem LinkOk.start (sa sb : Bytes4) (ra rb : Role) (s₁ s₂ : StreamId) :
    LinkOk sa sb (Link.start ra rb s₁ s₂) :=
  ⟨⟨rfl, trivial, rfl⟩, rfl, trivial, rfl⟩

theorem LinkOk.reachable {sa sb : Bytes4} {l₀ l : Link} (h₀ : LinkOk sa sb l₀)
    (h : LinkReachable sa sb l₀ l) : LinkOk sa sb l := by
  induction h with
  | start => exact h₀
  | step _ _ hs ih => exact ih.step hs

/-! ## Progress -/

/-- What both ends still have to do. -/
def Link.remaining (l : Link) : Nat := l.a.remaining + l.b.remaining

theorem Link.stepA_remaining_lt {our their : Bytes4} {l l' : Link} {e : EndAct}
    (hs : l.stepA our their e = some l') : l'.a.remaining < l.a.remaining ∧ l'.b = l.b := by
  refine ⟨?_, (Link.stepA_worker hs).2⟩
  rcases Link.stepA_cases hs with ⟨hstage, rfl⟩ | ⟨hstage, rfl⟩ |
    ⟨rest, n, hstage, hn, hle, rfl⟩ | ⟨got, n, hstage, hn, hle, h4, rfl⟩
  · simp [Worker.remaining, hstage]
  · simp [Worker.remaining, hstage, our.length_toList]
  · simp only [Worker.remaining, hstage]
    split_ifs <;> simp <;> omega
  · have htake : (l.toA.take n).length = n := by simp; omega
    simp only [Worker.remaining, hstage, afterRead]
    split_ifs <;> simp [htake] <;> omega

/-- Every step of the connection brings the exchange closer to its end. -/
theorem Link.remaining_step_lt {sa sb : Bytes4} {l l' : Link} {e : LinkAct}
    (hs : l.step sa sb e = some l') : l'.remaining < l.remaining := by
  unfold Link.remaining
  cases e with
  | a e =>
    obtain ⟨hlt, hb⟩ := Link.stepA_remaining_lt hs
    rw [hb]; omega
  | b e =>
    obtain ⟨l'', hs', rfl⟩ := Option.map_eq_some'.mp hs
    obtain ⟨hlt, hb⟩ := Link.stepA_remaining_lt hs'
    simp only [Link.swap_a, Link.swap_b, Link.swap_toA] at hlt hb ⊢
    rw [hb]; omega

/-- An end of an honest exchange can move, or has finished, or waits for bytes
that have not arrived. -/
theorem Link.stepA_progress {our their : Bytes4} {l : Link} (hlog : l.a.LogOk our their)
    (hst : l.a.StageOk) :
    (∃ r, l.a.stage = .report r) ∨ (∃ got, l.a.stage = .reading got ∧ l.toA = []) ∨
      ∃ e, l.stepA our their e ≠ none := by
  cases hs : l.a.stage with
  | connecting _ | done => simp [Worker.StageOk, hs] at hst
  | setWriteTimeout => exact .inr (.inr ⟨.setWriteTimeout, by simp [Link.stepA, Worker.step, hs]⟩)
  | setReadTimeout => exact .inr (.inr ⟨.setReadTimeout, by simp [Link.stepA, Worker.step, hs]⟩)
  | writing rest =>
    simp only [Worker.StageOk, hs] at hst
    obtain ⟨m, hm⟩ : ∃ m, rest.length = m + 1 := ⟨rest.length - 1, by
      have := List.length_pos.mpr hst; omega⟩
    refine .inr (.inr ⟨.write rest.length, ?_⟩)
    simp [Link.stepA, Worker.step, Worker.writeAll, hs, hm]
  | reading got =>
    have hgot : got.length < 4 := by simp only [Worker.LogOk, hs] at hlog; exact hlog.1
    cases hin : l.toA with
    | nil => exact .inr (.inl ⟨got, rfl, rfl⟩)
    | cons x xs =>
      refine .inr (.inr ⟨.read 1, ?_⟩)
      simp [Link.stepA, Worker.step, Worker.readExact, hs, hin]
      omega
  | report r => exact .inl ⟨r, rfl⟩

/-- A reading end with nothing in flight waits for the other end, which has not
finished writing and so can move. -/
theorem LinkOk.waiting_other_moves {sa sb : Bytes4} {l : Link} (h : LinkOk sa sb l) {got : List UInt8}
    (hs : l.a.stage = .reading got) (hin : l.toA = []) : ∃ e, l.step sa sb (.b e) ≠ none := by
  obtain ⟨⟨hlog, -, hw⟩, hlogB, hstB, -⟩ := h
  simp only [Link.swap_a, Link.swap_b, Link.swap_toA] at hlogB hstB
  have hgot := Worker.written_of_reading hlog hs
  have hlen : got.length < 4 := by simp only [Worker.LogOk, hs] at hlog; exact hlog.1
  have hwb : written l.b.log ≠ sb.toList := by
    rw [hw, hin, hgot.2, List.append_nil]
    intro he
    rw [he, sb.length_toList] at hlen
    omega
  rcases Link.stepA_progress (l := l.swap) hlogB hstB with ⟨r, hr⟩ | ⟨got', hr, -⟩ | ⟨e, he⟩
  · exact absurd (Worker.written_of_report hlogB hstB hr) hwb
  · exact absurd (Worker.written_of_reading hlogB hr).1 hwb
  · exact ⟨e, by simpa [Link.step] using he⟩

/-- A connection on which neither end can move is one on which both ends
succeeded. -/
theorem LinkOk.stuck {sa sb : Bytes4} {l : Link} (h : LinkOk sa sb l)
    (hstuck : ∀ e, l.step sa sb e = none) :
    l.a.stage = .report (.ok l.a.stream) ∧ l.b.stage = .report (.ok l.b.stream) := by
  have hend : ∀ {our their : Bytes4} {l : Link}, LinkOk our their l → (∀ e, l.step our their e = none) →
      l.a.stage = .report (.ok l.a.stream) := by
    intro our their l h hstuck
    rcases Link.stepA_progress h.1.1 h.1.2.1 with ⟨r, hr⟩ | ⟨got, hr, hin⟩ | ⟨e, he⟩
    · have := h.1.2.1
      simp only [Worker.StageOk, hr] at this
      rw [hr, this]
    · obtain ⟨e, he⟩ := h.waiting_other_moves hr hin
      exact absurd (hstuck _) he
    · exact absurd (hstuck (.a e)) he
  refine ⟨hend h hstuck, ?_⟩
  refine hend (l := l.swap) h.swap fun e => ?_
  cases e with
  | a e => simpa [Link.step] using hstuck (.b e)
  | b e => simpa [Link.step] using hstuck (.a e)

/-- Two honest ends of one connection, each holding the secret the other
writes: no end ever reports an error, a link that can take no step has both
ends reporting `Ok` with their own streams, and every step lowers the moves
left, so every run stops. -/
theorem honest_handshake_completes (sa sb : Bytes4) (ra rb : Role) (s₁ s₂ : StreamId) :
    (∀ l, LinkReachable sa sb (Link.start ra rb s₁ s₂) l →
      (∀ w, l.a.stage ≠ .report (.error w)) ∧ (∀ w, l.b.stage ≠ .report (.error w)) ∧
      ((∀ e, l.step sa sb e = none) →
        l.a.stage = .report (.ok l.a.stream) ∧ l.b.stage = .report (.ok l.b.stream))) ∧
    (∀ (l : Link) (e : LinkAct) (l' : Link), l.step sa sb e = some l' → l'.remaining < l.remaining) := by
  refine ⟨fun l hl => ?_, fun _ _ _ hs => Link.remaining_step_lt hs⟩
  have h := (LinkOk.start sa sb ra rb s₁ s₂).reachable hl
  have hna : ∀ {w : Worker}, w.StageOk → ∀ x, w.stage ≠ .report (.error x) := by
    intro w hst x hx
    simp [Worker.StageOk, hx] at hst
  exact ⟨hna h.1.2.1, hna h.2.2.1, h.stuck⟩

/-- The second end writes its secret in two parts and the first reads it in two;
the first end's secret goes over in one write and one read. -/
def splitExchange : List LinkAct :=
  [.a .setWriteTimeout, .b .setWriteTimeout, .a .setReadTimeout, .b .setReadTimeout,
   .b (.write 1), .a (.write 4), .b (.write 3), .a (.read 2), .b (.read 4), .a (.read 2)]

theorem honest_handshake_completes_split_run :
    ∃ l, LinkReachable ⟨[1, 2, 3, 4], rfl⟩ ⟨[5, 6, 7, 8], rfl⟩
        (Link.start .listenHandshake (.connector (.v4 ⟨⟨⟨[127, 0, 0, 1], rfl⟩⟩, 5000⟩)) 0 1) l ∧
      l.a.stage = .report (.ok 0) ∧ l.b.stage = .report (.ok 1) ∧
      ∀ w, l.a.stage ≠ .report (.error w) := by
  have hrun : (Link.start .listenHandshake (.connector (.v4 ⟨⟨⟨[127, 0, 0, 1], rfl⟩⟩, 5000⟩)) 0 1).run
      ⟨[1, 2, 3, 4], rfl⟩ ⟨[5, 6, 7, 8], rfl⟩ splitExchange =
      some ⟨⟨.listenHandshake, .report (.ok 0), 0, [.wrote [1, 2, 3, 4], .read [5, 6], .read [7, 8]]⟩,
        ⟨.connector (.v4 ⟨⟨⟨[127, 0, 0, 1], rfl⟩⟩, 5000⟩), .report (.ok 1), 1,
          [.wrote [5], .wrote [6, 7, 8], .read [1, 2, 3, 4]]⟩, [], []⟩ := by decide
  have hl := LinkReachable.run .start hrun
  exact ⟨_, hl, rfl, rfl, ((honest_handshake_completes _ _ _ _ _ _).1 _ hl).1⟩

end NatTraversal.Punch
