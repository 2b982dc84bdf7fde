import NatTraversal.Net

/-!
# The secret exchange of one hole-punching worker

`tcp_punch_hole` runs the same exchange on every stream it gets, in two kinds of
threads: a connector (`tcp_punch_hole connect`, the closure `f`) connects from a
fresh reusable socket and then exchanges secrets, and a listen handshake worker
(`tcp_punch_hole listen handshake`) exchanges secrets on an accepted stream.
Both set the write and read timeouts, `write_all` our 4-byte secret, `read_exact`
4 bytes, and compare them with `their_secret`.

`Worker.step` is one call of that exchange: `write_all` and `read_exact` are
loops of single `write` and `read` calls, so a step is one such call, with the
answer the operating system gave as the step's event. A short write, a read of
part of the secret, an `Interrupted` retry and an end of file are all events.
Each worker keeps, as ghost data, the list of bytes it moved on its stream
(`Worker.log`).

`Worker.LogOk` says what that log is at each stage; every step keeps it
(`Worker.logOk_step`). At a successful result it is `WroteThenRead`: our whole
secret written, then exactly their secret read.

Both loops end: an `Interrupted` answer leaves the worker as it was
(`Worker.step_of_isRetry`), and every other answer lowers `Worker.callsLeft`
(`Worker.callsLeft_step`), so that whatever the operating system answers, a
connector makes at most eleven calls besides retries and a handshake worker at
most ten (`handshake_calls_bounded`).
-/

set_option autoImplicit false

namespace NatTraversal.Punch

/-- `TcpPunchHoleWarning`. -/
inductive TcpPunchHoleWarning where
  | connect (err : IoError)
  | accept (err : IoError)
  | streamSetTimeout (err : IoError)
  | streamIo (err : IoError)
  | invalidResponse (data : Bytes4)
  deriving DecidableEq, Repr

/-- `TcpPunchHoleError`. -/
inductive TcpPunchHoleError where
  | socketLocalAddr (err : IoError)
  | newReusablyBoundSocket (err : NewReusablyBoundSocketError)
  | listen (err : IoError)
  | timedOut (warnings : List TcpPunchHoleWarning)
  deriving DecidableEq, Repr

/-- A socket or stream of one `tcp_punch_hole` call, named by the number the
call gave it when it was created. -/
abbrev StreamId := Nat

/-- One successful `write` or `read` call on a stream, with the bytes it moved. -/
inductive Transfer where
  | wrote (bytes : List UInt8)
  | read (bytes : List UInt8)
  deriving DecidableEq, Repr

/-- The two kinds of worker: a connector for one of the peer's endpoints, or a
handshake worker of an accepted stream. -/
inductive Role where
  | connector (addr : SocketAddr)
  | listenHandshake
  deriving DecidableEq, Repr

/-- Where a worker is in its exchange. `report r` holds the worker's outcome,
not yet sent on the results channel. -/
inductive Stage where
  | connecting (addr : SocketAddr)
  | setWriteTimeout
  | setReadTimeout
  | writing (rest : List UInt8)
  | reading (got : List UInt8)
  | report (r : Except TcpPunchHoleWarning StreamId)
  | done
  deriving DecidableEq, Repr

/-- A worker thread: its role, its stage, its stream and, as ghost data, the
transfers it made on the stream. -/
structure Worker where
  role : Role
  stage : Stage
  stream : StreamId
  log : List Transfer
  deriving DecidableEq, Repr

/-- A connector for `addr`; the socket `s` was bound before the thread starts. -/
def Worker.connector (addr : SocketAddr) (s : StreamId) : Worker :=
  ⟨.connector addr, .connecting addr, s, []⟩

/-- A handshake worker of the accepted stream `s`. -/
def Worker.listenHandshake (s : StreamId) : Worker :=
  ⟨.listenHandshake, .setWriteTimeout, s, []⟩

/-- The answer of the operating system to a worker's next call. -/
inductive Event where
  | connect (r : Except IoError Unit)
  | setWriteTimeout (r : Except IoError Unit)
  | setReadTimeout (r : Except IoError Unit)
  | write (r : Except IoError Nat)
  | read (r : Except IoError (List UInt8))
  deriving DecidableEq, Repr

/-- A worker that stops with the warning `warn`. -/
def Worker.fail (w : Worker) (warn : TcpPunchHoleWarning) : Worker :=
  { w with stage := .report (.error warn) }

@[simp] theorem Worker.fail_stage (w : Worker) (warn : TcpPunchHoleWarning) :
    (w.fail warn).stage = .report (.error warn) := rfl

@[simp] theorem Worker.fail_role (w : Worker) (warn : TcpPunchHoleWarning) :
    (w.fail warn).role = w.role := rfl

@[simp] theorem Worker.fail_stream (w : Worker) (warn : TcpPunchHoleWarning) :
    (w.fail warn).stream = w.stream := rfl

/-- The stage after `read_exact` holds the bytes `got`: the comparison with
`their_secret` once four bytes are in, more reading before. -/
def afterRead (their : Bytes4) (s : StreamId) (got : List UInt8) : Stage :=
  if h : got.length = 4 then
    if got = their.toList then .report (.ok s) else .report (.error (.invalidResponse ⟨got, h⟩))
  else .reading got

/-- One turn of `write_all`'s loop with `rest` still to write. `write` may not
report more bytes than it was given. -/
def Worker.writeAll (w : Worker) (rest : List UInt8) : Except IoError Nat → Option Worker
  | .ok 0 => some (w.fail (.streamIo ⟨.writeZero⟩))
  | .ok (n + 1) =>
    if n + 1 ≤ rest.length then
      some { w with
        stage := if n + 1 < rest.length then .writing (rest.drop (n + 1)) else .reading []
        log := w.log ++ [.wrote (rest.take (n + 1))] }
    else none
  | .error e => if e.kind = .interrupted then some w else some (w.fail (.streamIo e))

/-- One turn of `read_exact`'s loop into the 4-byte buffer that holds `got`.
`read` may not return more bytes than the buffer has room for. -/
def Worker.readExact (their : Bytes4) (w : Worker) (got : List UInt8) :
    Except IoError (List UInt8) → Option Worker
  | .ok [] => some (w.fail (.streamIo ⟨.unexpectedEof⟩))
  | .ok (b :: bs) =>
    if got.length + (b :: bs).length ≤ 4 then
      some { w with
        stage := afterRead their w.stream (got ++ b :: bs)
        log := w.log ++ [.read (b :: bs)] }
    else none
  | .error e => if e.kind = .interrupted then some w else some (w.fail (.streamIo e))

/-- One call of a worker, given the answer `ev`; `none` when `ev` is not an
answer to the worker's next call. -/
def Worker.step (our their : Bytes4) (w : Worker) (ev : Event) : Option Worker :=
  match w.stage, ev with
  | .connecting _, .connect (.ok ()) => some { w with stage := .setWriteTimeout }
  | .connecting _, .connect (.error e) => some (w.fail (.connect e))
  | .setWriteTimeout, .setWriteTimeout (.ok ()) => some { w with stage := .setReadTimeout }
  | .setWriteTimeout, .setWriteTimeout (.error e) => some (w.fail (.streamSetTimeout e))
  | .setReadTimeout, .setReadTimeout (.ok ()) => some { w with stage := .writing our.toList }
  | .setReadTimeout, .setReadTimeout (.error e) => some (w.fail (.streamSetTimeout e))
  | .writing rest, .write r => w.writeAll rest r
  | .reading got, .read r => w.readExact their got r
  | _, _ => none

theorem Worker.writeAll_role_stream {w w' : Worker} {rest : List UInt8} {r : Except IoError Nat}
    (h : w.writeAll rest r = some w') : w'.role = w.role ∧ w'.stream = w.stream := by
  unfold Worker.writeAll at h
  split at h <;> (try split at h) <;> cases h <;> exact ⟨rfl, rfl⟩

theorem Worker.readExact_role_stream {their : Bytes4} {w w' : Worker} {got : List UInt8}
    {r : Except IoError (List UInt8)} (h : w.readExact their got r = some w') :
    w'.role = w.role ∧ w'.stream = w.stream := by
  unfold Worker.readExact at h
  split at h <;> (try split at h) <;> cases h <;> exact ⟨rfl, rfl⟩

/-- A call keeps the worker's role and stream, and a finished worker makes no
call. -/
theorem Worker.step_frame {our their : Bytes4} {w w' : Worker} {ev : Event}
    (h : w.step our their ev = some w') :
    w'.role = w.role ∧ w'.stream = w.stream ∧ w.stage ≠ .done := by
  unfold Worker.step at h
  split at h
  case h_7 => exact ⟨(Worker.writeAll_role_stream h).1, (Worker.writeAll_role_stream h).2, by simp [*]⟩
  case h_8 => exact ⟨(Worker.readExact_role_stream h).1, (Worker.readExact_role_stream h).2, by simp [*]⟩
  all_goals cases h
  all_goals exact ⟨rfl, rfl, by simp [*]⟩

/-! ## What a worker has moved on its stream -/

/-- The transfers `log` wrote `out` and then read `inp`: writes whose bytes make
up `out`, followed by reads whose bytes make up `inp`. -/
def WroteThenRead (out inp : List UInt8) (log : List Transfer) : Prop :=
  ∃ ws rs : List (List UInt8), log = ws.map .wrote ++ rs.map .read ∧ ws.flatten = out ∧
    rs.flatten = inp

/-- What an outcome says about its worker: a successful one is the worker's
stream, on which our secret was written and then their secret read. -/
def ResultOk (our their : Bytes4) (w : Worker) : Except TcpPunchHoleWarning StreamId → Prop
  | .ok s => s = w.stream ∧ WroteThenRead our.toList their.toList w.log
  | .error _ => True

/-- The transfer log of a worker at each stage. -/
def Worker.LogOk (our their : Bytes4) (w : Worker) : Prop :=
  match w.stage with
  | .connecting _ | .setWriteTimeout | .setReadTimeout => w.log = []
  | .writing rest => ∃ ws : List (List UInt8), w.log = ws.map .wrote ∧ ws.flatten ++ rest = our.toList
  | .reading got => got.length < 4 ∧ WroteThenRead our.toList got w.log
  | .report r => ResultOk our their w r
  | .done => True

theorem Worker.logOk_connector (our their : Bytes4) (addr : SocketAddr) (s : StreamId) :
    (Worker.connector addr s).LogOk our their := rfl

theorem Worker.logOk_listenHandshake (our their : Bytes4) (s : StreamId) :
    (Worker.listenHandshake s).LogOk our their := rfl

theorem Worker.logOk_fail (our their : Bytes4) (w : Worker) (warn : TcpPunchHoleWarning) :
    (w.fail warn).LogOk our their := trivial

theorem wroteThenRead_append_read {out inp : List UInt8} {log : List Transfer}
    (h : WroteThenRead out inp log) (bs : List UInt8) :
    WroteThenRead out (inp ++ bs) (log ++ [.read bs]) := by
  obtain ⟨ws, rs, rfl, rfl, rfl⟩ := h
  exact ⟨ws, rs ++ [bs], by simp, rfl, by simp⟩

theorem Worker.logOk_writeAll {our their : Bytes4} {w w' : Worker} {rest : List UInt8}
    {r : Except IoError Nat} (hs : w.stage = .writing rest) (h : w.LogOk our their)
    (hw : w.writeAll rest r = some w') : w'.LogOk our their := by
  simp only [Worker.LogOk, hs] at h
  obtain ⟨ws, hlog, hour⟩ := h
  match r with
  | .ok 0 => cases hw; trivial
  | .ok (n + 1) =>
    simp only [Worker.writeAll] at hw
    split at hw
    · cases hw
      have hlog' : w.log ++ [.wrote (rest.take (n + 1))] = (ws ++ [rest.take (n + 1)]).map .wrote := by
        simp [hlog]
      by_cases hlt : n + 1 < rest.length
      · simp only [Worker.LogOk, hlt, if_true]
        exact ⟨_, hlog', by simp [← hour]⟩
      · simp only [Worker.LogOk, hlt, if_false]
        rw [List.take_of_length_le (by omega)] at hlog' ⊢
        exact ⟨by simp, ws ++ [rest], [], by simp [hlog'], by simp [← hour], rfl⟩
    · cases hw
  | .error e =>
    simp only [Worker.writeAll] at hw
    split at hw <;> cases hw
    · simpa [Worker.LogOk, hs] using ⟨ws, hlog, hour⟩
    · trivial

theorem Worker.logOk_readExact {our their : Bytes4} {w w' : Worker} {got : List UInt8}
    {r : Except IoError (List UInt8)} (hs : w.stage = .reading got) (h : w.LogOk our their)
    (hw : w.readExact their got r = some w') : w'.LogOk our their := by
  simp only [Worker.LogOk, hs] at h
  obtain ⟨hgot, hwr⟩ := h
  match r with
  | .ok [] => cases hw; trivial
  | .ok (b :: bs) =>
    simp only [Worker.readExact] at hw
    split at hw
    · cases hw
      have hwr' := wroteThenRead_append_read hwr (b :: bs)
      have hlen : (got ++ b :: bs).length ≤ 4 := by simpa using ‹_ ≤ 4›
      simp only [Worker.LogOk, afterRead]
      split_ifs with h4 heq
      · exact ⟨rfl, heq ▸ hwr'⟩
      · trivial
      · exact ⟨by omega, hwr'⟩
    · cases hw
  | .error e =>
    simp only [Worker.readExact] at hw
    split at hw <;> cases hw
    · simpa [Worker.LogOk, hs] using ⟨hgot, hwr⟩
    · trivial

/-- Every call of the exchange keeps the transfer log in step with the stage. -/
theorem Worker.logOk_step {our their : Bytes4} {w w' : Worker} {ev : Event}
    (h : w.LogOk our their) (hw : w.step our their ev = some w') : w'.LogOk our their := by
  unfold Worker.step at hw
  split at hw <;> (try cases hw) <;> (try trivial)
  all_goals first
    | exact Worker.logOk_writeAll ‹_› h hw
    | exact Worker.logOk_readExact ‹_› h hw
    | simp_all [Worker.LogOk]


/-! ## Every exchange ends -/

/-- An `Interrupted` error of a `write` or `read`, which `write_all` and
`read_exact` retry. -/
def Event.isRetry : Event → Bool
  | .write (.error e) | .read (.error e) => decide (e.kind = .interrupted)
  | _ => false

/-- An `Interrupted` answer leaves the worker as it was: `write_all` and
`read_exact` call again. -/
theorem Worker.step_of_isRetry {our their : Bytes4} {w w' : Worker} {ev : Event}
    (hr : ev.isRetry = true) (h : w.step our their ev = some w') : w' = w := by
  match ev, hr with
  | .write (.error e), hr | .read (.error e), hr =>
    simp only [Event.isRetry, decide_eq_true_eq] at hr
    cases hs : w.stage <;> simp [Worker.step, hs, Worker.writeAll, Worker.readExact, hr] at h
    exact h.symm

/-- What the exchange still has to do at a worker's stage. -/
def Worker.remaining (w : Worker) : Nat :=
  match w.stage with
  | .setWriteTimeout => 10
  | .setReadTimeout => 9
  | .writing rest => rest.length + 4
  | .reading got => 4 - got.length
  | _ => 0

/-- The calls a worker can still make besides `Interrupted` retries: the
`connect`, then what the exchange still has to do (the two timeouts, a `write`
per byte of our secret left, a `read` per byte of the buffer left). -/
def Worker.callsLeft (w : Worker) : Nat :=
  match w.stage with
  | .connecting _ => 11
  | _ => w.remaining

theorem Worker.callsLeft_writeAll {w w' : Worker} {rest : List UInt8} {r : Except IoError Nat}
    (hs : w.stage = .writing rest) (h : w.writeAll rest r = some w')
    (hr : (Event.write r).isRetry = false) : w'.callsLeft < w.callsLeft := by
  simp only [Worker.callsLeft, Worker.remaining, hs]
  match r with
  | .ok 0 => cases h; simp
  | .ok (n + 1) =>
    simp only [Worker.writeAll] at h
    split_ifs at h <;> cases h <;> simp <;> omega
  | .error e =>
    simp only [Event.isRetry, decide_eq_false_iff_not] at hr
    simp only [Worker.writeAll, hr, if_false] at h
    cases h; simp

theorem Worker.callsLeft_readExact {their : Bytes4} {w w' : Worker} {got : List UInt8}
    {r : Except IoError (List UInt8)} (hs : w.stage = .reading got) (hgot : got.length < 4)
    (h : w.readExact their got r = some w') (hr : (Event.read r).isRetry = false) :
    w'.callsLeft < w.callsLeft := by
  simp only [Worker.callsLeft, Worker.remaining, hs]
  match r with
  | .ok [] => cases h; simp; omega
  | .ok (b :: bs) =>
    simp only [Worker.readExact] at h
    split_ifs at h with hle
    cases h
    simp only [afterRead]
    split_ifs <;> simp at hle ⊢ <;> omega
  | .error e =>
    simp only [Event.isRetry, decide_eq_false_iff_not] at hr
    simp only [Worker.readExact, hr, if_false] at h
    cases h; simp; omega

/-- Every call of a worker but an `Interrupted` retry lowers the calls it has
left. -/
theorem Worker.callsLeft_step {our their : Bytes4} {w w' : Worker} {ev : Event}
    (hl : w.LogOk our their) (h : w.step our their ev = some w') (hr : ev.isRetry = false) :
    w'.callsLeft < w.callsLeft := by
  unfold Worker.step at h
  split at h
  case h_7 rest r hs => exact Worker.callsLeft_writeAll hs h hr
  case h_8 got r hs =>
    have hgot : got.length < 4 := by simp only [Worker.LogOk, hs] at hl; exact hl.1
    exact Worker.callsLeft_readExact hs hgot h hr
  all_goals cases h <;> simp [Worker.callsLeft, Worker.remaining, *, Octets.length_toList]

/-- The calls `evs` answered one after the other; `none` when one is not an
answer to the worker's next call. -/
def Worker.run (our their : Bytes4) : Worker → List Event → Option Worker
  | w, [] => some w
  | w, ev :: evs => (w.step our their ev).bind fun w' => w'.run our their evs

/-- A run of calls without `Interrupted` retries is no longer than the calls
the worker had left. -/
theorem Worker.run_length_le {our their : Bytes4} :
    ∀ {w w' : Worker} {evs : List Event}, w.LogOk our their → w.run our their evs = some w' →
      (∀ ev ∈ evs, ev.isRetry = false) → evs.length ≤ w.callsLeft
  | _, _, [], _, _, _ => Nat.zero_le _
  | w, w', ev :: evs, hl, h, hno => by
    obtain ⟨w₁, hs, h⟩ := Option.bind_eq_some.mp h
    have hlt := Worker.callsLeft_step hl hs (hno ev (List.mem_cons_self _ _))
    have ih := Worker.run_length_le (Worker.logOk_step hl hs) h
      fun e he => hno e (List.mem_cons_of_mem _ he)
    exact Nat.succ_le_of_lt (ih.trans_lt hlt)

/-- Whatever the operating system answers, a connector makes at most eleven
calls and a handshake worker at most ten, `Interrupted` retries apart: its
`write_all` and `read_exact` loops end. -/
theorem handshake_calls_bounded (our their : Bytes4) (addr : SocketAddr) (s : StreamId)
    {evs : List Event} (hno : ∀ ev ∈ evs, ev.isRetry = false) :
    ((Worker.connector addr s).run our their evs ≠ none → evs.length ≤ 11) ∧
      ((Worker.listenHandshake s).run our their evs ≠ none → evs.length ≤ 10) := by
  constructor <;> intro h <;> obtain ⟨w', hw'⟩ := Option.ne_none_iff_exists'.mp h
  · exact Worker.run_length_le (Worker.logOk_connector our their addr s) hw' hno
  · exact Worker.run_length_le (Worker.logOk_listenHandshake our their s) hw' hno

/-- A connector whose every `write` and `read` moves one byte. -/
def singleByteCalls : List Event :=
  [.connect (.ok ()), .setWriteTimeout (.ok ()), .setReadTimeout (.ok ()),
   .write (.ok 1), .write (.ok 1), .write (.ok 1), .write (.ok 1),
   .read (.ok [5]), .read (.ok [6]), .read (.ok [7]), .read (.ok [8])]

theorem handshake_calls_bounded_single_bytes :
    (∀ ev ∈ singleByteCalls, ev.isRetry = false) ∧
    ((Worker.connector (.v4 ⟨⟨⟨[127, 0, 0, 1], rfl⟩⟩, 5000⟩) 0).run ⟨[1, 2, 3, 4], rfl⟩
      ⟨[5, 6, 7, 8], rfl⟩ singleByteCalls).map Worker.stage = some (.report (.ok 0)) ∧
    singleByteCalls.length = 11 ∧ singleByteCalls.length ≤ 11 := by
  have hno : ∀ ev ∈ singleByteCalls, ev.isRetry = false := by decide
  have hstage : ((Worker.connector (.v4 ⟨⟨⟨[127, 0, 0, 1], rfl⟩⟩, 5000⟩) 0).run
      ⟨[1, 2, 3, 4], rfl⟩ ⟨[5, 6, 7, 8], rfl⟩ singleByteCalls).map Worker.stage =
      some (.report (.ok 0)) := by decide
  refine ⟨hno, hstage, rfl, (handshake_calls_bounded ⟨[1, 2, 3, 4], rfl⟩ ⟨[5, 6, 7, 8], rfl⟩
    (.v4 ⟨⟨⟨[127, 0, 0, 1], rfl⟩⟩, 5000⟩) 0 hno).1 fun h => ?_⟩
  rw [h] at hstage
  cases hstage

end NatTraversal.Punch
