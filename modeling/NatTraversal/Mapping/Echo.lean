import NatTraversal.Net
import Mathlib.Algebra.Group.Nat.Basic

/-!
# The echo protocol and the TCP mapping worker

`MappedTcpSocket::map` learns the address under which an echo server sees the
socket by spawning one thread per simple TCP server (lines 349-383 of
`mapped_tcp_socket.rs`). The thread binds a fresh socket to the local address,
connects to the server, makes one `write` of the request magic and one `read`
of at most `MAX_DATAGRAM_SIZE` bytes, and deserialises what that one read
returned as an `EchoExternalAddr`. `mappingWorker` is that thread, as a
function of the answers its six calls get.

The wire format belongs to `listener_message` and `maidsafe_utilities`, which
are not in the repository. `EchoCodec` states the one law the worker relies
on: a serialised reply deserialises to itself. `compactCodec` is the spec's
length-prefixed format; in it no strict prefix of a reply deserialises at all
(`compactCodec_prefixFree`).

`EchoExchange` is one connection between the worker and a server that follows
the echo protocol, from the moment `connect` returned: the worker's one write
and one read, the server reading the magic and replying, and the bytes in
flight each way, which the connection may deliver in any pieces. Over it:

* `EchoInv.reachable`: whatever the worker's one read returns is a prefix of
  the server's reply;
* `mappingWorker_exchange_result`: in every run, the worker's read returns a
  prefix of the reply after a successful write; the worker returns the
  address the server observed when that prefix is the whole reply, and a
  `Deserialise` warning holding the bytes it read when they do not
  deserialise, as every strict prefix does in a prefix-free format;
* `split_reply_reachable` and `short_write_stuck`: a reply cut short by the
  connection is a run with no I/O error, and so is a short write of the magic,
  after which the server waits for the rest and the worker's read never
  returns.
-/

set_option autoImplicit false

namespace NatTraversal.Mapping

/-! ## The warnings of `map` -/

/-- `igd::SearchError`, kept opaque: the modelled code only passes it on. -/
structure SearchError where
  code : Nat
  deriving DecidableEq, Repr

/-- `igd::AddAnyPortError`, kept opaque. -/
structure AddAnyPortError where
  code : Nat
  deriving DecidableEq, Repr

/-- Modelled from the spec: why a byte string is not a serialised echo reply. -/
inductive SerialisationError where
  | unexpectedEnd
  | extraBytes
  | invalidTag (tag : UInt8)
  | invalidLength
  deriving DecidableEq, Repr

/-- `MappedTcpSocketMapWarning`. -/
inductive MappedTcpSocketMapWarning where
  | findGateway (err : SearchError)
  | getExternalPort (gatewayAddr : SocketAddrV4) (err : AddAnyPortError)
  | newReusablyBoundSocket (err : NewReusablyBoundSocketError)
  | mappingSocketConnect (addr : SocketAddr) (err : IoError)
  | mappingSocketWrite (err : IoError)
  | mappingSocketRead (err : IoError)
  | deserialise (addr : SocketAddr) (err : SerialisationError) (response : List UInt8)
  deriving DecidableEq, Repr

/-! ## The echo reply on the wire -/

/-- Modelled from the spec: `listener_message::EchoExternalAddr`, the echo
server's reply. -/
structure EchoExternalAddr where
  externalAddr : SocketAddr
  deriving DecidableEq, Repr

/-- A wire format for the echo reply with the law the mapping worker relies
on: a reply deserialises to itself. -/
structure EchoCodec where
  serialise : EchoExternalAddr → List UInt8
  deserialise : List UInt8 → Except SerialisationError EchoExternalAddr
  deserialise_serialise : ∀ m, deserialise (serialise m) = .ok m

/-- The only prefix of a reply that deserialises is the whole reply. -/
def EchoCodec.PrefixFree (codec : EchoCodec) : Prop :=
  ∀ m bs m', bs <+: codec.serialise m → codec.deserialise bs = .ok m' → bs = codec.serialise m

/-- Modelled from the spec: the `w` big-endian bytes of `n` modulo `256 ^ w`. -/
def encodeBE : Nat → Nat → List UInt8
  | 0, _ => []
  | w + 1, n => encodeBE w (n / 256) ++ [(n % 256).toUInt8]

/-- Modelled from the spec: the number that big-endian bytes write. -/
def decodeBE (bs : List UInt8) : Nat := bs.foldl (fun acc b => acc * 256 + b.toNat) 0

@[simp] theorem length_encodeBE (w n : Nat) : (encodeBE w n).length = w := by
  induction w generalizing n with
  | zero => rfl
  | succ w ih => simp [encodeBE, ih]

theorem decodeBE_encodeBE (w n : Nat) : decodeBE (encodeBE w n) = n % 256 ^ w := by
  induction w generalizing n with
  | zero => simp [encodeBE, decodeBE, Nat.mod_one]
  | succ w ih =>
    have hb : ((n % 256).toUInt8).toNat = n % 256 :=
      UInt8.toNat_ofNat_of_lt (Nat.mod_lt n (by decide))
    simp only [encodeBE, decodeBE, List.foldl_append, List.foldl_cons, List.foldl_nil] at ih ⊢
    rw [ih, hb, Nat.pow_succ', Nat.mod_mul, Nat.add_comm, Nat.mul_comm]

@[simp] theorem ofNat_decodeBE_u16 (p : UInt16) : UInt16.ofNat (decodeBE (encodeBE 2 p.toNat)) = p :=
  UInt16.toNat.inj <| by
    have hp : p.toNat < 256 ^ 2 := p.toNat_lt_size
    rw [decodeBE_encodeBE, Nat.mod_eq_of_lt hp]
    exact UInt16.toNat_ofNat_of_lt p.toNat_lt_size

@[simp] theorem ofNat_decodeBE_u32 (p : UInt32) : UInt32.ofNat (decodeBE (encodeBE 4 p.toNat)) = p :=
  UInt32.toNat.inj <| by
    have hp : p.toNat < 256 ^ 4 := p.toNat_lt_size
    rw [decodeBE_encodeBE, Nat.mod_eq_of_lt hp]
    exact UInt32.toNat_ofNat_of_lt p.toNat_lt_size

/-- Modelled from the spec: a `SocketAddr` on the wire, a tag byte (`0` for V4,
`1` for V6), the octets, the port and, for V6, the flow info and scope id. -/
def encodeSocketAddr : SocketAddr → List UInt8
  | .v4 a => 0 :: (a.ip.octets.toList ++ encodeBE 2 a.port.toNat)
  | .v6 a => 1 :: (a.ip.octets.toList ++ (encodeBE 2 a.port.toNat ++
      (encodeBE 4 a.flowinfo.toNat ++ encodeBE 4 a.scopeId.toNat)))

/-- Modelled from the spec: the inverse of `encodeSocketAddr`. -/
def decodeSocketAddr : List UInt8 → Except SerialisationError SocketAddr
  | [] => .error .unexpectedEnd
  | tag :: rest =>
    if tag = 0 then
      if h : rest.length = 6 then
        .ok (.v4 ⟨⟨⟨rest.take 4, by simp [h]⟩⟩, .ofNat (decodeBE (rest.drop 4))⟩)
      else .error .invalidLength
    else if tag = 1 then
      if h : rest.length = 26 then
        let ports := rest.drop 16
        .ok (.v6 ⟨⟨⟨rest.take 16, by simp [h]⟩⟩, .ofNat (decodeBE (ports.take 2)),
          .ofNat (decodeBE ((ports.drop 2).take 4)), .ofNat (decodeBE (ports.drop 6))⟩)
      else .error .invalidLength
    else .error (.invalidTag tag)

theorem length_encodeSocketAddr_lt (x : SocketAddr) : (encodeSocketAddr x).length < 256 := by
  cases x with
  | v4 a => simp [encodeSocketAddr, a.ip.octets.length_toList]
  | v6 a => simp [encodeSocketAddr, a.ip.octets.length_toList]

theorem decodeSocketAddr_encodeSocketAddr (x : SocketAddr) :
    decodeSocketAddr (encodeSocketAddr x) = .ok x := by
  cases x with
  | v4 a =>
    have h := a.ip.octets.length_toList
    simp [encodeSocketAddr, decodeSocketAddr, h, List.take_left', List.drop_left',
      List.drop_append_eq_append_drop, List.drop_eq_nil_of_le]
  | v6 a =>
    have h := a.ip.octets.length_toList
    simp [encodeSocketAddr, decodeSocketAddr, h, List.take_left', List.drop_left',
      List.drop_append_eq_append_drop, List.drop_eq_nil_of_le]

/-- Modelled from the spec: the serialised reply, its length in one byte before
the encoded address. -/
def serialiseCompact (m : EchoExternalAddr) : List UInt8 :=
  (encodeSocketAddr m.externalAddr).length.toUInt8 :: encodeSocketAddr m.externalAddr

/-- Modelled from the spec: read the length byte, then exactly that many bytes. -/
def deserialiseCompact : List UInt8 → Except SerialisationError EchoExternalAddr
  | [] => .error .unexpectedEnd
  | len :: body =>
    if body.length < len.toNat then .error .unexpectedEnd
    else if len.toNat < body.length then .error .extraBytes
    else (decodeSocketAddr body).map EchoExternalAddr.mk

theorem toNat_length_toUInt8 (x : SocketAddr) :
    ((encodeSocketAddr x).length.toUInt8).toNat = (encodeSocketAddr x).length :=
  UInt8.toNat_ofNat_of_lt (length_encodeSocketAddr_lt x)

/-- Modelled from the spec: the length-prefixed echo reply format. -/
def compactCodec : EchoCodec where
  serialise := serialiseCompact
  deserialise := deserialiseCompact
  deserialise_serialise m := by
    simp [serialiseCompact, deserialiseCompact, toNat_length_toUInt8,
      decodeSocketAddr_encodeSocketAddr, Except.map]

/-- In the length-prefixed format a strict prefix of a reply is cut short of
the length its first byte announces, so it does not deserialise. -/
theorem compactCodec_prefixFree : compactCodec.PrefixFree := by
  intro m bs m' hp h
  cases bs with
  | nil => simp [compactCodec, deserialiseCompact] at h
  | cons len body =>
    obtain ⟨hlen, hbody⟩ := List.cons_prefix_cons.mp hp
    by_cases heq : body.length = (encodeSocketAddr m.externalAddr).length
    · simp [compactCodec, serialiseCompact, hlen, hbody.eq_of_length heq]
    · have : body.length < len.toNat := by
        rw [hlen, toNat_length_toUInt8]; exact lt_of_le_of_ne hbody.length_le heq
      simp [compactCodec, deserialiseCompact, this] at h

/-! ## The mapping worker -/

/-- `MAX_DATAGRAM_SIZE`, the size of the worker's receive buffer. -/
def maxDatagramSize : Nat := 256

/-- What the operating system answers to the calls of one mapping thread:
the four calls of `new_reusably_bound_socket`, `connect`, the one `write`
(the number of bytes it took) and the one `read` (the bytes it returned,
`recv_data[..n]`). -/
structure EchoIo where
  socket : ReuseCalls
  connect : Except IoError Unit
  write : Except IoError Nat
  read : Except IoError (List UInt8)
  deriving DecidableEq

/-- Lines 372-381: the worker's one `read` and the deserialisation of what it
returned. -/
def readResponse (codec : EchoCodec) (simpleServer : SocketAddr) :
    Except IoError (List UInt8) → Except MappedTcpSocketMapWarning SocketAddr
  | .error e => .error (.mappingSocketRead e)
  | .ok recv =>
    match codec.deserialise recv with
    | .ok msg => .ok msg.externalAddr
    | .error e => .error (.deserialise simpleServer e recv)

/-- The closure spawned for `simple_server` (lines 349-383); the number of
bytes the `write` took is ignored, as the source's `let _ =` does. -/
def mappingWorker (codec : EchoCodec) (localAddr simpleServer : SocketAddr) (io : EchoIo) :
    Except MappedTcpSocketMapWarning SocketAddr :=
  match newReusablyBoundSocket localAddr io.socket with
  | .error e => .error (.newReusablyBoundSocket e)
  | .ok _ =>
    match io.connect with
    | .error e => .error (.mappingSocketConnect simpleServer e)
    | .ok () =>
      match io.write with
      | .error e => .error (.mappingSocketWrite e)
      | .ok _ => readResponse codec simpleServer io.read

/-- Once its socket is bound and connected and its write succeeded, the worker
returns what `readResponse` makes of its read. -/
@[simp] theorem mappingWorker_connected (codec : EchoCodec) (localAddr simpleServer : SocketAddr)
    (n : Nat) (read : Except IoError (List UInt8)) :
    mappingWorker codec localAddr simpleServer ⟨.allOk, .ok (), .ok n, read⟩ =
      readResponse codec simpleServer read := rfl

/-- The worker returns the address in a reply exactly when its read returned
the whole reply; any strict prefix of the reply is a `Deserialise` warning that
holds the bytes read. -/
theorem readResponse_of_prefix {codec : EchoCodec} (hpf : codec.PrefixFree)
    (simpleServer x : SocketAddr) {bs : List UInt8} (hp : bs <+: codec.serialise ⟨x⟩) :
    (bs = codec.serialise ⟨x⟩ ∧ readResponse codec simpleServer (.ok bs) = .ok x) ∨
      (bs ≠ codec.serialise ⟨x⟩ ∧
        ∃ err, readResponse codec simpleServer (.ok bs) = .error (.deserialise simpleServer err bs)) := by
  by_cases heq : bs = codec.serialise ⟨x⟩
  · subst heq
    exact .inl ⟨rfl, by simp [readResponse, codec.deserialise_serialise]⟩
  · refine .inr ⟨heq, ?_⟩
    cases hd : codec.deserialise bs with
    | ok m => exact absurd (hpf _ _ m hp hd) heq
    | error err => exact ⟨err, by simp [readResponse, hd]⟩

/-! ## One connection to an echo server -/

/-- One connection between a mapping worker and an echo server, from the moment
`connect` returned: the answers to the worker's one `write` and one `read` once
they are made, the bytes in flight to the server, what the server has read,
the bytes in flight back, and whether the server has closed the connection. -/
structure EchoExchange where
  write : Option (Except IoError Nat)
  read : Option (Except IoError (List UInt8))
  toServer : List UInt8
  got : List UInt8
  toClient : List UInt8
  closed : Bool
  deriving DecidableEq

/-- A connection nothing has happened on yet. -/
def EchoExchange.init : EchoExchange := ⟨none, none, [], [], [], false⟩

/-- The moves on the connection. -/
inductive EchoAct where
  /-- `stream.write(&send_data[..])` returns how many bytes of the magic the
  connection took, or fails. -/
  | write (r : Except IoError Nat)
  /-- The server reads `k` of the bytes in flight to it. -/
  | serverRead (k : Nat)
  /-- `stream.read(&mut recv_data[..])` returns how many bytes it read, or fails. -/
  | read (r : Except IoError Nat)
  deriving DecidableEq

section Exchange

variable (magic : Bytes4) (reply : List UInt8)

/-- Modelled from the spec: once the echo server holds four bytes, it sends
the reply if they are the magic, and closes the connection. -/
def EchoExchange.serve (e : EchoExchange) : EchoExchange :=
  if e.got.length < 4 then e
  else if e.got.take 4 = magic.toList then { e with toClient := reply, closed := true }
  else { e with closed := true }

/-- One move; `none` where the move cannot happen: a second write or read, a
read before the write, a read of bytes not yet in flight, or, while the server
keeps the connection open, a read with nothing to read (it blocks). -/
def EchoExchange.step (e : EchoExchange) : EchoAct → Option EchoExchange
  | .write r =>
    if e.write = none then
      match r with
      | .ok n =>
        if 0 < n ∧ n ≤ 4 then some { e with write := some (.ok n), toServer := magic.toList.take n }
        else none
      | .error err => some { e with write := some (.error err) }
    else none
  | .serverRead k =>
    if 0 < k ∧ k ≤ e.toServer.length ∧ e.closed = false then
      some (EchoExchange.serve magic reply
        { e with got := e.got ++ e.toServer.take k, toServer := e.toServer.drop k })
    else none
  | .read r =>
    match e.write, e.read with
    | some (.ok _), none =>
      match r with
      | .ok k =>
        if (0 < k ∧ k ≤ maxDatagramSize ∧ k ≤ e.toClient.length) ∨
            (k = 0 ∧ e.toClient = [] ∧ e.closed = true) then
          some { e with read := some (.ok (e.toClient.take k)), toClient := e.toClient.drop k }
        else none
      | .error err => some { e with read := some (.error err) }
    | _, _ => none

/-- The states a connection reaches. -/
inductive EchoReachable : EchoExchange → Prop
  | init : EchoReachable .init
  | step {e e' : EchoExchange} (a : EchoAct) :
      EchoReachable e → e.step magic reply a = some e' → EchoReachable e'

/-- Neither the worker's write nor its read failed. -/
def EchoExchange.IoErrorFree (e : EchoExchange) : Prop :=
  (∀ err, e.write ≠ some (.error err)) ∧ ∀ err, e.read ≠ some (.error err)

/-- What every reachable connection keeps: nothing is in flight back while the
server keeps the connection open; before the read, what is in flight back is
nothing or the whole reply; whatever the read returned is a prefix of the
reply; and the worker reads only after its write succeeded. -/
structure EchoInv (e : EchoExchange) : Prop where
  read_after_write : e.read ≠ none → ∃ n, e.write = some (.ok n)
  open_quiet : e.closed = false → e.toClient = []
  unread : e.read = none → e.toClient = [] ∨ e.toClient = reply
  read_prefix : ∀ bs, e.read = some (.ok bs) → bs <+: reply

theorem EchoInv.init : EchoInv reply .init :=
  ⟨fun h => absurd rfl h, fun _ => rfl, fun _ => .inl rfl,
    fun _ h => by simp [EchoExchange.init] at h⟩

theorem EchoInv.unread_of_write_none {e : EchoExchange} (h : EchoInv reply e)
    (hw : e.write = none) : e.read = none := by
  by_contra hr
  obtain ⟨n, hn⟩ := h.read_after_write hr
  simp [hw] at hn

theorem EchoInv.serve {e : EchoExchange} (h : EchoInv reply e) (hopen : e.closed = false) :
    EchoInv reply (e.serve magic reply) := by
  unfold EchoExchange.serve
  split_ifs
  · exact h
  · exact ⟨h.read_after_write, by simp, fun _ => .inr rfl, h.read_prefix⟩
  · exact ⟨h.read_after_write, by simp, fun _ => .inl (h.open_quiet hopen), h.read_prefix⟩

theorem EchoInv.step {e e' : EchoExchange} {a : EchoAct} (h : EchoInv reply e)
    (hs : e.step magic reply a = some e') : EchoInv reply e' := by
  cases a with
  | write r =>
    simp only [EchoExchange.step] at hs
    split_ifs at hs
    cases r with
    | ok n =>
      simp only [Option.ite_none_right_eq_some, Option.some.injEq] at hs
      obtain ⟨-, rfl⟩ := hs
      exact ⟨fun hr => ⟨n, rfl⟩, h.open_quiet, h.unread, h.read_prefix⟩
    | error err =>
      cases hs
      exact ⟨fun hr => (hr (h.unread_of_write_none reply ‹_›)).elim, h.open_quiet, h.unread,
        h.read_prefix⟩
  | serverRead k =>
    simp only [EchoExchange.step, Option.ite_none_right_eq_some, Option.some.injEq] at hs
    obtain ⟨hk, rfl⟩ := hs
    exact EchoInv.serve magic reply ⟨h.read_after_write, h.open_quiet, h.unread, h.read_prefix⟩
      hk.2.2
  | read r =>
    simp only [EchoExchange.step] at hs
    split at hs
    · rename_i n hw hread
      cases r with
      | ok k =>
        simp only [Option.ite_none_right_eq_some, Option.some.injEq] at hs
        obtain ⟨hk, rfl⟩ := hs
        refine ⟨fun _ => ⟨n, hw⟩, fun hcl => ?_, by simp, ?_⟩
        · simp [h.open_quiet hcl]
        · simp only [Option.some.injEq, Except.ok.injEq, forall_eq']
          rcases h.unread hread with hc | hc <;> simp [hc, List.take_prefix]
      | error err =>
        cases hs
        exact ⟨fun _ => ⟨n, hw⟩, h.open_quiet, by simp, by simp⟩
    · cases hs

theorem EchoInv.reachable {e : EchoExchange} (h : EchoReachable magic reply e) :
    EchoInv reply e := by
  induction h with
  | init => exact EchoInv.init reply
  | step a _ hs ih => exact ih.step magic reply hs

/-- A move in which the worker's write or read fails. -/
def EchoAct.failed : EchoAct → Bool
  | .write (.error _) => true
  | .read (.error _) => true
  | _ => false

/-- The connection may hand the worker's read any nonempty piece of the reply
that fits the buffer: after the whole magic is written and read by the server,
the read returns the first `k` bytes. -/
theorem split_reply_reachable {k : Nat} (hk : 0 < k) (hkm : k ≤ maxDatagramSize)
    (hkr : k ≤ reply.length) :
    ∃ e, EchoReachable magic reply e ∧ e.IoErrorFree ∧ e.write = some (.ok 4) ∧
      e.read = some (.ok (reply.take k)) := by
  have hm := magic.length_toList
  have h1 : EchoExchange.init.step magic reply (.write (.ok 4)) =
      some ⟨some (.ok 4), none, magic.toList, [], [], false⟩ := by
    simp [EchoExchange.step, EchoExchange.init, List.take_of_length_le, hm]
  have h2 : EchoExchange.step magic reply ⟨some (.ok 4), none, magic.toList, [], [], false⟩
      (.serverRead 4) = some ⟨some (.ok 4), none, [], magic.toList, reply, true⟩ := by
    simp [EchoExchange.step, EchoExchange.serve, List.take_of_length_le, hm]
  have h3 : EchoExchange.step magic reply ⟨some (.ok 4), none, [], magic.toList, reply, true⟩
      (.read (.ok k)) =
        some ⟨some (.ok 4), some (.ok (reply.take k)), [], magic.toList, reply.drop k, true⟩ := by
    simp [EchoExchange.step, hk, hkm, hkr]
  exact ⟨_, .step _ (.step _ (.step _ .init h1) h2) h3, ⟨by simp, by simp⟩, rfl, rfl⟩

/-- After a short write of the magic the server waits for the rest, which the
worker never sends, and the worker's read waits for a reply: no move is left
but a failing read. -/
theorem short_write_stuck {n : Nat} (hn : 0 < n) (hn4 : n < 4) :
    ∃ e, EchoReachable magic reply e ∧ e.IoErrorFree ∧ e.write = some (.ok n) ∧
      e.read = none ∧ ∀ a, a.failed = false → e.step magic reply a = none := by
  have hm := magic.length_toList
  have h1 : EchoExchange.init.step magic reply (.write (.ok n)) =
      some ⟨some (.ok n), none, magic.toList.take n, [], [], false⟩ := by
    simp [EchoExchange.step, EchoExchange.init, hn, hn4.le]
  have h2 : EchoExchange.step magic reply ⟨some (.ok n), none, magic.toList.take n, [], [], false⟩
      (.serverRead n) = some ⟨some (.ok n), none, [], magic.toList.take n, [], false⟩ := by
    simp [EchoExchange.step, EchoExchange.serve, hm, hn, hn4, hn4.le]
  refine ⟨_, .step _ (.step _ .init h1) h2, ⟨by simp, by simp⟩, rfl, rfl, ?_⟩
  intro a ha
  cases a with
  | write r => simp [EchoExchange.step]
  | serverRead k => simp [EchoExchange.step]; omega
  | read r =>
    cases r with
    | ok k => simp [EchoExchange.step]; omega
    | error err => simp [EchoAct.failed] at ha

end Exchange

/-- In every run of the connection, the worker's read returns a prefix of the
reply, after a successful write. The worker returns the address the server
observed when that prefix is the whole reply, and a `Deserialise` warning that
names the server and holds the bytes read when they do not deserialise. In a
prefix-free format every strict prefix is such a warning, so there the worker
returns the observed address exactly when it read the whole reply. -/
theorem mappingWorker_exchange_result (codec : EchoCodec) (magic : Bytes4)
    (localAddr simpleServer x : SocketAddr) {e : EchoExchange}
    (he : EchoReachable magic (codec.serialise ⟨x⟩) e) {bs : List UInt8}
    (hr : e.read = some (.ok bs)) :
    ∃ n, e.write = some (.ok n) ∧ bs <+: codec.serialise ⟨x⟩ ∧
      (bs = codec.serialise ⟨x⟩ →
        mappingWorker codec localAddr simpleServer ⟨.allOk, .ok (), .ok n, .ok bs⟩ = .ok x) ∧
      (∀ err, codec.deserialise bs = .error err →
        mappingWorker codec localAddr simpleServer ⟨.allOk, .ok (), .ok n, .ok bs⟩ =
          .error (.deserialise simpleServer err bs)) ∧
      (codec.PrefixFree → bs ≠ codec.serialise ⟨x⟩ → ∃ err,
        mappingWorker codec localAddr simpleServer ⟨.allOk, .ok (), .ok n, .ok bs⟩ =
          .error (.deserialise simpleServer err bs)) := by
  have hi := EchoInv.reachable magic _ he
  obtain ⟨n, hw⟩ := hi.read_after_write (by simp [hr])
  have hp := hi.read_prefix bs hr
  refine ⟨n, hw, hp, fun heq => ?_, fun err hd => by simp [readResponse, hd], fun hpf hne => ?_⟩
  · simp [heq, readResponse, codec.deserialise_serialise]
  · simpa [hne] using readResponse_of_prefix hpf simpleServer x hp

/-- The echo server of the examples. -/
def echoServerAddr : SocketAddr := .v4 ⟨⟨⟨[198, 51, 100, 1], rfl⟩⟩, 5483⟩

/-- The address the echo server of the examples observes. -/
def echoObservedAddr : SocketAddr := .v4 ⟨⟨⟨[203, 0, 113, 7], rfl⟩⟩, 40000⟩

/-- The magic of the examples. -/
def echoMagic : Bytes4 := ⟨[1, 2, 3, 4], rfl⟩

theorem mappingWorker_exchange_result_whole_reply :
    ∃ e, EchoReachable echoMagic (compactCodec.serialise ⟨echoObservedAddr⟩) e ∧
      e.read = some (.ok (compactCodec.serialise ⟨echoObservedAddr⟩)) ∧ ∃ n,
        e.write = some (.ok n) ∧
        mappingWorker compactCodec echoObservedAddr echoServerAddr
          ⟨.allOk, .ok (), .ok n, .ok (compactCodec.serialise ⟨echoObservedAddr⟩)⟩ =
          .ok echoObservedAddr := by
  obtain ⟨e, he, -, -, hr⟩ := split_reply_reachable echoMagic
    (compactCodec.serialise ⟨echoObservedAddr⟩) (k := 8) (by decide) (by decide) (by decide)
  rw [List.take_of_length_le (by decide)] at hr
  obtain ⟨n, hw, -, hok, -⟩ :=
    mappingWorker_exchange_result compactCodec echoMagic echoObservedAddr echoServerAddr
      echoObservedAddr he hr
  exact ⟨e, he, hr, n, hw, hok rfl⟩

/-- A reply split by the connection after its first byte, and a write that
takes two bytes of the magic: both are runs with no I/O error. In the first the
worker returns a `Deserialise` warning instead of the observed address; in the
second the worker's read never returns. -/
theorem mapping_worker_misses_observed_addr (magic : Bytes4) (localAddr simpleServer : SocketAddr) :
    (∃ e, EchoReachable magic (compactCodec.serialise ⟨echoObservedAddr⟩) e ∧ e.IoErrorFree ∧
      e.write = some (.ok 4) ∧ e.read = some (.ok [7]) ∧
      mappingWorker compactCodec localAddr simpleServer ⟨.allOk, .ok (), .ok 4, .ok [7]⟩ =
        .error (.deserialise simpleServer .unexpectedEnd [7])) ∧
    (∃ e, EchoReachable magic (compactCodec.serialise ⟨echoObservedAddr⟩) e ∧ e.IoErrorFree ∧
      e.write = some (.ok 2) ∧ e.read = none ∧
      ∀ a, a.failed = false → e.step magic (compactCodec.serialise ⟨echoObservedAddr⟩) a = none) := by
  refine ⟨?_, short_write_stuck magic _ (by decide) (by decide)⟩
  obtain ⟨e, he, hf, hw, hr⟩ := split_reply_reachable magic
    (compactCodec.serialise ⟨echoObservedAddr⟩) (k := 1) (by decide) (by decide) (by decide)
  exact ⟨e, he, hf, hw, hr, rfl⟩

end NatTraversal.Mapping
