import NatTraversal.Mapping.Map

/-!
# Joining the mapping threads

The mapping threads of `map` run at once and finish in any order; the main
thread joins them in the order it spawned them (lines 385-397 of
`mapped_tcp_socket.rs`), each `join` waiting for its thread. `Joining` is that
phase as a state machine: a thread finishes with the result its calls give
it, and the main thread joins the next thread once that one has finished.

* `JoinInv.reachable`: in every run, what the main thread has collected is the
  results of the threads it joined, in spawn order;
* `JoinInv.stuck`: a run stops only when every thread is joined, so every
  schedule that stops ends with the same endpoints and warnings;
* `Joining.pending_step_lt`: every move lowers the number of moves left, so
  every schedule stops;
* `map_accounting`: what `map` returns and why, for every context, every answer
  of the gateways and mapping threads and every order in which the threads
  finish.
-/

set_option autoImplicit false

namespace NatTraversal.Mapping

/-- The join phase: each thread's result once it has finished, how many
threads the main thread has joined, and the endpoints and warnings so far. -/
structure Joining where
  finished : List (Option (Except MappedTcpSocketMapWarning SocketAddr))
  joined : Nat
  disc : Discovery
  deriving DecidableEq

/-- The moves of the join phase. -/
inductive JoinAct where
  /-- The `i`-th thread returns. -/
  | finish (i : Nat)
  /-- `mapping_thread.join()` returns for the next thread in spawn order. -/
  | join
  deriving DecidableEq

/-- The moves left: threads still running, and threads not yet joined. -/
def Joining.pending (s : Joining) : Nat :=
  s.finished.countP Option.isNone + (s.finished.length - s.joined)

section Join

variable (results : List (Except MappedTcpSocketMapWarning SocketAddr)) (d : Discovery)

/-- Every thread running, none joined, and the direct phase's findings. -/
def Joining.init : Joining := ⟨results.map fun _ => none, 0, d⟩

/-- One move; `none` where it cannot happen: a thread finishes once, and
`join` waits for the next thread to finish. -/
def Joining.step (s : Joining) : JoinAct → Option Joining
  | .finish i =>
    match s.finished[i]?, results[i]? with
    | some none, some r => some { s with finished := s.finished.set i (some r) }
    | _, _ => none
  | .join =>
    match s.finished[s.joined]? with
    | some (some r) => some { s with joined := s.joined + 1, disc := s.disc.joinOne r }
    | _ => none

/-- The states of the join phase that a schedule reaches. -/
inductive JoinReachable : Joining → Prop
  | init : JoinReachable (Joining.init results d)
  | step {s s' : Joining} (a : JoinAct) :
      JoinReachable s → s.step results a = some s' → JoinReachable s'

/-- What every reachable state keeps: one slot per thread, a finished thread
holds its own result, and the main thread has collected the results of the
threads it joined, in spawn order. -/
structure JoinInv (s : Joining) : Prop where
  length_eq : s.finished.length = results.length
  finished_eq : ∀ (i : Nat) (r : Except MappedTcpSocketMapWarning SocketAddr),
    s.finished[i]? = some (some r) → results[i]? = some r
  joined_le : s.joined ≤ results.length
  disc_eq : s.disc = (results.take s.joined).foldl Discovery.joinOne d

theorem JoinInv.init : JoinInv results d (Joining.init results d) :=
  ⟨by simp [Joining.init], fun i r h => by simp [Joining.init, List.getElem?_replicate] at h,
    Nat.zero_le _, rfl⟩

theorem JoinInv.step {s s' : Joining} {a : JoinAct} (h : JoinInv results d s)
    (hs : s.step results a = some s') : JoinInv results d s' := by
  cases a with
  | finish i =>
    simp only [Joining.step] at hs
    split at hs
    · next r hi hr =>
      cases hs
      refine ⟨by simp [h.length_eq], fun j r' hj => ?_, h.joined_le, h.disc_eq⟩
      by_cases hij : i = j
      · subst hij
        have hlt : i < s.finished.length := (List.getElem?_eq_some_iff.mp hi).1
        simp [List.getElem?_set_self hlt] at hj
        rwa [← hj]
      · rw [List.getElem?_set_ne hij] at hj
        exact h.finished_eq j r' hj
    · cases hs
  | join =>
    simp only [Joining.step] at hs
    split at hs
    · next r hr =>
      cases hs
      have hres := h.finished_eq _ _ hr
      have hlt : s.joined < results.length := (List.getElem?_eq_some_iff.mp hres).1
      refine ⟨h.length_eq, fun j r' hj => h.finished_eq j r' hj, hlt, ?_⟩
      simp [List.take_succ, hres, h.disc_eq]
    · cases hs

theorem JoinInv.reachable {s : Joining} (hs : JoinReachable results d s) : JoinInv results d s := by
  induction hs with
  | init => exact JoinInv.init results d
  | step a _ hs ih => exact ih.step results d hs

/-- A state with no move left has joined every thread, and so holds the results
of all of them in spawn order. -/
theorem JoinInv.stuck {s : Joining} (h : JoinInv results d s)
    (hstuck : ∀ a, s.step results a = none) :
    s.disc = results.foldl Discovery.joinOne d := by
  suffices hj : s.joined = results.length by
    rw [h.disc_eq, hj, List.take_length]
  by_contra hne
  have hlt : s.joined < results.length := lt_of_le_of_ne h.joined_le hne
  obtain ⟨r, hr⟩ : ∃ r, results[s.joined]? = some r := ⟨_, List.getElem?_eq_getElem hlt⟩
  have hslot : s.joined < s.finished.length := h.length_eq ▸ hlt
  cases hf : s.finished[s.joined] with
  | none =>
    have := hstuck (.finish s.joined)
    simp [Joining.step, List.getElem?_eq_getElem hslot, hf, hr] at this
  | some r' =>
    have := hstuck .join
    simp [Joining.step, List.getElem?_eq_getElem hslot, hf] at this

end Join

/-- Every move lowers the number of moves left. -/
theorem Joining.pending_step_lt (results : List (Except MappedTcpSocketMapWarning SocketAddr))
    {s s' : Joining} {a : JoinAct} (hs : s.step results a = some s') :
    s'.pending < s.pending := by
  cases a with
  | finish i =>
    simp only [Joining.step] at hs
    split at hs
    · next r hi hr =>
      cases hs
      have hlt : i < s.finished.length := (List.getElem?_eq_some_iff.mp hi).1
      have hnone : s.finished[i] = none := by simpa [List.getElem?_eq_getElem hlt] using hi
      have hpos : 0 < s.finished.countP Option.isNone :=
        List.countP_pos_iff.mpr ⟨none, hnone ▸ List.getElem_mem hlt, rfl⟩
      simp only [Joining.pending, List.countP_set _ _ _ _ hlt, hnone, List.length_set,
        Option.isNone_none, Option.isNone_some, Bool.false_eq_true, ↓reduceIte]
      omega
    · cases hs
  | join =>
    simp only [Joining.step] at hs
    split at hs
    · next r hr =>
      cases hs
      have hlt : s.joined < s.finished.length := (List.getElem?_eq_some_iff.mp hr).1
      simp only [Joining.pending]
      omega
    · cases hs

/-! ## The accounting of `map` -/

/-- What `map` returns for a socket whose address is known, and how every
schedule of its threads gets there. The direct phase's endpoints `eps` and
warnings `ws` are the blocks of the own addresses, made with the requests
`requests`, each answered as the gateways answer it; none of `eps` is
restricted. The threads' `results` are one per simple server, the `i`-th being
what the thread for the `i`-th server returns. `map` returns `eps` and then the
successful threads' addresses in server order, and the failed threads'
warnings last, in server order; every schedule of the threads stops, and every
one that stops has collected exactly that. -/
structure MapAccounting (codec : EchoCodec) (igd : Igd) (io : Nat → EchoIo) (socket : TcpBuilder)
    (mc : MappingContext) (localAddr : SocketAddr) (requests : List IgdRequest)
    (eps : List MappedSocketAddr) (ws : List MappedTcpSocketMapWarning)
    (results : List (Except MappedTcpSocketMapWarning SocketAddr)) : Prop where
  blocks : Blocks (ownAddrs igd mc localAddr) requests eps ws
  answered : RequestsAnswered igd requests
  unrestricted : ∀ e ∈ eps, e.natRestricted = false
  threads : ThreadResults codec localAddr mc.simpleTcpServers io results
  result : MappedTcpSocket.map codec igd io socket mc =
    .wOk ⟨socket, eps ++ echoEndpoints results⟩
      (searchWarnings igd mc localAddr ++ ws ++ echoWarnings results)
  every_schedule_stops : ∀ (s s' : Joining) (a : JoinAct),
    s.step results a = some s' → s'.pending < s.pending
  every_schedule_agrees : ∀ s, JoinReachable results (directEndpoints igd mc localAddr) s →
    (∀ a, s.step results a = none) →
    s.disc = ⟨eps ++ echoEndpoints results,
      searchWarnings igd mc localAddr ++ ws ++ echoWarnings results, requests⟩

/-- What `map` returns, and that every schedule of its mapping threads stops
with it: for every context, every answer of the gateways and of the mapping
threads, and every order in which the threads finish. -/
theorem map_accounting (codec : EchoCodec) (igd : Igd) (io : Nat → EchoIo) (socket : TcpBuilder)
    (mc : MappingContext) {localAddr : SocketAddr} (h : socket.localAddr = .ok localAddr) :
    ∃ requests eps ws results,
      MapAccounting codec igd io socket mc localAddr requests eps ws results := by
  obtain ⟨requests, eps, ws, hb, hd⟩ := directEndpoints_extends igd mc localAddr
  have hans := directEndpoints_answered igd mc localAddr
  rw [hd] at hans
  refine ⟨requests, eps, ws, _, hb, by simpa using hans, hb.not_restricted,
    mappingThreads_results codec localAddr mc.simpleTcpServers io, ?_,
    fun _ _ _ hs => Joining.pending_step_lt _ hs, fun s hs hstuck => ?_⟩
  · simp [map_eq_wOk codec igd io socket mc h, hd]
  · rw [(JoinInv.reachable _ _ hs).stuck _ _ hstuck, Discovery.foldl_joinOne, hd]
    simp

theorem map_accounting_two_interfaces :
    (⟨.v4, .ok unspecifiedAddr⟩ : TcpBuilder).localAddr = .ok unspecifiedAddr ∧
    ∃ requests eps ws results, MapAccounting compactCodec mappingIgd noEchoIo
      ⟨.v4, .ok unspecifiedAddr⟩ twoInterfaces unspecifiedAddr requests eps ws results :=
  ⟨rfl, map_accounting compactCodec mappingIgd noEchoIo _ twoInterfaces rfl⟩

end NatTraversal.Mapping
