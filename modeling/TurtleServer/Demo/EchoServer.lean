import TurtleServer.Core.EdgeTriggerRest

/-!
# The echo server (`demo/echo/echo_server.cpp`)

Its callback sends back what `Recv` has put into the read buffer, and clears the buffer.

`echoed_in_the_end`: as long as no `send` fails for good, what a client has got back is at any time the
beginning of what it has sent; and when the clients fall silent and go on reading, the server comes to
rest and every client has got back exactly what it has sent, however its bytes were cut into pieces and
whenever they came.
-/

namespace TurtleServer

open Lib EdgeTrigger

/-- `ClearReadBuffer`. -/
def Connection.clearReadBuffer (c : Connection) : Connection :=
  { c with readBuffer := c.readBuffer.clear }

namespace Demo

/-! ## 1. The callback -/

/-- A client of the echo server, with what `Recv` has returned (how much was read, and whether the
client has exited) while the callback is not over. -/
structure EchoClient where
  conn : Connection
  result : Option (ℕ × Bool)
  deleted : Bool
deriving DecidableEq, Repr

namespace EchoClient

def new : EchoClient := ⟨.fresh, none, false⟩

/-- `Recv`. -/
def arrive (client : EchoClient) (call : RecvCall) : EchoClient :=
  let (read, exit, conn) := { client.conn with socket := { client.conn.socket with
    incoming := call.incoming, outgoing := call.outgoing } }.recv
  { client with conn, result := some (read, exit) }

/-- What the callback does after `Recv`. -/
def advance (client : EchoClient) : EchoClient :=
  match client.result with
  | none => client
  | some (read, exit) =>
    if exit then { client with result := none, deleted := true }
    else if read ≠ 0 then
      let conn := (client.conn.writeToWriteBuffer client.conn.readBuffer.buf).send.clearReadBuffer
      { client with conn, result := none }
    else { client with result := none }

theorem result_advance (client : EchoClient) : client.advance.result = none := by
  unfold advance
  split
  · next hnone => exact hnone
  · split
    · rfl
    · split <;> rfl

end EchoClient

/-- The callback for all clients. It takes one step after `Recv`. -/
def echo : FiniteHandler (ℕ → EchoClient) where
  arrive c call x := Function.update x c ((x c).arrive call)
  advance c x := some (Function.update x c (x c).advance)
  returned c x := (x c).result.isNone
  deleted c x := (x c).deleted
  cost := 1
  left c x := if (x c).result.isSome then 1 else 0
  arrive_le c call x := by
    rw [Function.update_self]
    split <;> omega
  advance_lt c x x' hreturned hstate := by
    cases hstate
    obtain ⟨⟨read, exit⟩, hresult⟩ : ∃ r, (x c).result = some r := by
      cases hr : (x c).result with
      | none => simp [hr] at hreturned
      | some r => exact ⟨r, rfl⟩
    rw [Function.update_self, EchoClient.result_advance, hresult]
    exact Nat.zero_lt_one
  arrive_of_ne c d call x hd := by rw [Function.update_of_ne hd]
  advance_of_ne c d x x' hd hstate := by
    cases hstate
    rw [Function.update_of_ne hd]

/-! ## 2. The client in its socket -/

/-- The client has not ended, and no `send` to it has failed for good. -/
structure Undisturbed (k : ClientSocket) : Prop where
  ending : k.ending = none
  outgoing : ∀ call ∈ k.calls, ∀ x ∈ call.outgoing, x.Clean

/-- What has gone back and what is still in the buffer is what `Recv` has taken, and in the callback
`Recv` has said how much is in the buffer. -/
structure EchoClient.Intact (client : EchoClient) (taken : Bytes) : Prop where
  kept : client.deleted = false
  writeBuffer : client.conn.writeBuffer.buf = []
  outgoing : ∀ x ∈ client.conn.socket.outgoing, x.Clean
  bytes : client.conn.socket.delivered ++ client.conn.readBuffer.buf = taken
  result : client.result.elim (0, false) id = (client.conn.readBuffer.buf.length, false)

/-- An undisturbed client is intact, and it is in the callback only when its reactor is. -/
structure Faithful (k : ClientSocket) (stage : Stage) (client : EchoClient) : Prop where
  waiting : stage ≠ .handling → client.result = none
  closed : k.place = .closed → client.deleted = true
  intact : Undisturbed k → client.Intact k.taken

namespace EchoLemmas

open EdgeTriggerLemmas

variable {client : EchoClient} {k k' : ClientSocket} {stage stage' : Stage} {call : RecvCall}
  {taken : Bytes} {x x' : ℕ → EchoClient} {c : ℕ}

theorem intact_new : EchoClient.new.Intact [] :=
  ⟨rfl, rfl, fun _ hx => absurd hx List.not_mem_nil, rfl, rfl⟩

/-- Outside the callback the buffer is empty. -/
theorem readBuffer_empty (h : client.Intact taken) (hresult : client.result = none) :
    client.conn.readBuffer.buf = [] := by
  have hlength := h.result
  rw [hresult] at hlength
  exact List.length_eq_zero_iff.mp (congrArg Prod.fst hlength).symm

theorem intact_arrive (h : client.Intact taken) (hresult : client.result = none)
    (hincoming : ∀ x ∈ call.incoming, x.Clean) (houtgoing : ∀ x ∈ call.outgoing, x.Clean) :
    (client.arrive call).Intact (taken ++ received call.incoming) := by
  have hempty : client.conn.readBuffer.buf = [] := readBuffer_empty h hresult
  unfold EchoClient.arrive
  rw [Connection.recv_clean hincoming]
  refine ⟨h.kept, h.writeBuffer, houtgoing, ?_, ?_⟩
  · show client.conn.socket.delivered ++ (client.conn.readBuffer.buf ++ _) = _
    rw [← List.append_assoc, h.bytes]
  · show ((received call.incoming).length, false) =
      ((client.conn.readBuffer.buf ++ received call.incoming).length, false)
    rw [hempty, List.nil_append]

theorem intact_advance (h : client.Intact taken) : client.advance.Intact taken := by
  obtain ⟨conn, result, deleted⟩ := client
  cases result with
  | none => exact h
  | some r =>
    obtain ⟨read, exit⟩ := r
    obtain ⟨hread, rfl⟩ : read = conn.readBuffer.buf.length ∧ exit = false := Prod.mk.inj h.result
    by_cases hzero : read = 0
    · have hadvance : EchoClient.advance ⟨conn, some (read, false), deleted⟩ =
          ⟨conn, none, deleted⟩ := by simp [EchoClient.advance, hzero]
      rw [hadvance]
      refine ⟨h.kept, h.writeBuffer, h.outgoing, h.bytes, ?_⟩
      show (0, false) = (conn.readBuffer.buf.length, false)
      rw [← hread, hzero]
    · obtain ⟨outgoing', hclean, hsend⟩ := Connection.send_clean
        (c := conn.writeToWriteBuffer conn.readBuffer.buf) h.outgoing
      have hadvance : EchoClient.advance ⟨conn, some (read, false), deleted⟩ =
          ⟨(conn.writeToWriteBuffer conn.readBuffer.buf).send.clearReadBuffer, none, deleted⟩ := by
        simp [EchoClient.advance, hzero]
      rw [hadvance, hsend]
      refine ⟨h.kept, rfl, hclean, ?_, rfl⟩
      show conn.socket.delivered ++ (conn.writeBuffer.buf ++ conn.readBuffer.buf) ++ [] = taken
      rw [h.writeBuffer, List.nil_append, List.append_nil]
      exact h.bytes

/-- What the callback does for others. -/
theorem client_of_elsewhere (h : Elsewhere echo.toHandler c x x') : x' c = x c := by
  cases h with
  | nothing => rfl
  | arrive hd => exact Function.update_of_ne hd.symm ..
  | advance hd hstate =>
    cases hstate
    exact Function.update_of_ne hd.symm ..

theorem faithful_of_local (h : Faithful k stage (x c)) (hwatched : Watched k stage)
    (hregistered : stage ≠ .idle → ∃ r, k.place = .registered r)
    (hlocal : Local echo.toHandler c x k stage x' k' stage') : Faithful k' stage' (x' c) := by
  cases hlocal with
  | same helsewhere =>
    rw [client_of_elsewhere helsewhere]
    exact h
  | handle _ hstate =>
    cases hstate
    obtain ⟨r, hplace⟩ := hregistered Stage.noConfusion
    have hclient : Function.update x c (x c).advance c = (x c).advance := Function.update_self ..
    rw [hclient]
    exact ⟨fun hnot => absurd rfl hnot,
      fun hclosed => Place.noConfusion (hplace.symm.trans hclosed),
      fun hk => intact_advance (h.intact hk)⟩
  | move _ _ hafter =>
    exact ⟨h.waiting, fun hclosed => absurd hclosed hafter, fun hk => h.intact ⟨hk.1, hk.2⟩⟩
  | deliver => exact ⟨h.waiting, h.closed, fun hk => h.intact ⟨hk.1, hk.2⟩⟩
  | finish => exact ⟨h.waiting, h.closed, fun hk => absurd hk.1 (Option.some_ne_none _)⟩
  | register =>
    exact ⟨h.waiting, fun hclosed => Place.noConfusion hclosed, fun hk => h.intact ⟨hk.1, hk.2⟩⟩
  | report =>
    exact ⟨fun _ => h.waiting Stage.noConfusion, h.closed, fun hk => h.intact ⟨hk.1, hk.2⟩⟩
  | visit => exact ⟨fun _ => h.waiting Stage.noConfusion, h.closed, h.intact⟩
  | interrupted => exact ⟨fun _ => h.waiting Stage.noConfusion, h.closed, h.intact⟩
  | received =>
    exact ⟨fun _ => h.waiting Stage.noConfusion, h.closed, fun hk => h.intact ⟨hk.1, hk.2⟩⟩
  | @ended _ call ending _ hending =>
    obtain ⟨r, hplace⟩ := hregistered Stage.noConfusion
    exact ⟨fun hnot => absurd rfl hnot,
      fun hclosed => Place.noConfusion (hplace.symm.trans hclosed),
      fun hk => absurd (hending.symm.trans hk.1) (Option.some_ne_none _)⟩
  | @drained _ call _ hopen =>
    obtain ⟨r, hplace⟩ := hregistered Stage.noConfusion
    refine ⟨fun hnot => absurd rfl hnot,
      fun hclosed => Place.noConfusion (hplace.symm.trans hclosed),
      fun hk => ?_⟩
    have hbefore : Undisturbed k :=
      ⟨hopen, fun call hcall => hk.outgoing call (List.mem_append_left _ hcall)⟩
    have hclient : echo.arrive c call x c = (x c).arrive call := Function.update_self ..
    rw [hclient, taken_endCall]
    exact intact_arrive (h.intact hbefore) (h.waiting Stage.noConfusion)
      (hwatched.receiving call rfl) (hk.outgoing call (List.mem_append_right _ List.mem_cons_self))
  | leave hreturned =>
    exact ⟨fun _ => Option.isNone_iff_eq_none.mp hreturned, h.closed, h.intact⟩
  | close hreturned hdeleted =>
    exact ⟨fun _ => Option.isNone_iff_eq_none.mp hreturned, fun _ => hdeleted,
      fun hk => h.intact ⟨hk.1, hk.2⟩⟩

end EchoLemmas

/-! ## 3. All clients -/

/-- The reactors read, what is sent goes out, and every client is served faithfully. -/
structure Echoing (s : Network (ℕ → EchoClient)) : Prop where
  inv : EdgeTrigger.Inv s
  delivered : s.Delivered
  faithful : ∀ c, Faithful (s.sockets c) (s.stage c) (s.state c)

namespace EchoLemmas

open EdgeTriggerLemmas

variable {s : Network (ℕ → EchoClient)} {c : ℕ}

theorem echoing_new : Echoing (Network.new fun _ => .new) where
  inv := inv_new _
  delivered := delivered_new _
  faithful _ := ⟨fun _ => rfl, Place.noConfusion, fun _ => intact_new⟩

/-- The callback does not end the process. -/
theorem next_echoing (h : Echoing s) (move : Move) (hmove : move.Delivers) :
    ∃ s', Network.next echo.toHandler (some s) move = some s' ∧ Echoing s' := by
  rcases step_cases echo.toHandler s move with ⟨r, c, waiting, -, -, -, hnone⟩ |
    ⟨s', hs', hcases⟩
  · exact absurd hnone (Option.some_ne_none _)
  · refine ⟨s', hs', ?_⟩
    rcases hcases with rfl | hstep
    · exact h
    · exact ⟨inv_step h.inv hstep, delivered_step h.delivered hstep hmove, fun c =>
        faithful_of_local (h.faithful c) (h.inv.watched c) registered_of_stage
          (local_of_step h.inv.orderly hstep c)⟩

theorem echoing_run {moves : List Move} (hmoves : ∀ move ∈ moves, move.Delivers) :
    ∃ s, run (Network.next echo.toHandler) (some (Network.new fun _ => .new)) moves = some s ∧
      Echoing s := by
  refine run_of_along (I := fun o => ∃ s, o = some s ∧ Echoing s) ?_ ⟨_, rfl, echoing_new⟩
    (along_iff_forall.mpr hmoves)
  rintro _ move ⟨s, rfl, h⟩ hmove
  exact next_echoing h move hmove

theorem undisturbed_of_open (h : Echoing s) (hopen : (s.sockets c).ending = none) :
    Undisturbed (s.sockets c) := ⟨hopen, h.delivered.sockets c⟩

/-- What has gone back is the beginning of what has been sent. -/
theorem delivered_prefix (h : Echoing s) (hopen : (s.sockets c).ending = none) :
    (s.state c).conn.socket.delivered <+: (s.sockets c).sent := by
  rw [(h.inv.watched c).bytes, ← ((h.faithful c).intact (undisturbed_of_open h hopen)).bytes,
    List.append_assoc,
    List.append_assoc]
  exact List.prefix_append _ _

theorem delivered_of_quiet (h : Echoing s) (hquiet : s.Quiet) (hheard : s.HeardOut c)
    (hopen : (s.sockets c).ending = none) (hconnected : (s.sockets c).place ≠ .away)
    (hkept : (s.sockets c).place ≠ .expired) :
    (s.state c).conn.socket.delivered = (s.sockets c).sent := by
  have hintact := (h.faithful c).intact (undisturbed_of_open h hopen)
  cases hplace : (s.sockets c).place with
  | away => exact absurd hplace hconnected
  | backlog => exact absurd hplace hheard.taken.1
  | accepted => exact absurd hplace hheard.taken.2
  | registered r =>
    have hstage : s.stage c ≠ .handling := by
      rw [stage_of_registered hplace, hquiet.reactors r]
      exact Stage.noConfusion
    have hempty := readBuffer_empty hintact ((h.faithful c).waiting hstage)
    have hbytes := hintact.bytes
    rw [hempty, List.append_nil] at hbytes
    rw [hbytes, hheard.bytes r hplace]
  | closed =>
    have hdeleted := (h.faithful c).closed hplace
    exact absurd (hdeleted.symm.trans hintact.kept) Bool.noConfusion
  | expired => exact absurd hplace hkept

end EchoLemmas

open EdgeTriggerLemmas EchoLemmas

/-- After any run in which no `send` fails for good: what a client that has not ended has got back is
the beginning of what it has sent. When the clients fall silent and go on reading, there is a bound for
the steps in which the server gets on, in whatever order its threads make them, and it gets to a state
in which it has nothing to do. In every such state each of these clients has got back exactly what it
has sent, unless its timer has cut it off. -/
theorem echoed_in_the_end {reactors : ℕ} (hreactors : 0 < reactors) (moves : List Move)
    (hmoves : ∀ move ∈ moves, move.Of reactors) (hdelivers : ∀ move ∈ moves, move.Delivers) :
    let step := Network.next echo.toHandler
    let delivering := Delivering echo.toHandler reactors
    ∃ s, run step (some (Network.new fun _ => .new)) moves = some s ∧
      (∀ c, (s.sockets c).ending = none →
        (s.state c).conn.socket.delivered <+: (s.sockets c).sent) ∧
      (∃ bound, ∀ later, Along step delivering (some s) later → later.length ≤ bound) ∧
      (∃ later, Along step delivering (some s) later ∧
        Rested echo.toHandler reactors (run step (some s) later)) ∧
      ∀ later, Along step delivering (some s) later →
        Rested echo.toHandler reactors (run step (some s) later) →
        ∃ s', run step (some s) later = some s' ∧ ∀ c,
          (s'.sockets c).sent = (s.sockets c).sent ∧
          ((s'.sockets c).ending = none → (s'.sockets c).place ≠ .away →
            (s'.sockets c).place ≠ .expired →
            (s'.state c).conn.socket.delivered = (s.sockets c).sent) := by
  intro step delivering
  obtain ⟨clients, hsettled⟩ := settled_run echo.toHandler (fun _ => EchoClient.new) hmoves
  obtain ⟨s, hs, hechoing⟩ := echoing_run hdelivers
  rw [hs] at hsettled
  obtain ⟨hbound, hexists, hrest⟩ := rests echo hreactors hsettled hechoing
    fun _ move h hmove _ => next_echoing h move hmove.2
  refine ⟨s, hs, fun c hopen => delivered_prefix hechoing hopen, hbound, hexists,
    fun later hlater hrested => ?_⟩
  obtain ⟨s', hs', hechoing', hquiet, hheard, hsent⟩ := hrest later hlater hrested
  refine ⟨s', hs', fun c => ⟨hsent c, fun hopen hconnected hkept => ?_⟩⟩
  rw [← hsent c]
  exact delivered_of_quiet hechoing' hquiet (hheard c) hopen hconnected hkept

/-- Two clients, one of which sends while the server reads from it. -/
def twoEchoes : List Move :=
  [.connect 0, .send 0 [72, 105], .pollAcceptor, .accept, .connect 1, .register 0, .poll 0 [0],
    .visit 0 [.failed .eagain, .accepted 1], .recv 0 (some 1), .send 0 [33], .send 1 [63]]

theorem twoEchoes_echoed :
    let step := Network.next echo.toHandler
    let delivering := Delivering echo.toHandler 1
    ∃ s, run step (some (Network.new fun _ => .new)) twoEchoes = some s ∧
      (∀ c, (s.sockets c).ending = none →
        (s.state c).conn.socket.delivered <+: (s.sockets c).sent) ∧
      (∃ bound, ∀ later, Along step delivering (some s) later → later.length ≤ bound) ∧
      (∃ later, Along step delivering (some s) later ∧
        Rested echo.toHandler 1 (run step (some s) later)) ∧
      ∀ later, Along step delivering (some s) later →
        Rested echo.toHandler 1 (run step (some s) later) →
        ∃ s', run step (some s) later = some s' ∧ ∀ c,
          (s'.sockets c).sent = (s.sockets c).sent ∧
          ((s'.sockets c).ending = none → (s'.sockets c).place ≠ .away →
            (s'.sockets c).place ≠ .expired →
            (s'.state c).conn.socket.delivered = (s.sockets c).sent) :=
  echoed_in_the_end (by decide) twoEchoes (by simp [twoEchoes, Move.Of]) (by decide)

end Demo

end TurtleServer
