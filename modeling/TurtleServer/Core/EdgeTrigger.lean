import TurtleServer.Core.Connection
import TurtleServer.Lib.Runs

/-!
# Edge-triggered reading (`core/looper.cpp`, `core/poller.cpp`, `core/acceptor.cpp`)

The sockets of the clients are registered edge-triggered: `epoll_wait` reports bytes once, and when
the handler leaves some of them in the socket, it hears of them no more until others come. `Recv` is
made for that: it reads until nothing is left. But the clients go on sending, before they are
accepted, before they are registered, while they stand in the list that `Poll` has returned, and at
every moment of `Recv` and after it.

A registration ends with its connection: the children of CGI programs, which have copies of the
descriptors, are those of `Polling` and `Reactors`.

1. `Network`: the sockets with what the kernel knows of them, the listener, the reactors and the
   state of the handler. All interleave at every system call. What the handler does after `Recv` is a
   parameter (`Handler`).
2. `Network.Quiet`: whoever calls `epoll_wait` now has to wait.
3. `Local`: what a step does to one client.
-/

namespace TurtleServer.EdgeTrigger

open Lib

/-! ## 1. Steps -/

/-- How a client ends what it sends. -/
inductive Ending
  | shutdown
  | reset
deriving DecidableEq, Repr

/-- What `recv` answers at the end. -/
def Ending.result : Ending → RecvResult
  | .shutdown => .received []
  | .reset => .failed .other

/-- Where a connection stands: not made yet, in the backlog of the acceptor's socket, in the hand of
`BaseAcceptCallback`, registered with the poller of a reactor, or deleted, by its handler or by its
timer. -/
inductive Place
  | away
  | backlog
  | accepted
  | registered (reactor : ℕ)
  | closed
  | expired
deriving DecidableEq, Repr

/-- A call of `Recv`: what `recv` has answered in it, and what `send` will answer after it. -/
structure RecvCall where
  incoming : List RecvResult
  outgoing : List SendResult
deriving DecidableEq, Repr

/-- `recv` has answered. -/
def RecvCall.push (call : RecvCall) (r : RecvResult) : RecvCall :=
  { call with incoming := call.incoming ++ [r] }

/-- The socket of a client.

* `sent`: all bytes that have come from the client, and `unread` those that `recv` has not taken.
* `told`: `recv` has answered with the ending.
* `edge`: the socket is on the ready list of its poller.
* `calls`: the calls of `Recv` that are over. -/
structure ClientSocket where
  place : Place
  sent : Bytes
  unread : Bytes
  ending : Option Ending
  told : Bool
  edge : Bool
  calls : List RecvCall
deriving DecidableEq, Repr

namespace ClientSocket

def new : ClientSocket := ⟨.away, [], [], none, false, false, []⟩

variable (k : ClientSocket)

/-- There is something to be read. -/
def readable : Bool := !k.unread.isEmpty || k.ending.isSome

def moveTo (place : Place) : ClientSocket := { k with place }

/-- Bytes come from the client. -/
def deliver (chunk : Bytes) : ClientSocket :=
  { k with sent := k.sent ++ chunk, unread := k.unread ++ chunk, edge := true }

/-- The client ends. -/
def finish (ending : Ending) : ClientSocket := { k with ending := some ending, edge := true }

/-- `EPOLL_CTL_ADD`: a socket that is readable by then is ready at once. -/
def register (reactor : ℕ) : ClientSocket :=
  { k with place := .registered reactor, edge := k.readable }

/-- `epoll_wait` has reported the socket. -/
def report : ClientSocket := { k with edge := false }

/-- `recv` takes so many bytes. -/
def take (count : ℕ) : ClientSocket := { k with unread := k.unread.drop count }

/-- `Recv` is over. -/
def endCall (call : RecvCall) : ClientSocket :=
  { k with calls := k.calls ++ [call], told := k.told || k.ending.isSome }

end ClientSocket

/-- Where the thread of a reactor stands: before `epoll_wait`, before the next of
`ready_connections`, inside `Recv`, or in the rest of the handler. -/
inductive Thread
  | polling
  | visiting (waiting : List ℕ)
  | receiving (client : ℕ) (call : RecvCall) (waiting : List ℕ)
  | handling (client : ℕ) (waiting : List ℕ)
deriving DecidableEq, Repr

/-- Where the thread of the listener stands: before `epoll_wait`, before `accept`, or before
`AddConnection`. -/
inductive Listener
  | polling
  | accepting
  | accepted (client : ℕ)
deriving DecidableEq, Repr

/-- What the callback given to `OnHandle` does after `Recv`, on a state of its own. It reads no more
from the socket, and it deletes no other connection.

* `arrive`: `Recv` has returned.
* `advance`: the next step. The process may end in it, or the thread never come out of it.
* `returned`: the callback is over, and `deleted`: it has deleted its connection. -/
structure Handler (σ : Type) where
  arrive : ℕ → RecvCall → σ → σ
  advance : ℕ → σ → Option σ
  returned : ℕ → σ → Bool
  deleted : ℕ → σ → Bool

/-- The server, its clients and the kernel. The clients are numbered. -/
structure Network (σ : Type) where
  sockets : ℕ → ClientSocket
  backlog : List ℕ
  listener : Listener
  reactors : ℕ → Thread
  state : σ

/-- The steps of the clients, of the listener and of the reactors.

* `visit`: the next of `ready_connections`, with what `send` is going to answer in its handler. After
  these answers `send` takes all it is given: the client goes on reading.
* `recv`: one call of `recv`. It is interrupted, or there is a bound for what it takes.
* `expire`: the callback of a timer, after those of the connections. -/
inductive Move
  | connect (client : ℕ)
  | send (client : ℕ) (chunk : Bytes)
  | finish (client : ℕ) (ending : Ending)
  | pollAcceptor
  | accept
  | acceptFailed
  | register (reactor : ℕ)
  | poll (reactor : ℕ) (ready : List ℕ)
  | visit (reactor : ℕ) (outgoing : List SendResult)
  | recv (reactor : ℕ) (count : Option ℕ+)
  | advance (reactor : ℕ)
  | expire (reactor client : ℕ)
deriving DecidableEq, Repr

/-- `TEMP_BUF_SIZE`. -/
def tempBufSize : ℕ := 2048

namespace Network

variable {σ : Type}

/-- Nobody has connected. -/
def new (state : σ) : Network σ := ⟨fun _ => .new, [], .polling, fun _ => .polling, state⟩

/-- The socket of client `c` is now `k`. -/
def setSocket (s : Network σ) (c : ℕ) (k : ClientSocket) : Network σ :=
  { s with sockets := Function.update s.sockets c k }

/-- Reactor `r` is now at `t`. -/
def setThread (s : Network σ) (r : ℕ) (t : Thread) : Network σ :=
  { s with reactors := Function.update s.reactors r t }

/-- `epoll_wait` of reactor `r` may report client `c`. -/
def Reports (s : Network σ) (r c : ℕ) : Prop :=
  (s.sockets c).place = .registered r ∧ (s.sockets c).edge = true ∧ (s.sockets c).readable = true

instance (s : Network σ) (r c : ℕ) : Decidable (s.Reports r c) :=
  inferInstanceAs (Decidable (_ ∧ _))

section step

variable (handler : Handler σ) (s : Network σ)

/-- `Recv` of client `c` returns to the handler. -/
def leaveRecv (r c : ℕ) (call : RecvCall) (waiting : List ℕ) : Network σ :=
  { (s.setSocket c ((s.sockets c).endCall call)).setThread r (.handling c waiting) with
    state := handler.arrive c call s.state }

/-- A call of `recv`, for client `c`. -/
def recv (r c : ℕ) (call : RecvCall) (waiting : List ℕ) : Option ℕ+ → Network σ
  | none => s.setThread r (.receiving c (call.push (.failed .eintr)) waiting)
  | some count =>
    if (s.sockets c).unread ≠ [] then
      let n := min (count : ℕ) tempBufSize
      (s.setSocket c ((s.sockets c).take n)).setThread r
        (.receiving c (call.push (.received ((s.sockets c).unread.take n))) waiting)
    else
      match (s.sockets c).ending with
      | some ending => s.leaveRecv handler r c (call.push ending.result) waiting
      -- `EAGAIN`
      | none => s.leaveRecv handler r c call waiting

/-- One step. Nothing happens where a step is not possible. -/
def step : Move → Option (Network σ)
  | .connect c =>
    if (s.sockets c).place = .away then
      some { s.setSocket c ((s.sockets c).moveTo .backlog) with backlog := s.backlog ++ [c] }
    else some s
  | .send c chunk =>
    if (s.sockets c).place ≠ .away ∧ (s.sockets c).ending = none then
      some (s.setSocket c ((s.sockets c).deliver chunk))
    else some s
  | .finish c ending =>
    if (s.sockets c).place ≠ .away ∧ (s.sockets c).ending = none then
      some (s.setSocket c ((s.sockets c).finish ending))
    else some s
  -- level-triggered
  | .pollAcceptor =>
    if s.listener = .polling ∧ s.backlog ≠ [] then some { s with listener := .accepting } else some s
  | .accept =>
    match s.listener, s.backlog with
    | .accepting, c :: backlog =>
      some { s.setSocket c ((s.sockets c).moveTo .accepted) with backlog, listener := .accepted c }
    | _, _ => some s
  | .acceptFailed =>
    if s.listener = .accepting then some { s with listener := .polling } else some s
  | .register r =>
    match s.listener with
    | .accepted c =>
      some { s.setSocket c ((s.sockets c).register r) with listener := .polling }
    | _ => some s
  | .poll r ready =>
    if s.reactors r = .polling ∧ ready.Nodup ∧ ∀ c ∈ ready, s.Reports r c then
      some { s.setThread r (.visiting ready) with
        sockets := fun c => if c ∈ ready then (s.sockets c).report else s.sockets c }
    else some s
  | .visit r outgoing =>
    match s.reactors r with
    | .visiting [] => some (s.setThread r .polling)
    | .visiting (c :: waiting) => some (s.setThread r (.receiving c ⟨[], outgoing⟩ waiting))
    | _ => some s
  | .recv r count =>
    match s.reactors r with
    | .receiving c call waiting => some (s.recv handler r c call waiting count)
    | _ => some s
  | .advance r =>
    match s.reactors r with
    | .handling c waiting =>
      if handler.returned c s.state then
        let s := s.setThread r (.visiting waiting)
        if handler.deleted c s.state then some (s.setSocket c ((s.sockets c).moveTo .closed))
        else some s
      else (handler.advance c s.state).map fun state => { s with state }
    | _ => some s
  | .expire r c =>
    if s.reactors r = .visiting [] ∧ (s.sockets c).place = .registered r then
      some (s.setSocket c ((s.sockets c).moveTo .expired))
    else some s

end step

/-- The machine whose state is `none` once the process has ended or a thread is stuck in its handler. -/
def next (handler : Handler σ) (o : Option (Network σ)) (move : Move) : Option (Network σ) :=
  o.bind fun s => s.step handler move

/-! ## 2. Quiet states -/

/-- Nothing is under way, and whoever calls `epoll_wait` has to wait. -/
structure Quiet (s : Network σ) : Prop where
  listener : s.listener = .polling
  backlog : s.backlog = []
  reactors : ∀ r, s.reactors r = .polling
  ready : ∀ r c, ¬ s.Reports r c

end Network

/-! ## 3. What a step does -/

variable {σ : Type}

open Network

/-- The steps that do something. -/
inductive Step (handler : Handler σ) (s : Network σ) : Move → Network σ → Prop
  | connect {c : ℕ} (hplace : (s.sockets c).place = .away) :
    Step handler s (.connect c)
      { s.setSocket c ((s.sockets c).moveTo .backlog) with backlog := s.backlog ++ [c] }
  | send {c : ℕ} {chunk : Bytes} (hplace : (s.sockets c).place ≠ .away)
      (hopen : (s.sockets c).ending = none) :
    Step handler s (.send c chunk) (s.setSocket c ((s.sockets c).deliver chunk))
  | finish {c : ℕ} {ending : Ending} (hplace : (s.sockets c).place ≠ .away)
      (hopen : (s.sockets c).ending = none) :
    Step handler s (.finish c ending) (s.setSocket c ((s.sockets c).finish ending))
  | pollAcceptor (hlistener : s.listener = .polling) (hbacklog : s.backlog ≠ []) :
    Step handler s .pollAcceptor { s with listener := .accepting }
  | accept {c : ℕ} {backlog : List ℕ} (hlistener : s.listener = .accepting)
      (hbacklog : s.backlog = c :: backlog) :
    Step handler s .accept
      { s.setSocket c ((s.sockets c).moveTo .accepted) with backlog, listener := .accepted c }
  | acceptFailed (hlistener : s.listener = .accepting) :
    Step handler s .acceptFailed { s with listener := .polling }
  | register {c r : ℕ} (hlistener : s.listener = .accepted c) :
    Step handler s (.register r)
      { s.setSocket c ((s.sockets c).register r) with listener := .polling }
  | poll {r : ℕ} {ready : List ℕ} (hthread : s.reactors r = .polling) (hdistinct : ready.Nodup)
      (hready : ∀ c ∈ ready, s.Reports r c) :
    Step handler s (.poll r ready) { s.setThread r (.visiting ready) with
      sockets := fun c => if c ∈ ready then (s.sockets c).report else s.sockets c }
  | again {r : ℕ} {outgoing : List SendResult} (hthread : s.reactors r = .visiting []) :
    Step handler s (.visit r outgoing) (s.setThread r .polling)
  | visit {r c : ℕ} {waiting : List ℕ} {outgoing : List SendResult}
      (hthread : s.reactors r = .visiting (c :: waiting)) :
    Step handler s (.visit r outgoing) (s.setThread r (.receiving c ⟨[], outgoing⟩ waiting))
  | interrupted {r c : ℕ} {call : RecvCall} {waiting : List ℕ}
      (hthread : s.reactors r = .receiving c call waiting) :
    Step handler s (.recv r none)
      (s.setThread r (.receiving c (call.push (.failed .eintr)) waiting))
  | received {r c : ℕ} {call : RecvCall} {waiting : List ℕ} {count : ℕ+} {n : ℕ} (hn : 0 < n)
      (hthread : s.reactors r = .receiving c call waiting) (hunread : (s.sockets c).unread ≠ []) :
    Step handler s (.recv r (some count)) ((s.setSocket c ((s.sockets c).take n)).setThread r
      (.receiving c (call.push (.received ((s.sockets c).unread.take n))) waiting))
  | ended {r c : ℕ} {call : RecvCall} {waiting : List ℕ} {count : ℕ+} {ending : Ending}
      (hthread : s.reactors r = .receiving c call waiting) (hunread : (s.sockets c).unread = [])
      (hending : (s.sockets c).ending = some ending) :
    Step handler s (.recv r (some count))
      (s.leaveRecv handler r c (call.push ending.result) waiting)
  | drained {r c : ℕ} {call : RecvCall} {waiting : List ℕ} {count : ℕ+}
      (hthread : s.reactors r = .receiving c call waiting) (hunread : (s.sockets c).unread = [])
      (hopen : (s.sockets c).ending = none) :
    Step handler s (.recv r (some count)) (s.leaveRecv handler r c call waiting)
  | handle {r c : ℕ} {waiting : List ℕ} {state : σ} (hthread : s.reactors r = .handling c waiting)
      (hreturned : handler.returned c s.state = false)
      (hstate : handler.advance c s.state = some state) :
    Step handler s (.advance r) { s with state }
  | leave {r c : ℕ} {waiting : List ℕ} (hthread : s.reactors r = .handling c waiting)
      (hreturned : handler.returned c s.state = true)
      (hdeleted : handler.deleted c s.state = false) :
    Step handler s (.advance r) (s.setThread r (.visiting waiting))
  | close {r c : ℕ} {waiting : List ℕ} (hthread : s.reactors r = .handling c waiting)
      (hreturned : handler.returned c s.state = true)
      (hdeleted : handler.deleted c s.state = true) :
    Step handler s (.advance r)
      ((s.setThread r (.visiting waiting)).setSocket c ((s.sockets c).moveTo .closed))
  | expire {r c : ℕ} (hthread : s.reactors r = .visiting [])
      (hplace : (s.sockets c).place = .registered r) :
    Step handler s (.expire r c) (s.setSocket c ((s.sockets c).moveTo .expired))

namespace EdgeTriggerLemmas

variable {handler : Handler σ} {s s' : Network σ} {move : Move} {c r : ℕ} {t : Thread}

theorem recv_cases {call : RecvCall} {waiting : List ℕ}
    (hthread : s.reactors r = .receiving c call waiting) (count : Option ℕ+) :
    Step handler s (.recv r count) (s.recv handler r c call waiting count) := by
  cases count with
  | none => exact .interrupted hthread
  | some count =>
    simp only [Network.recv]
    split
    · next hunread => exact .received (Nat.lt_min.mpr ⟨count.pos, by decide⟩) hthread hunread
    · next hunread =>
      split
      · next hending => exact .ended hthread (not_not.mp hunread) hending
      · next hopen => exact .drained hthread (not_not.mp hunread) hopen

/-- A step ends the process inside the handler, does nothing, or is one of `Step`. -/
theorem step_cases (handler : Handler σ) (s : Network σ) (move : Move) :
    (∃ r c waiting, move = .advance r ∧ s.reactors r = .handling c waiting ∧
      handler.returned c s.state = false ∧ handler.advance c s.state = none) ∨
    ∃ s', s.step handler move = some s' ∧ (s' = s ∨ Step handler s move s') := by
  cases move with
  | connect c =>
    simp only [Network.step]
    split
    · next h => exact .inr ⟨_, rfl, .inr (.connect h)⟩
    · exact .inr ⟨_, rfl, .inl rfl⟩
  | send c chunk =>
    simp only [Network.step]
    split
    · next h => exact .inr ⟨_, rfl, .inr (.send h.1 h.2)⟩
    · exact .inr ⟨_, rfl, .inl rfl⟩
  | finish c ending =>
    simp only [Network.step]
    split
    · next h => exact .inr ⟨_, rfl, .inr (.finish h.1 h.2)⟩
    · exact .inr ⟨_, rfl, .inl rfl⟩
  | pollAcceptor =>
    simp only [Network.step]
    split
    · next h => exact .inr ⟨_, rfl, .inr (.pollAcceptor h.1 h.2)⟩
    · exact .inr ⟨_, rfl, .inl rfl⟩
  | accept =>
    simp only [Network.step]
    split
    · next hlistener hbacklog => exact .inr ⟨_, rfl, .inr (.accept hlistener hbacklog)⟩
    · exact .inr ⟨_, rfl, .inl rfl⟩
  | acceptFailed =>
    simp only [Network.step]
    split
    · next h => exact .inr ⟨_, rfl, .inr (.acceptFailed h)⟩
    · exact .inr ⟨_, rfl, .inl rfl⟩
  | register r =>
    simp only [Network.step]
    split
    · next hlistener => exact .inr ⟨_, rfl, .inr (.register hlistener)⟩
    · exact .inr ⟨_, rfl, .inl rfl⟩
  | poll r ready =>
    simp only [Network.step]
    split
    · next h => exact .inr ⟨_, rfl, .inr (.poll h.1 h.2.1 h.2.2)⟩
    · exact .inr ⟨_, rfl, .inl rfl⟩
  | visit r outgoing =>
    simp only [Network.step]
    split
    · next hthread => exact .inr ⟨_, rfl, .inr (.again hthread)⟩
    · next hthread => exact .inr ⟨_, rfl, .inr (.visit hthread)⟩
    · exact .inr ⟨_, rfl, .inl rfl⟩
  | recv r count =>
    simp only [Network.step]
    split
    · next hthread => exact .inr ⟨_, rfl, .inr (recv_cases hthread count)⟩
    · exact .inr ⟨_, rfl, .inl rfl⟩
  | advance r =>
    simp only [Network.step]
    split
    · next c waiting hthread =>
      cases hreturned : handler.returned c s.state with
      | true =>
        cases hdeleted : handler.deleted c s.state with
        | true =>
          refine .inr ⟨_, ?_, .inr (.close hthread hreturned hdeleted)⟩
          rw [if_pos rfl]
          exact if_pos hdeleted
        | false =>
          refine .inr ⟨_, ?_, .inr (.leave hthread hreturned hdeleted)⟩
          rw [if_pos rfl]
          exact if_neg (by simpa [setThread] using hdeleted)
      | false =>
        rw [if_neg Bool.false_ne_true]
        cases hstate : handler.advance c s.state with
        | none => exact .inl ⟨r, c, waiting, rfl, hthread, hreturned, hstate⟩
        | some state => exact .inr ⟨_, rfl, .inr (.handle hthread hreturned hstate)⟩
    · exact .inr ⟨_, rfl, .inl rfl⟩
  | expire r c =>
    simp only [Network.step]
    split
    · next h => exact .inr ⟨_, rfl, .inr (.expire h.1 h.2)⟩
    · exact .inr ⟨_, rfl, .inl rfl⟩

end EdgeTriggerLemmas

end TurtleServer.EdgeTrigger
