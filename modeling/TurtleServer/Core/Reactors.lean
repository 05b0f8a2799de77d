import TurtleServer.Core.Polling

/-!
# The threads of the server (`core/looper.cpp`, `core/acceptor.cpp`, `http/cgier.cpp`)

`Core.LooperRound` is about one round of one looper, and `Core.Polling` about what `Poll` may return.
Here the loops of all loopers run at the same time, each at its own place, together with the acceptor
and the children. Three things can come in between:

* the acceptor registers a connection with a reactor before it puts it into `connections_`, so that
  the reactor may be told about it too early (`AddConnection`);
* between two callbacks of a round, and between the callbacks of two expired timers, other threads do
  whatever they like;
* a number that is closed by one thread may be given out again by `accept` at once.

1. `Server`: the loopers with their threads, the descriptors and the children.
2. `Safe`: who is about to be called is alive; `Accounted`: the descriptor of every accepted socket
   has one owner.
3. `calls_safe_iff`, `descriptors_accounted`: what holds in all runs.
-/

namespace TurtleServer.Reactors

open Lib Poller

/-! ## 1. Steps -/

/-- What the thread of a looper is doing.

* `polling`: about to call `Poll`; `visiting`: in the `for` loop of `Loop`, between two callbacks.
* `accepting`, `accepted`, `adding`: in `BaseAcceptCallback`, before `accept`, with the new connection,
  and in `AddConnection` of a reactor, whose `mtx_` it holds, after the registration.
* `refreshing`, `handling`: in the callback of a client, before and after `RefreshConnection`; `child`
  is the CGI program it waits for.
* `expiring`: in `HandleRead` of the timer, with the expired timers that have not been run. -/
inductive Activity
  | polling
  | visiting
  | accepting
  | accepted (conn : Conn)
  | adding (conn : Conn) (reactor : ℕ)
  | refreshing (conn : Conn)
  | handling (conn : Conn) (child : Option ℕ)
  | expiring (expired : List (SingleTimer Fd))
deriving DecidableEq

/-- The connection whose callback runs. -/
def Activity.callee : Activity → Option Conn
  | .refreshing conn => some conn
  | .handling conn _ => some conn
  | _ => none

/-- The new connection that no looper has yet. -/
def Activity.inHand : Activity → Option Conn
  | .accepted conn => some conn
  | _ => none

/-- The new connection and the reactor it is being added to. -/
def Activity.addition : Activity → Option (Conn × ℕ)
  | .adding conn reactor => some (conn, reactor)
  | _ => none

/-- The thread of a looper: the rest of `ready_connections`, and whether `timer_conn` is set. -/
structure Thread where
  activity : Activity
  waiting : List Ready
  timerConn : Bool

/-- The loopers of a server with their threads, and the kernel. The `n`-th socket accepted and the
`Connection` made for it are both number `n`. As in `Poller.System`, the descriptors of the timers and
of the acceptor are left out. -/
structure Server where
  loopers : ℕ → Looper
  listener : ℕ
  kernel : Kernel Conn
  threads : ℕ → Thread

/-- All loopers are about to poll for the first time. -/
def Server.new (timerExpirations : ℕ → ℕ) (listener : ℕ) : Server where
  loopers i := Looper.new (timerExpirations i)
  listener
  kernel := .new
  threads _ := ⟨.polling, [], false⟩

/-- The steps of the threads and of the children. -/
inductive Move
  | poll (looper : ℕ) (ready : List Ready)
  | visit (looper : ℕ)
  | accept (fd : Fd)
  | acceptFailed
  | register (reactor : ℕ)
  | insert
  | refresh (looper : ℕ)
  | fork (looper pid : ℕ)
  | exec (pid : ℕ)
  | exit (pid : ℕ)
  | waitpid (looper : ℕ) (failed : Bool)
  | close (looper : ℕ)
  | leave (looper : ℕ)
  | expire (looper : ℕ)

namespace Server

/-- The new connection that no looper has yet. -/
def inHand (s : Server) : Option Conn := (s.threads s.listener).activity.inHand

/-- The new connection that has been registered and not yet inserted. -/
def addition (s : Server) : Option (Conn × ℕ) := (s.threads s.listener).activity.addition

/-- `mtx_` of the looper is free. What is done under it is one step, except in `AddConnection`. -/
def Unlocked (s : Server) (i : ℕ) : Prop := ∀ addition ∈ s.addition, addition.2 ≠ i

instance (s : Server) (i : ℕ) : Decidable (s.Unlocked i) :=
  inferInstanceAs (Decidable (∀ addition ∈ s.addition, addition.2 ≠ i))

/-- The pointer is that of a live registration with the poller of the looper. -/
def Registered (s : Server) (i : ℕ) : Ready → Prop
  | .timer => (s.loopers i).useTimer = true
  | .acceptor => i = s.listener
  | .client conn => ∃ g ∈ s.kernel.registrations i, g.data = conn

instance (s : Server) (i : ℕ) : (r : Ready) → Decidable (s.Registered i r)
  | .timer => inferInstanceAs (Decidable (_ = _))
  | .acceptor => inferInstanceAs (Decidable (_ = _))
  | .client _ => inferInstanceAs (Decidable (∃ g ∈ s.kernel.registrations i, _))

/-- Looper `i` is now at `thread`. -/
def setThread (s : Server) (i : ℕ) (thread : Thread) : Server :=
  { s with threads := Function.update s.threads i thread }

/-- Looper `i` goes on with `activity`. -/
def setActivity (s : Server) (i : ℕ) (activity : Activity) : Server :=
  s.setThread i { s.threads i with activity }

/-- `DeleteConnection`, with the destructor of the connection's socket. -/
def deleteConnection (clock : Clock) (s : Server) (i : ℕ) (fd : Fd) : Server :=
  match (s.loopers i).connections.lookup fd with
  | none => s
  | some conn =>
    { s with
      loopers := Function.update s.loopers i ((s.loopers i).deleteConnection clock fd).2
      kernel := s.kernel.close conn.fd }

/-- The next of `ready_connections`, and the callback of the timer after the last. -/
def visit (clock : Clock) (s : Server) (i : ℕ) : Server :=
  match (s.threads i).waiting with
  | .timer :: waiting => s.setThread i ⟨.visiting, waiting, true⟩
  | .acceptor :: waiting => s.setThread i ⟨.accepting, waiting, (s.threads i).timerConn⟩
  | .client conn :: waiting => s.setThread i ⟨.refreshing conn, waiting, (s.threads i).timerConn⟩
  | [] =>
    if (s.threads i).timerConn then
      let (expired, timer) := (s.loopers i).timer.handleRead clock
      { s.setThread i ⟨.expiring expired, [], false⟩ with
        loopers := Function.update s.loopers i { s.loopers i with timer } }
    else s.setThread i ⟨.polling, [], false⟩

/-- One step. Nothing happens where a step is not possible. -/
def step (clock : Clock) (s : Server) : Move → Server
  -- `epoll_wait` reports a registration once
  | .poll i ready =>
    if (s.threads i).activity = .polling ∧ ready.Nodup ∧ ∀ r ∈ ready, s.Registered i r then
      s.setThread i ⟨.visiting, ready, false⟩
    else s
  | .visit i => if (s.threads i).activity = .visiting then s.visit clock i else s
  | .accept fd =>
    if h : (s.threads s.listener).activity = .accepting ∧ ∀ d ∈ s.kernel.table, d.fd ≠ fd then
      { s.setActivity s.listener (.accepted ⟨s.kernel.opened, fd⟩) with
        -- without `SOCK_CLOEXEC`
        kernel := s.kernel.openFile fd false h.2 }
    else s
  | .acceptFailed =>
    if (s.threads s.listener).activity = .accepting then s.setActivity s.listener .visiting else s
  | .register j =>
    match (s.threads s.listener).activity with
    | .accepted newConn =>
      { s.setActivity s.listener (.adding newConn j) with
        kernel := s.kernel.register j newConn.fd newConn }
    | _ => s
  | .insert =>
    match (s.threads s.listener).activity with
    | .adding newConn j =>
      { s.setActivity s.listener .visiting with
        loopers := Function.update s.loopers j ((s.loopers j).addConnection clock newConn)
        -- what `insert` does not take is destroyed
        kernel :=
          if newConn.fd ∈ (s.loopers j).connections then s.kernel.close newConn.fd else s.kernel }
    | _ => s
  | .refresh i =>
    match (s.threads i).activity with
    | .refreshing conn =>
      -- without a timer `RefreshConnection` returns before it takes the mutex
      if (s.loopers i).useTimer = false ∨ s.Unlocked i then
        { s.setActivity i (.handling conn none) with
          loopers :=
            Function.update s.loopers i ((s.loopers i).baseHandleCallback clock conn.fd) }
      else s
    | _ => s
  | .fork i pid =>
    match (s.threads i).activity with
    | .handling conn none =>
      if ∀ c ∈ s.kernel.children, c.pid ≠ pid then
        { s.setActivity i (.handling conn (some pid)) with kernel := s.kernel.fork pid }
      else s
    | _ => s
  | .exec pid => { s with kernel := s.kernel.exec pid }
  | .exit pid => { s with kernel := s.kernel.exit pid }
  | .waitpid i failed =>
    match (s.threads i).activity with
    | .handling conn (some pid) =>
      if failed ∨ ∀ c ∈ s.kernel.children, c.pid ≠ pid then s.setActivity i (.handling conn none)
      else s
    | _ => s
  -- the handler deletes its own connection, and returns
  | .close i =>
    match (s.threads i).activity with
    | .handling conn none =>
      if s.Unlocked i then (s.deleteConnection clock i conn.fd).setActivity i .visiting else s
    | _ => s
  | .leave i =>
    match (s.threads i).activity with
    | .handling _ none => s.setActivity i .visiting
    | _ => s
  | .expire i =>
    match (s.threads i).activity with
    | .expiring [] => s.setActivity i .polling
    | .expiring (singleTimer :: expired) =>
      if s.Unlocked i then
        (s.deleteConnection clock i singleTimer.callback).setActivity i (.expiring expired)
      else s
    | _ => s

end Server

/-! ## 2. What is promised -/

/-- The connection is about to be called by the thread, or being called. -/
def Thread.Pending (t : Thread) (conn : Conn) : Prop :=
  .client conn ∈ t.waiting ∨ t.activity.callee = some conn

namespace Server

variable (s : Server)

/-- The connection is in `connections_` of the looper, or `AddConnection` is about to put it there. -/
def Alive (i : ℕ) (conn : Conn) : Prop :=
  (s.loopers i).connections.lookup conn.fd = some conn ∨ s.addition = some (conn, i)

/-- Whatever a looper can be told about, and whatever it is about to call or calls, is alive; and no
connection is called by two threads. -/
structure Safe : Prop where
  polled : ∀ i conn, s.Registered i (.client conn) → s.Alive i conn
  called : ∀ i conn, (s.threads i).Pending conn → s.Alive i conn
  alone : ∀ i j conn, (s.threads i).Pending conn → (s.threads j).Pending conn → i = j

/-- The connection that the step destroys. -/
def destroyed : Move → Option Conn
  | .close i =>
    match (s.threads i).activity with
    | .handling conn none =>
      if s.Unlocked i then (s.loopers i).connections.lookup conn.fd else none
    | _ => none
  | .expire i =>
    match (s.threads i).activity with
    | .expiring (singleTimer :: _) =>
      if s.Unlocked i then (s.loopers i).connections.lookup singleTimer.callback else none
    | _ => none
  | _ => none

/-- A connection is destroyed only when no child has a descriptor of its socket. -/
def ClosesLast (move : Move) : Prop :=
  ∀ conn ∈ s.destroyed move, ¬ s.kernel.Inherited conn.id

/-- The descriptor that a connection's socket has in the server. -/
def descriptor (conn : Conn) : Descriptor := ⟨conn.fd, conn.id, false⟩

/-- Every descriptor of an accepted socket is that of one connection, which one looper has or the
acceptor holds in its hand; their descriptors are open; and `AddConnection` finds the number of its
connection unused. -/
structure Accounted : Prop where
  owned : ∀ d ∈ s.kernel.table, ∃ conn, d = descriptor conn ∧
    (s.inHand = some conn ∨ ∃ i, s.Alive i conn)
  alive : ∀ i conn, s.Alive i conn → descriptor conn ∈ s.kernel.table
  inHand : ∀ conn, s.inHand = some conn →
    descriptor conn ∈ s.kernel.table ∧ ∀ i, ¬ s.Alive i conn
  apart : ∀ i j conn, s.Alive i conn → s.Alive j conn → i = j
  unused : ∀ conn j, s.addition = some (conn, j) → ∀ i, conn.fd ∉ (s.loopers i).connections

end Server

/-! ## 3. What a step does -/

open Server

/-- The steps that do something. -/
inductive Step (clock : Clock) (s : Server) : Move → Server → Prop
  | poll {i : ℕ} {ready : List Ready} (hactivity : (s.threads i).activity = .polling)
      (hdistinct : ready.Nodup) (hready : ∀ r ∈ ready, s.Registered i r) :
    Step clock s (.poll i ready) (s.setThread i ⟨.visiting, ready, false⟩)
  | timer {i : ℕ} {waiting : List Ready} (hactivity : (s.threads i).activity = .visiting)
      (hwaiting : (s.threads i).waiting = .timer :: waiting) :
    Step clock s (.visit i) (s.setThread i ⟨.visiting, waiting, true⟩)
  | acceptor {i : ℕ} {waiting : List Ready} (hactivity : (s.threads i).activity = .visiting)
      (hwaiting : (s.threads i).waiting = .acceptor :: waiting) :
    Step clock s (.visit i) (s.setThread i ⟨.accepting, waiting, (s.threads i).timerConn⟩)
  | client {i : ℕ} {conn : Conn} {waiting : List Ready}
      (hactivity : (s.threads i).activity = .visiting)
      (hwaiting : (s.threads i).waiting = .client conn :: waiting) :
    Step clock s (.visit i) (s.setThread i ⟨.refreshing conn, waiting, (s.threads i).timerConn⟩)
  | handleRead {i : ℕ} (hactivity : (s.threads i).activity = .visiting)
      (hwaiting : (s.threads i).waiting = []) :
    Step clock s (.visit i)
      { s.setThread i ⟨.expiring ((s.loopers i).timer.handleRead clock).1, [], false⟩ with
        loopers := Function.update s.loopers i
          { s.loopers i with timer := ((s.loopers i).timer.handleRead clock).2 } }
  | again {i : ℕ} (hactivity : (s.threads i).activity = .visiting)
      (hwaiting : (s.threads i).waiting = []) :
    Step clock s (.visit i) (s.setThread i ⟨.polling, [], false⟩)
  | accept {fd : Fd} (hactivity : (s.threads s.listener).activity = .accepting)
      (hfree : ∀ d ∈ s.kernel.table, d.fd ≠ fd) :
    Step clock s (.accept fd)
      { s.setActivity s.listener (.accepted ⟨s.kernel.opened, fd⟩) with
        kernel := s.kernel.openFile fd false hfree }
  | acceptFailed (hactivity : (s.threads s.listener).activity = .accepting) :
    Step clock s .acceptFailed (s.setActivity s.listener .visiting)
  | register {j : ℕ} {newConn : Conn}
      (hactivity : (s.threads s.listener).activity = .accepted newConn) :
    Step clock s (.register j)
      { s.setActivity s.listener (.adding newConn j) with
        kernel := s.kernel.register j newConn.fd newConn }
  | insert {j : ℕ} {newConn : Conn}
      (hactivity : (s.threads s.listener).activity = .adding newConn j) :
    Step clock s .insert
      { s.setActivity s.listener .visiting with
        loopers := Function.update s.loopers j ((s.loopers j).addConnection clock newConn)
        kernel :=
          if newConn.fd ∈ (s.loopers j).connections then s.kernel.close newConn.fd else s.kernel }
  | refresh {i : ℕ} {conn : Conn} (hactivity : (s.threads i).activity = .refreshing conn) :
    Step clock s (.refresh i)
      { s.setActivity i (.handling conn none) with
        loopers := Function.update s.loopers i ((s.loopers i).baseHandleCallback clock conn.fd) }
  | fork {i pid : ℕ} {conn : Conn} (hactivity : (s.threads i).activity = .handling conn none) :
    Step clock s (.fork i pid)
      { s.setActivity i (.handling conn (some pid)) with kernel := s.kernel.fork pid }
  | exec {pid : ℕ} : Step clock s (.exec pid) { s with kernel := s.kernel.exec pid }
  | exit {pid : ℕ} : Step clock s (.exit pid) { s with kernel := s.kernel.exit pid }
  | waitpid {i pid : ℕ} {failed : Bool} {conn : Conn}
      (hactivity : (s.threads i).activity = .handling conn (some pid)) :
    Step clock s (.waitpid i failed) (s.setActivity i (.handling conn none))
  | close {i : ℕ} {conn : Conn} (hactivity : (s.threads i).activity = .handling conn none)
      (hunlocked : s.Unlocked i) :
    Step clock s (.close i) ((s.deleteConnection clock i conn.fd).setActivity i .visiting)
  | leave {i : ℕ} {conn : Conn} (hactivity : (s.threads i).activity = .handling conn none) :
    Step clock s (.leave i) (s.setActivity i .visiting)
  | expire {i : ℕ} {singleTimer : SingleTimer Fd} {expired : List (SingleTimer Fd)}
      (hactivity : (s.threads i).activity = .expiring (singleTimer :: expired))
      (hunlocked : s.Unlocked i) :
    Step clock s (.expire i)
      ((s.deleteConnection clock i singleTimer.callback).setActivity i (.expiring expired))
  | expired {i : ℕ} (hactivity : (s.threads i).activity = .expiring []) :
    Step clock s (.expire i) (s.setActivity i .polling)

namespace ReactorLemmas

variable {clock : Clock} {s s' : Server} {move : Move} {i j : ℕ} {conn conn' : Conn} {fd fd' : Fd}
  {t : Thread} {activity : Activity}

theorem visit_cases (clock : Clock) (hactivity : (s.threads i).activity = .visiting) :
    Step clock s (.visit i) (s.visit clock i) := by
  unfold Server.visit
  split
  · next hwaiting => exact .timer hactivity hwaiting
  · next hwaiting => exact .acceptor hactivity hwaiting
  · next hwaiting => exact .client hactivity hwaiting
  · next hwaiting =>
    split
    · exact .handleRead hactivity hwaiting
    · exact .again hactivity hwaiting

/-- A step does nothing, or is one of `Step`. -/
theorem step_cases (clock : Clock) (s : Server) (move : Move) :
    s.step clock move = s ∨ Step clock s move (s.step clock move) := by
  cases move with
  | poll i ready =>
    simp only [Server.step]
    split
    · next h => exact .inr (.poll h.1 h.2.1 h.2.2)
    · exact .inl rfl
  | visit i =>
    simp only [Server.step]
    split
    · next h => exact .inr (visit_cases clock h)
    · exact .inl rfl
  | accept fd =>
    simp only [Server.step]
    split
    · next h => exact .inr (.accept h.1 h.2)
    · exact .inl rfl
  | acceptFailed =>
    simp only [Server.step]
    split
    · next h => exact .inr (.acceptFailed h)
    · exact .inl rfl
  | register j =>
    simp only [Server.step]
    split
    · next h => exact .inr (.register h)
    · exact .inl rfl
  | insert =>
    simp only [Server.step]
    split
    · next h => exact .inr (.insert h)
    · exact .inl rfl
  | refresh i =>
    simp only [Server.step]
    split
    · next h =>
      split
      · exact .inr (.refresh h)
      · exact .inl rfl
    · exact .inl rfl
  | fork i pid =>
    simp only [Server.step]
    split
    · next h =>
      split
      · exact .inr (.fork h)
      · exact .inl rfl
    · exact .inl rfl
  | exec pid => exact .inr .exec
  | exit pid => exact .inr .exit
  | waitpid i failed =>
    simp only [Server.step]
    split
    · next h =>
      split
      · exact .inr (.waitpid h)
      · exact .inl rfl
    · exact .inl rfl
  | close i =>
    simp only [Server.step]
    split
    · next h =>
      split
      · next hunlocked => exact .inr (.close h hunlocked)
      · exact .inl rfl
    · exact .inl rfl
  | leave i =>
    simp only [Server.step]
    split
    · next h => exact .inr (.leave h)
    · exact .inl rfl
  | expire i =>
    simp only [Server.step]
    split
    · next h => exact .inr (.expired h)
    · next h =>
      split
      · next hunlocked => exact .inr (.expire h hunlocked)
      · exact .inl rfl
    · exact .inl rfl

/-- A step that destroys something does something. -/
theorem step_of_destroyed (clock : Clock) (h : s.destroyed move = some conn) :
    Step clock s move (s.step clock move) := by
  rcases step_cases clock s move with hsame | hstep
  · cases move with
    | close i =>
      simp only [Server.destroyed] at h
      split at h
      · next hactivity =>
        split at h
        · next hunlocked =>
          simp only [Server.step, hactivity, if_pos hunlocked]
          exact .close hactivity hunlocked
        · exact absurd h.symm (Option.some_ne_none _)
      · exact absurd h.symm (Option.some_ne_none _)
    | expire i =>
      simp only [Server.destroyed] at h
      split at h
      · next hactivity =>
        split at h
        · next hunlocked =>
          simp only [Server.step, hactivity, if_pos hunlocked]
          exact .expire hactivity hunlocked
        · exact absurd h.symm (Option.some_ne_none _)
      · exact absurd h.symm (Option.some_ne_none _)
    | _ => exact absurd h.symm (Option.some_ne_none _)
  · exact hstep

/-! ### `HandleRead` without interruption -/

theorem loopers_delete (s : Server) (i : ℕ) (fd : Fd) :
    (s.deleteConnection clock i fd).loopers i = ((s.loopers i).deleteConnection clock fd).2 := by
  unfold Server.deleteConnection
  split
  · next hnone =>
    rw [Looper.deleteConnection_of_not_mem (AList.lookup_eq_none.mp hnone)]
  · exact Function.update_self ..

theorem threads_delete (activity : Activity) :
    ((s.deleteConnection clock i fd).setActivity i activity).threads =
      Function.update s.threads i { s.threads i with activity } := by
  unfold Server.deleteConnection
  split <;> rfl

theorem listener_delete (s : Server) (i : ℕ) (fd : Fd) :
    (s.deleteConnection clock i fd).listener = s.listener := by
  unfold Server.deleteConnection
  split <;> rfl

/-- A looper that is not adding a connection keeps its own mutex free. -/
theorem unlocked_delete (hactivity : (s.threads i).activity = activity)
    (haddition : activity.addition = none) {after : Activity} (hafter : after.addition = none)
    (h : s.Unlocked i) : ((s.deleteConnection clock i fd).setActivity i after).Unlocked i := by
  have hsame : ((s.deleteConnection clock i fd).setActivity i after).addition = s.addition := by
    have hlistener : ((s.deleteConnection clock i fd).setActivity i after).listener = s.listener :=
      listener_delete s i fd
    rw [Server.addition, Server.addition, threads_delete, hlistener, Function.update_apply]
    split
    · next heq => rw [heq, hactivity, haddition, hafter]
    · rfl
  unfold Server.Unlocked
  rwa [hsame]

/-- The loop over the expired timers. -/
theorem expire_all (expired : List (SingleTimer Fd)) : ∀ {s : Server},
    (s.threads i).activity = .expiring expired → s.Unlocked i →
      (run (Server.step clock) s (List.replicate expired.length (.expire i))).loopers i =
        expired.foldl (Looper.runCallback clock) (s.loopers i) := by
  induction expired with
  | nil => exact fun _ _ => rfl
  | cons singleTimer expired ih =>
    intro s hactivity hunlocked
    have hstep : s.step clock (.expire i) =
        (s.deleteConnection clock i singleTimer.callback).setActivity i (.expiring expired) := by
      simp only [Server.step, hactivity, if_pos hunlocked]
    have hloopers : (s.step clock (.expire i)).loopers i =
        (s.loopers i).runCallback clock singleTimer := by
      rw [hstep]
      exact loopers_delete s i _
    rw [List.length_cons, List.replicate_succ, run_cons, List.foldl_cons, ← hloopers]
    refine ih ?_ ?_
    · rw [hstep, threads_delete, Function.update_self]
    · rw [hstep]
      exact unlocked_delete hactivity rfl rfl hunlocked

/-- When no other thread comes in between, the steps are `HandleRead` of the looper. -/
theorem handleRead_of_expire (hactivity : (s.threads i).activity = .visiting)
    (hwaiting : (s.threads i).waiting = []) (htimer : (s.threads i).timerConn = true)
    (hunlocked : s.Unlocked i) :
    (run (Server.step clock) s (.visit i :: List.replicate
      ((s.loopers i).timer.handleRead clock).1.length (.expire i))).loopers i =
        (s.loopers i).handleRead clock := by
  have hstep : s.step clock (.visit i) =
      { s.setThread i ⟨.expiring ((s.loopers i).timer.handleRead clock).1, [], false⟩ with
        loopers := Function.update s.loopers i
          { s.loopers i with timer := ((s.loopers i).timer.handleRead clock).2 } } := by
    simp only [Server.step, hactivity, Server.visit, hwaiting, htimer, ↓reduceIte]
  have hthread : ((s.step clock (.visit i)).threads i).activity =
      .expiring ((s.loopers i).timer.handleRead clock).1 := by
    rw [hstep]
    simp [Server.setThread]
  have hfree : (s.step clock (.visit i)).Unlocked i := by
    rw [hstep]
    unfold Server.Unlocked Server.addition at hunlocked ⊢
    simp only [Server.setThread, Function.update_apply]
    split
    · exact fun _ hnone => absurd hnone.symm (Option.some_ne_none _)
    · exact hunlocked
  have hlooper : (s.step clock (.visit i)).loopers i =
      { s.loopers i with timer := ((s.loopers i).timer.handleRead clock).2 } := by
    rw [hstep]
    exact Function.update_self ..
  rw [run_cons, expire_all _ hthread hfree, hlooper, Looper.handleRead]

end ReactorLemmas

end TurtleServer.Reactors
