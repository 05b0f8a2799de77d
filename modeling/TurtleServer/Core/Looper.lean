import TurtleServer.Core.TimerPending
import TurtleServer.Lib.Map

/-!
# The looper (`core/looper.h`, `core/looper.cpp`)

`Looper` is the class `Looper` as far as it keeps connections and their timers. The callback of
every timer it adds is the closure `[this, fd] { DeleteConnection(fd); }`, so a callback is given by
its `fd`, and `runCallback` says what running it does. The registration of a connection with the
poller and the loop itself are not part of this module.
-/

namespace TurtleServer

open Lib

/-- A file descriptor. -/
abbrev Fd := ℤ

/-- A `Connection` object as the looper sees it: which object it is, and `GetFd()`. -/
structure Conn where
  id : ℕ
  fd : Fd
deriving DecidableEq, Repr

/-- The class `Looper`. -/
structure Looper where
  connections : Map Fd Conn
  timersMapping : Map Fd (SingleTimer Fd)
  timer : Timer Fd
  useTimer : Bool
  timerExpiration : ℕ

namespace Looper

/-- `Looper(timer_expiration)`. -/
def new (timerExpiration : ℕ) : Looper where
  connections := ∅
  timersMapping := ∅
  timer := Timer.new
  useTimer := timerExpiration ≠ 0
  timerExpiration := timerExpiration

variable (clock : Clock)

/-- `AddConnection`. -/
def addConnection (l : Looper) (newConn : Conn) : Looper :=
  let l := { l with connections := l.connections.emplace newConn.fd newConn }
  if l.useTimer then
    let (singleTimer, timer) := l.timer.addSingleTimer clock l.timerExpiration newConn.fd
    { l with timer, timersMapping := l.timersMapping.emplace newConn.fd singleTimer }
  else l

/-- `RefreshConnection`: the new handle goes into `timers_mapping_` by `insert`, under a key that
is present. -/
def refreshConnection (l : Looper) (fd : Fd) : Bool × Looper :=
  if l.useTimer then
    match l.timersMapping.lookup fd with
    | some singleTimer =>
      match l.timer.refreshSingleTimer clock singleTimer l.timerExpiration with
      | (some newTimer, timer) =>
        (true, { l with timer, timersMapping := l.timersMapping.emplace fd newTimer })
      | (none, timer) => (true, { l with timer })
    | none => (false, l)
  else (false, l)

/-- `DeleteConnection`. -/
def deleteConnection (l : Looper) (fd : Fd) : Bool × Looper :=
  match l.connections.lookup fd with
  | none => (false, l)
  | some _ =>
    let l := { l with connections := l.connections.erase fd }
    if l.useTimer then
      match l.timersMapping.lookup fd with
      | some singleTimer =>
        (true, { l with
          timer := (l.timer.removeSingleTimer clock singleTimer).2
          timersMapping := l.timersMapping.erase fd })
      | none => (true, l)
    else (true, l)

/-- `SingleTimer::Run` of a timer of this looper. -/
def runCallback (l : Looper) (singleTimer : SingleTimer Fd) : Looper :=
  (l.deleteConnection clock singleTimer.callback).2

/-- `HandleRead` of the looper's timer, with its loop over the callbacks. -/
def handleRead (l : Looper) : Looper :=
  (l.timer.handleRead clock).1.foldl (runCallback clock)
    { l with timer := (l.timer.handleRead clock).2 }

/-- `Acceptor::BaseHandleCallback`, the first half of every activation of a connection's handler
(`SetCustomHandleCallback`). -/
def baseHandleCallback (l : Looper) (fd : Fd) : Looper := (l.refreshConnection clock fd).2

/-- The operations on a looper. -/
inductive Op
  | addConnection (newConn : Conn)
  | refreshConnection (fd : Fd)
  | deleteConnection (fd : Fd)
  | handleRead

/-- One operation. -/
def step (l : Looper) : Op → Looper
  | .addConnection newConn => l.addConnection clock newConn
  | .refreshConnection fd => l.baseHandleCallback clock fd
  | .deleteConnection fd => (l.deleteConnection clock fd).2
  | .handleRead => l.handleRead clock

/-! ## What one operation does

The specification lemmas the run theorems use: one for each way an operation can go. -/

variable {clock} {l : Looper} {fd : Fd}

theorem addConnection_eq (huse : l.useTimer = true) (newConn : Conn) :
    l.addConnection clock newConn =
      { l with
        connections := l.connections.emplace newConn.fd newConn
        timer := (l.timer.addSingleTimer clock l.timerExpiration newConn.fd).2
        timersMapping := l.timersMapping.emplace newConn.fd
          (l.timer.makeSingleTimer clock l.timerExpiration newConn.fd) } := by
  simp only [addConnection, huse, ↓reduceIte]
  rfl

/-- With or without timers. -/
theorem connections_addConnection (l : Looper) (newConn : Conn) :
    (l.addConnection clock newConn).connections = l.connections.emplace newConn.fd newConn := by
  simp only [addConnection]
  split <;> rfl

theorem refreshConnection_of_none (h : l.timersMapping.lookup fd = none) :
    l.baseHandleCallback clock fd = l := by
  simp only [baseHandleCallback, refreshConnection, h]
  split <;> rfl

/-- The handle stored under `fd` stays: `insert` finds the key taken. -/
theorem refreshConnection_of_some (huse : l.useTimer = true) {h : SingleTimer Fd}
    (hh : l.timersMapping.lookup fd = some h) :
    l.baseHandleCallback clock fd =
      { l with timer := (l.timer.refreshSingleTimer clock h l.timerExpiration).2 } := by
  have hmem : fd ∈ l.timersMapping := Map.mem_of_lookup hh
  simp only [baseHandleCallback, refreshConnection, huse, hh, ↓reduceIte]
  split
  · next hr => rw [hr, Map.emplace_of_mem hmem]
  · next hr => rw [hr]

theorem deleteConnection_of_not_mem (h : fd ∉ l.connections) :
    (l.deleteConnection clock fd).2 = l := by
  rw [deleteConnection, AList.lookup_eq_none.mpr h]

/-- With or without timers. -/
theorem connections_deleteConnection (h : fd ∈ l.connections) :
    (l.deleteConnection clock fd).2.connections = l.connections.erase fd := by
  obtain ⟨c, hc⟩ := Map.mem_iff_lookup.mp h
  simp only [deleteConnection, hc]
  split
  · split <;> rfl
  · rfl

theorem deleteConnection_of_some (huse : l.useTimer = true) (hfd : fd ∈ l.connections)
    {h : SingleTimer Fd} (hh : l.timersMapping.lookup fd = some h) :
    (l.deleteConnection clock fd).2 =
      { l with
        connections := l.connections.erase fd
        timer := (l.timer.removeSingleTimer clock h).2
        timersMapping := l.timersMapping.erase fd } := by
  obtain ⟨c, hc⟩ := Map.mem_iff_lookup.mp hfd
  simp only [deleteConnection, hc, huse, hh, ↓reduceIte]

end Looper

end TurtleServer
