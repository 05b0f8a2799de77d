import TurtleServer.Lib.LockOrder

/-!
# The mutexes of the server

Every looper and its timer have a mutex each, and the logger, the cache and the thread pool have
one. The functions of a looper call its timer while they hold its mutex, and some of both write logs
while they hold theirs. The other way round, the callback of an expired timer calls
`DeleteConnection` of the looper; `HandleRead` runs it when `PruneExpiredTimer` has given up the
mutex of the timer.

Here is which mutexes each function locks and in which order, on each of its branches, and that no
set of threads ever waits for each other (`mutexes_never_stuck`).
-/

namespace TurtleServer.Mutexes

open Lib Locking

/-- The mutexes `mtx_`. Loopers are numbered, and `timer i` belongs to the timer of looper `i`. -/
inductive Mutex
  | looper (i : ℕ)
  | timer (i : ℕ)
  | logger
  | cache
  | pool
deriving DecidableEq, Repr

/-- The order in which they are locked. -/
def Mutex.rank : Mutex → Fin 3
  | .looper _ => 0
  | .timer _ => 1
  | .logger => 2
  | .cache => 0
  | .pool => 0

/-! ## 1. What the functions lock -/

/-- `LogMsg`: the critical section of `PushLog`. -/
def logMsg : List (LockAction Mutex) := critical .logger false []

/-- `ResetTimerFd`, which writes a log when `timerfd_settime` fails. -/
def resetTimerFd (failed : Bool) : List (LockAction Mutex) := if failed then logMsg else []

/-- A function of a timer: `ResetTimerFd` is called and fails, or not. -/
def timerCall (i : ℕ) (failed : Bool) : List (LockAction Mutex) :=
  critical (.timer i) false (resetTimerFd failed)

/-- `AddSingleTimer`. -/
def addSingleTimer (i : ℕ) (failed : Bool) : List (LockAction Mutex) := timerCall i failed

/-- `RemoveSingleTimer`. -/
def removeSingleTimer (i : ℕ) (failed : Bool) : List (LockAction Mutex) := timerCall i failed

/-- `RefreshSingleTimer`. -/
def refreshSingleTimer (i : ℕ) (failed : Bool) : List (LockAction Mutex) := timerCall i failed

/-- `PruneExpiredTimer`. -/
def pruneExpiredTimer (i : ℕ) (failed : Bool) : List (LockAction Mutex) := timerCall i failed

/-- `AddAcceptor`. -/
def addAcceptor (i : ℕ) : List (LockAction Mutex) := critical (.looper i) false []

/-- `AddConnection` of a looper. -/
def addConnection (i : ℕ) (useTimer failed : Bool) : List (LockAction Mutex) :=
  critical (.looper i) false (if useTimer then addSingleTimer i failed else [])

/-- `RefreshConnection`. -/
def refreshConnection (i : ℕ) (useTimer found failed : Bool) : List (LockAction Mutex) :=
  if useTimer then critical (.looper i) false (if found then refreshSingleTimer i failed else [])
  else []

/-- `DeleteConnection`: the connection is found, and its timer is. -/
def deleteConnection (i : ℕ) (useTimer found timerFound failed : Bool) : List (LockAction Mutex) :=
  critical (.looper i) false
    (if found then
      if useTimer then if timerFound then removeSingleTimer i failed else logMsg else []
    else [])

/-- What `DeleteConnection` finds in the callback of an expired timer. -/
structure Expired where
  found : Bool
  timerFound : Bool
  failed : Bool

/-- The callback of an expired timer. -/
def expire (i : ℕ) (e : Expired) : List (LockAction Mutex) :=
  logMsg ++ deleteConnection i true e.found e.timerFound e.failed

/-- `HandleRead` of a timer: the callbacks run without its mutex. -/
def handleRead (i : ℕ) (short failed : Bool) (expired : List Expired) : List (LockAction Mutex) :=
  (if short then logMsg else []) ++ pruneExpiredTimer i failed ++ expired.flatMap (expire i)

/-- A call that a thread makes. `takeTask` and `takeLogs` are a turn of a worker of the pool and of
the writer of the logger; while they wait for their condition, they do not hold the mutex. -/
inductive Call
  | addAcceptor (looper : ℕ)
  | addConnection (looper : ℕ) (useTimer failed : Bool)
  | refreshConnection (looper : ℕ) (useTimer found failed : Bool)
  | deleteConnection (looper : ℕ) (useTimer found timerFound failed : Bool)
  | handleRead (looper : ℕ) (short failed : Bool) (expired : List Expired)
  | tryLoad
  | tryInsert
  | submitTask
  | takeTask
  | logMsg
  | takeLogs

/-- What a call locks. `TryLoad` shares the mutex of the cache. -/
def Call.locking : Call → List (LockAction Mutex)
  | .addAcceptor i => Mutexes.addAcceptor i
  | .addConnection i useTimer failed => Mutexes.addConnection i useTimer failed
  | .refreshConnection i useTimer found failed => Mutexes.refreshConnection i useTimer found failed
  | .deleteConnection i useTimer found timerFound failed =>
    Mutexes.deleteConnection i useTimer found timerFound failed
  | .handleRead i short failed expired => Mutexes.handleRead i short failed expired
  | .tryLoad => critical .cache true []
  | .tryInsert => critical .cache false []
  | .submitTask => critical .pool false []
  | .takeTask => critical .pool false []
  | .logMsg => Mutexes.logMsg
  | .takeLogs => critical .logger false []

/-- Nobody holds a mutex, and each thread is going to make its calls. -/
def start {ι : Type} (calls : ι → List Call) : Locking ι Mutex :=
  .new fun i => (calls i).flatMap Call.locking

/-! ## 2. They lock in order -/

namespace MutexLemmas

variable {held : List (Mutex × Bool)} {i : ℕ}

theorem keeps_logMsg (h : ∀ e ∈ held, e.1.rank < 2) : Keeps Mutex.rank held logMsg :=
  keeps_critical h keeps_nil

theorem keeps_timerCall (h : ∀ e ∈ held, e.1.rank < 1) (failed : Bool) :
    Keeps Mutex.rank held (timerCall i failed) := by
  refine keeps_critical h ?_
  cases failed with
  | false => exact keeps_nil
  | true =>
    have hbelow : (1 : Fin 3) < 2 := by decide
    exact keeps_logMsg (List.forall_mem_cons.mpr ⟨hbelow, fun e he => (h e he).trans hbelow⟩)

/-- A function of a looper, which may call its timer or write a log. -/
theorem keeps_looper {body : List (LockAction Mutex)}
    (hbody : Keeps Mutex.rank [(.looper i, false)] body) :
    Keeps Mutex.rank [] (critical (.looper i) false body) :=
  keeps_critical (fun _ he => absurd he List.not_mem_nil) hbody

theorem looper_below {k : Fin 3} (h : 0 < k) :
    ∀ e ∈ [(Mutex.looper i, false)], e.1.rank < k := List.forall_mem_singleton.mpr h

theorem keeps_deleteConnection (useTimer found timerFound failed : Bool) :
    Keeps Mutex.rank [] (deleteConnection i useTimer found timerFound failed) := by
  refine keeps_looper ?_
  cases found with
  | false => exact keeps_nil
  | true =>
    cases useTimer with
    | false => exact keeps_nil
    | true =>
      cases timerFound with
      | true => exact keeps_timerCall (looper_below (by decide)) failed
      | false => exact keeps_logMsg (looper_below (by decide))

theorem keeps_handleRead (short failed : Bool) (expired : List Expired) :
    Keeps Mutex.rank [] (handleRead i short failed expired) := by
  have hlog : Keeps Mutex.rank [] logMsg := keeps_logMsg fun _ he => absurd he List.not_mem_nil
  refine keeps_append (keeps_append ?_ ?_) (keeps_flatMap fun e _ => ?_)
  · cases short with
    | true => exact hlog
    | false => exact keeps_nil
  · exact keeps_timerCall (fun _ he => absurd he List.not_mem_nil) failed
  · exact keeps_append hlog (keeps_deleteConnection true e.found e.timerFound e.failed)

theorem keeps_locking (call : Call) : Keeps Mutex.rank [] call.locking := by
  have hnone : ∀ {k : Fin 3}, ∀ e ∈ ([] : List (Mutex × Bool)), e.1.rank < k :=
    fun _ he => absurd he List.not_mem_nil
  cases call with
  | addAcceptor i => exact keeps_looper keeps_nil
  | addConnection i useTimer failed =>
    refine keeps_looper ?_
    cases useTimer with
    | true => exact keeps_timerCall (looper_below (by decide)) failed
    | false => exact keeps_nil
  | refreshConnection i useTimer found failed =>
    cases useTimer with
    | false => exact keeps_nil
    | true =>
      refine keeps_looper ?_
      cases found with
      | true => exact keeps_timerCall (looper_below (by decide)) failed
      | false => exact keeps_nil
  | deleteConnection i useTimer found timerFound failed =>
    exact keeps_deleteConnection useTimer found timerFound failed
  | handleRead i short failed expired => exact keeps_handleRead short failed expired
  | logMsg => exact keeps_logMsg hnone
  | _ => exact keeps_critical hnone keeps_nil

theorem ordered_start {ι : Type} (calls : ι → List Call) (i : ι) :
    Ordered Mutex.rank ((start calls).held i) ((start calls).rest i) := by
  have hkeeps : Keeps Mutex.rank [] ((calls i).flatMap Call.locking) :=
    keeps_flatMap fun call _ => keeps_locking call
  have hordered := hkeeps [] rfl
  rw [List.append_nil] at hordered
  exact hordered

end MutexLemmas

open MutexLemmas

/-- Whatever calls the threads make and in whatever order they go on: as long as a thread is not
through, some thread does not wait; and all threads can get through, and hold no mutex then. -/
theorem mutexes_never_stuck {ι : Type} [Fintype ι] [DecidableEq ι] (calls : ι → List Call)
    (schedule : List ι) :
    let s := run step (start calls) schedule
    ((∃ i, s.rest i ≠ []) → ∃ i, s.Enabled i) ∧
      ∃ later, ∀ i, (run step s later).rest i = [] ∧ (run step s later).held i = [] := by
  intro s
  have hordered : ∀ i, Ordered Mutex.rank (s.held i) (s.rest i) :=
    run_of_forall (I := fun s : Locking ι Mutex => ∀ i, Ordered Mutex.rank (s.held i) (s.rest i))
      (fun _ i h => ordered_step h i) schedule (ordered_start calls)
  exact ⟨fun ⟨_, hi⟩ => exists_enabled hordered hi, exists_run_end hordered⟩

end TurtleServer.Mutexes
