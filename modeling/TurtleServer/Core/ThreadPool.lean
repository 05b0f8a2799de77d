import TurtleServer.Lib.Monitor
import TurtleServer.Lib.Runs

/-!
# The thread pool (`core/thread_pool.h`, `core/thread_pool.cpp`)

`ThreadPool` is the class `ThreadPool` with its workers, any number of calls of `SubmitTask` and a
call of `Exit`, each of which may make its next step at any time. `exit_` is atomic and is read and
written without the mutex; `tasks_` is used under the mutex only, and what a call does while it holds
the mutex is one step, except in `cv_.wait`: the predicate is evaluated in one step, and a worker that
has found it false gives up the mutex and joins the wait set in another.

A task is named by the call that submits it. `none` is undefined behaviour: `front()` of an empty
queue.

`enqueued`, `dequeued` and `ran` record the tasks in the order in which this has happened to them; the
code reads none of them.
-/

namespace TurtleServer

open Lib

/-- `MIN_NUM_THREADS_IN_POOL`. -/
def minNumThreadsInPool : ℤ := 2

/-- A worker: before `cv_.wait`, in it with the predicate found false and the mutex held, in it
without the mutex, past it with the mutex held, running a task, or at the end of its life. -/
inductive Worker
  | ready
  | dozing
  | waiting
  | admitted
  | running (task : ℕ)
  | returned
deriving DecidableEq, Repr

/-- A call of `SubmitTask`: after the test of `exit_`, after the enqueuing, and after its end. -/
inductive Submit
  | notCalled
  | tested
  | enqueued
  | returned
  | thrown
deriving DecidableEq, Repr

/-- The call of `Exit`: `exit_` is set, and then `notify_all` is done. -/
inductive ExitCall
  | notCalled
  | flagged
  | finished
deriving DecidableEq, Repr

/-- The class `ThreadPool`. -/
structure ThreadPool where
  size : ℕ
  workers : ℕ → Worker
  tasks : List ℕ
  monitor : Monitor ℕ
  exit : Bool
  submits : ℕ → Submit
  exiting : ExitCall
  enqueued : List ℕ
  dequeued : List ℕ
  ran : List ℕ

namespace ThreadPool

/-- `ThreadPool(size)`. -/
def new (size : ℤ) : ThreadPool where
  size := (max size minNumThreadsInPool).toNat
  workers _ := .ready
  tasks := []
  monitor := .new
  exit := false
  submits _ := .notCalled
  exiting := .notCalled
  enqueued := []
  dequeued := []
  ran := []

/-- The steps of the threads. -/
inductive Move
  | test (call : ℕ)
  | enqueue (call : ℕ)
  | notifyOne (call worker : ℕ)
  | acquire (worker : ℕ)
  | sleep (worker : ℕ)
  | wake (worker : ℕ)
  | proceed (worker : ℕ)
  | finish (worker : ℕ)
  | raise
  | notifyAll
deriving DecidableEq, Repr

/-- The predicate of `cv_.wait`. -/
def predicate (s : ThreadPool) : Bool := s.exit || !s.tasks.isEmpty

/-- Worker `w` wants the mutex: at the top of its loop, or woken up in `cv_.wait`. -/
def Wants (s : ThreadPool) (w : ℕ) : Prop :=
  s.workers w = .ready ∨ s.workers w = .waiting ∧ w ∉ s.monitor.asleep

instance (s : ThreadPool) (w : ℕ) : Decidable (s.Wants w) := inferInstanceAs (Decidable (_ ∨ _))

/-- Worker `w` is now at `worker`. -/
def setWorker (s : ThreadPool) (w : ℕ) (worker : Worker) : ThreadPool :=
  { s with workers := Function.update s.workers w worker }

/-- Call `i` is now at `submit`. -/
def setSubmit (s : ThreadPool) (i : ℕ) (submit : Submit) : ThreadPool :=
  { s with submits := Function.update s.submits i submit }

/-- The code after `cv_.wait`, up to the end of the critical section. -/
def dequeue (s : ThreadPool) (w : ℕ) : Option ThreadPool :=
  if s.exit ∧ s.tasks = [] then some { s.setWorker w .returned with monitor := s.monitor.unlock }
  else
    match s.tasks with
    | [] => none
    | task :: tasks =>
      some { s.setWorker w (.running task) with
        tasks
        monitor := s.monitor.unlock
        dequeued := s.dequeued ++ [task] }

/-- One step. A thread that is not where the step is made does nothing. -/
def step (s : ThreadPool) : Move → Option ThreadPool
  | .test i =>
    if s.submits i = .notCalled then some (s.setSubmit i (if s.exit then .thrown else .tested))
    else some s
  | .enqueue i =>
    if s.submits i = .tested ∧ s.monitor.owner = none then
      some { s.setSubmit i .enqueued with
        tasks := s.tasks ++ [i]
        enqueued := s.enqueued ++ [i] }
    else some s
  | .notifyOne i w =>
    if s.submits i = .enqueued ∧ s.monitor.MayWake w then
      some { s.setSubmit i .returned with monitor := s.monitor.wake w }
    else some s
  | .acquire w =>
    if w < s.size ∧ s.Wants w ∧ s.monitor.owner = none then
      some { s.setWorker w (if s.predicate then .admitted else .dozing) with
        monitor := s.monitor.lock w }
    else some s
  | .sleep w =>
    if s.workers w = .dozing then
      some { s.setWorker w .waiting with monitor := s.monitor.sleep w }
    else some s
  -- `cv_.wait` may also wake up spuriously
  | .wake w => some { s with monitor := s.monitor.wake w }
  | .proceed w => if s.workers w = .admitted then s.dequeue w else some s
  | .finish w =>
    match s.workers w with
    | .running task => some { s.setWorker w .ready with ran := s.ran ++ [task] }
    | _ => some s
  | .raise =>
    if s.exiting = .notCalled then some { s with exit := true, exiting := .flagged } else some s
  | .notifyAll =>
    if s.exiting = .flagged then some { s with monitor := s.monitor.wakeAll, exiting := .finished }
    else some s

/-- The machine whose state is `none` after undefined behaviour. -/
def next (o : Option ThreadPool) (move : Move) : Option ThreadPool := o.bind fun s => s.step move

/-! ## What a step does -/

/-- The steps that do something. -/
inductive Step (s : ThreadPool) : Move → ThreadPool → Prop
  | throw {i : ℕ} (hcall : s.submits i = .notCalled) (hexit : s.exit = true) :
    Step s (.test i) (s.setSubmit i .thrown)
  | test {i : ℕ} (hcall : s.submits i = .notCalled) (hexit : s.exit = false) :
    Step s (.test i) (s.setSubmit i .tested)
  | enqueue {i : ℕ} (hcall : s.submits i = .tested) (hfree : s.monitor.owner = none) :
    Step s (.enqueue i)
      { s.setSubmit i .enqueued with tasks := s.tasks ++ [i], enqueued := s.enqueued ++ [i] }
  | notifyOne {i w : ℕ} (hcall : s.submits i = .enqueued) (hwake : s.monitor.MayWake w) :
    Step s (.notifyOne i w) { s.setSubmit i .returned with monitor := s.monitor.wake w }
  | enter {w : ℕ} (hw : w < s.size) (hwants : s.Wants w) (hfree : s.monitor.owner = none)
      (hpredicate : s.exit = true ∨ s.tasks ≠ []) :
    Step s (.acquire w) { s.setWorker w .admitted with monitor := s.monitor.lock w }
  | doze {w : ℕ} (hw : w < s.size) (hwants : s.Wants w) (hfree : s.monitor.owner = none)
      (hexit : s.exit = false) (htasks : s.tasks = []) :
    Step s (.acquire w) { s.setWorker w .dozing with monitor := s.monitor.lock w }
  | sleep {w : ℕ} (hworker : s.workers w = .dozing) :
    Step s (.sleep w) { s.setWorker w .waiting with monitor := s.monitor.sleep w }
  | wake {w : ℕ} : Step s (.wake w) { s with monitor := s.monitor.wake w }
  | leave {w : ℕ} (hworker : s.workers w = .admitted) (hexit : s.exit = true) (htasks : s.tasks = []) :
    Step s (.proceed w) { s.setWorker w .returned with monitor := s.monitor.unlock }
  | take {w task : ℕ} {tasks : List ℕ} (hworker : s.workers w = .admitted)
      (htasks : s.tasks = task :: tasks) :
    Step s (.proceed w)
      { s.setWorker w (.running task) with
        tasks := tasks
        monitor := s.monitor.unlock
        dequeued := s.dequeued ++ [task] }
  | finish {w task : ℕ} (hworker : s.workers w = .running task) :
    Step s (.finish w) { s.setWorker w .ready with ran := s.ran ++ [task] }
  | raise (hexiting : s.exiting = .notCalled) :
    Step s .raise { s with exit := true, exiting := .flagged }
  | notifyAll (hexiting : s.exiting = .flagged) :
    Step s .notifyAll { s with monitor := s.monitor.wakeAll, exiting := .finished }

theorem predicate_eq_false {s : ThreadPool} (h : s.predicate = false) :
    s.exit = false ∧ s.tasks = [] := by
  obtain ⟨hexit, htasks⟩ := Bool.or_eq_false_iff.mp h
  exact ⟨hexit, by simpa using htasks⟩

theorem predicate_eq_true {s : ThreadPool} (h : s.predicate = true) :
    s.exit = true ∨ s.tasks ≠ [] := by
  refine ((Bool.or_eq_true _ _).mp h).imp_right fun htasks hnil => ?_
  rw [hnil] at htasks
  exact Bool.false_ne_true htasks

/-- A step does nothing, or is one of `Step`, or takes a task from an empty queue. -/
theorem step_cases (s : ThreadPool) (move : Move) :
    s.step move = some s ∨ (∃ s', s.step move = some s' ∧ Step s move s') ∨
      ∃ w, s.workers w = .admitted ∧ s.exit = false ∧ s.tasks = [] := by
  cases move with
  | test i =>
    simp only [step]
    split
    · next hcall =>
      cases hexit : s.exit with
      | true => exact .inr (.inl ⟨_, rfl, .throw hcall hexit⟩)
      | false => exact .inr (.inl ⟨_, rfl, .test hcall hexit⟩)
    · exact .inl rfl
  | enqueue i =>
    simp only [step]
    split
    · next h => exact .inr (.inl ⟨_, rfl, .enqueue h.1 h.2⟩)
    · exact .inl rfl
  | notifyOne i w =>
    simp only [step]
    split
    · next h => exact .inr (.inl ⟨_, rfl, .notifyOne h.1 h.2⟩)
    · exact .inl rfl
  | acquire w =>
    simp only [step]
    split
    · next h =>
      obtain ⟨hw, hwants, hfree⟩ := h
      cases hpredicate : s.predicate with
      | true => exact .inr (.inl ⟨_, rfl, .enter hw hwants hfree (predicate_eq_true hpredicate)⟩)
      | false =>
        obtain ⟨hexit, htasks⟩ := predicate_eq_false hpredicate
        exact .inr (.inl ⟨_, rfl, .doze hw hwants hfree hexit htasks⟩)
    · exact .inl rfl
  | sleep w =>
    simp only [step]
    split
    · next hworker => exact .inr (.inl ⟨_, rfl, .sleep hworker⟩)
    · exact .inl rfl
  | wake w => exact .inr (.inl ⟨_, rfl, .wake⟩)
  | proceed w =>
    simp only [step]
    split
    · next hworker =>
      unfold dequeue
      cases htasks : s.tasks with
      | nil =>
        cases hexit : s.exit with
        | true => exact .inr (.inl ⟨_, by simp, .leave hworker hexit htasks⟩)
        | false => exact .inr (.inr ⟨w, hworker, rfl, rfl⟩)
      | cons task tasks => exact .inr (.inl ⟨_, by simp, .take hworker htasks⟩)
    · exact .inl rfl
  | finish w =>
    simp only [step]
    split
    · next task hworker => exact .inr (.inl ⟨_, rfl, .finish hworker⟩)
    · exact .inl rfl
  | raise =>
    simp only [step]
    split
    · next hexiting => exact .inr (.inl ⟨_, rfl, .raise hexiting⟩)
    · exact .inl rfl
  | notifyAll =>
    simp only [step]
    split
    · next hexiting => exact .inr (.inl ⟨_, rfl, .notifyAll hexiting⟩)
    · exact .inl rfl

end ThreadPool

end TurtleServer
