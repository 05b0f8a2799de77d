import TurtleServer.Lib.Monitor
import TurtleServer.Lib.Runs

/-!
# The logger (`log/logger.h`, `log/logger.cpp`)

`Logger` is the class `Logger` with its writer thread `LogWriting`, any number of calls of `PushLog`
and the destructor, each of which may make its next step at any time. `done_` is atomic and is read
and written without the mutex; what a call does while it holds the mutex is one step, except in the
writer: the predicate of `cv_.wait` is evaluated in one step and a writer that has found it false
gives up the mutex and joins the wait set in another, and the swap and the unlocking are two steps.

A log is named by the call of `PushLog` that brings it. Every look at the clock is the argument `now`
of its step, in milliseconds; nothing is assumed about it.

`pushed` and `written` record the logs in the order of the pushes and the batches given to
`log_strategy_`; the code reads none of them.
-/

namespace TurtleServer

open Lib

/-- `COUNT_THRESHOLD`. -/
def countThreshold : ℕ := 1000

/-- `REFRESH_THRESHOLD`, in microseconds. -/
def refreshThreshold : ℤ := 3000

/-- `GetCurrentTime()` as the `std::chrono::microseconds` it is compared with and stored in. -/
def microseconds (now : ℤ) : ℤ := 1000 * now

/-- A call of `PushLog`: after its critical section, with `should_notify`, and after its end.
`early` says that it came to its end before `done_` was set; the code does not read it. -/
inductive Push
  | notCalled
  | pushed (shouldNotify : Bool)
  | returned (early : Bool)
deriving DecidableEq, Repr

/-- The writer: before the mutex, in `cv_.wait` with the predicate found false and the mutex held, in
it without the mutex, past it with the mutex held, past the swap, before `log_strategy_`, before the
update of `last_flush_`, before `clear`, before the test of `done_` (still with the mutex when the
queue was empty), or at the end of its life. -/
inductive Writer
  | ready
  | dozing
  | waiting
  | admitted
  | swapped
  | writing
  | stamping
  | clearing
  | testing (locked : Bool)
  | returned
deriving DecidableEq, Repr

/-- The destructor: `done_` is set, and then `notify_one` is done. -/
inductive Closing
  | notCalled
  | flagged
  | joining
deriving DecidableEq, Repr

/-- The class `Logger`. The writer is the only thread that waits. -/
structure Logger where
  queue : List ℕ
  done : Bool
  lastFlush : ℤ
  monitor : Monitor Unit
  writer : Writer
  writerQueue : List ℕ
  pushes : ℕ → Push
  closing : Closing
  pushed : List ℕ
  written : List (List ℕ)

namespace Logger

/-- `Logger(log_strategy)`. -/
def new (now : ℤ) : Logger where
  queue := []
  done := false
  lastFlush := microseconds now
  monitor := .new
  writer := .ready
  writerQueue := []
  pushes _ := .notCalled
  closing := .notCalled
  pushed := []
  written := []

/-- The steps of the threads. -/
inductive Move
  | push (call : ℕ) (now : ℤ)
  | leave (call : ℕ)
  | acquire (now : ℤ)
  | sleep
  | wake
  | proceed
  | unlock
  | write
  | stamp (now : ℤ)
  | clear
  | test
  | raise
  | notifyOne
deriving DecidableEq, Repr

/-- The last flush is longer ago than `REFRESH_THRESHOLD`. -/
def Overdue (s : Logger) (now : ℤ) : Prop := microseconds now - s.lastFlush > refreshThreshold

instance (s : Logger) (now : ℤ) : Decidable (s.Overdue now) := inferInstanceAs (Decidable (_ > _))

/-- The predicate of `cv_.wait`. -/
def predicate (s : Logger) (now : ℤ) : Bool :=
  s.done || decide (s.queue.length > countThreshold) || decide (s.Overdue now)

/-- The writer wants the mutex: at the top of its loop, or woken up in `cv_.wait`. -/
def Wants (s : Logger) : Prop :=
  s.writer = .ready ∨ s.writer = .waiting ∧ () ∉ s.monitor.asleep

instance (s : Logger) : Decidable s.Wants := inferInstanceAs (Decidable (_ ∨ _))

/-- Call `i` is now at `push`. -/
def setPush (s : Logger) (i : ℕ) (push : Push) : Logger :=
  { s with pushes := Function.update s.pushes i push }

/-- The critical section of `PushLog`. -/
def pushLog (s : Logger) (i : ℕ) (now : ℤ) : Logger :=
  let queue := s.queue ++ [i]
  let shouldNotify := decide (s.Overdue now) || decide (queue.length > countThreshold)
  { s.setPush i (.pushed shouldNotify) with queue, pushed := s.pushed ++ [i] }

/-- One step. A thread that is not where the step is made does nothing. -/
def step (s : Logger) : Move → Logger
  | .push i now =>
    if s.pushes i = .notCalled ∧ s.monitor.owner = none then s.pushLog i now else s
  | .leave i =>
    match s.pushes i with
    | .pushed true => { s.setPush i (.returned !s.done) with monitor := s.monitor.wake () }
    | .pushed false => s.setPush i (.returned !s.done)
    | _ => s
  | .acquire now =>
    if s.Wants ∧ s.monitor.owner = none then
      { s with
        writer := if s.predicate now then .admitted else .dozing
        monitor := s.monitor.lock () }
    else s
  | .sleep =>
    if s.writer = .dozing then { s with writer := .waiting, monitor := s.monitor.sleep () } else s
  -- `cv_.wait` may also wake up spuriously
  | .wake => { s with monitor := s.monitor.wake () }
  | .proceed =>
    if s.writer = .admitted then
      if s.queue = [] then { s with writer := .testing true }
      else { s with writer := .swapped, writerQueue := s.queue, queue := s.writerQueue }
    else s
  | .unlock =>
    if s.writer = .swapped then { s with writer := .writing, monitor := s.monitor.unlock } else s
  | .write =>
    if s.writer = .writing then
      { s with writer := .stamping, written := s.written ++ [s.writerQueue] }
    else s
  | .stamp now =>
    if s.writer = .stamping then { s with writer := .clearing, lastFlush := microseconds now }
    else s
  | .clear =>
    if s.writer = .clearing then { s with writer := .testing false, writerQueue := [] } else s
  | .test =>
    match s.writer with
    -- the `unique_lock` goes out of scope, with or without the mutex
    | .testing locked =>
      { s with
        writer := if s.done then .returned else .ready
        monitor := if locked then s.monitor.unlock else s.monitor }
    | _ => s
  | .raise => if s.closing = .notCalled then { s with done := true, closing := .flagged } else s
  | .notifyOne =>
    if s.closing = .flagged then { s with monitor := s.monitor.wake (), closing := .joining }
    else s

/-! ## What a step does -/

/-- The steps that do something. -/
inductive Step (s : Logger) : Move → Logger → Prop
  | push {i : ℕ} {now : ℤ} (hcall : s.pushes i = .notCalled) (hfree : s.monitor.owner = none) :
    Step s (.push i now) (s.pushLog i now)
  | leave {i : ℕ} {shouldNotify : Bool} (hcall : s.pushes i = .pushed shouldNotify) :
    Step s (.leave i)
      { s.setPush i (.returned !s.done) with
        monitor := if shouldNotify then s.monitor.wake () else s.monitor }
  | enter {now : ℤ} (hwants : s.Wants) (hfree : s.monitor.owner = none)
      (hpredicate : s.predicate now = true) :
    Step s (.acquire now) { s with writer := .admitted, monitor := s.monitor.lock () }
  | doze {now : ℤ} (hwants : s.Wants) (hfree : s.monitor.owner = none)
      (hpredicate : s.predicate now = false) :
    Step s (.acquire now) { s with writer := .dozing, monitor := s.monitor.lock () }
  | sleep (hwriter : s.writer = .dozing) :
    Step s .sleep { s with writer := .waiting, monitor := s.monitor.sleep () }
  | wake : Step s .wake { s with monitor := s.monitor.wake () }
  | skip (hwriter : s.writer = .admitted) (hqueue : s.queue = []) :
    Step s .proceed { s with writer := .testing true }
  | swap (hwriter : s.writer = .admitted) (hqueue : s.queue ≠ []) :
    Step s .proceed
      { s with writer := .swapped, writerQueue := s.queue, queue := s.writerQueue }
  | unlock (hwriter : s.writer = .swapped) :
    Step s .unlock { s with writer := .writing, monitor := s.monitor.unlock }
  | write (hwriter : s.writer = .writing) :
    Step s .write { s with writer := .stamping, written := s.written ++ [s.writerQueue] }
  | stamp {now : ℤ} (hwriter : s.writer = .stamping) :
    Step s (.stamp now) { s with writer := .clearing, lastFlush := microseconds now }
  | clear (hwriter : s.writer = .clearing) :
    Step s .clear { s with writer := .testing false, writerQueue := [] }
  | finish {locked : Bool} (hwriter : s.writer = .testing locked) (hdone : s.done = true) :
    Step s .test
      { s with
        writer := .returned
        monitor := if locked then s.monitor.unlock else s.monitor }
  | again {locked : Bool} (hwriter : s.writer = .testing locked) (hdone : s.done = false) :
    Step s .test
      { s with
        writer := .ready
        monitor := if locked then s.monitor.unlock else s.monitor }
  | raise (hclosing : s.closing = .notCalled) :
    Step s .raise { s with done := true, closing := .flagged }
  | notifyOne (hclosing : s.closing = .flagged) :
    Step s .notifyOne { s with monitor := s.monitor.wake (), closing := .joining }

/-- A step does nothing or is one of `Step`. -/
theorem step_cases (s : Logger) (move : Move) : s.step move = s ∨ Step s move (s.step move) := by
  cases move with
  | push i now =>
    simp only [step]
    split
    · next h => exact .inr (.push h.1 h.2)
    · exact .inl rfl
  | leave i =>
    simp only [step]
    split
    · next hcall => exact .inr (.leave hcall)
    · next hcall => exact .inr (.leave hcall)
    · exact .inl rfl
  | acquire now =>
    simp only [step]
    split
    · next h =>
      cases hpredicate : s.predicate now with
      | true => exact .inr (.enter h.1 h.2 hpredicate)
      | false => exact .inr (.doze h.1 h.2 hpredicate)
    · exact .inl rfl
  | sleep =>
    simp only [step]
    split
    · next hwriter => exact .inr (.sleep hwriter)
    · exact .inl rfl
  | wake => exact .inr .wake
  | proceed =>
    simp only [step]
    split
    · next hwriter =>
      split
      · next hqueue => exact .inr (.skip hwriter hqueue)
      · next hqueue => exact .inr (.swap hwriter hqueue)
    · exact .inl rfl
  | unlock =>
    simp only [step]
    split
    · next hwriter => exact .inr (.unlock hwriter)
    · exact .inl rfl
  | write =>
    simp only [step]
    split
    · next hwriter => exact .inr (.write hwriter)
    · exact .inl rfl
  | stamp now =>
    simp only [step]
    split
    · next hwriter => exact .inr (.stamp hwriter)
    · exact .inl rfl
  | clear =>
    simp only [step]
    split
    · next hwriter => exact .inr (.clear hwriter)
    · exact .inl rfl
  | test =>
    simp only [step]
    split
    · next locked hwriter =>
      rcases Bool.eq_false_or_eq_true s.done with hdone | hdone
      · rw [if_pos hdone]
        exact .inr (.finish hwriter hdone)
      · rw [if_neg (Bool.eq_false_iff.mp hdone)]
        exact .inr (.again hwriter hdone)
    · exact .inl rfl
  | raise =>
    simp only [step]
    split
    · next hclosing => exact .inr (.raise hclosing)
    · exact .inl rfl
  | notifyOne =>
    simp only [step]
    split
    · next hclosing => exact .inr (.notifyOne hclosing)
    · exact .inl rfl

end Logger

end TurtleServer
