import TurtleServer.Log.LoggerInvariant

/-!
# A writer that sleeps through the destructor

The destructor sets `done_` and notifies without the mutex. A writer that has found its predicate
false, and has not yet joined the wait set, misses both: it goes to sleep after the last notification,
and `log_writer_.join()` waits for it for ever (`writer_sleeps_through_destructor`). The workers of
`ThreadPool` miss `Exit` in the same way. `destructor_wakes_writer`: this is the only way.
-/

namespace TurtleServer.Logger

open Lib

/-- The destructor has notified, and the writer is in the wait set with no wake-up delivered to it. -/
def Stuck (s : Logger) : Prop :=
  s.closing = .joining ∧ s.writer = .waiting ∧ () ∈ s.monitor.asleep

instance (s : Logger) : Decidable s.Stuck := inferInstanceAs (Decidable (_ ∧ _))

/-- When the destructor notifies, the writer is not between the test of its predicate and the wait
set. -/
def NotDozing (s : Logger) : Move → Prop
  | .notifyOne => s.closing = .flagged → s.writer ≠ .dozing
  | _ => True

namespace ExitLemmas

variable {s s' : Logger} {move : Move}

/-- Once `done_` is set the predicate is not found false, and after the notification the writer does
not sleep and is not about to. -/
structure Rested (s : Logger) : Prop where
  flag : s.closing ≠ .notCalled → s.done = true
  dozing : s.closing = .joining → s.writer ≠ .dozing
  asleep : s.closing = .joining → () ∉ s.monitor.asleep

theorem not_asleep_wake (m : Monitor Unit) : () ∉ (m.wake ()).asleep := by
  rw [Monitor.mem_asleep_wake]
  exact fun h => h.1 rfl

theorem step_rested (hrested : Rested s) (hnot : NotDozing s move) (h : Step s move s') :
    Rested s' := by
  obtain ⟨hflag, hdozing, hasleep⟩ := hrested
  cases h with
  | push hcall hfree => exact ⟨hflag, hdozing, hasleep⟩
  | @leave i shouldNotify hcall =>
    cases shouldNotify with
    | true => exact ⟨hflag, hdozing, fun _ => not_asleep_wake _⟩
    | false => exact ⟨hflag, hdozing, hasleep⟩
  | enter hwants hfree hpredicate => exact ⟨hflag, fun _ => Writer.noConfusion, hasleep⟩
  | doze hwants hfree hpredicate =>
    -- the predicate reads `done_`, so it is not set yet
    have hdone : s.done = false := by
      unfold predicate at hpredicate
      simp only [Bool.or_eq_false_iff] at hpredicate
      exact hpredicate.1.1
    have hearly : s.closing ≠ .joining := by
      intro hjoining
      have hset : s.done = true := hflag (by simp [hjoining])
      exact Bool.false_ne_true (hdone.symm.trans hset)
    exact ⟨hflag, fun hjoining => absurd hjoining hearly, hasleep⟩
  | sleep hwriter =>
    have hearly : s.closing ≠ .joining := fun hjoining => hdozing hjoining hwriter
    exact ⟨hflag, fun _ => Writer.noConfusion, fun hjoining => absurd hjoining hearly⟩
  | wake => exact ⟨hflag, hdozing, fun _ => not_asleep_wake _⟩
  | skip hwriter hqueue => exact ⟨hflag, fun _ => Writer.noConfusion, hasleep⟩
  | swap hwriter hqueue => exact ⟨hflag, fun _ => Writer.noConfusion, hasleep⟩
  | unlock hwriter => exact ⟨hflag, fun _ => Writer.noConfusion, hasleep⟩
  | write hwriter => exact ⟨hflag, fun _ => Writer.noConfusion, hasleep⟩
  | stamp hwriter => exact ⟨hflag, fun _ => Writer.noConfusion, hasleep⟩
  | clear hwriter => exact ⟨hflag, fun _ => Writer.noConfusion, hasleep⟩
  | @finish locked hwriter hdone =>
    refine ⟨hflag, fun _ => Writer.noConfusion, ?_⟩
    cases locked with
    | true => exact hasleep
    | false => exact hasleep
  | @again locked hwriter hdone =>
    refine ⟨hflag, fun _ => Writer.noConfusion, ?_⟩
    cases locked with
    | true => exact hasleep
    | false => exact hasleep
  | raise hclosing =>
    exact ⟨fun _ => rfl, fun hjoining => Closing.noConfusion hjoining,
      fun hjoining => Closing.noConfusion hjoining⟩
  | notifyOne hclosing =>
    exact ⟨fun _ => hflag (by simp [hclosing]), fun _ => hnot hclosing, fun _ => not_asleep_wake _⟩

theorem rested_step (hrested : Rested s) (hnot : NotDozing s move) : Rested (s.step move) := by
  rcases step_cases s move with heq | hstep
  · rw [heq]
    exact hrested
  · exact step_rested hrested hnot hstep

theorem rested_new (now : ℤ) : Rested (new now) :=
  ⟨fun h => absurd rfl h, fun h => Closing.noConfusion h, fun h => Closing.noConfusion h⟩

/-- A writer that is dozing when the destructor notifies is asleep after its next step. -/
theorem stuck_of_dozing (hclosing : s.closing = .flagged) (hwriter : s.writer = .dozing) :
    Stuck (run step s [.notifyOne, .sleep]) := by
  have hnotify : s.step .notifyOne = { s with monitor := s.monitor.wake (), closing := .joining } :=
    if_pos hclosing
  rw [run_cons, hnotify, run_cons, step, if_pos hwriter]
  exact ⟨rfl, rfl, Monitor.mem_asleep_sleep.mpr (.inl rfl)⟩

end ExitLemmas

open ExitLemmas

/-- The writer is never left asleep in a run in which it is not dozing when the destructor notifies.
If it is, its next step leaves it asleep. -/
theorem destructor_wakes_writer (start : ℤ) (moves : List Move) :
    (Along step NotDozing (new start) moves →
      Always step (fun s => ¬ s.Stuck) (new start) moves) ∧
    ((run step (new start) moves).closing = .flagged →
      (run step (new start) moves).writer = .dozing →
      Stuck (run step (new start) (moves ++ [.notifyOne, .sleep]))) := by
  constructor
  · intro halong
    have hall : Always step Rested (new start) moves :=
      always_of_along (fun _ _ hrested hnot => rested_step hrested hnot) (rested_new start) halong
    refine hall.mono ?_
    rintro s hrested ⟨hjoining, -, hasleep⟩
    exact hrested.asleep hjoining hasleep
  · intro hclosing hwriter
    rw [run_append]
    exact stuck_of_dozing hclosing hwriter

/-- The writer finds its predicate false, the logger is destroyed, and then the writer goes to
sleep. -/
def missedDestructor : List Move := [.acquire 0, .raise, .notifyOne, .sleep]

theorem writer_sleeps_through_destructor :
    Stuck (run step (new 0) missedDestructor) ∧
      ¬ Always step (fun s => ¬ s.Stuck) (new 0) missedDestructor := by
  decide

end TurtleServer.Logger
