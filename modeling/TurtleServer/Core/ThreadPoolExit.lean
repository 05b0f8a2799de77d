import TurtleServer.Core.ThreadPoolTasks

/-!
# Workers that sleep through `Exit`

`Exit` sets `exit_` and notifies without the mutex. A worker that has found its predicate false, and
has not yet joined the wait set, misses both: it goes to sleep after the last notification, and the
destructor waits for it for ever (`worker_sleeps_through_exit`). `exit_wakes_all`: this is the only
way, so that nobody is left asleep when no worker is at this point when `Exit` notifies.
-/

namespace TurtleServer.ThreadPool

open Lib TaskLemmas

/-- `Exit` has come to its end, and a worker is in the wait set with no wake-up delivered to it. -/
def Stuck (s : ThreadPool) : Prop := s.exiting = .finished ∧ ∃ w < s.size, w ∈ s.monitor.asleep

/-- When `Exit` notifies, no worker is between the test of its predicate and the wait set. -/
def NoneDozing (o : Option ThreadPool) : Move → Prop
  | .notifyAll => ∀ s ∈ o, s.exiting = .flagged → ∀ w < s.size, s.workers w ≠ .dozing
  | _ => True

namespace ExitLemmas

variable {s s' : ThreadPool} {move : Move}

/-- Once `exit_` is set no predicate is found false, and after the notification nobody sleeps or is
about to. -/
structure Rested (s : ThreadPool) : Prop where
  flag : s.exiting ≠ .notCalled → s.exit = true
  dozing : s.exiting = .finished → ∀ w, s.workers w ≠ .dozing
  asleep : s.exiting = .finished → s.monitor.asleep = ∅

theorem dozing_setWorker {workers : ℕ → Worker} {worker : Worker} {w : ℕ}
    (h : ∀ w, workers w ≠ .dozing) (hworker : worker ≠ .dozing) :
    ∀ w', Function.update workers w worker w' ≠ .dozing :=
  (Function.forall_update_iff workers fun _ worker => worker ≠ .dozing).mpr
    ⟨hworker, fun w' _ => h w'⟩

theorem wake_empty {m : Monitor ℕ} (h : m.asleep = ∅) (w : ℕ) : (m.wake w).asleep = ∅ := by
  rw [Monitor.wake, h, Finset.erase_empty]

theorem step_rested (hI : Inv s) (hrested : Rested s) (hnone : NoneDozing (some s) move)
    (h : Step s move s') : Rested s' := by
  obtain ⟨hflag, hdozing, hasleep⟩ := hrested
  cases h with
  | throw hcall hexit => exact ⟨hflag, hdozing, hasleep⟩
  | test hcall hexit => exact ⟨hflag, hdozing, hasleep⟩
  | enqueue hcall hfree => exact ⟨hflag, hdozing, hasleep⟩
  | notifyOne hcall hwake => exact ⟨hflag, hdozing, fun hfin => wake_empty (hasleep hfin) _⟩
  | enter hw hwants hfree hpredicate =>
    exact ⟨hflag, fun hfin => dozing_setWorker (hdozing hfin) Worker.noConfusion, hasleep⟩
  | doze hw hwants hfree hexit htasks =>
    -- `exit_` is not set yet
    have hearly : s.exiting = .notCalled := by
      by_contra hcalled
      exact Bool.false_ne_true (hexit.symm.trans (hflag hcalled))
    have hnotfin : s.exiting ≠ .finished := by
      rw [hearly]
      exact ExitCall.noConfusion
    exact ⟨hflag, fun hfin => absurd hfin hnotfin, fun hfin => absurd hfin hnotfin⟩
  | @sleep w hworker =>
    have hnotfin : s.exiting ≠ .finished := fun hfin => hdozing hfin w hworker
    exact ⟨hflag, fun hfin => absurd hfin hnotfin, fun hfin => absurd hfin hnotfin⟩
  | wake => exact ⟨hflag, hdozing, fun hfin => wake_empty (hasleep hfin) _⟩
  | leave hworker hexit htasks =>
    exact ⟨hflag, fun hfin => dozing_setWorker (hdozing hfin) Worker.noConfusion, hasleep⟩
  | take hworker htasks =>
    exact ⟨hflag, fun hfin => dozing_setWorker (hdozing hfin) Worker.noConfusion, hasleep⟩
  | finish hworker =>
    exact ⟨hflag, fun hfin => dozing_setWorker (hdozing hfin) Worker.noConfusion, hasleep⟩
  | raise hexiting => exact ⟨fun _ => rfl, fun hfin => ExitCall.noConfusion hfin,
      fun hfin => ExitCall.noConfusion hfin⟩
  | notifyAll hexiting =>
    refine ⟨fun _ => hflag (by simp [hexiting]), fun _ w hworker => ?_, fun _ => rfl⟩
    have hdoze : s.workers w = .dozing := hworker
    exact hnone s rfl hexiting w (hI.worked.inPool w (by simp [hdoze])) hdoze

theorem not_stuck (h : Rested s) : ¬ Stuck s := by
  rintro ⟨hfin, w, -, hw⟩
  rw [h.asleep hfin] at hw
  exact Finset.notMem_empty w hw

end ExitLemmas

open ExitLemmas

/-- Nobody is left asleep in a run in which no worker is dozing when `Exit` notifies. If one is, its
next step leaves it asleep. -/
theorem exit_wakes_all (size : ℤ) (moves : List Move) :
    (Along next NoneDozing (some (new size)) moves →
      Always next (fun o => ∃ s, o = some s ∧ ¬ s.Stuck) (some (new size)) moves) ∧
    ∀ s w, run next (some (new size)) moves = some s → s.exiting = .flagged → w < s.size →
      s.workers w = .dozing →
      ∃ s', run next (some s) [.notifyAll, .sleep w] = some s' ∧ s'.Stuck := by
  constructor
  · intro halong
    have hall : Always next (fun o => ∃ s, o = some s ∧ Inv s ∧ Rested s) (some (new size))
        moves := by
      refine always_of_along ?_ ⟨_, rfl, inv_new size, ?_⟩ halong
      · rintro - move ⟨s, rfl, hI, hrested⟩ hnone
        obtain ⟨s', hs', hstep⟩ := step_defined hI move
        rcases hstep with rfl | hstep
        · exact ⟨_, hs', hI, hrested⟩
        · exact ⟨s', hs', step_inv hI hstep, step_rested hI hrested hnone hstep⟩
      · exact ⟨fun h => absurd rfl h, fun h => ExitCall.noConfusion h,
          fun h => ExitCall.noConfusion h⟩
    refine hall.mono ?_
    rintro - ⟨s, rfl, -, hrested⟩
    exact ⟨s, rfl, not_stuck hrested⟩
  · intro s w _ hexiting hw hworker
    have hnotify : s.step .notifyAll =
        some { s with monitor := s.monitor.wakeAll, exiting := .finished } := if_pos hexiting
    refine ⟨{ s.setWorker w .waiting with
      monitor := s.monitor.wakeAll.sleep w
      exiting := .finished }, ?_, rfl, w, hw, Monitor.mem_asleep_sleep.mpr (.inl rfl)⟩
    rw [run_cons, next, Option.bind_some, hnotify]
    exact if_pos hworker

/-- A worker finds its predicate false, `Exit` is called, and then the worker goes to sleep. -/
def missedExit : List Move := [.acquire 0, .raise, .notifyAll, .sleep 0]

theorem worker_sleeps_through_exit :
    ∃ s, run next (some (new 2)) missedExit = some s ∧ s.Stuck ∧
      ¬ Always next (fun o => ∀ s ∈ o, ¬ s.Stuck) (some (new 2)) missedExit := by
  have hstuck : ∀ s ∈ run next (some (new 2)) missedExit, s.Stuck := by
    intro s hs
    cases hs
    exact ⟨rfl, 0, by decide, by decide⟩
  refine ⟨_, rfl, hstuck _ rfl, ?_⟩
  rintro ⟨-, -, -, hlast, -⟩
  exact hlast _ rfl (hstuck _ rfl)

end TurtleServer.ThreadPool
