import TurtleServer.Core.ThreadPool

/-!
# Which tasks the thread pool runs

A task is accepted when `SubmitTask` returns a future for it. `accepted_tasks_run` is the condition
under which every accepted task has been run, once, when all workers have returned: no task is
enqueued after the last worker has returned. `SubmitTask` tests `exit_` before it takes the mutex, so
that `Exit` and the ends of all workers may come in between (`late_task_never_runs`).
-/

namespace TurtleServer.ThreadPool

open Lib

/-! ## 1. What is promised -/

/-- Every worker has returned. -/
def AllReturned (s : ThreadPool) : Prop := ∀ w < s.size, s.workers w = .returned

instance (s : ThreadPool) : Decidable s.AllReturned := Nat.decidableBallLT _ _

/-- Tasks leave the queue in the order in which they have come into it; and when all workers have
returned, every task with a future has been dequeued and run exactly once. -/
structure RunsAccepted (s : ThreadPool) : Prop where
  order : s.dequeued <+: s.enqueued
  once : s.AllReturned → ∀ i, s.submits i = .returned → s.dequeued.count i = 1 ∧ s.ran.count i = 1

/-- A task is enqueued only while there is a worker that has not returned. -/
def Attended (o : Option ThreadPool) : Move → Prop
  | .enqueue i => ∀ s ∈ o, s.submits i = .tested → ¬ s.AllReturned
  | _ => True

instance (o : Option ThreadPool) : (move : Move) → Decidable (Attended o move)
  | .enqueue i =>
    match o with
    | none => isTrue fun _ h => absurd h (Option.not_mem_none _)
    | some s => decidable_of_iff (s.submits i = .tested → ¬ s.AllReturned) (by simp [Attended])
  | .test _ => isTrue True.intro
  | .notifyOne _ _ => isTrue True.intro
  | .acquire _ => isTrue True.intro
  | .sleep _ => isTrue True.intro
  | .wake _ => isTrue True.intro
  | .proceed _ => isTrue True.intro
  | .finish _ => isTrue True.intro
  | .raise => isTrue True.intro
  | .notifyAll => isTrue True.intro

/-! ## 2. The invariant -/

/-- What is enqueued is dequeued in this order, and no call enqueues twice. -/
structure Queued (submits : ℕ → Submit) (enqueued dequeued tasks : List ℕ) : Prop where
  fifo : enqueued = dequeued ++ tasks
  distinct : enqueued.Nodup
  called : ∀ i, i ∈ enqueued ↔ submits i = .enqueued ∨ submits i = .returned

/-- What is dequeued is run, or being run by one worker. -/
structure Worked (size : ℕ) (workers : ℕ → Worker) (dequeued ran : List ℕ) : Prop where
  distinct : ran.Nodup
  taken : ∀ i, i ∈ dequeued ↔ i ∈ ran ∨ ∃ w, workers w = .running i
  apart : ∀ w i, workers w = .running i → i ∉ ran
  alone : ∀ w w' i, workers w = .running i → workers w' = .running i → w = w'
  inPool : ∀ w, workers w ≠ .ready → w < size

/-- A worker past the test of its predicate holds the mutex, and what it has found still holds. -/
structure Guarded (workers : ℕ → Worker) (owner : Option ℕ) (exit : Bool) (tasks : List ℕ) :
    Prop where
  holds : ∀ w, workers w = .dozing ∨ workers w = .admitted ↔ owner = some w
  predicate : ∀ w, workers w = .admitted → exit = true ∨ tasks ≠ []

/-- The invariant. -/
structure Inv (s : ThreadPool) : Prop where
  queued : Queued s.submits s.enqueued s.dequeued s.tasks
  worked : Worked s.size s.workers s.dequeued s.ran
  guarded : Guarded s.workers s.monitor.owner s.exit s.tasks

namespace TaskLemmas

variable {s s' : ThreadPool} {move : Move} {size w i task : ℕ} {workers : ℕ → Worker}
  {submits : ℕ → Submit} {enqueued dequeued ran tasks : List ℕ} {worker : Worker} {exit : Bool}

theorem queued_setSubmit (h : Queued submits enqueued dequeued tasks) {submit : Submit}
    (hiff : (submits i = .enqueued ∨ submits i = .returned) ↔
      (submit = .enqueued ∨ submit = .returned)) :
    Queued (Function.update submits i submit) enqueued dequeued tasks where
  fifo := h.fifo
  distinct := h.distinct
  called := by
    refine (Function.forall_update_iff submits
      fun j submit => j ∈ enqueued ↔ submit = .enqueued ∨ submit = .returned).mpr ⟨?_, ?_⟩
    · exact (h.called i).trans hiff
    · exact fun j _ => h.called j

theorem queued_enqueue (h : Queued submits enqueued dequeued tasks) (hcall : submits i = .tested) :
    Queued (Function.update submits i .enqueued) (enqueued ++ [i]) dequeued (tasks ++ [i]) where
  fifo := by rw [h.fifo, List.append_assoc]
  distinct := by
    refine List.nodup_append.mpr ⟨h.distinct, List.nodup_singleton _, ?_⟩
    rintro j hj _ hmem rfl
    rw [List.mem_singleton.mp hmem, h.called, hcall] at hj
    exact hj.elim Submit.noConfusion Submit.noConfusion
  called := by
    refine (Function.forall_update_iff submits
      fun j submit => j ∈ enqueued ++ [i] ↔ submit = .enqueued ∨ submit = .returned).mpr ⟨?_, ?_⟩
    · exact iff_of_true (List.mem_append_right _ List.mem_cons_self) (.inl rfl)
    · intro j hj
      rw [List.mem_append, List.mem_singleton, or_iff_left hj]
      exact h.called j

theorem queued_dequeue (h : Queued submits enqueued dequeued (task :: tasks)) :
    Queued submits enqueued (dequeued ++ [task]) tasks :=
  { h with fifo := by rw [h.fifo, List.append_assoc]; rfl }

theorem inPool_setWorker (h : Worked size workers dequeued ran) (hw : worker ≠ .ready → w < size) :
    ∀ w', Function.update workers w worker w' ≠ .ready → w' < size :=
  (Function.forall_update_iff workers fun w worker => worker ≠ .ready → w < size).mpr
    ⟨hw, fun w' _ => h.inPool w'⟩

/-- A worker changes its place, and it neither ran a task nor runs one now. -/
theorem worked_setWorker (h : Worked size workers dequeued ran) (hw : w < size)
    (hbefore : ∀ i, workers w ≠ .running i) (hafter : ∀ i, worker ≠ .running i) :
    Worked size (Function.update workers w worker) dequeued ran := by
  have hrunning : ∀ w' i, Function.update workers w worker w' = .running i ↔
      workers w' = .running i := by
    refine (Function.forall_update_iff workers
      fun w' worker => ∀ i, worker = .running i ↔ workers w' = .running i).mpr ⟨?_, ?_⟩
    · exact fun i => iff_of_false (hafter i) (hbefore i)
    · exact fun w' _ i => Iff.rfl
  refine ⟨h.distinct, ?_, ?_, ?_, ?_⟩
  · intro i
    simp only [h.taken i, hrunning]
  · intro w' i hw'
    exact h.apart w' i ((hrunning w' i).mp hw')
  · intro w₁ w₂ i h₁ h₂
    exact h.alone w₁ w₂ i ((hrunning w₁ i).mp h₁) ((hrunning w₂ i).mp h₂)
  · exact inPool_setWorker h fun _ => hw

/-- A worker takes a task that was not taken before. -/
theorem worked_take (h : Worked size workers dequeued ran) (hw : w < size)
    (hbefore : ∀ i, workers w ≠ .running i) (hnew : task ∉ dequeued) :
    Worked size (Function.update workers w (.running task)) (dequeued ++ [task]) ran := by
  have hrunning : ∀ w' i, Function.update workers w (.running task) w' = .running i ↔
      w' = w ∧ i = task ∨ workers w' = .running i := by
    refine (Function.forall_update_iff workers fun w' worker =>
      ∀ i, worker = .running i ↔ w' = w ∧ i = task ∨ workers w' = .running i).mpr ⟨?_, ?_⟩
    · intro i
      simp [hbefore i, eq_comm]
    · intro w' hne i
      simp [hne]
  have hfresh : ∀ w', workers w' ≠ .running task := fun w' hw' =>
    hnew ((h.taken task).mpr (.inr ⟨w', hw'⟩))
  refine ⟨h.distinct, ?_, ?_, ?_, ?_⟩
  · intro i
    simp only [List.mem_append, List.mem_singleton, h.taken i, hrunning]
    constructor
    · rintro ((hi | ⟨w', hw'⟩) | rfl)
      · exact .inl hi
      · exact .inr ⟨w', .inr hw'⟩
      · exact .inr ⟨w, .inl ⟨rfl, rfl⟩⟩
    · rintro (hi | ⟨w', ⟨-, rfl⟩ | hw'⟩)
      · exact .inl (.inl hi)
      · exact .inr rfl
      · exact .inl (.inr ⟨w', hw'⟩)
  · intro w' i hw'
    rcases (hrunning w' i).mp hw' with ⟨-, rfl⟩ | hw'
    · exact fun hi => hnew ((h.taken i).mpr (.inl hi))
    · exact h.apart w' i hw'
  · intro w₁ w₂ i h₁ h₂
    rcases (hrunning w₁ i).mp h₁ with ⟨hw₁, hi⟩ | h₁
    · rcases (hrunning w₂ i).mp h₂ with ⟨hw₂, -⟩ | h₂
      · exact hw₁.trans hw₂.symm
      · exact absurd (hi ▸ h₂) (hfresh w₂)
    · rcases (hrunning w₂ i).mp h₂ with ⟨-, hi⟩ | h₂
      · exact absurd (hi ▸ h₁) (hfresh w₁)
      · exact h.alone w₁ w₂ i h₁ h₂
  · exact inPool_setWorker h fun _ => hw

/-- A worker is done with its task. -/
theorem worked_finish (h : Worked size workers dequeued ran) (hworker : workers w = .running task) :
    Worked size (Function.update workers w .ready) dequeued (ran ++ [task]) := by
  have hrunning : ∀ w' i, Function.update workers w .ready w' = .running i ↔
      w' ≠ w ∧ workers w' = .running i := by
    refine (Function.forall_update_iff workers fun w' worker =>
      ∀ i, worker = .running i ↔ w' ≠ w ∧ workers w' = .running i).mpr ⟨?_, ?_⟩
    · intro i
      simp
    · intro w' hne i
      simp [hne]
  refine ⟨?_, ?_, ?_, ?_, ?_⟩
  · refine List.nodup_append.mpr ⟨h.distinct, List.nodup_singleton _, ?_⟩
    rintro j hj _ hmem rfl
    exact h.apart w task hworker (List.mem_singleton.mp hmem ▸ hj)
  · intro i
    simp only [List.mem_append, List.mem_singleton, h.taken i, hrunning]
    constructor
    · rintro (hi | ⟨w', hw'⟩)
      · exact .inl (.inl hi)
      · rcases eq_or_ne w' w with heq | heq
        · rw [heq, hworker] at hw'
          exact .inl (.inr (Worker.running.inj hw').symm)
        · exact .inr ⟨w', heq, hw'⟩
    · rintro ((hi | rfl) | ⟨w', -, hw'⟩)
      · exact .inl hi
      · exact .inr ⟨w, hworker⟩
      · exact .inr ⟨w', hw'⟩
  · intro w' i hw' hi
    obtain ⟨hne, hw'⟩ := (hrunning w' i).mp hw'
    rcases List.mem_append.mp hi with hi | hi
    · exact h.apart w' i hw' hi
    · rw [List.mem_singleton.mp hi] at hw'
      exact hne (h.alone w' w task hw' hworker)
  · intro w₁ w₂ i h₁ h₂
    exact h.alone w₁ w₂ i ((hrunning w₁ i).mp h₁).2 ((hrunning w₂ i).mp h₂).2
  · exact inPool_setWorker h fun hready => absurd rfl hready

/-- A worker takes the free mutex. -/
theorem guarded_lock (h : Guarded workers none exit tasks)
    (hworker : worker = .dozing ∨ worker = .admitted)
    (hpredicate : worker = .admitted → exit = true ∨ tasks ≠ []) :
    Guarded (Function.update workers w worker) (some w) exit tasks := by
  have hnone : ∀ w', ¬ (workers w' = .dozing ∨ workers w' = .admitted) := fun w' hw' =>
    absurd ((h.holds w').mp hw') (Option.some_ne_none w').symm
  constructor
  · refine (Function.forall_update_iff workers
      fun w' worker => worker = .dozing ∨ worker = .admitted ↔ some w = some w').mpr ⟨?_, ?_⟩
    · exact iff_of_true hworker rfl
    · exact fun w' hne => iff_of_false (hnone w') fun hw' => hne (Option.some.inj hw').symm
  · refine (Function.forall_update_iff workers
      fun _ worker => worker = .admitted → exit = true ∨ tasks ≠ []).mpr ⟨hpredicate, ?_⟩
    exact fun w' _ hw' => absurd (.inr hw') (hnone w')

/-- The worker that holds the mutex gives it up. -/
theorem guarded_release {owner : Option ℕ} (h : Guarded workers owner exit tasks)
    (hbefore : workers w = .dozing ∨ workers w = .admitted)
    (hafter : ¬ (worker = .dozing ∨ worker = .admitted)) (tasks' : List ℕ) :
    Guarded (Function.update workers w worker) none exit tasks' := by
  have hnone : ∀ w', ¬ (Function.update workers w worker w' = .dozing ∨
      Function.update workers w worker w' = .admitted) := by
    refine (Function.forall_update_iff workers
      fun _ worker => ¬ (worker = .dozing ∨ worker = .admitted)).mpr ⟨hafter, ?_⟩
    intro w' hne hw'
    exact hne (Option.some.inj (((h.holds w').mp hw').symm.trans ((h.holds w).mp hbefore)))
  exact ⟨fun w' => iff_of_false (hnone w') (Option.some_ne_none w').symm,
    fun w' hw' => absurd (.inr hw') (hnone w')⟩

/-- A worker without the mutex changes its place. -/
theorem guarded_setWorker {owner : Option ℕ} (h : Guarded workers owner exit tasks)
    (hbefore : ¬ (workers w = .dozing ∨ workers w = .admitted))
    (hafter : ¬ (worker = .dozing ∨ worker = .admitted)) :
    Guarded (Function.update workers w worker) owner exit tasks := by
  have hsame : ∀ w', (Function.update workers w worker w' = .dozing ∨
      Function.update workers w worker w' = .admitted) ↔
        (workers w' = .dozing ∨ workers w' = .admitted) := by
    refine (Function.forall_update_iff workers fun w' worker => (worker = .dozing ∨
      worker = .admitted) ↔ (workers w' = .dozing ∨ workers w' = .admitted)).mpr ⟨?_, ?_⟩
    · exact iff_of_false hafter hbefore
    · exact fun w' _ => Iff.rfl
  refine ⟨fun w' => (hsame w').trans (h.holds w'), ?_⟩
  refine (Function.forall_update_iff workers
    fun _ worker => worker = .admitted → exit = true ∨ tasks ≠ []).mpr ⟨?_, ?_⟩
  · exact fun hw' => absurd (.inr hw') hafter
  · exact fun w' _ => h.predicate w'

theorem wants_not_running (h : s.Wants w) (i : ℕ) : s.workers w ≠ .running i := by
  rcases h with h | ⟨h, -⟩
  · rw [h]
    exact Worker.noConfusion
  · rw [h]
    exact Worker.noConfusion

theorem step_inv (hI : Inv s) (h : Step s move s') : Inv s' := by
  obtain ⟨hq, hw, hg⟩ := hI
  cases h with
  | throw hcall hexit => exact ⟨queued_setSubmit hq (by simp [hcall]), hw, hg⟩
  | test hcall hexit => exact ⟨queued_setSubmit hq (by simp [hcall]), hw, hg⟩
  | enqueue hcall hfree =>
    refine ⟨queued_enqueue hq hcall, hw, hg.holds, fun w hworker => .inr ?_⟩
    exact List.append_ne_nil_of_right_ne_nil _ (List.cons_ne_nil _ _)
  | notifyOne hcall hwake => exact ⟨queued_setSubmit hq (by simp [hcall]), hw, hg⟩
  | enter hlt hwants hfree hpredicate =>
    rw [hfree] at hg
    exact ⟨hq, worked_setWorker hw hlt (wants_not_running hwants) (by simp),
      guarded_lock hg (.inr rfl) fun _ => hpredicate⟩
  | doze hlt hwants hfree hexit htasks =>
    rw [hfree] at hg
    exact ⟨hq, worked_setWorker hw hlt (wants_not_running hwants) (by simp),
      guarded_lock hg (.inl rfl) (by simp)⟩
  | sleep hworker =>
    exact ⟨hq, worked_setWorker hw (hw.inPool _ (by simp [hworker])) (by simp [hworker]) (by simp),
      guarded_release hg (.inl hworker) (by simp) _⟩
  | wake => exact ⟨hq, hw, hg⟩
  | leave hworker hexit htasks =>
    exact ⟨hq, worked_setWorker hw (hw.inPool _ (by simp [hworker])) (by simp [hworker]) (by simp),
      guarded_release hg (.inr hworker) (by simp) _⟩
  | @take w task tasks hworker htasks =>
    rw [htasks] at hq
    have hnew : task ∉ s.dequeued := by
      have hnodup := hq.distinct
      rw [hq.fifo] at hnodup
      exact (List.nodup_cons.mp (List.nodup_middle.mp hnodup)).1 ∘ List.mem_append_left _
    exact ⟨queued_dequeue hq,
      worked_take hw (hw.inPool _ (by simp [hworker])) (by simp [hworker]) hnew,
      guarded_release hg (.inr hworker) (by simp) _⟩
  | finish hworker =>
    exact ⟨hq, worked_finish hw hworker, guarded_setWorker hg (by simp [hworker]) (by simp)⟩
  | raise hexiting => exact ⟨hq, hw, hg.holds, fun w hworker => .inl rfl⟩
  | notifyAll hexiting => exact ⟨hq, hw, hg⟩

/-- No step is undefined. -/
theorem step_defined (hI : Inv s) (move : Move) :
    ∃ s', s.step move = some s' ∧ (s' = s ∨ Step s move s') := by
  rcases step_cases s move with h | ⟨s', h, hstep⟩ | ⟨w, hworker, hexit, htasks⟩
  · exact ⟨s, h, .inl rfl⟩
  · exact ⟨s', h, .inr hstep⟩
  · rcases hI.guarded.predicate w hworker with h | h
    · rw [hexit] at h
      exact absurd h Bool.false_ne_true
    · exact absurd htasks h

theorem inv_new (size : ℤ) : Inv (new size) where
  queued := ⟨rfl, List.nodup_nil, by simp [new]⟩
  worked := ⟨List.nodup_nil, by simp [new], by simp [new], by simp [new], by simp [new]⟩
  guarded := ⟨by simp [new], by simp [new]⟩

/-- When all workers have returned, nothing is left in the queue. -/
def Drained (s : ThreadPool) : Prop := s.AllReturned → s.tasks = []

theorem not_allReturned (hw : w < s.size) (h : s.workers w ≠ .returned) : ¬ s.AllReturned :=
  fun hall => h (hall w hw)

/-- A worker that returns has found the queue empty. -/
theorem step_drained (hI : Inv s) (hdrained : Drained s) (hattended : Attended (some s) move)
    (h : Step s move s') : Drained s' := by
  have hin : ∀ w, s.workers w ≠ .ready → w < s.size := hI.worked.inPool
  cases h with
  | throw hcall hexit => exact hdrained
  | test hcall hexit => exact hdrained
  | enqueue hcall hfree => exact fun hall => absurd hall (hattended s rfl hcall)
  | notifyOne hcall hwake => exact hdrained
  | enter hw hwants hfree hpredicate =>
    exact fun hall => absurd hall (not_allReturned hw (by simp [setWorker]))
  | doze hw hwants hfree hexit htasks => exact fun _ => htasks
  | @sleep w hworker =>
    exact fun hall => absurd hall (not_allReturned (hin w (by simp [hworker])) (by simp [setWorker]))
  | wake => exact hdrained
  | leave hworker hexit htasks => exact fun _ => htasks
  | @take w task tasks hworker htasks =>
    exact fun hall => absurd hall (not_allReturned (hin w (by simp [hworker])) (by simp [setWorker]))
  | @finish w task hworker =>
    exact fun hall => absurd hall (not_allReturned (hin w (by simp [hworker])) (by simp [setWorker]))
  | raise hexiting => exact hdrained
  | notifyAll hexiting => exact hdrained

theorem runsAccepted_of_drained (hI : Inv s) (hdrained : Drained s) : RunsAccepted s where
  order := by
    rw [hI.queued.fifo]
    exact List.prefix_append _ _
  once := by
    intro hall i hi
    have hfifo := hI.queued.fifo
    rw [hdrained hall, List.append_nil] at hfifo
    have hmem : i ∈ s.dequeued := hfifo ▸ (hI.queued.called i).mpr (.inr hi)
    have hran : i ∈ s.ran := by
      rcases (hI.worked.taken i).mp hmem with hran | ⟨w, hw⟩
      · exact hran
      · have hreturned := hall w (hI.worked.inPool w (by simp [hw]))
        rw [hw] at hreturned
        exact Worker.noConfusion hreturned
    exact ⟨List.count_eq_one_of_mem (hfifo ▸ hI.queued.distinct) hmem,
      List.count_eq_one_of_mem hI.worked.distinct hran⟩

/-- Task `i` is in the queue and nobody is left to run it. -/
structure Lost (i : ℕ) (s : ThreadPool) : Prop where
  returned : s.AllReturned
  queued : i ∈ s.tasks

/-- A lost task stays lost. -/
theorem step_lost (hI : Inv s) (hlost : Lost i s) (h : Step s move s') : Lost i s' := by
  obtain ⟨hall, hmem⟩ := hlost
  have hnot : ∀ w, s.workers w = .ready ∨ s.workers w = .returned := by
    intro w
    by_cases hw : s.workers w = .ready
    · exact .inl hw
    · exact .inr (hall w (hI.worked.inPool w hw))
  cases h with
  | throw hcall hexit => exact ⟨hall, hmem⟩
  | test hcall hexit => exact ⟨hall, hmem⟩
  | enqueue hcall hfree => exact ⟨hall, List.mem_append_left _ hmem⟩
  | notifyOne hcall hwake => exact ⟨hall, hmem⟩
  | enter hw hwants hfree hpredicate => exact absurd hwants (by simp [Wants, hall _ hw])
  | doze hw hwants hfree hexit htasks => exact absurd hwants (by simp [Wants, hall _ hw])
  | @sleep w hworker => exact absurd (hnot w) (by simp [hworker])
  | wake => exact ⟨hall, hmem⟩
  | @leave w hworker hexit htasks => exact absurd (hnot w) (by simp [hworker])
  | @take w task tasks hworker htasks => exact absurd (hnot w) (by simp [hworker])
  | @finish w task hworker => exact absurd (hnot w) (by simp [hworker])
  | raise hexiting => exact ⟨hall, hmem⟩
  | notifyAll hexiting => exact ⟨hall, hmem⟩

/-- A task with a future that is lost breaks the promise. -/
theorem not_runsAccepted_of_lost (hI : Inv s) (hlost : Lost i s)
    (hsettled : s.submits i ≠ .enqueued) : ¬ RunsAccepted s := by
  intro hruns
  have hmem : i ∈ s.enqueued := by
    rw [hI.queued.fifo]
    exact List.mem_append_right _ hlost.queued
  have hreturned : s.submits i = .returned := ((hI.queued.called i).mp hmem).resolve_left hsettled
  obtain ⟨hcount, -⟩ := hruns.once hlost.returned i hreturned
  have hdequeued : i ∈ s.dequeued := List.count_pos_iff.mp (hcount ▸ Nat.one_pos)
  have hnodup := hI.queued.distinct
  rw [hI.queued.fifo] at hnodup
  exact (List.nodup_append.mp hnodup).2.2 i hdequeued i hlost.queued rfl

/-- An enqueuing that comes too late loses its task. -/
theorem enqueue_lost (hI : Inv s) (hcall : s.submits i = .tested) (hall : s.AllReturned) :
    ∃ s', s.step (.enqueue i) = some s' ∧ Inv s' ∧ Lost i s' := by
  have hfree : s.monitor.owner = none := by
    cases howner : s.monitor.owner with
    | none => rfl
    | some w =>
      have hworker := (hI.guarded.holds w).mpr howner
      have hw : w < s.size := hI.worked.inPool w (by rcases hworker with h | h <;> simp [h])
      rw [hall w hw] at hworker
      exact absurd hworker (by simp)
  refine ⟨_, if_pos ⟨hcall, hfree⟩, step_inv hI (.enqueue hcall hfree), hall, ?_⟩
  exact List.mem_append_right _ List.mem_cons_self

/-- What an enqueuing that comes too late brings about. -/
def SomeLost (o : Option ThreadPool) : Prop := ∃ s i, o = some s ∧ Inv s ∧ Lost i s

/-- A run with an enqueuing that comes too late ends with a lost task. -/
theorem lost_of_not_attended (moves : List Move) (hI : Inv s)
    (h : ¬ Along next Attended (some s) moves) : SomeLost (run next (some s) moves) := by
  refine run_of_not_along (I := fun o => ∃ s, o = some s ∧ Inv s) ?_ ?_ ?_ ⟨s, rfl, hI⟩ h
  · rintro - move ⟨s, rfl, hI⟩
    obtain ⟨s', hs', hstep⟩ := step_defined hI move
    rcases hstep with rfl | hstep
    · exact ⟨_, hs', hI⟩
    · exact ⟨s', hs', step_inv hI hstep⟩
  · rintro - move ⟨s, rfl, hI⟩ hattended
    cases move with
    | enqueue i =>
      obtain ⟨hcall, hall⟩ : s.submits i = .tested ∧ s.AllReturned := by
        simpa [Attended] using hattended
      obtain ⟨s', hs', hI', hlost⟩ := enqueue_lost hI hcall hall
      exact ⟨s', i, hs', hI', hlost⟩
    | _ => exact absurd True.intro hattended
  · rintro - move - ⟨s, i, rfl, hI, hlost⟩
    obtain ⟨s', hs', hstep⟩ := step_defined hI move
    rcases hstep with rfl | hstep
    · exact ⟨_, i, hs', hI, hlost⟩
    · exact ⟨s', i, hs', step_inv hI hstep, step_lost hI hlost hstep⟩

end TaskLemmas

open TaskLemmas

/-! ## 3. Runs -/

/-- When no task is enqueued too late, the promise is kept in every state of the run. When one is, and
all calls of `SubmitTask` have come to their end, it is broken. -/
theorem accepted_tasks_run (size : ℤ) (moves : List Move) :
    (Along next Attended (some (new size)) moves →
      Always next (fun o => ∃ s, o = some s ∧ s.RunsAccepted) (some (new size)) moves) ∧
    ∀ s, run next (some (new size)) moves = some s → (∀ i, s.submits i ≠ .enqueued) →
      s.RunsAccepted → Along next Attended (some (new size)) moves := by
  constructor
  · intro halong
    have hall : Always next (fun o => ∃ s, o = some s ∧ Inv s ∧ Drained s) (some (new size))
        moves := by
      refine always_of_along ?_ ⟨_, rfl, inv_new size, fun _ => rfl⟩ halong
      rintro - move ⟨s, rfl, hI, hdrained⟩ hattended
      obtain ⟨s', hs', hstep⟩ := step_defined hI move
      rcases hstep with rfl | hstep
      · exact ⟨_, hs', hI, hdrained⟩
      · exact ⟨s', hs', step_inv hI hstep, step_drained hI hdrained hattended hstep⟩
    refine hall.mono ?_
    rintro - ⟨s, rfl, hI, hdrained⟩
    exact ⟨s, rfl, runsAccepted_of_drained hI hdrained⟩
  · intro s hrun hsettled hruns
    by_contra hnot
    obtain ⟨s', i, hrun', hI, hlost⟩ := lost_of_not_attended moves (inv_new size) hnot
    cases hrun.symm.trans hrun'
    exact not_runsAccepted_of_lost hI hlost (hsettled i) hruns

/-- `SubmitTask` finds `exit_` unset, `Exit` is called, both workers return, and then the task is
enqueued. -/
def lateSubmit : List Move :=
  [.test 0, .raise, .notifyAll, .acquire 0, .proceed 0, .acquire 1, .proceed 1, .enqueue 0,
    .notifyOne 0 0]

/-- The caller has a future for a task that no worker will ever run. -/
theorem late_task_never_runs :
    ∃ s, run next (some (new 2)) lateSubmit = some s ∧ s.AllReturned ∧ s.submits 0 = .returned ∧
      s.ran = [] ∧ ¬ s.RunsAccepted := by
  refine ⟨_, rfl, by decide, by decide, by decide, fun hruns => ?_⟩
  exact absurd (hruns.once (by decide) 0 (by decide)).1 (by decide)

end TurtleServer.ThreadPool
