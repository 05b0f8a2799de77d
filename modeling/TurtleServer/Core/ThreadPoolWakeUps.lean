import TurtleServer.Core.ThreadPoolTasks

/-!
# Queued tasks and sleeping workers

`SubmitTask` notifies once for every task, after it has given up the mutex, and `notify_one` may wake
a worker that then finds its task gone. `tasks_served`: this loses no wake-up. As long as a worker
sleeps, there are at least as many workers on their way to the queue, and calls about to notify, as
there are tasks in it. When nobody is on the way any more and a task is still in the queue, each of the
workers is running a task or has returned.
-/

namespace TurtleServer.ThreadPool

open Lib TaskLemmas

/-! ## 1. What is promised -/

/-- Worker `w` will look at the queue before it sleeps. -/
def Attends (s : ThreadPool) (w : ℕ) : Prop := s.Wants w ∨ s.workers w = .admitted

instance (s : ThreadPool) (w : ℕ) : Decidable (s.Attends w) := inferInstanceAs (Decidable (_ ∨ _))

/-- The workers on their way to the queue. -/
def attending (s : ThreadPool) : Finset ℕ := (Finset.range s.size).filter s.Attends

/-- The calls of `SubmitTask` that have enqueued their task and not yet notified. -/
def notifying (s : ThreadPool) : Finset ℕ :=
  s.enqueued.toFinset.filter fun i => s.submits i = .enqueued

/-- As long as a worker sleeps, somebody cares for every task in the queue. -/
def Served (s : ThreadPool) : Prop :=
  s.monitor.asleep.Nonempty → s.tasks.length ≤ s.attending.card + s.notifying.card

/-- Nobody is on the way to the queue, and no call is about to notify. -/
def Quiet (s : ThreadPool) : Prop := s.attending = ∅ ∧ s.notifying = ∅

/-- Worker `w` is running a task, or it has returned. -/
def Occupied (s : ThreadPool) (w : ℕ) : Prop :=
  (∃ task, s.workers w = .running task) ∨ s.workers w = .returned

/-! ## 2. The invariant -/

/-- A worker in the wait set is inside `cv_.wait`, and one about to join it has found the queue
empty. -/
structure Heard (s : ThreadPool) : Prop where
  asleep : ∀ w ∈ s.monitor.asleep, s.workers w = .waiting
  dozing : ∀ w, s.workers w = .dozing → s.tasks = []
  served : s.Served

namespace WakeUpLemmas

variable {s s' : ThreadPool} {move : Move} {w i : ℕ}

theorem mem_attending : w ∈ s.attending ↔ w < s.size ∧ s.Attends w := by
  simp [attending]

theorem mem_notifying : i ∈ s.notifying ↔ i ∈ s.enqueued ∧ s.submits i = .enqueued := by
  simp [notifying]

/-! ### Counting workers -/

theorem card_attending_le (hsize : s'.size = s.size) (h : ∀ w, s.Attends w → s'.Attends w) :
    s.attending.card ≤ s'.attending.card := by
  refine Finset.card_le_card fun w hw => ?_
  obtain ⟨hlt, hattends⟩ := mem_attending.mp hw
  exact mem_attending.mpr ⟨hsize ▸ hlt, h w hattends⟩

/-- At most one worker has left. -/
theorem card_attending_le_succ (hsize : s'.size = s.size)
    (h : ∀ w', w' ≠ w → s.Attends w' → s'.Attends w') :
    s.attending.card ≤ s'.attending.card + 1 := by
  have hsub : s.attending ⊆ insert w s'.attending := by
    intro w' hw'
    obtain ⟨hlt, hattends⟩ := mem_attending.mp hw'
    rcases eq_or_ne w' w with rfl | hne
    · exact Finset.mem_insert_self _ _
    · exact Finset.mem_insert_of_mem (mem_attending.mpr ⟨hsize ▸ hlt, h w' hne hattends⟩)
  exact (Finset.card_le_card hsub).trans (Finset.card_insert_le _ _)

/-- One worker has come. -/
theorem succ_card_attending_le (hsize : s'.size = s.size) (hw : w < s.size)
    (hbefore : ¬ s.Attends w) (hafter : s'.Attends w) (h : ∀ w', s.Attends w' → s'.Attends w') :
    s.attending.card + 1 ≤ s'.attending.card := by
  have hnot : w ∉ s.attending := fun hmem => hbefore (mem_attending.mp hmem).2
  have hsub : insert w s.attending ⊆ s'.attending := by
    intro w' hw'
    rcases Finset.mem_insert.mp hw' with rfl | hmem
    · exact mem_attending.mpr ⟨hsize ▸ hw, hafter⟩
    · obtain ⟨hlt, hattends⟩ := mem_attending.mp hmem
      exact mem_attending.mpr ⟨hsize ▸ hlt, h w' hattends⟩
  rw [← Finset.card_insert_of_notMem hnot]
  exact Finset.card_le_card hsub

/-- A worker's move leaves the others where they are. -/
theorem attends_update {worker : Worker} (hworkers : s'.workers = Function.update s.workers w worker)
    (hasleep : ∀ w', w' ≠ w → w' ∉ s.monitor.asleep → w' ∉ s'.monitor.asleep) :
    ∀ w', w' ≠ w → s.Attends w' → s'.Attends w' := by
  intro w' hne hattends
  have hsame : s'.workers w' = s.workers w' := by rw [hworkers, Function.update_of_ne hne]
  unfold Attends Wants at hattends ⊢
  rw [hsame]
  exact hattends.imp_left (Or.imp_right (And.imp_right (hasleep w' hne)))

/-- Nobody is sent back to sleep. -/
theorem attends_of_subset (hworkers : s'.workers = s.workers)
    (hasleep : s'.monitor.asleep ⊆ s.monitor.asleep) : ∀ w, s.Attends w → s'.Attends w := by
  intro w hattends
  unfold Attends Wants at hattends ⊢
  rw [hworkers]
  exact hattends.imp_left (Or.imp_right (And.imp_right fun hnot hmem => hnot (hasleep hmem)))

/-! ### Counting calls -/

/-- A call that is not about to notify changes nothing. -/
theorem notifying_setSubmit {submit : Submit} (hbefore : s.submits i ≠ .enqueued)
    (hafter : submit ≠ .enqueued) : (s.setSubmit i submit).notifying = s.notifying := by
  ext j
  rw [mem_notifying, mem_notifying]
  refine and_congr_right fun _ => ?_
  rcases eq_or_ne j i with rfl | hne
  · exact iff_of_false (by simpa [setSubmit] using hafter) hbefore
  · simp [setSubmit, hne]

/-- A call that has enqueued its task is about to notify. -/
theorem card_notifying_enqueue (hcall : s.submits i = .tested)
    (hsubmits : s'.submits = Function.update s.submits i .enqueued)
    (henqueued : s'.enqueued = s.enqueued ++ [i]) :
    s'.notifying.card = s.notifying.card + 1 := by
  have hnot : i ∉ s.notifying := fun hmem => by
    rw [mem_notifying, hcall] at hmem
    exact Submit.noConfusion hmem.2
  have heq : s'.notifying = insert i s.notifying := by
    ext j
    rw [Finset.mem_insert, mem_notifying, mem_notifying, hsubmits, henqueued, List.mem_append,
      List.mem_singleton]
    rcases eq_or_ne j i with rfl | hne
    · simp
    · simp [hne]
  rw [heq, Finset.card_insert_of_notMem hnot]

/-- A call that notifies is done. -/
theorem card_notifying_return (hI : Inv s) (hcall : s.submits i = .enqueued)
    (hsubmits : s'.submits = Function.update s.submits i .returned)
    (henqueued : s'.enqueued = s.enqueued) : s.notifying.card = s'.notifying.card + 1 := by
  have hmem : i ∈ s.notifying := mem_notifying.mpr ⟨(hI.queued.called i).mpr (.inl hcall), hcall⟩
  have heq : s'.notifying = s.notifying.erase i := by
    ext j
    rw [Finset.mem_erase, mem_notifying, mem_notifying, hsubmits, henqueued]
    rcases eq_or_ne j i with rfl | hne
    · simp
    · simp [hne]
  rw [heq, Finset.card_erase_add_one hmem]

/-! ### One step -/

theorem not_attends_of_asleep (h : Heard s) (hw : w ∈ s.monitor.asleep) : ¬ s.Attends w := by
  simp [Attends, Wants, h.asleep w hw, hw]

/-- The mutex is free: nobody is about to join the wait set. -/
theorem not_dozing_of_free (hI : Inv s) (hfree : s.monitor.owner = none) :
    s.workers w ≠ .dozing := fun hworker =>
  Option.some_ne_none w (((hI.guarded.holds w).mp (.inl hworker)).symm.trans hfree)

/-- The holder of the mutex is the only one that may be about to join the wait set. -/
theorem not_dozing_of_admitted (hI : Inv s) (hworker : s.workers w = .admitted) (w' : ℕ) :
    s.workers w' ≠ .dozing := by
  intro hdozing
  have howner : s.monitor.owner = some w := (hI.guarded.holds w).mp (.inr hworker)
  have howner' : s.monitor.owner = some w' := (hI.guarded.holds w').mp (.inl hdozing)
  cases Option.some.inj (howner.symm.trans howner')
  exact Worker.noConfusion (hworker.symm.trans hdozing)

theorem not_asleep_of_wants (h : s.Wants w) (hheard : Heard s) : w ∉ s.monitor.asleep := by
  intro hmem
  rcases h with hready | ⟨-, hnot⟩
  · exact Worker.noConfusion ((hheard.asleep w hmem).symm.trans hready)
  · exact hnot hmem

theorem not_asleep_of_ne (h : Heard s) (hworker : s.workers w ≠ .waiting) :
    w ∉ s.monitor.asleep := fun hmem => hworker (h.asleep w hmem)

/-- A worker outside the wait set moves, and the wait set stays as it is. -/
theorem asleep_update {worker : Worker} (h : Heard s) (hw : w ∉ s.monitor.asleep) :
    ∀ w' ∈ s.monitor.asleep, Function.update s.workers w worker w' = .waiting := by
  intro w' hw'
  have hne : w' ≠ w := fun heq => hw (heq ▸ hw')
  rw [Function.update_of_ne hne]
  exact h.asleep w' hw'

theorem dozing_update {worker : Worker} {tasks : List ℕ} (hworker : worker ≠ .dozing)
    (h : ∀ w', s.workers w' = .dozing → tasks = []) :
    ∀ w', Function.update s.workers w worker w' = .dozing → tasks = [] :=
  (Function.forall_update_iff s.workers fun _ worker => worker = .dozing → tasks = []).mpr
    ⟨fun heq => absurd heq hworker, fun w' _ => h w'⟩

theorem served_of_nil (htasks : s.tasks = []) : s.Served := by
  intro _
  rw [htasks]
  exact Nat.zero_le _

theorem served_of_wakeAll (hasleep : s.monitor.asleep = ∅) : s.Served := by
  intro hsome
  rw [hasleep] at hsome
  exact absurd hsome Finset.not_nonempty_empty

/-- A wake-up brings a worker to the queue. -/
theorem succ_card_attending_wake (hI : Inv s) (h : Heard s) (hw : w ∈ s.monitor.asleep)
    (hsize : s'.size = s.size) (hworkers : s'.workers = s.workers)
    (hmonitor : s'.monitor = s.monitor.wake w) : s.attending.card + 1 ≤ s'.attending.card := by
  have hwaiting : s.workers w = .waiting := h.asleep w hw
  have hlt : w < s.size := hI.worked.inPool w (by simp [hwaiting])
  refine succ_card_attending_le hsize hlt (not_attends_of_asleep h hw) ?_ ?_
  · refine .inl (.inr ⟨by rw [hworkers, hwaiting], ?_⟩)
    simp [hmonitor]
  · refine attends_of_subset hworkers ?_
    rw [hmonitor]
    exact Finset.erase_subset _ _

/-- Who cares for the tasks may change, as long as there are enough of them. -/
theorem served_of_le (h : s.Served) (hsome : s'.monitor.asleep.Nonempty → s.monitor.asleep.Nonempty)
    (hle : s'.tasks.length + (s.attending.card + s.notifying.card) ≤
      s.tasks.length + (s'.attending.card + s'.notifying.card)) : s'.Served := by
  intro hasleep
  have hserved := h (hsome hasleep)
  omega

/-- The call that enqueues a task cares for it. -/
theorem served_enqueue (h : Heard s) (hcall : s.submits i = .tested) :
    Served { s.setSubmit i .enqueued with tasks := s.tasks ++ [i], enqueued := s.enqueued ++ [i] } := by
  let s' : ThreadPool :=
    { s.setSubmit i .enqueued with tasks := s.tasks ++ [i], enqueued := s.enqueued ++ [i] }
  have hcalls : s'.notifying.card = s.notifying.card + 1 := card_notifying_enqueue hcall rfl rfl
  have hworkers : s'.attending = s.attending := rfl
  show s'.Served
  refine served_of_le h.served id ?_
  rw [hcalls, hworkers, List.length_append, List.length_singleton]
  omega

/-- `notify_one` hands the care for one task over to a worker. -/
theorem served_notifyOne (hI : Inv s) (h : Heard s) (hcall : s.submits i = .enqueued)
    (hwake : s.monitor.MayWake w) :
    Served { s.setSubmit i .returned with monitor := s.monitor.wake w } := by
  let s' : ThreadPool := { s.setSubmit i .returned with monitor := s.monitor.wake w }
  rcases hwake with hw | hnone
  · have hcalls : s.notifying.card = s'.notifying.card + 1 :=
      card_notifying_return hI hcall rfl rfl
    have hworkers : s.attending.card + 1 ≤ s'.attending.card :=
      succ_card_attending_wake hI h hw rfl rfl rfl
    show s'.Served
    refine served_of_le h.served (fun _ => ⟨w, hw⟩) (Nat.add_le_add_left ?_ _)
    omega
  · refine served_of_wakeAll ?_
    show s.monitor.asleep.erase w = ∅
    rw [hnone, Finset.erase_empty]

/-- A task goes with the worker that has cared for it. -/
theorem served_take {task : ℕ} {tasks : List ℕ} (h : Heard s) (htasks : s.tasks = task :: tasks) :
    Served { s.setWorker w (.running task) with
      tasks := tasks
      monitor := s.monitor.unlock
      dequeued := s.dequeued ++ [task] } := by
  let s' : ThreadPool :=
    { s.setWorker w (.running task) with
      tasks := tasks
      monitor := s.monitor.unlock
      dequeued := s.dequeued ++ [task] }
  have hworkers : s.attending.card ≤ s'.attending.card + 1 :=
    card_attending_le_succ rfl (attends_update rfl fun _ _ hnot => hnot)
  have hcalls : s'.notifying = s.notifying := rfl
  show s'.Served
  refine served_of_le h.served id ?_
  rw [hcalls, htasks, List.length_cons]
  show tasks.length + _ ≤ _
  omega

/-- A worker moves and is still, or again, on its way to the queue. -/
theorem served_attends (h : Heard s) (hsize : s'.size = s.size) (htasks : s'.tasks = s.tasks)
    (hnotifying : s'.notifying = s.notifying) (hasleep : s'.monitor.asleep ⊆ s.monitor.asleep)
    (hattends : ∀ w, s.Attends w → s'.Attends w) : s'.Served := by
  refine served_of_le h.served (fun hsome => hsome.mono hasleep) ?_
  rw [htasks, hnotifying]
  exact Nat.add_le_add_left (Nat.add_le_add_right (card_attending_le hsize hattends) _) _

theorem attends_update_self {worker : Worker}
    (hworkers : s'.workers = Function.update s.workers w worker)
    (hmonitor : s'.monitor.asleep = s.monitor.asleep) (hself : s'.Attends w) :
    ∀ w', s.Attends w' → s'.Attends w' := by
  intro w' hattends
  rcases eq_or_ne w' w with rfl | hne
  · exact hself
  · exact attends_update hworkers (fun _ _ hnot => hmonitor ▸ hnot) w' hne hattends

theorem step_heard (hI : Inv s) (h : Heard s) (hstep : Step s move s') : Heard s' := by
  cases hstep with
  | throw hcall hexit =>
    refine ⟨h.asleep, h.dozing, served_attends h rfl rfl ?_ subset_rfl fun _ hw => hw⟩
    exact notifying_setSubmit (by simp [hcall]) Submit.noConfusion
  | test hcall hexit =>
    refine ⟨h.asleep, h.dozing, served_attends h rfl rfl ?_ subset_rfl fun _ hw => hw⟩
    exact notifying_setSubmit (by simp [hcall]) Submit.noConfusion
  | enqueue hcall hfree =>
    refine ⟨h.asleep, fun w hworker => ?_, served_enqueue h hcall⟩
    exact absurd hworker (not_dozing_of_free (s := s) hI hfree)
  | notifyOne hcall hwake =>
    refine ⟨fun w hw => h.asleep w (Monitor.mem_asleep_wake.mp hw).2, h.dozing, ?_⟩
    exact served_notifyOne hI h hcall hwake
  | enter hw hwants hfree hpredicate =>
    refine ⟨asleep_update h (not_asleep_of_wants hwants h),
      dozing_update Worker.noConfusion h.dozing, served_attends h rfl rfl rfl subset_rfl ?_⟩
    exact attends_update_self rfl rfl (.inr (Function.update_self ..))
  | doze hw hwants hfree hexit htasks =>
    exact ⟨asleep_update h (not_asleep_of_wants hwants h), fun _ _ => htasks, served_of_nil htasks⟩
  | @sleep w hworker =>
    have htasks : s.tasks = [] := h.dozing w hworker
    refine ⟨fun w' hw' => ?_, fun _ _ => htasks, served_of_nil htasks⟩
    rcases Monitor.mem_asleep_sleep.mp hw' with rfl | hmem
    · exact Function.update_self ..
    · exact asleep_update h (not_asleep_of_ne h (by simp [hworker])) w' hmem
  | wake =>
    refine ⟨fun w' hw' => h.asleep w' (Monitor.mem_asleep_wake.mp hw').2, h.dozing,
      served_attends h rfl rfl rfl (Finset.erase_subset _ _) ?_⟩
    exact attends_of_subset rfl (Finset.erase_subset _ _)
  | leave hworker hexit htasks =>
    exact ⟨asleep_update h (not_asleep_of_ne h (by simp [hworker])), fun _ _ => htasks,
      served_of_nil htasks⟩
  | take hworker htasks =>
    refine ⟨asleep_update h (not_asleep_of_ne h (by simp [hworker])), ?_, served_take h htasks⟩
    exact dozing_update Worker.noConfusion fun w' hdozing =>
      absurd hdozing (not_dozing_of_admitted hI hworker w')
  | finish hworker =>
    refine ⟨asleep_update h (not_asleep_of_ne h (by simp [hworker])),
      dozing_update Worker.noConfusion h.dozing, served_attends h rfl rfl rfl subset_rfl ?_⟩
    exact attends_update_self rfl rfl (.inl (.inl (Function.update_self ..)))
  | raise hexiting => exact ⟨h.asleep, h.dozing, h.served⟩
  | notifyAll hexiting =>
    exact ⟨fun w hw => absurd hw (Finset.notMem_empty w), h.dozing, served_of_wakeAll rfl⟩

theorem heard_new (size : ℤ) : Heard (new size) :=
  ⟨fun w hw => absurd hw (Finset.notMem_empty w), fun _ _ => rfl, served_of_nil rfl⟩

/-- A worker that nobody expects at the queue is busy, asleep or gone. -/
theorem occupied_of_quiet (h : Heard s) (hquiet : s.Quiet) (htasks : s.tasks ≠ [])
    (hw : w < s.size) : s.Occupied w := by
  have hasleep : s.monitor.asleep = ∅ := by
    by_contra hne
    have hserved := h.served (Finset.nonempty_iff_ne_empty.mpr hne)
    rw [hquiet.1, hquiet.2] at hserved
    exact htasks (List.length_eq_zero_iff.mp (Nat.le_zero.mp hserved))
  have hnot : ¬ s.Attends w := fun hattends => by
    have hmem : w ∈ s.attending := mem_attending.mpr ⟨hw, hattends⟩
    rw [hquiet.1] at hmem
    exact Finset.notMem_empty w hmem
  cases hworker : s.workers w with
  | ready => exact absurd (.inl (.inl hworker)) hnot
  | dozing => exact absurd (h.dozing w hworker) htasks
  | waiting => exact absurd (.inl (.inr ⟨hworker, by simp [hasleep]⟩)) hnot
  | admitted => exact absurd (.inr hworker) hnot
  | running task => exact .inl ⟨task, hworker⟩
  | returned => exact .inr hworker

end WakeUpLemmas

open WakeUpLemmas

/-! ## 3. Runs -/

/-- In every state of every run the tasks in the queue are cared for as long as a worker sleeps; and
where nobody is on the way to the queue while there is a task in it, each worker is running a task or
has returned. -/
theorem tasks_served (size : ℤ) (moves : List Move) :
    Always next (fun o => ∃ s, o = some s ∧ s.Served ∧
      (s.Quiet → s.tasks ≠ [] → ∀ w < s.size, s.Occupied w)) (some (new size)) moves := by
  have hall : Always next (fun o => ∃ s, o = some s ∧ Inv s ∧ Heard s) (some (new size)) moves := by
    refine always_of_along ?_ ⟨_, rfl, inv_new size, heard_new size⟩
      (Along.of_forall (P := fun _ _ => True) (fun _ _ => True.intro) _ _)
    rintro - move ⟨s, rfl, hI, h⟩ -
    obtain ⟨s', hs', hstep⟩ := step_defined hI move
    rcases hstep with rfl | hstep
    · exact ⟨_, hs', hI, h⟩
    · exact ⟨s', hs', step_inv hI hstep, step_heard hI h hstep⟩
  refine hall.mono ?_
  rintro - ⟨s, rfl, hI, h⟩
  exact ⟨s, rfl, h.served, fun hquiet htasks w hw => occupied_of_quiet h hquiet htasks hw⟩

end TurtleServer.ThreadPool
