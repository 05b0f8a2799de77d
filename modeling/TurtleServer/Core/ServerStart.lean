import TurtleServer.Core.ThreadPoolWakeUps

/-!
# Reactors and their threads (`core/turtle_server.h`)

`TurtleServer` makes as many reactors as its pool has workers and submits the `Loop` of each of them as
a task. Nothing in the server calls `SetExit`, so that such a task never comes to its end.

`reactors_run`: once the constructor is through and nobody is on the way to the queue, every reactor
has a thread of its own; no reactor waits in the queue behind another one. For the same reason no
worker ever returns, and the destructor of the server, which joins them after its `Exit`, never
returns either.
-/

namespace TurtleServer.ThreadPool

open Lib TaskLemmas WakeUpLemmas

/-! ## 1. The calls of the server -/

/-- What the server's thread and its tasks do with the pool: the constructor submits the reactors
`0 .. GetSize() - 1` one after the other, `Exit` is called by the destructor, and `Loop` does not
return. -/
def Starts (o : Option ThreadPool) : Move → Prop
  | .test i => ∀ s ∈ o, i < s.size ∧ ∀ j < i, s.submits j = .returned
  | .raise => ∀ s ∈ o, ∀ i < s.size, s.submits i = .returned
  | .finish _ => False
  | _ => True

/-- The constructor has come to its end. -/
def Constructed (s : ThreadPool) : Prop := ∀ i < s.size, s.submits i = .returned

/-! ## 2. The invariant -/

/-- Only reactors are submitted, none of them is done, and `Exit` comes after all of them. -/
structure Started (s : ThreadPool) : Prop where
  reactor : ∀ i, s.submits i ≠ .notCalled → i < s.size
  unfinished : s.ran = []
  constructed : s.exit = true → s.Constructed
  alive : ∀ w, s.workers w ≠ .returned

namespace StartLemmas

variable {s s' : ThreadPool} {move : Move} {w i : ℕ}

/-! ### Counting -/

theorem dequeued_nodup (hI : Inv s) : s.dequeued.Nodup :=
  (List.nodup_append.mp (hI.queued.fifo ▸ hI.queued.distinct)).1

theorem running_of_dequeued (hI : Inv s) (h : Started s) (hi : i ∈ s.dequeued) :
    ∃ w < s.size, s.workers w = .running i := by
  rcases (hI.worked.taken i).mp hi with hran | ⟨w, hw⟩
  · rw [h.unfinished] at hran
    exact absurd hran List.not_mem_nil
  · exact ⟨w, hI.worked.inPool w (by simp [hw]), hw⟩

/-- Every reactor that has left the queue takes up one worker. -/
theorem dequeued_lt (hI : Inv s) (h : Started s) (hw : w < s.size)
    (hidle : ∀ i, s.workers w ≠ .running i) : s.dequeued.length < s.size := by
  choose! worker hlt hrunning using fun i (hi : i ∈ s.dequeued) => running_of_dequeued hI h hi
  have hmaps : ∀ i ∈ s.dequeued.toFinset, worker i ∈ (Finset.range s.size).erase w := by
    intro i hi
    have hi' : i ∈ s.dequeued := List.mem_toFinset.mp hi
    refine Finset.mem_erase.mpr ⟨fun heq => ?_, Finset.mem_range.mpr (hlt i hi')⟩
    exact hidle i (heq ▸ hrunning i hi')
  have hinj : Set.InjOn worker (s.dequeued.toFinset : Set ℕ) := by
    intro i hi j hj heq
    have hi' := hrunning i (List.mem_toFinset.mp hi)
    have hj' := hrunning j (List.mem_toFinset.mp hj)
    rw [heq, hj'] at hi'
    exact (Worker.running.inj hi').symm
  have hcard := Finset.card_le_card_of_injOn worker hmaps hinj
  rw [List.toFinset_card_of_nodup (dequeued_nodup hI),
    Finset.card_erase_of_mem (Finset.mem_range.mpr hw), Finset.card_range] at hcard
  omega

/-- Busy workers are busy with reactors of their own. -/
theorem size_le_dequeued (hI : Inv s) (hbusy : ∀ w < s.size, ∃ i, s.workers w = .running i) :
    s.size ≤ s.dequeued.length := by
  choose! task hrunning using hbusy
  have hmaps : ∀ w ∈ Finset.range s.size, task w ∈ s.dequeued.toFinset := by
    intro w hw
    have hw' := hrunning w (Finset.mem_range.mp hw)
    exact List.mem_toFinset.mpr ((hI.worked.taken _).mpr (.inr ⟨w, hw'⟩))
  have hinj : Set.InjOn task (Finset.range s.size : Set ℕ) := by
    intro w hw w' hw' heq
    have h := hrunning w (Finset.mem_range.mp hw)
    have h' := hrunning w' (Finset.mem_range.mp hw')
    exact hI.worked.alone w w' _ h (heq ▸ h')
  have hcard := Finset.card_le_card_of_injOn task hmaps hinj
  rwa [Finset.card_range, List.toFinset_card_of_nodup (dequeued_nodup hI)] at hcard

/-- There are no more tasks than reactors. -/
theorem enqueued_le (hI : Inv s) (h : Started s) : s.enqueued.length ≤ s.size := by
  have hsub : s.enqueued.toFinset ⊆ Finset.range s.size := by
    intro i hi
    refine Finset.mem_range.mpr (h.reactor i ?_)
    rcases (hI.queued.called i).mp (List.mem_toFinset.mp hi) with hcall | hcall
    · simp [hcall]
    · simp [hcall]
  have hcard := Finset.card_le_card hsub
  rwa [List.toFinset_card_of_nodup hI.queued.distinct, Finset.card_range] at hcard

theorem mem_enqueued_of_constructed (hI : Inv s) (h : s.Constructed) (hi : i < s.size) :
    i ∈ s.enqueued := (hI.queued.called i).mpr (.inr (h i hi))

/-- After the constructor every reactor has been enqueued. -/
theorem size_le_enqueued (hI : Inv s) (h : s.Constructed) : s.size ≤ s.enqueued.length := by
  have hsub : Finset.range s.size ⊆ s.enqueued.toFinset := fun i hi =>
    List.mem_toFinset.mpr (mem_enqueued_of_constructed hI h (Finset.mem_range.mp hi))
  have hcard := Finset.card_le_card hsub
  rwa [List.toFinset_card_of_nodup hI.queued.distinct, Finset.card_range] at hcard

/-- With an idle worker and an empty queue, some reactor has not been submitted yet. -/
theorem not_constructed_of_idle (hI : Inv s) (h : Started s) (hw : w < s.size)
    (hidle : ∀ i, s.workers w ≠ .running i) (htasks : s.tasks = []) : ¬ s.Constructed := by
  intro hconstructed
  have hlt : s.dequeued.length < s.size := dequeued_lt hI h hw hidle
  have hle : s.size ≤ s.enqueued.length := size_le_enqueued hI hconstructed
  rw [hI.queued.fifo, htasks, List.append_nil] at hle
  exact absurd hle (not_le.mpr hlt)

/-! ### One step -/

theorem constructed_setSubmit (submit : Submit) (h : s.exit = true → s.Constructed)
    (hcall : s.submits i ≠ .returned) (hi : i < s.size) :
    (s.setSubmit i submit).exit = true → (s.setSubmit i submit).Constructed :=
  fun hexit => absurd (h hexit i hi) hcall

theorem reactor_setSubmit {submit : Submit} (h : ∀ i, s.submits i ≠ .notCalled → i < s.size)
    (hi : i < s.size) : ∀ j, Function.update s.submits i submit j ≠ .notCalled → j < s.size :=
  (Function.forall_update_iff s.submits fun j submit => submit ≠ .notCalled → j < s.size).mpr
    ⟨fun _ => hi, fun j _ => h j⟩

theorem alive_setWorker {worker : Worker} (h : ∀ w, s.workers w ≠ .returned)
    (hworker : worker ≠ .returned) : ∀ w', Function.update s.workers w worker w' ≠ .returned :=
  (Function.forall_update_iff s.workers fun _ worker => worker ≠ .returned).mpr
    ⟨hworker, fun w' _ => h w'⟩

theorem step_started (hI : Inv s) (h : Started s) (hstarts : Starts (some s) move)
    (hstep : Step s move s') : Started s' := by
  obtain ⟨hreactor, hran, hconstructed, halive⟩ := h
  cases hstep with
  | @throw i hcall hexit =>
    obtain ⟨hi, -⟩ := hstarts s rfl
    have hreturned : s.submits i = .returned := hconstructed hexit i hi
    exact Submit.noConfusion (hcall.symm.trans hreturned)
  | @test i hcall hexit =>
    obtain ⟨hi, -⟩ := hstarts s rfl
    exact ⟨reactor_setSubmit hreactor hi, hran,
      constructed_setSubmit _ hconstructed (by simp [hcall]) hi, halive⟩
  | @enqueue i hcall hfree =>
    have hi : i < s.size := hreactor i (by simp [hcall])
    exact ⟨reactor_setSubmit hreactor hi, hran,
      constructed_setSubmit .enqueued hconstructed (by simp [hcall]) hi, halive⟩
  | @notifyOne i w hcall hwake =>
    have hi : i < s.size := hreactor i (by simp [hcall])
    exact ⟨reactor_setSubmit hreactor hi, hran,
      constructed_setSubmit .returned hconstructed (by simp [hcall]) hi, halive⟩
  | enter hw hwants hfree hpredicate =>
    exact ⟨hreactor, hran, hconstructed, alive_setWorker halive Worker.noConfusion⟩
  | doze hw hwants hfree hexit htasks =>
    exact ⟨hreactor, hran, hconstructed, alive_setWorker halive Worker.noConfusion⟩
  | sleep hworker => exact ⟨hreactor, hran, hconstructed, alive_setWorker halive Worker.noConfusion⟩
  | wake => exact ⟨hreactor, hran, hconstructed, halive⟩
  | @leave w hworker hexit htasks =>
    -- all reactors run, and this worker runs none of them
    have hw : w < s.size := hI.worked.inPool w (by simp [hworker])
    have hidle : ∀ i, s.workers w ≠ .running i := by simp [hworker]
    exact absurd (hconstructed hexit) (not_constructed_of_idle hI
      ⟨hreactor, hran, hconstructed, halive⟩ hw hidle htasks)
  | take hworker htasks =>
    exact ⟨hreactor, hran, hconstructed, alive_setWorker halive Worker.noConfusion⟩
  | finish hworker => exact absurd hstarts id
  | raise hexiting => exact ⟨hreactor, hran, fun _ => hstarts s rfl, halive⟩
  | notifyAll hexiting => exact ⟨hreactor, hran, hconstructed, halive⟩

theorem started_new (concurrency : ℤ) : Started (new concurrency) where
  reactor _ hi := absurd rfl hi
  unfinished := rfl
  constructed hexit := absurd hexit Bool.false_ne_true
  alive _ := Worker.noConfusion

/-- Nobody on the way to the queue: no reactor is left in it. -/
theorem tasks_nil_of_quiet (hI : Inv s) (hheard : Heard s) (h : Started s) (hquiet : s.Quiet) :
    s.tasks = [] := by
  by_contra htasks
  have hbusy : ∀ w < s.size, ∃ i, s.workers w = .running i := fun w hw =>
    (occupied_of_quiet hheard hquiet htasks hw).resolve_right (h.alive w)
  have hlow : s.size ≤ s.dequeued.length := size_le_dequeued hI hbusy
  have hhigh : s.enqueued.length ≤ s.size := enqueued_le hI h
  rw [hI.queued.fifo, List.length_append] at hhigh
  exact htasks (List.length_eq_zero_iff.mp (by omega))

theorem reactor_running (hI : Inv s) (hheard : Heard s) (h : Started s) (hquiet : s.Quiet)
    (hconstructed : s.Constructed) (hi : i < s.size) :
    ∃! w, w < s.size ∧ s.workers w = .running i := by
  have hmem : i ∈ s.dequeued := by
    have henqueued := mem_enqueued_of_constructed hI hconstructed hi
    rwa [hI.queued.fifo, tasks_nil_of_quiet hI hheard h hquiet, List.append_nil] at henqueued
  obtain ⟨w, hw, hrunning⟩ := running_of_dequeued hI h hmem
  exact ⟨w, ⟨hw, hrunning⟩, fun w' hw' => hI.worked.alone w' w i hw'.2 hrunning⟩

end StartLemmas

open StartLemmas

/-! ## 3. Runs -/

/-- In every state of every run, no worker has returned; and once the constructor is through and
nobody is on the way to the queue, every reactor is run by a worker of its own. -/
theorem reactors_run (concurrency : ℤ) (moves : List Move)
    (h : Along next Starts (some (new concurrency)) moves) :
    Always next (fun o => ∃ s, o = some s ∧ (∀ w < s.size, s.workers w ≠ .returned) ∧
      (s.Quiet → s.Constructed → ∀ i < s.size, ∃! w, w < s.size ∧ s.workers w = .running i))
      (some (new concurrency)) moves := by
  have hall : Always next (fun o => ∃ s, o = some s ∧ Inv s ∧ Heard s ∧ Started s)
      (some (new concurrency)) moves := by
    refine always_of_along ?_
      ⟨_, rfl, inv_new concurrency, heard_new concurrency, started_new concurrency⟩ h
    rintro - move ⟨s, rfl, hI, hheard, hstarted⟩ hstarts
    obtain ⟨s', hs', hstep⟩ := step_defined hI move
    rcases hstep with rfl | hstep
    · exact ⟨_, hs', hI, hheard, hstarted⟩
    · exact ⟨s', hs', step_inv hI hstep, step_heard hI hheard hstep,
        step_started hI hstarted hstarts hstep⟩
  refine hall.mono ?_
  rintro - ⟨s, rfl, hI, hheard, hstarted⟩
  exact ⟨s, rfl, fun w _ => hstarted.alive w, fun hquiet hconstructed i hi =>
    reactor_running hI hheard hstarted hquiet hconstructed hi⟩

/-- Two reactors; the first worker has gone to sleep before the first of them is submitted, and the
destructor calls `Exit` in the end. -/
def startOfTwo : List Move :=
  [.acquire 0, .sleep 0, .test 0, .enqueue 0, .acquire 1, .notifyOne 0 0, .proceed 1, .test 1,
    .enqueue 1, .notifyOne 1 0, .acquire 0, .proceed 0, .raise, .notifyAll]

theorem startOfTwo_starts : Along next Starts (some (new 2)) startOfTwo ∧
    Always next (fun o => ∃ s, o = some s ∧ (∀ w < s.size, s.workers w ≠ .returned) ∧
      (s.Quiet → s.Constructed → ∀ i < s.size, ∃! w, w < s.size ∧ s.workers w = .running i))
      (some (new 2)) startOfTwo := by
  have h : Along next Starts (some (new 2)) startOfTwo := by
    simp only [startOfTwo, Along, Starts, and_true, true_and]
    refine ⟨?_, ?_, ?_⟩
    · rintro - ⟨rfl⟩
      decide
    · rintro - ⟨rfl⟩
      decide
    · rintro - ⟨rfl⟩
      decide
  exact ⟨h, reactors_run 2 startOfTwo h⟩

end TurtleServer.ThreadPool
