import TurtleServer.Log.Logger

/-!
# What the logger keeps

The batches given to `log_strategy_`, then what the writer has swapped out and not given to it yet,
then `queue_` are all logs in the order of their pushes (`Kept.conserved`). The swap is right because
`writer_queue` is empty whenever the writer comes to it (`Kept.emptied`). `logs_conserved` is what this
says of every reachable state; `pushOrder` reads off the run itself which pushes took the mutex, and in
which order.
-/

namespace TurtleServer

open Lib

namespace Writer

/-- The writer holds the mutex. -/
def holds : Writer → Bool
  | .dozing | .admitted | .swapped => true
  | .testing locked => locked
  | _ => false

/-- `writer_queue` holds a batch. -/
def loaded : Writer → Bool
  | .swapped | .writing | .stamping | .clearing => true
  | _ => false

end Writer

namespace Logger

/-- The content of `writer_queue` that has not been given to `log_strategy_` yet. -/
def pending (s : Logger) : List ℕ :=
  match s.writer with
  | .swapped | .writing => s.writerQueue
  | _ => []

/-- The log that the step pushes: that of a call of `PushLog` which takes the mutex. -/
def pushedBy (s : Logger) : Move → List ℕ
  | .push i _ => if s.pushes i = .notCalled ∧ s.monitor.owner = none then [i] else []
  | _ => []

/-- The logs of a run from `s`, in the order in which their pushes take the mutex. -/
def pushOrder (s : Logger) : List Move → List ℕ
  | [] => []
  | move :: moves => s.pushedBy move ++ (s.step move).pushOrder moves

/-- The queues, the writer and the mutex. -/
structure Kept (s : Logger) : Prop where
  conserved : s.pushed = s.written.flatten ++ s.pending ++ s.queue
  emptied : s.writer.loaded = false → s.writerQueue = []
  cleared : s.writer = .swapped ∨ s.writer = .testing true → s.queue = []
  owner : s.monitor.owner = if s.writer.holds then some () else none

/-- The calls of `PushLog`: each brings one log. -/
structure Called (s : Logger) : Prop where
  mem : ∀ i, i ∈ s.pushed ↔ s.pushes i ≠ .notCalled
  distinct : s.pushed.Nodup

structure Inv (s : Logger) : Prop where
  kept : Kept s
  called : Called s

namespace InvariantLemmas

variable {s s' : Logger} {move : Move} {i : ℕ}

theorem not_holds (h : Kept s) (hfree : s.monitor.owner = none) : s.writer.holds = false := by
  cases hholds : s.writer.holds with
  | false => rfl
  | true =>
    have howner := h.owner
    rw [hfree, if_pos hholds] at howner
    cases howner

/-- A writer that wants the mutex has neither a batch nor the mutex. -/
theorem pending_of_wants (hwants : s.Wants) : s.pending = [] ∧ s.writer.loaded = false := by
  unfold pending
  rcases hwants with hwriter | ⟨hwriter, -⟩ <;> simp [hwriter, Writer.loaded]

theorem kept_push (h : Kept s) (hfree : s.monitor.owner = none) (now : ℤ) :
    Kept (s.pushLog i now) where
  conserved := by
    show s.pushed ++ [i] = s.written.flatten ++ s.pending ++ (s.queue ++ [i])
    rw [h.conserved, List.append_assoc _ s.queue]
  emptied := h.emptied
  cleared := by
    intro hwriter
    have hholds := not_holds h hfree
    have hwriter' : s.writer = .swapped ∨ s.writer = .testing true := hwriter
    rcases hwriter' with hw | hw
    · exact absurd hholds (by simp [hw, Writer.holds])
    · exact absurd hholds (by simp [hw, Writer.holds])
  owner := h.owner

theorem step_kept (hkept : Kept s) (h : Step s move s') : Kept s' := by
  obtain ⟨hconserved, hemptied, hcleared, howner⟩ := hkept
  cases h with
  | push hcall hfree => exact kept_push ⟨hconserved, hemptied, hcleared, howner⟩ hfree _
  | @leave i shouldNotify hcall =>
    cases shouldNotify with
    | true => exact ⟨hconserved, hemptied, hcleared, howner⟩
    | false => exact ⟨hconserved, hemptied, hcleared, howner⟩
  | enter hwants hfree hpredicate =>
    obtain ⟨hpending, hloaded⟩ := pending_of_wants hwants
    rw [hpending] at hconserved
    exact ⟨hconserved, fun _ => hemptied hloaded, by simp, rfl⟩
  | doze hwants hfree hpredicate =>
    obtain ⟨hpending, hloaded⟩ := pending_of_wants hwants
    rw [hpending] at hconserved
    exact ⟨hconserved, fun _ => hemptied hloaded, by simp, rfl⟩
  | sleep hwriter =>
    simp only [pending, hwriter] at hconserved
    exact ⟨hconserved, fun _ => hemptied (by rw [hwriter]; rfl), by simp, rfl⟩
  | wake => exact ⟨hconserved, hemptied, hcleared, howner⟩
  | skip hwriter hqueue =>
    simp only [pending, hwriter] at hconserved
    rw [hwriter] at howner
    exact ⟨hconserved, fun _ => hemptied (by rw [hwriter]; rfl), fun _ => hqueue, howner⟩
  | swap hwriter hqueue =>
    have hbatch : s.writerQueue = [] := hemptied (by rw [hwriter]; rfl)
    simp only [pending, hwriter] at hconserved
    rw [hwriter] at howner
    refine ⟨?_, Bool.noConfusion, fun _ => hbatch, howner⟩
    show s.pushed = s.written.flatten ++ s.queue ++ s.writerQueue
    rw [hconserved, hbatch, List.append_nil, List.append_nil]
  | unlock hwriter =>
    simp only [pending, hwriter] at hconserved
    exact ⟨hconserved, Bool.noConfusion, by simp, rfl⟩
  | write hwriter =>
    simp only [pending, hwriter] at hconserved
    rw [hwriter] at howner
    refine ⟨?_, Bool.noConfusion, by simp, howner⟩
    show s.pushed = (s.written ++ [s.writerQueue]).flatten ++ [] ++ s.queue
    rw [hconserved, List.flatten_append, List.flatten_singleton, List.append_nil]
  | stamp hwriter =>
    simp only [pending, hwriter] at hconserved
    rw [hwriter] at howner
    exact ⟨hconserved, Bool.noConfusion, by simp, howner⟩
  | clear hwriter =>
    simp only [pending, hwriter] at hconserved
    rw [hwriter] at howner
    exact ⟨hconserved, fun _ => rfl, by simp, howner⟩
  | @finish locked hwriter hdone =>
    simp only [pending, hwriter] at hconserved
    rw [hwriter] at howner
    refine ⟨hconserved, fun _ => hemptied (by rw [hwriter]; rfl), by simp, ?_⟩
    cases locked with
    | true => rfl
    | false => exact howner
  | @again locked hwriter hdone =>
    simp only [pending, hwriter] at hconserved
    rw [hwriter] at howner
    refine ⟨hconserved, fun _ => hemptied (by rw [hwriter]; rfl), by simp, ?_⟩
    cases locked with
    | true => rfl
    | false => exact howner
  | raise hclosing => exact ⟨hconserved, hemptied, hcleared, howner⟩
  | notifyOne hclosing => exact ⟨hconserved, hemptied, hcleared, howner⟩

theorem called_push (h : Called s) (hcall : s.pushes i = .notCalled) (now : ℤ) :
    Called (s.pushLog i now) where
  mem := by
    intro j
    show j ∈ s.pushed ++ [i] ↔ Function.update s.pushes i _ j ≠ .notCalled
    rcases eq_or_ne j i with rfl | hne
    · simp
    · rw [Function.update_of_ne hne, ← h.mem j]
      simp [hne]
  distinct := by
    refine List.nodup_append.mpr ⟨h.distinct, List.nodup_singleton i, ?_⟩
    rintro j hj _ hmem rfl
    obtain rfl := List.mem_singleton.mp hmem
    exact (h.mem j).mp hj hcall

theorem called_leave (h : Called s) {push push' : Push} (hcall : s.pushes i = push')
    (hpush' : push' ≠ .notCalled) (hpush : push ≠ .notCalled) : Called (s.setPush i push) where
  mem := by
    intro j
    show j ∈ s.pushed ↔ Function.update s.pushes i push j ≠ .notCalled
    rcases eq_or_ne j i with rfl | hne
    · rw [Function.update_self, h.mem j, hcall]
      exact iff_of_true hpush' hpush
    · rw [Function.update_of_ne hne]
      exact h.mem j
  distinct := h.distinct

theorem step_called (hcalled : Called s) (h : Step s move s') : Called s' := by
  cases h with
  | push hcall hfree => exact called_push hcalled hcall _
  | leave hcall =>
    obtain ⟨hmem, hdistinct⟩ := called_leave hcalled hcall Push.noConfusion
      (Push.noConfusion : Push.returned (!s.done) ≠ .notCalled)
    exact ⟨hmem, hdistinct⟩
  | _ => exact ⟨hcalled.mem, hcalled.distinct⟩

theorem pushed_of_step (h : Step s move s') : s'.pushed = s.pushed ++ s.pushedBy move := by
  cases h with
  | push hcall hfree =>
    rw [pushedBy, if_pos ⟨hcall, hfree⟩]
    rfl
  | _ => exact (List.append_nil _).symm

/-- `pushed` grows by the pushes that take the mutex, and by nothing else. -/
theorem pushed_step (s : Logger) (move : Move) :
    (s.step move).pushed = s.pushed ++ s.pushedBy move := by
  cases move with
  | push i now =>
    simp only [step, pushedBy]
    split
    · rfl
    · rw [List.append_nil]
  | _ =>
    refine (step_cases s _).elim (fun h => ?_) pushed_of_step
    rw [h]
    exact (List.append_nil _).symm

theorem pushed_run (s : Logger) (moves : List Move) :
    (run step s moves).pushed = s.pushed ++ s.pushOrder moves := by
  induction moves generalizing s with
  | nil => exact (List.append_nil _).symm
  | cons move moves ih => rw [run_cons, ih, pushed_step, List.append_assoc, pushOrder]

theorem inv_new (now : ℤ) : Inv (new now) where
  kept := ⟨rfl, fun _ => rfl, fun _ => rfl, rfl⟩
  called := ⟨by simp [new], List.nodup_nil⟩

theorem inv_step (hI : Inv s) (move : Move) : Inv (s.step move) := by
  rcases step_cases s move with h | h
  · rw [h]
    exact hI
  · exact ⟨step_kept hI.kept h, step_called hI.called h⟩

end InvariantLemmas

open InvariantLemmas

/-- What has been given to `log_strategy_`, what the writer is about to give to it and what is queued
are the pushed logs in the order of their pushes, each of them once. -/
structure Conserved (s : Logger) : Prop where
  order : s.written.flatten ++ s.pending ++ s.queue = s.pushed
  once : ∀ i, (s.written.flatten ++ s.pending ++ s.queue).count i =
    if s.pushes i = .notCalled then 0 else 1

/-- In every reachable state the logs are conserved, and the pushed ones are those of the run. -/
theorem logs_conserved (start : ℤ) (moves : List Move) :
    Conserved (run step (new start) moves) ∧
      (run step (new start) moves).pushed = (new start).pushOrder moves := by
  have hI : Inv (run step (new start) moves) :=
    run_of_forall (I := Inv) (fun _ move hI => inv_step hI move) moves (inv_new start)
  refine ⟨⟨hI.kept.conserved.symm, fun i => ?_⟩, pushed_run (new start) moves⟩
  rw [← hI.kept.conserved]
  split
  · next hcall =>
    exact List.count_eq_zero.mpr fun hmem => (hI.called.mem i).mp hmem hcall
  · next hcall =>
    exact List.count_eq_one_of_mem hI.called.distinct ((hI.called.mem i).mpr hcall)

end Logger

end TurtleServer
