import TurtleServer.Log.LoggerInvariant

/-!
# The logs at shutdown

The writer gives a batch to `log_strategy_` without the mutex and looks at `done_` only after it. A
destructor that sets `done_` in between makes it return, and what has been pushed since the swap is
never written (`last_log_lost`).

1. `Flushed`: what the shutdown promises, and `Collected`: when it can be kept.
2. The step lemmas: nothing that is due is left behind, and what is left behind stays there.
3. `shutdown_flushes`: for every run at whose end the writer has returned, the promise is kept exactly
   when the destructor has set `done_` at no such moment.
-/

namespace TurtleServer

open Lib

/-- The writer has given up the mutex after its swap, and has not come back to the top of its loop. -/
def Writer.Apart : Writer → Prop
  | .writing | .stamping | .clearing => True
  | .testing locked => locked = false
  | _ => False

namespace Logger

open InvariantLemmas

/-! ## 1. The promise -/

/-- Every log whose `PushLog` came to its end before `done_` was set has been given to
`log_strategy_`, once, and the logs are given to it in the order of their pushes. -/
structure Flushed (s : Logger) : Prop where
  once : ∀ i, s.pushes i = .returned true → s.written.flatten.count i = 1
  order : s.written.flatten <+: s.pushed

/-- When `done_` is set while the writer is apart, the queue holds no log whose `PushLog` has come to
its end. -/
def Collected (s : Logger) : Move → Prop
  | .raise => s.closing = .notCalled → s.writer.Apart → ∀ i ∈ s.queue, ∀ early,
      s.pushes i ≠ .returned early
  | _ => True

/-! ## 2. Steps -/

namespace FlushLemmas

variable {s s' : Logger} {move : Move} {i : ℕ}

/-- The writer returns only when `done_` is set, and what has come to its end without it is early. -/
structure Flagged (s : Logger) : Prop where
  closing : s.closing = .notCalled → s.done = false
  returned : s.writer = .returned → s.done = true
  early : s.done = false → ∀ i, s.pushes i ≠ .returned false

/-- Once `done_` is set, a writer that will not come back to the queue has left nothing there that is
due. -/
def Settled (s : Logger) : Prop :=
  s.done = true → s.writer.Apart ∨ s.writer = .returned → ∀ j ∈ s.queue,
    s.pushes j ≠ .returned true

theorem early_setPush {push : Push} (h : ∀ i, s.pushes i ≠ .returned false)
    (hpush : push ≠ .returned false) : ∀ j, (s.setPush i push).pushes j ≠ .returned false := by
  unfold setPush
  exact (Function.forall_update_iff s.pushes fun _ push => push ≠ .returned false).mpr
    ⟨hpush, fun j _ => h j⟩

theorem step_flagged (hflagged : Flagged s) (h : Step s move s') : Flagged s' := by
  obtain ⟨hclosing, hreturned, hearly⟩ := hflagged
  cases h with
  | push hcall hfree =>
    exact ⟨hclosing, hreturned, fun hdone => early_setPush (s := s) (hearly hdone) Push.noConfusion⟩
  | leave hcall =>
    refine ⟨hclosing, hreturned, fun hdone => early_setPush (s := s) (hearly hdone) ?_⟩
    have hnot : s.done = false := hdone
    simp [hnot]
  | wake => exact ⟨hclosing, hreturned, hearly⟩
  | finish hwriter hdone => exact ⟨hclosing, fun _ => hdone, hearly⟩
  | raise hflag => exact ⟨Closing.noConfusion, fun _ => rfl, Bool.noConfusion⟩
  | notifyOne hflag => exact ⟨Closing.noConfusion, hreturned, hearly⟩
  | _ => exact ⟨hclosing, Writer.noConfusion, hearly⟩

theorem due_push (h : ∀ j ∈ s.queue, s.pushes j ≠ .returned true) (now : ℤ) :
    ∀ j ∈ (s.pushLog i now).queue, (s.pushLog i now).pushes j ≠ .returned true := by
  intro j hj
  show Function.update s.pushes i _ j ≠ .returned true
  rcases eq_or_ne j i with rfl | hne
  · rw [Function.update_self]
    exact Push.noConfusion
  · rw [Function.update_of_ne hne]
    have hmem : j ∈ s.queue ++ [i] := hj
    exact h j (by simpa [hne] using hmem)

theorem due_leave (hdone : s.done = true) (h : ∀ j ∈ s.queue, s.pushes j ≠ .returned true) :
    ∀ j ∈ s.queue, (s.setPush i (.returned !s.done)).pushes j ≠ .returned true := by
  intro j hj
  show Function.update s.pushes i _ j ≠ .returned true
  rcases eq_or_ne j i with rfl | hne
  · rw [Function.update_self, hdone]
    exact fun heq => Bool.false_ne_true (Push.returned.inj heq)
  · rw [Function.update_of_ne hne]
    exact h j hj

theorem settled_of_not_apart (hapart : ¬ s.writer.Apart) (hreturned : s.writer ≠ .returned) :
    Settled s :=
  fun _ h => (h.elim hapart hreturned).elim

theorem settled_of_nil (hqueue : s.queue = []) : Settled s := by
  intro _ _ j hj
  rw [hqueue] at hj
  exact absurd hj List.not_mem_nil

theorem step_settled (hkept : Kept s) (hflagged : Flagged s) (hsettled : Settled s)
    (hcollected : Collected s move) (h : Step s move s') : Settled s' := by
  cases h with
  | push hcall hfree => exact fun hdone hapart => due_push (hsettled hdone hapart) _
  | leave hcall => exact fun hdone hapart => due_leave (s := s) hdone (hsettled hdone hapart)
  | enter hwants hfree hpredicate => exact settled_of_not_apart id Writer.noConfusion
  | doze hwants hfree hpredicate => exact settled_of_not_apart id Writer.noConfusion
  | sleep hwriter => exact settled_of_not_apart id Writer.noConfusion
  | wake => exact hsettled
  | skip hwriter hqueue => exact settled_of_not_apart Bool.noConfusion Writer.noConfusion
  | swap hwriter hqueue => exact settled_of_not_apart id Writer.noConfusion
  | unlock hwriter =>
    -- nobody has pushed since the swap
    exact settled_of_nil (hkept.cleared (.inl hwriter))
  | write hwriter => exact fun hdone _ => hsettled hdone (.inl (by simp [hwriter, Writer.Apart]))
  | stamp hwriter => exact fun hdone _ => hsettled hdone (.inl (by simp [hwriter, Writer.Apart]))
  | clear hwriter => exact fun hdone _ => hsettled hdone (.inl (by simp [hwriter, Writer.Apart]))
  | @finish locked hwriter hdone =>
    cases locked with
    | false => exact fun _ _ => hsettled hdone (.inl (by simp [hwriter, Writer.Apart]))
    | true =>
      -- the writer has held the mutex since it found the queue empty
      exact settled_of_nil (hkept.cleared (.inr hwriter))
  | again hwriter hdone => exact settled_of_not_apart id Writer.noConfusion
  | raise hflag =>
    rintro - (hapart | hreturned) j hj
    · exact hcollected hflag hapart j hj true
    · exact absurd ((hflagged.returned hreturned).symm.trans (hflagged.closing hflag)) (by simp)
  | notifyOne hflag => exact hsettled

/-- A log that is in the queue has not been given to `log_strategy_`. -/
theorem not_written (hI : Inv s) (hi : i ∈ s.queue) : i ∉ s.written.flatten := by
  intro hwritten
  have hnodup := hI.called.distinct
  rw [hI.kept.conserved] at hnodup
  exact (List.nodup_append.mp hnodup).2.2 i (List.mem_append_left _ hwritten) i hi rfl

theorem order_of_inv (hI : Inv s) : s.written.flatten <+: s.pushed := by
  rw [hI.kept.conserved, List.append_assoc]
  exact List.prefix_append _ _

theorem flushed_of_settled (hI : Inv s) (hflagged : Flagged s) (hsettled : Settled s)
    (hreturned : s.writer = .returned) : Flushed s where
  once := by
    intro i hi
    have hmem : i ∈ s.written.flatten ++ s.pending ++ s.queue := by
      rw [← hI.kept.conserved]
      exact (hI.called.mem i).mpr (by simp [hi])
    have hpending : s.pending = [] := by simp [pending, hreturned]
    have hnodup : s.written.flatten.Nodup := hI.called.distinct.sublist (order_of_inv hI).sublist
    rw [hpending, List.append_nil] at hmem
    rcases List.mem_append.mp hmem with hwritten | hqueue
    · exact List.count_eq_one_of_mem hnodup hwritten
    · exact absurd hi (hsettled (hflagged.returned hreturned) (.inr hreturned) i hqueue)
  order := order_of_inv hI

/-- Log `i` is due and nobody will look at the queue again. -/
structure Lost (i : ℕ) (s : Logger) : Prop where
  done : s.done = true
  gone : s.writer.Apart ∨ s.writer = .returned
  queued : i ∈ s.queue
  due : s.pushes i = .returned true

theorem step_lost (hlost : Lost i s) (h : Step s move s') : Lost i s' := by
  obtain ⟨hdone, hgone, hqueued, hdue⟩ := hlost
  have hother : ∀ {j : ℕ} {push : Push}, s.pushes j ≠ .returned true →
      Function.update s.pushes j push i = .returned true := by
    intro j push hj
    rw [Function.update_of_ne (by rintro rfl; exact hj hdue)]
    exact hdue
  cases h with
  | push hcall hfree =>
    exact ⟨hdone, hgone, List.mem_append_left _ hqueued, hother (by simp [hcall])⟩
  | leave hcall => exact ⟨hdone, hgone, hqueued, hother (by simp [hcall])⟩
  | enter hwants hfree hpredicate =>
    rcases hwants with hw | ⟨hw, -⟩
    · exact absurd hgone (by simp [hw, Writer.Apart])
    · exact absurd hgone (by simp [hw, Writer.Apart])
  | doze hwants hfree hpredicate =>
    rcases hwants with hw | ⟨hw, -⟩
    · exact absurd hgone (by simp [hw, Writer.Apart])
    · exact absurd hgone (by simp [hw, Writer.Apart])
  | sleep hwriter => exact absurd hgone (by simp [hwriter, Writer.Apart])
  | wake => exact ⟨hdone, hgone, hqueued, hdue⟩
  | skip hwriter hqueue => exact absurd hgone (by simp [hwriter, Writer.Apart])
  | swap hwriter hqueue => exact absurd hgone (by simp [hwriter, Writer.Apart])
  | unlock hwriter => exact absurd hgone (by simp [hwriter, Writer.Apart])
  | write hwriter => exact ⟨hdone, .inl True.intro, hqueued, hdue⟩
  | stamp hwriter => exact ⟨hdone, .inl True.intro, hqueued, hdue⟩
  | clear hwriter => exact ⟨hdone, .inl rfl, hqueued, hdue⟩
  | finish hwriter hdone => exact ⟨hdone, .inr rfl, hqueued, hdue⟩
  | again hwriter hnot => exact absurd (hdone.symm.trans hnot) (by simp)
  | raise hclosing => exact ⟨rfl, hgone, hqueued, hdue⟩
  | notifyOne hclosing => exact ⟨hdone, hgone, hqueued, hdue⟩

theorem not_flushed_of_lost (hI : Inv s) (hlost : Lost i s) : ¬ Flushed s := by
  intro hflushed
  have hcount : s.written.flatten.count i = 1 := hflushed.once i hlost.due
  exact not_written hI hlost.queued (List.count_pos_iff.mp (hcount ▸ Nat.one_pos))

/-- A `done_` that comes at the wrong moment loses a log. -/
theorem lost_of_not_collected (hflagged : Flagged s) (h : ¬ Collected s move) :
    ∃ i, Lost i (s.step move) := by
  cases move with
  | raise =>
    unfold Collected at h
    push Not at h
    obtain ⟨hclosing, hapart, i, hi, early, hpush⟩ := h
    have hearly : early = true := by
      cases early with
      | true => rfl
      | false => exact absurd hpush (hflagged.early (hflagged.closing hclosing) i)
    refine ⟨i, ?_⟩
    simp only [step]
    rw [if_pos hclosing]
    exact ⟨rfl, .inl hapart, hi, hearly ▸ hpush⟩
  | _ => exact absurd True.intro h

/-- What every run keeps. -/
structure Reached (s : Logger) : Prop where
  inv : Inv s
  flagged : Flagged s

theorem reached_new (now : ℤ) : Reached (new now) :=
  ⟨inv_new now, fun _ => rfl, Writer.noConfusion, fun _ _ => Push.noConfusion⟩

theorem reached_step (h : Reached s) (move : Move) : Reached (s.step move) := by
  refine ⟨inv_step h.inv move, ?_⟩
  rcases step_cases s move with heq | hstep
  · rw [heq]
    exact h.flagged
  · exact step_flagged h.flagged hstep

theorem settled_step (h : Reached s) (hsettled : Settled s) (hcollected : Collected s move) :
    Settled (s.step move) := by
  rcases step_cases s move with heq | hstep
  · rw [heq]
    exact hsettled
  · exact step_settled h.inv.kept h.flagged hsettled hcollected hstep

theorem lost_step (hlost : Lost i s) (move : Move) : Lost i (s.step move) := by
  rcases step_cases s move with heq | hstep
  · rw [heq]
    exact hlost
  · exact step_lost hlost hstep

end FlushLemmas

open FlushLemmas

/-! ## 3. Runs -/

/-- The shutdown flushes everything exactly in the runs that set `done_` at no moment at which the
writer is apart and the queue holds the log of a call that has come to its end. -/
theorem shutdown_flushes (start : ℤ) (moves : List Move)
    (hreturned : (run step (new start) moves).writer = .returned) :
    Flushed (run step (new start) moves) ↔ Along step Collected (new start) moves := by
  constructor
  · intro hflushed
    by_contra hnot
    have hlost : Reached (run step (new start) moves) ∧
        ∃ i, Lost i (run step (new start) moves) := by
      refine run_of_not_along (I := Reached) (R := fun s => Reached s ∧ ∃ i, Lost i s) ?_ ?_ ?_
        (reached_new start) hnot
      · exact fun s move h => reached_step h move
      · exact fun s move h hcollected =>
          ⟨reached_step h move, lost_of_not_collected h.flagged hcollected⟩
      · rintro s move h ⟨-, i, hlost⟩
        exact ⟨reached_step h move, i, lost_step hlost move⟩
    obtain ⟨hreached, i, hlost⟩ := hlost
    exact not_flushed_of_lost hreached.inv hlost hflushed
  · intro halong
    have hall : Always step (fun s => Reached s ∧ Settled s) (new start) moves :=
      always_of_along (fun s move h hcollected =>
          ⟨reached_step h.1 move, settled_step h.1 h.2 hcollected⟩)
        ⟨reached_new start, settled_of_nil rfl⟩ halong
    obtain ⟨hreached, hsettled⟩ := hall.last ⟨reached_new start, settled_of_nil rfl⟩
    exact flushed_of_settled hreached.inv hreached.flagged hsettled hreturned

/-- A log is pushed, the destructor sets `done_`, and the writer writes the log and returns. -/
def quietShutdown : List Move :=
  [.push 0 1, .leave 0, .raise, .acquire 1, .proceed, .unlock, .write, .stamp 1, .clear, .test]

theorem quietShutdown_flushes :
    (run step (new 0) quietShutdown).writer = .returned ∧
      (Flushed (run step (new 0) quietShutdown) ↔
        Along step Collected (new 0) quietShutdown) :=
  ⟨by decide, shutdown_flushes 0 quietShutdown (by decide)⟩

/-- The writer writes a first log; a second one is pushed meanwhile, and then `done_` is set. -/
def lateShutdown : List Move :=
  [.push 0 1, .leave 0, .acquire 4, .proceed, .unlock, .push 1 4, .leave 1, .write, .stamp 4, .raise,
    .clear, .test]

/-- The second log was pushed in time, and is still in the queue when the writer has returned. -/
theorem last_log_lost :
    ∃ s, run step (new 0) lateShutdown = s ∧ s.writer = .returned ∧ s.pushes 1 = .returned true ∧
      s.queue = [1] ∧ s.written = [[0]] ∧ ¬ Flushed s := by
  refine ⟨_, rfl, by decide, by decide, by decide, by decide, fun hflushed => ?_⟩
  exact absurd (hflushed.once 1 (by decide)) (by decide)

end Logger

end TurtleServer
