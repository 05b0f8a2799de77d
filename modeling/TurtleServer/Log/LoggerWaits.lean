import TurtleServer.Log.Logger

/-!
# The waits of the log writer

`last_flush_` is set only when a batch has been written. When nothing is pushed for longer than
`REFRESH_THRESHOLD`, the predicate of `cv_.wait` stays true by the clock alone, and the writer runs
round its loop with nothing to write (`idle_writer_spins`).

1. `NeverSpins`: what the waits of a run should be like.
2. The step lemmas: a wait that ends with a log in the queue leads to a write before the next wait.
3. `writer_never_spins_iff`: the runs in which the clock does not end a wait for an empty queue.
-/

namespace TurtleServer

open Lib

/-- The writer is at `cv_.wait`, or about to come to it. -/
def Writer.AtWait : Writer → Prop
  | .ready | .dozing | .waiting => True
  | _ => False

namespace Logger

/-! ## 1. Waits -/

/-- `cv_.wait` comes to its end in a step that reads the clock as `now`. -/
def Completes (s : Logger) (now : ℤ) : Prop :=
  s.Wants ∧ s.monitor.owner = none ∧ s.predicate now = true

instance (s : Logger) (now : ℤ) : Decidable (s.Completes now) :=
  inferInstanceAs (Decidable (_ ∧ _))

/-- A wait that comes to its end has a reason: the shutdown, or a log. -/
def HasReason (s : Logger) : Move → Prop
  | .acquire now => s.Completes now → s.done = true ∨ s.queue ≠ []
  | _ => True

/-- With nothing queued and no shutdown, a writer at its wait stays there. -/
def StaysBlocked (s : Logger) (move : Move) : Prop :=
  s.queue = [] → s.done = false → s.writer.AtWait → (s.step move).writer.AtWait

/-- What the run `moves` should be like: its waits end for a reason, between two of them some log is
given to `log_strategy_`, and without a reason the writer stays blocked. -/
structure NeverSpins (start : ℤ) (moves : List Move) : Prop where
  reason : Along step HasReason (new start) moves
  writes : ∀ before now between later after,
    moves = before ++ .acquire now :: between ++ .acquire later :: after →
    (run step (new start) before).Completes now →
    (run step (new start) (before ++ .acquire now :: between)).Completes later →
    ∃ logs ≠ [], (run step (new start) (before ++ .acquire now :: between)).written.flatten =
      (run step (new start) before).written.flatten ++ logs
  blocked : Along step StaysBlocked (new start) moves

/-- When the writer tests its predicate with nothing queued and no shutdown, the last flush is not
overdue. -/
def NotOverdue (s : Logger) : Move → Prop
  | .acquire now => s.Wants → s.monitor.owner = none → s.queue = [] → s.done = false →
      ¬ s.Overdue now
  | _ => True

/-! ## 2. Steps -/

namespace WaitLemmas

variable {s s' : Logger} {move : Move} {now : ℤ} {base : List ℕ}

theorem predicate_of_nil (hqueue : s.queue = []) (hdone : s.done = false) :
    s.predicate now = decide (s.Overdue now) := by
  unfold predicate
  simp [hqueue, hdone, countThreshold]

/-- With nothing queued and no shutdown only the clock ends a wait. -/
theorem hasReason_iff : HasReason s move ↔ NotOverdue s move := by
  cases move with
  | acquire now =>
    constructor
    · intro hreason hwants hfree hqueue hdone hoverdue
      have hpredicate : s.predicate now = true := by
        rw [predicate_of_nil hqueue hdone]
        exact decide_eq_true hoverdue
      rcases hreason ⟨hwants, hfree, hpredicate⟩ with hset | hlogs
      · exact Bool.false_ne_true (hdone.symm.trans hset)
      · exact hlogs hqueue
    · rintro hnot ⟨hwants, hfree, hpredicate⟩
      by_contra hneither
      obtain ⟨hdone, hqueue⟩ := not_or.mp hneither
      have hdone : s.done = false := Bool.eq_false_iff.mpr hdone
      have hqueue : s.queue = [] := not_not.mp hqueue
      rw [predicate_of_nil hqueue hdone] at hpredicate
      exact hnot hwants hfree hqueue hdone (of_decide_eq_true hpredicate)
  | _ => exact Iff.rfl

theorem atWait_of_wants (h : s.Wants) : s.writer.AtWait := by
  rcases h with hwriter | ⟨hwriter, -⟩
  · rw [hwriter]
    exact True.intro
  · rw [hwriter]
    exact True.intro

theorem step_blocked (hreason : HasReason s move) (hqueue : s.queue = []) (hdone : s.done = false)
    (hwait : s.writer.AtWait) (h : Step s move s') : s'.writer.AtWait := by
  cases h with
  | push hcall hfree => exact hwait
  | leave hcall => exact hwait
  | enter hwants hfree hpredicate =>
    rcases hreason ⟨hwants, hfree, hpredicate⟩ with hset | hlogs
    · exact absurd (hdone.symm.trans hset) Bool.false_ne_true
    · exact absurd hqueue hlogs
  | doze hwants hfree hpredicate => exact True.intro
  | sleep hwriter => exact True.intro
  | wake => exact hwait
  | skip hwriter hqueue => exact (hwriter ▸ hwait : Writer.AtWait .admitted).elim
  | swap hwriter hqueue => exact (hwriter ▸ hwait : Writer.AtWait .admitted).elim
  | unlock hwriter => exact (hwriter ▸ hwait : Writer.AtWait .swapped).elim
  | write hwriter => exact (hwriter ▸ hwait : Writer.AtWait .writing).elim
  | stamp hwriter => exact (hwriter ▸ hwait : Writer.AtWait .stamping).elim
  | clear hwriter => exact (hwriter ▸ hwait : Writer.AtWait .clearing).elim
  | finish hwriter hdone => exact (hwriter ▸ hwait : Writer.AtWait (.testing _)).elim
  | again hwriter hdone => exact True.intro
  | raise hclosing => exact hwait
  | notifyOne hclosing => exact hwait

theorem blocked_step (hreason : HasReason s move) : StaysBlocked s move := by
  intro hqueue hdone hwait
  rcases step_cases s move with heq | hstep
  · rw [heq]
    exact hwait
  · exact step_blocked hreason hqueue hdone hwait hstep

/-- After a wait that has seen `done_` there is no other. -/
structure Leaving (s : Logger) : Prop where
  done : s.done = true
  away : ¬ s.writer.AtWait

theorem step_leaving (hleaving : Leaving s) (h : Step s move s') : Leaving s' := by
  obtain ⟨hdone, haway⟩ := hleaving
  cases h with
  | push hcall hfree => exact ⟨hdone, haway⟩
  | leave hcall => exact ⟨hdone, haway⟩
  | enter hwants hfree hpredicate => exact absurd (atWait_of_wants hwants) haway
  | doze hwants hfree hpredicate => exact absurd (atWait_of_wants hwants) haway
  | sleep hwriter =>
    rw [hwriter] at haway
    exact absurd True.intro haway
  | wake => exact ⟨hdone, haway⟩
  | skip hwriter hqueue => exact ⟨hdone, False.elim⟩
  | swap hwriter hqueue => exact ⟨hdone, False.elim⟩
  | unlock hwriter => exact ⟨hdone, False.elim⟩
  | write hwriter => exact ⟨hdone, False.elim⟩
  | stamp hwriter => exact ⟨hdone, False.elim⟩
  | clear hwriter => exact ⟨hdone, False.elim⟩
  | finish hwriter hset => exact ⟨hdone, False.elim⟩
  | again hwriter hnot => exact absurd (hnot.symm.trans hdone) Bool.false_ne_true
  | raise hclosing => exact ⟨rfl, haway⟩
  | notifyOne hclosing => exact ⟨hdone, haway⟩

/-- Some log has been given to `log_strategy_` since it had `base`, or the writer has one on its way
there. -/
inductive Delivers (base : List ℕ) (s : Logger) : Prop
  | admitted (hwriter : s.writer = .admitted) (hqueue : s.queue ≠ [])
      (hwritten : s.written.flatten = base)
  | loaded (hwriter : s.writer = .swapped ∨ s.writer = .writing) (hbatch : s.writerQueue ≠ [])
      (hwritten : s.written.flatten = base)
  | delivered (logs : List ℕ) (hlogs : logs ≠ []) (hwritten : s.written.flatten = base ++ logs)

theorem written_step (h : Step s move s') :
    s'.written = s.written ∨ s.writer = .writing ∧ s'.written = s.written ++ [s.writerQueue] := by
  cases h with
  | write hwriter => exact .inr ⟨hwriter, rfl⟩
  | _ => exact .inl rfl

/-- What is written stays written. -/
theorem delivered_step {logs : List ℕ} (hlogs : logs ≠ [])
    (hwritten : s.written.flatten = base ++ logs) (h : Step s move s') : Delivers base s' := by
  rcases written_step h with heq | ⟨-, heq⟩
  · exact .delivered logs hlogs (heq ▸ hwritten)
  · refine .delivered (logs ++ s.writerQueue) (List.append_ne_nil_of_left_ne_nil hlogs _) ?_
    rw [heq, List.flatten_append, List.flatten_singleton, hwritten, List.append_assoc]

theorem admitted_step (hwriter : s.writer = .admitted) (hqueue : s.queue ≠ [])
    (hwritten : s.written.flatten = base) (h : Step s move s') : Delivers base s' := by
  cases h with
  | push hcall hfree =>
    exact .admitted hwriter (List.append_ne_nil_of_left_ne_nil hqueue _) hwritten
  | leave hcall => exact .admitted hwriter hqueue hwritten
  | wake => exact .admitted hwriter hqueue hwritten
  | swap _ _ => exact .loaded (.inl rfl) hqueue hwritten
  | skip _ hnil => exact absurd hnil hqueue
  | raise hclosing => exact .admitted hwriter hqueue hwritten
  | notifyOne hclosing => exact .admitted hwriter hqueue hwritten
  | enter hwants _ _ => exact (hwriter ▸ atWait_of_wants hwants : Writer.AtWait .admitted).elim
  | doze hwants _ _ => exact (hwriter ▸ atWait_of_wants hwants : Writer.AtWait .admitted).elim
  | sleep hw => exact absurd (hwriter.symm.trans hw) Writer.noConfusion
  | unlock hw => exact absurd (hwriter.symm.trans hw) Writer.noConfusion
  | write hw => exact absurd (hwriter.symm.trans hw) Writer.noConfusion
  | stamp hw => exact absurd (hwriter.symm.trans hw) Writer.noConfusion
  | clear hw => exact absurd (hwriter.symm.trans hw) Writer.noConfusion
  | finish hw _ => exact absurd (hwriter.symm.trans hw) Writer.noConfusion
  | again hw _ => exact absurd (hwriter.symm.trans hw) Writer.noConfusion

theorem loaded_step (hwriter : s.writer = .swapped ∨ s.writer = .writing)
    (hbatch : s.writerQueue ≠ []) (hwritten : s.written.flatten = base) (h : Step s move s') :
    Delivers base s' := by
  have hat : ∀ {writer : Writer}, s.writer = writer → writer ≠ .swapped → writer ≠ .writing →
      False := by
    intro writer hw hswapped hwriting
    rcases hwriter with hwriter | hwriter
    · exact hswapped (hw.symm.trans hwriter)
    · exact hwriting (hw.symm.trans hwriter)
  have hwants : ¬ s.Wants := by
    rintro (hw | ⟨hw, -⟩)
    · exact hat hw Writer.noConfusion Writer.noConfusion
    · exact hat hw Writer.noConfusion Writer.noConfusion
  cases h with
  | push hcall hfree => exact .loaded hwriter hbatch hwritten
  | leave hcall => exact .loaded hwriter hbatch hwritten
  | wake => exact .loaded hwriter hbatch hwritten
  | raise hclosing => exact .loaded hwriter hbatch hwritten
  | notifyOne hclosing => exact .loaded hwriter hbatch hwritten
  | unlock hw => exact .loaded (.inr rfl) hbatch hwritten
  | write hw =>
    refine .delivered s.writerQueue hbatch ?_
    show (s.written ++ [s.writerQueue]).flatten = base ++ s.writerQueue
    rw [List.flatten_append, List.flatten_singleton, hwritten]
  | enter h _ _ => exact absurd h hwants
  | doze h _ _ => exact absurd h hwants
  | sleep hw => exact (hat hw Writer.noConfusion Writer.noConfusion).elim
  | skip hw _ => exact (hat hw Writer.noConfusion Writer.noConfusion).elim
  | swap hw _ => exact (hat hw Writer.noConfusion Writer.noConfusion).elim
  | stamp hw => exact (hat hw Writer.noConfusion Writer.noConfusion).elim
  | clear hw => exact (hat hw Writer.noConfusion Writer.noConfusion).elim
  | finish hw _ => exact (hat hw Writer.noConfusion Writer.noConfusion).elim
  | again hw _ => exact (hat hw Writer.noConfusion Writer.noConfusion).elim

theorem step_delivers (hdelivers : Delivers base s) (h : Step s move s') : Delivers base s' := by
  cases hdelivers with
  | admitted hwriter hqueue hwritten => exact admitted_step hwriter hqueue hwritten h
  | loaded hwriter hbatch hwritten => exact loaded_step hwriter hbatch hwritten h
  | delivered logs hlogs hwritten => exact delivered_step hlogs hwritten h

theorem leaving_step (hleaving : Leaving s) (move : Move) : Leaving (s.step move) := by
  rcases step_cases s move with heq | hstep
  · rw [heq]
    exact hleaving
  · exact step_leaving hleaving hstep

theorem delivers_step (hdelivers : Delivers base s) (move : Move) : Delivers base (s.step move) := by
  rcases step_cases s move with heq | hstep
  · rw [heq]
    exact hdelivers
  · exact step_delivers hdelivers hstep

theorem delivered_of_wants (hdelivers : Delivers base s) (hwants : s.Wants) :
    ∃ logs ≠ [], s.written.flatten = base ++ logs := by
  have hwait := atWait_of_wants hwants
  cases hdelivers with
  | admitted hwriter _ _ => exact (hwriter ▸ hwait : Writer.AtWait .admitted).elim
  | loaded hwriter _ _ =>
    rcases hwriter with hwriter | hwriter
    · exact (hwriter ▸ hwait : Writer.AtWait .swapped).elim
    · exact (hwriter ▸ hwait : Writer.AtWait .writing).elim
  | delivered logs hlogs hwritten => exact ⟨logs, hlogs, hwritten⟩

theorem step_of_completes (h : s.Completes now) :
    s.step (.acquire now) = { s with writer := .admitted, monitor := s.monitor.lock () } := by
  obtain ⟨hwants, hfree, hpredicate⟩ := h
  simp only [step]
  rw [if_pos ⟨hwants, hfree⟩, if_pos hpredicate]

/-- A wait that ends for a reason, and the next that ends. -/
theorem writes_between {between : List Move} {later : ℤ} (hfirst : s.Completes now)
    (hreason : s.done = true ∨ s.queue ≠ [])
    (hsecond : (run step (s.step (.acquire now)) between).Completes later) :
    ∃ logs ≠ [], (run step (s.step (.acquire now)) between).written.flatten =
      s.written.flatten ++ logs := by
  have hstep := step_of_completes hfirst
  rcases hreason with hdone | hqueue
  · have hleaving : Leaving (run step (s.step (.acquire now)) between) := by
      refine run_of_forall (I := Leaving) (fun _ move h => leaving_step h move) between ?_
      rw [hstep]
      exact ⟨hdone, False.elim⟩
    exact absurd (atWait_of_wants hsecond.1) hleaving.away
  · have hdelivers : Delivers s.written.flatten (run step (s.step (.acquire now)) between) := by
      refine run_of_forall (I := Delivers s.written.flatten) (fun _ move h => delivers_step h move)
        between ?_
      rw [hstep]
      exact .admitted rfl hqueue rfl
    exact delivered_of_wants hdelivers hsecond.1

end WaitLemmas

open WaitLemmas

/-! ## 3. Runs -/

/-- The writer never spins exactly in the runs in which it never finds the last flush overdue with
nothing queued and no shutdown. -/
theorem writer_never_spins_iff (start : ℤ) (moves : List Move) :
    NeverSpins start moves ↔ Along step NotOverdue (new start) moves := by
  have hiff : Along step HasReason (new start) moves ↔ Along step NotOverdue (new start) moves :=
    along_congr (I := fun _ => True) (fun _ _ _ _ => True.intro) (fun _ _ _ => hasReason_iff)
      True.intro
  constructor
  · intro hnever
    exact hiff.mp hnever.reason
  · intro halong
    have hreason := hiff.mpr halong
    refine ⟨hreason, ?_, hreason.imp fun _ _ => blocked_step⟩
    rintro before now between later after rfl hfirst hsecond
    rw [List.append_assoc, along_append] at hreason
    have hhead : HasReason (run step (new start) before) (.acquire now) := hreason.2.1
    rw [run_append, run_cons] at hsecond ⊢
    exact writes_between hfirst (hhead hfirst) hsecond

/-- Nothing is ever pushed; four milliseconds after the start the writer goes round its loop. -/
def idleLoop : List Move := [.acquire 4, .proceed, .test, .acquire 4]

theorem idle_writer_spins :
    (new 0).Completes 4 ∧ (run step (new 0) [.acquire 4, .proceed, .test]).Completes 4 ∧
      (run step (new 0) idleLoop).written = [] ∧ (run step (new 0) idleLoop).queue = [] ∧
      (run step (new 0) idleLoop).done = false ∧ ¬ NeverSpins 0 idleLoop := by
  refine ⟨by decide, by decide, by decide, by decide, by decide, fun hnever => ?_⟩
  have hreason : (new 0).done = true ∨ (new 0).queue ≠ [] := hnever.reason.1 (by decide)
  exact absurd hreason (by decide)

end Logger

end TurtleServer
