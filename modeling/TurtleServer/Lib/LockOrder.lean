import TurtleServer.Lib.Runs

/-!
# Mutexes that are locked in order

Threads lock mutexes and unlock them, the one locked last first, as scoped locks do. When each
thread locks a mutex only while all that it holds come before it in some order, no set of threads can
wait for each other: whoever waits, waits for a thread that goes on, or for one that waits for a later
mutex (`exists_enabled`).

`Keeps` composes: it says of a piece of a program that it locks in order and ends with the mutexes
with which it has begun, whatever comes after it.
-/

namespace TurtleServer.Lib

/-- What a thread does with mutexes. -/
inductive LockAction (μ : Type*)
  | lock (mutex : μ) (shared : Bool)
  | unlock
deriving DecidableEq, Repr

/-- The mutexes that each thread holds, the last one first, and what it has yet to do. -/
structure Locking (ι μ : Type*) where
  held : ι → List (μ × Bool)
  rest : ι → List (LockAction μ)

namespace Locking

variable {ι μ κ : Type*}

/-- Nobody holds a mutex. -/
def new (programs : ι → List (LockAction μ)) : Locking ι μ := ⟨fun _ => [], programs⟩

/-- The mutex can be locked: nobody holds it, or all share it. -/
def Free (s : Locking ι μ) (m : μ) (shared : Bool) : Prop :=
  ∀ i, ∀ e ∈ s.held i, e.1 = m → shared = true ∧ e.2 = true

instance [Fintype ι] [DecidableEq μ] (s : Locking ι μ) (m : μ) (shared : Bool) :
    Decidable (s.Free m shared) := inferInstanceAs (Decidable (∀ _, _))

/-- Thread `i` is not over, and does not wait for a mutex. -/
def Enabled (s : Locking ι μ) (i : ι) : Prop :=
  match s.rest i with
  | [] => False
  | .lock m shared :: _ => s.Free m shared
  | .unlock :: _ => True

/-- The next action of thread `i`. Nothing happens while it waits. -/
def step [Fintype ι] [DecidableEq ι] [DecidableEq μ] (s : Locking ι μ) (i : ι) : Locking ι μ :=
  match s.rest i with
  | [] => s
  | .lock m shared :: rest =>
    if s.Free m shared then
      ⟨Function.update s.held i ((m, shared) :: s.held i), Function.update s.rest i rest⟩
    else s
  | .unlock :: rest =>
    ⟨Function.update s.held i (s.held i).tail, Function.update s.rest i rest⟩

/-- The actions that all threads have yet to do. -/
def remaining [Fintype ι] (s : Locking ι μ) : ℕ := ∑ i, (s.rest i).length

/-! ## Order -/

section order

variable [LT κ] (rank : μ → κ)

/-- With these mutexes, a thread locks in order and ends without a mutex. -/
def Ordered : List (μ × Bool) → List (LockAction μ) → Prop
  | held, [] => held = []
  | held, .lock m shared :: rest =>
    (∀ e ∈ held, rank e.1 < rank m) ∧ Ordered ((m, shared) :: held) rest
  | held, .unlock :: rest => held ≠ [] ∧ Ordered held.tail rest

/-- With these mutexes, the actions are in order, and they leave the mutexes as they are. -/
def Keeps (held : List (μ × Bool)) (actions : List (LockAction μ)) : Prop :=
  ∀ rest, Ordered rank held rest → Ordered rank held (actions ++ rest)

/-- A mutex is locked for the time of the body. -/
def critical (m : μ) (shared : Bool) (body : List (LockAction μ)) : List (LockAction μ) :=
  .lock m shared :: body ++ [.unlock]

variable {rank} {held : List (μ × Bool)} {as bs : List (LockAction μ)} {m : μ} {shared : Bool}

theorem keeps_nil : Keeps rank held [] := fun _ h => h

theorem keeps_append (has : Keeps rank held as) (hbs : Keeps rank held bs) :
    Keeps rank held (as ++ bs) := by
  intro rest h
  rw [List.append_assoc]
  exact has _ (hbs _ h)

theorem keeps_critical (hrank : ∀ e ∈ held, rank e.1 < rank m)
    (hbody : Keeps rank ((m, shared) :: held) as) : Keeps rank held (critical m shared as) := by
  intro rest h
  have hunlock : Ordered rank ((m, shared) :: held) (.unlock :: rest) :=
    ⟨List.cons_ne_nil _ _, h⟩
  refine ⟨hrank, ?_⟩
  show Ordered rank ((m, shared) :: held) (as ++ [.unlock] ++ rest)
  rw [List.append_assoc]
  exact hbody _ hunlock

theorem keeps_flatMap {α : Type*} {f : α → List (LockAction μ)} {l : List α}
    (h : ∀ a ∈ l, Keeps rank held (f a)) : Keeps rank held (l.flatMap f) := by
  induction l with
  | nil => exact keeps_nil
  | cons a l ih =>
    obtain ⟨ha, hl⟩ := List.forall_mem_cons.mp h
    exact keeps_append ha (ih hl)

end order

/-! ## Progress -/

section progress

variable [Preorder κ] [WellFoundedGT κ] {rank : μ → κ} {s : Locking ι μ} {i : ι}

/-- Who waits for a mutex waits for a thread that is not over. The induction is on the rank of the
mutex: that thread goes on, or waits for a mutex of a higher rank. -/
theorem exists_enabled_of_lock (h : ∀ i, Ordered rank (s.held i) (s.rest i)) {m : μ} {shared : Bool}
    {rest : List (LockAction μ)} (hi : s.rest i = .lock m shared :: rest) : ∃ j, s.Enabled j := by
  induction hrank : rank m using WellFoundedGT.induction generalizing i m shared rest with
  | _ k ih =>
    by_cases hfree : s.Free m shared
    · exact ⟨i, by rw [Enabled, hi]; exact hfree⟩
    · obtain ⟨j, e, he, rfl⟩ : ∃ j, ∃ e ∈ s.held j, e.1 = m := by
        by_contra hnone
        exact hfree fun j e he hm => absurd ⟨j, e, he, hm⟩ hnone
      have hordered := h j
      cases hj : s.rest j with
      | nil =>
        rw [hj] at hordered
        have hempty : s.held j = [] := hordered
        rw [hempty] at he
        exact absurd he List.not_mem_nil
      | cons action rest' =>
        cases action with
        | unlock => exact ⟨j, by rw [Enabled, hj]; exact True.intro⟩
        | lock m' shared' =>
          rw [hj] at hordered
          exact ih (rank m') (hrank ▸ hordered.1 e he) hj rfl

/-- While somebody is not over, somebody goes on. -/
theorem exists_enabled (h : ∀ i, Ordered rank (s.held i) (s.rest i)) (hi : s.rest i ≠ []) :
    ∃ j, s.Enabled j := by
  cases hrest : s.rest i with
  | nil => exact absurd hrest hi
  | cons action rest =>
    cases action with
    | lock m shared => exact exists_enabled_of_lock h hrest
    | unlock => exact ⟨i, by rw [Enabled, hrest]; exact True.intro⟩

end progress

/-! ## Runs -/

section run

variable [Fintype ι] [DecidableEq ι] [DecidableEq μ] {s : Locking ι μ} {i : ι}

theorem ordered_step [LT κ] {rank : μ → κ} (h : ∀ i, Ordered rank (s.held i) (s.rest i)) (i j : ι) :
    Ordered rank ((s.step i).held j) ((s.step i).rest j) := by
  unfold step
  split
  · exact h j
  · next m shared rest hrest =>
    split
    · have hordered := h i
      rw [hrest] at hordered
      by_cases hj : j = i
      · subst hj
        simpa only [Function.update_self] using hordered.2
      · simpa only [Function.update_of_ne hj] using h j
    · exact h j
  · next rest hrest =>
    have hordered := h i
    rw [hrest] at hordered
    by_cases hj : j = i
    · subst hj
      simpa only [Function.update_self] using hordered.2
    · simpa only [Function.update_of_ne hj] using h j

/-- A thread that goes on has less to do. -/
theorem remaining_step (hi : s.Enabled i) : (s.step i).remaining < s.remaining := by
  have hrest : ∃ action rest, s.rest i = action :: rest ∧
      (s.step i).rest = Function.update s.rest i rest := by
    unfold Enabled at hi
    unfold step
    split at hi
    · exact hi.elim
    · next m shared rest hrest =>
      rw [if_pos hi]
      exact ⟨_, rest, hrest, rfl⟩
    · next rest hrest => exact ⟨_, rest, hrest, rfl⟩
  obtain ⟨action, rest, hrest, hstep⟩ := hrest
  unfold remaining
  rw [hstep]
  refine Finset.sum_lt_sum (fun j _ => ?_) ⟨i, Finset.mem_univ i, ?_⟩
  · by_cases hj : j = i
    · subst hj
      rw [Function.update_self, hrest]
      exact Nat.le_succ _
    · rw [Function.update_of_ne hj]
  · rw [Function.update_self, hrest]
    exact Nat.lt_succ_self _

/-- All threads can get through. -/
theorem exists_run_end [Preorder κ] [WellFoundedGT κ] {rank : μ → κ}
    (h : ∀ i, Ordered rank (s.held i) (s.rest i)) :
    ∃ later, ∀ i, (run step s later).rest i = [] ∧ (run step s later).held i = [] := by
  have hkeep : ∀ (s : Locking ι μ) i, (∀ j, Ordered rank (s.held j) (s.rest j)) → s.Enabled i →
      ∀ j, Ordered rank ((s.step i).held j) ((s.step i).rest j) := fun _ i h _ => ordered_step h i
  have hless : ∀ (s : Locking ι μ) i, (∀ j, Ordered rank (s.held j) (s.rest j)) → s.Enabled i →
      (s.step i).remaining < s.remaining := fun _ _ _ => remaining_step
  obtain ⟨later, hlater, hend⟩ := exists_along_end hkeep hless h
  have hordered := run_of_along hkeep h hlater
  have hover : ∀ i, (run step s later).rest i = [] := by
    intro i
    by_contra hi
    obtain ⟨j, hj⟩ := exists_enabled hordered hi
    exact hend j hj
  refine ⟨later, fun i => ⟨hover i, ?_⟩⟩
  have hi := hordered i
  rw [hover i] at hi
  exact hi

end run

end Locking

end TurtleServer.Lib
