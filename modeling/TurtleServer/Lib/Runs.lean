import Mathlib.Tactic

/-!
# Runs of a deterministic machine

A machine is a step function `step : σ → α → σ`: the state before an operation and the
operation give the state after it. Everything here is about whole runs:

* `run step s as`: the state after the operations `as`.
* `Along step P s as`: `P` holds at every step of the run, of the state *before* the step and
  the operation.
* `Always step Q s as`: `Q` holds of every state reached, i.e. *after* every step.

The rules at the end are the ones a run theorem needs. `always_of_along` turns a step lemma into
a run lemma; `run_of_not_along` says what is left of a run that has once missed its
side condition; `always_iff_along` is the exact form, for a machine that keeps an invariant as
long as a side condition is met and that breaks a property as soon as it is not. Where the steps
that meet a condition make a weight smaller, a run of such steps comes to an end
(`length_le_of_along`, `exists_along_end`).
-/

namespace TurtleServer.Lib

variable {σ α : Type*}

/-- The state after a finite sequence of operations. -/
def run (step : σ → α → σ) (s : σ) (as : List α) : σ := as.foldl step s

/-- `P` holds of the state before and the operation, at every step of the run. -/
def Along (step : σ → α → σ) (P : σ → α → Prop) : σ → List α → Prop
  | _, [] => True
  | s, a :: as => P s a ∧ Along step P (step s a) as

/-- `Q` holds of every state the run reaches. -/
def Always (step : σ → α → σ) (Q : σ → Prop) : σ → List α → Prop
  | _, [] => True
  | s, a :: as => Q (step s a) ∧ Always step Q (step s a) as

instance Along.decidable (step : σ → α → σ) (P : σ → α → Prop) [∀ s a, Decidable (P s a)] :
    ∀ s as, Decidable (Along step P s as)
  | _, [] => inferInstanceAs (Decidable True)
  | s, a :: as =>
    have := Along.decidable step P (step s a) as
    inferInstanceAs (Decidable (P s a ∧ Along step P (step s a) as))

instance Always.decidable (step : σ → α → σ) (Q : σ → Prop) [∀ s, Decidable (Q s)] :
    ∀ s as, Decidable (Always step Q s as)
  | _, [] => inferInstanceAs (Decidable True)
  | s, a :: as =>
    have := Always.decidable step Q (step s a) as
    inferInstanceAs (Decidable (Q (step s a) ∧ Always step Q (step s a) as))

variable {step : σ → α → σ} {P : σ → α → Prop} {Q Q' I R : σ → Prop}

@[simp] theorem run_cons (s : σ) (a : α) (as : List α) :
    run step s (a :: as) = run step (step s a) as := rfl

theorem run_append (s : σ) (as bs : List α) :
    run step s (as ++ bs) = run step (run step s as) bs := List.foldl_append

theorem Always.mono (hQ : ∀ s, Q s → Q' s) : ∀ {s : σ} {as : List α},
    Always step Q s as → Always step Q' s as
  | _, [], _ => True.intro
  | _, _ :: _, ⟨h, hs⟩ => ⟨hQ _ h, hs.mono hQ⟩

/-- A condition that holds of every state and operation holds along every run. -/
theorem Along.of_forall (h : ∀ s a, P s a) : ∀ (s : σ) (as : List α), Along step P s as
  | _, [] => True.intro
  | s, a :: as => ⟨h s a, Along.of_forall h (step s a) as⟩

theorem Along.imp {P' : σ → α → Prop} (h : ∀ s a, P s a → P' s a) :
    ∀ {s : σ} {as : List α}, Along step P s as → Along step P' s as
  | _, [], _ => True.intro
  | _, _ :: _, ⟨hP, hPs⟩ => ⟨h _ _ hP, hPs.imp h⟩

theorem along_append : ∀ {s : σ} {as bs : List α},
    Along step P s (as ++ bs) ↔ Along step P s as ∧ Along step P (run step s as) bs
  | _, [], _ => (iff_of_eq (true_and _)).symm
  | s, a :: as, bs => by
    show P s a ∧ Along step P (step s a) (as ++ bs) ↔ _
    rw [along_append, ← and_assoc]
    exact Iff.rfl

/-- A property of all states holds of those that a run reaches. -/
theorem Always.of_forall (h : ∀ s, Q s) : ∀ (s : σ) (as : List α), Always step Q s as
  | _, [] => True.intro
  | s, a :: as => ⟨h (step s a), Always.of_forall h (step s a) as⟩

/-- The invariant rule: what one step keeps under the side condition `P`, a run keeps. -/
theorem always_of_along (hstep : ∀ s a, I s → P s a → I (step s a)) :
    ∀ {s : σ} {as : List α}, I s → Along step P s as → Always step I s as
  | _, [], _, _ => True.intro
  | s, a :: _, hI, ⟨hP, hPs⟩ =>
    ⟨hstep s a hI hP, always_of_along hstep (hstep s a hI hP) hPs⟩

/-- Two side conditions that agree in all states a run can reach agree along it. -/
theorem along_congr {P' : σ → α → Prop} (hkeep : ∀ s a, I s → P' s a → I (step s a))
    (h : ∀ s a, I s → (P s a ↔ P' s a)) :
    ∀ {s : σ} {as : List α}, I s → (Along step P s as ↔ Along step P' s as)
  | _, [], _ => Iff.rfl
  | s, a :: _, hI => by
    constructor
    · rintro ⟨hP, hPs⟩
      have hP' : P' s a := (h s a hI).mp hP
      exact ⟨hP', (along_congr hkeep h (hkeep s a hI hP')).mp hPs⟩
    · rintro ⟨hP', hPs'⟩
      exact ⟨(h s a hI).mpr hP', (along_congr hkeep h (hkeep s a hI hP')).mpr hPs'⟩

/-- A side condition on the operations alone. -/
theorem along_iff_forall {p : α → Prop} : ∀ {s : σ} {as : List α},
    Along step (fun _ a => p a) s as ↔ ∀ a ∈ as, p a
  | _, [] => iff_of_true True.intro fun _ ha => absurd ha List.not_mem_nil
  | _, _ :: _ => by
    rw [List.forall_mem_cons]
    exact and_congr_right fun _ => along_iff_forall

/-- The last state of a run is one of its states. -/
theorem Always.last : ∀ {s : σ} {as : List α}, Always step I s as → I s → I (run step s as)
  | _, [], _, hI => hI
  | _, _ :: _, ⟨h, hs⟩, _ => hs.last h

/-- What every step keeps is there at the end of a run. -/
theorem run_of_forall (hkeep : ∀ s a, I s → I (step s a)) :
    ∀ {s : σ} (as : List α), I s → I (run step s as)
  | _, [], hI => hI
  | s, a :: as, hI => run_of_forall hkeep as (hkeep s a hI)

/-- What one missed side condition brings about, and no step takes back, is there at the end. -/
theorem run_of_not_along (hkeep : ∀ s a, I s → I (step s a))
    (hbreak : ∀ s a, I s → ¬ P s a → R (step s a)) (hstay : ∀ s a, I s → R s → R (step s a)) :
    ∀ {s : σ} {as : List α}, I s → ¬ Along step P s as → R (run step s as)
  | _, [], _, h => absurd True.intro h
  | s, a :: as, hI, h => by
    have hI' : I (step s a) := hkeep s a hI
    rw [run_cons]
    by_cases hP : P s a
    · exact run_of_not_along hkeep hbreak hstay hI' fun hPs => h ⟨hP, hPs⟩
    · have hrest : I (run step (step s a) as) ∧ R (run step (step s a) as) :=
        run_of_forall (I := fun s => I s ∧ R s) (fun s a hs => ⟨hkeep s a hs.1, hstay s a hs.1 hs.2⟩)
          as ⟨hI', hbreak s a hI hP⟩
      exact hrest.2

/-- The exact invariant rule. `G` is a side condition every step of the run is known to meet.
If the invariant `I` is kept by every step that meets `P`, implies nothing about `P`, and `Q`
holds after a step from `I` exactly when the step meets `P`, then along the whole run `Q`
holds of all states exactly when `P` holds at all steps. -/
theorem always_iff_along {G : σ → α → Prop}
    (hkeep : ∀ s a, I s → G s a → P s a → I (step s a))
    (hiff : ∀ s a, I s → G s a → (Q (step s a) ↔ P s a)) :
    ∀ {s : σ} {as : List α}, I s → Along step G s as →
      (Always step Q s as ↔ Along step P s as)
  | _, [], _, _ => Iff.rfl
  | s, a :: as, hI, ⟨hG, hGs⟩ => by
    have hhead : Q (step s a) ↔ P s a := hiff s a hI hG
    constructor
    · rintro ⟨hQ, hQs⟩
      have hP : P s a := hhead.mp hQ
      exact ⟨hP, (always_iff_along hkeep hiff (hkeep s a hI hG hP) hGs).mp hQs⟩
    · rintro ⟨hP, hPs⟩
      exact ⟨hhead.mpr hP, (always_iff_along hkeep hiff (hkeep s a hI hG hP) hGs).mpr hPs⟩

section weight

variable {weight : σ → ℕ}

/-- The state at the end of a run along which a condition holds. -/
theorem run_of_along (hkeep : ∀ s a, I s → P s a → I (step s a)) {s : σ} {as : List α} (hI : I s)
    (has : Along step P s as) : I (run step s as) :=
  (always_of_along hkeep hI has).last hI

/-- When each step that meets the condition makes the weight smaller, there are at most as many. -/
theorem length_le_of_along (hkeep : ∀ s a, I s → P s a → I (step s a))
    (hweight : ∀ s a, I s → P s a → weight (step s a) < weight s) :
    ∀ {s : σ} {as : List α}, I s → Along step P s as → as.length ≤ weight s
  | s, [], _, _ => Nat.zero_le (weight s)
  | s, a :: as, hI, ⟨hP, hPs⟩ => by
    have hrest : as.length ≤ weight (step s a) :=
      length_le_of_along hkeep hweight (hkeep s a hI hP) hPs
    exact Nat.succ_le_of_lt (hrest.trans_lt (hweight s a hI hP))

/-- So there is a run to a state in which no step meets the condition. -/
theorem exists_along_end (hkeep : ∀ s a, I s → P s a → I (step s a))
    (hweight : ∀ s a, I s → P s a → weight (step s a) < weight s) {s : σ} (hI : I s) :
    ∃ as, Along step P s as ∧ ∀ a, ¬ P (run step s as) a := by
  induction hn : weight s using Nat.strong_induction_on generalizing s with
  | _ n ih =>
    by_cases hend : ∀ a, ¬ P s a
    · exact ⟨[], True.intro, hend⟩
    · push Not at hend
      obtain ⟨a, hP⟩ := hend
      obtain ⟨as, has, hlast⟩ := ih _ (hn ▸ hweight s a hI hP) (hkeep s a hI hP) rfl
      exact ⟨a :: as, ⟨hP, has⟩, hlast⟩

end weight

end TurtleServer.Lib
