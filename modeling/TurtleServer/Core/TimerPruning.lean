import TurtleServer.Core.TimerPending

/-!
# What `PruneExpiredTimer` takes out of the queue

The first loop of `PruneExpiredTimer` asks one timer after the other whether it has expired, and every
question looks at the clock anew. `tests` records the questions. The timers taken out are those before
the first one that had not expired when it was asked, and the clock may have moved on between the first
question and the last.

* `prune_partitions`: what is returned and what is left, against the clock at the first and at the last
  question.
-/

namespace TurtleServer.Timer

open Lib

variable {κ : Type} (clock : Clock)

/-- The calls of `Expired()` by the first loop of `PruneExpiredTimer`: the timer asked, and the value of
its `NowSinceEpoch()`, the first of them look number `i` at the clock. -/
def tests (i : ℕ) : List (SingleTimer κ) → List (SingleTimer κ × ℕ)
  | [] => []
  | s :: rest =>
    (s, clock.now i) :: if s.expired (clock.now i) then tests (i + 1) rest else []

/-- The timers returned and those left are the old queue, in order. Those returned have expired by the
last question, all that had expired by the first are returned, and the first one left had not expired
when it was asked. -/
structure Partition (t : Timer κ) (expired : List (SingleTimer κ)) (t' : Timer κ) : Prop where
  parts : expired ++ t'.timerQueue.toList = t.timerQueue.toList
  ordered : t.timerQueue.toList.Pairwise fun s s' => s.expireTime < s'.expireTime
  due : ∀ s ∈ expired, ∃ test, (tests clock t.reads t.timerQueue.toList).getLast? = some test ∧
    s.expireTime ≤ test.2
  all : ∀ s ∈ t.timerQueue.toList, ∃ test,
    (tests clock t.reads t.timerQueue.toList).head? = some test ∧
      (s.expireTime ≤ test.2 → s ∈ expired)
  first : ∀ s ∈ t'.timerQueue.toList.head?, ∃ now,
    (tests clock t.reads t.timerQueue.toList).getLast? = some (s, now) ∧ now < s.expireTime

namespace PruneLemmas

variable {clock} {i : ℕ} {s p : SingleTimer κ} {q rest : List (SingleTimer κ)} {t : Timer κ}

theorem expired_iff {now : ℕ} : s.expired now = true ↔ s.expireTime ≤ now := by
  simp [SingleTimer.expired]

theorem tests_of_expired (h : p.expired (clock.now i) = true) :
    tests clock i (p :: rest) = (p, clock.now i) :: tests clock (i + 1) rest := by
  rw [tests, if_pos h]

theorem tests_of_not_expired (h : p.expired (clock.now i) = false) :
    tests clock i (p :: rest) = [(p, clock.now i)] := by
  rw [tests, if_neg (ne_true_of_eq_false h)]

/-- The questions look at the clock one after the other, as often as `PruneExpiredTimer` is said to. -/
theorem looks_tests (clock : Clock) : ∀ (i : ℕ) (q : List (SingleTimer κ)),
    (tests clock i q).map Prod.snd = (List.range' i (expiredTests clock i q)).map clock.now
  | _, [] => rfl
  | i, p :: rest => by
    have hrest := looks_tests clock (i + 1) rest
    cases h : p.expired (clock.now i) with
    | true =>
      have hcount : expiredTests clock i (p :: rest) = expiredTests clock (i + 1) rest + 1 := by
        unfold expiredTests
        rw [expiredCount, if_pos h, List.length_cons, Nat.succ_min_succ]
      rw [tests_of_expired h, hcount, List.range'_succ, List.map_cons, List.map_cons, hrest]
    | false =>
      have hcount : expiredTests clock i (p :: rest) = 1 := by
        unfold expiredTests
        rw [expiredCount, if_neg (ne_true_of_eq_false h), List.length_cons]
        omega
      rw [tests_of_not_expired h, hcount]
      rfl

/-- No question looks at an earlier clock than the first. -/
theorem now_le_of_mem_tests {test : SingleTimer κ × ℕ} : ∀ {i : ℕ} {q : List (SingleTimer κ)},
    test ∈ tests clock i q → clock.now i ≤ test.2
  | _, [], h => absurd h List.not_mem_nil
  | i, p :: rest, h => by
    unfold tests at h
    rcases List.mem_cons.mp h with rfl | h
    · exact Nat.le_refl _
    · split at h
      · exact (clock.mono (Nat.le_succ i)).trans (now_le_of_mem_tests h)
      · exact absurd h List.not_mem_nil

/-- A timer that the loop has passed was due at the last question. -/
theorem due_of_mem_take : ∀ {i : ℕ} {q : List (SingleTimer κ)},
    s ∈ q.take (expiredCount clock i q) →
      ∃ test, (tests clock i q).getLast? = some test ∧ s.expireTime ≤ test.2
  | _, [], h => absurd h List.not_mem_nil
  | i, p :: rest, h => by
    unfold expiredCount at h
    split at h
    · next hexp =>
      rw [tests_of_expired hexp, List.getLast?_cons]
      refine ⟨_, rfl, ?_⟩
      rw [List.take_succ_cons] at h
      rcases List.mem_cons.mp h with rfl | h
      · -- the last question is this one or a later one
        have hdue := expired_iff.mp hexp
        cases hlast : (tests clock (i + 1) rest).getLast? with
        | none => exact hdue
        | some test =>
          have hlater := now_le_of_mem_tests (List.mem_of_getLast? hlast)
          exact hdue.trans ((clock.mono (Nat.le_succ i)).trans hlater)
      · obtain ⟨test, hlast, hdue⟩ := due_of_mem_take h
        rw [hlast]
        exact hdue
    · rw [List.take_zero] at h
      exact absurd h List.not_mem_nil

/-- The loop has stopped at the first timer left, if there is one. -/
theorem last_of_drop : ∀ {i : ℕ} {q : List (SingleTimer κ)},
    q.drop (expiredCount clock i q) = s :: rest →
      ∃ now, (tests clock i q).getLast? = some (s, now) ∧ now < s.expireTime
  | _, [], h => by cases h
  | i, p :: q, h => by
    unfold expiredCount at h
    split at h
    · next hexp =>
      obtain ⟨now, hlast, hlt⟩ := last_of_drop h
      refine ⟨now, ?_, hlt⟩
      rw [tests_of_expired hexp, List.getLast?_cons, hlast]
      rfl
    · next hexp =>
      cases h
      refine ⟨clock.now i, ?_, Nat.lt_of_not_le fun hle => hexp (expired_iff.mpr hle)⟩
      rw [tests_of_not_expired (eq_false_of_ne_true hexp)]
      rfl

theorem head_tests (clock : Clock) (i : ℕ) (h : q ≠ []) : ∃ p, (tests clock i q).head? = some (p, clock.now i) := by
  obtain ⟨p, rest, rfl⟩ := List.exists_cons_of_ne_nil h
  exact ⟨p, rfl⟩

/-- What is left has not expired by the first question. -/
theorem lt_of_mem_drop (hsorted : q.Pairwise fun s s' => s.expireTime < s'.expireTime)
    (h : s ∈ q.drop (expiredCount clock i q)) : clock.now i < s.expireTime := by
  cases hdrop : q.drop (expiredCount clock i q) with
  | nil =>
    rw [hdrop] at h
    exact absurd h List.not_mem_nil
  | cons p rest =>
    obtain ⟨now, hlast, hlt⟩ := last_of_drop hdrop
    have hnow : clock.now i ≤ now := now_le_of_mem_tests (List.mem_of_getLast? hlast)
    have hrest : (p :: rest).Pairwise fun s s' => s.expireTime < s'.expireTime := by
      rw [← hdrop]
      exact hsorted.drop
    rw [hdrop] at h
    rcases List.mem_cons.mp h with rfl | h
    · exact hnow.trans_lt hlt
    · exact (hnow.trans_lt hlt).trans ((List.pairwise_cons.mp hrest).1 s h)

end PruneLemmas

open PruneLemmas

/-- `PruneExpiredTimer` cuts the queue at the first timer that has not expired when it is asked, and the
questions are successive looks at the clock. -/
theorem prune_partitions (clock : Clock) (t : Timer κ) :
    Partition clock t (t.pruneExpiredTimer clock).1 (t.pruneExpiredTimer clock).2 ∧
      (tests clock t.reads t.timerQueue.toList).map Prod.snd =
        (List.range' t.reads (expiredTests clock t.reads t.timerQueue.toList)).map clock.now := by
  have hleft : (t.pruneExpiredTimer clock).2.timerQueue.toList =
      t.timerQueue.toList.drop (expiredCount clock t.reads t.timerQueue.toList) := by
    rw [pruneExpiredTimer, resetIfChanged_timerQueue]
    rfl
  have hparts : (t.pruneExpiredTimer clock).1 ++ (t.pruneExpiredTimer clock).2.timerQueue.toList =
      t.timerQueue.toList := by
    rw [hleft]
    exact List.take_append_drop _ _
  refine ⟨⟨hparts, t.timerQueue.sorted, fun s hs => due_of_mem_take hs, ?_, ?_⟩,
    looks_tests clock _ _⟩
  · intro s hs
    obtain ⟨p, hhead⟩ := head_tests clock t.reads (List.ne_nil_of_mem hs)
    refine ⟨_, hhead, fun hle => ?_⟩
    rw [← hparts] at hs
    rcases List.mem_append.mp hs with hs | hs
    · exact hs
    · rw [hleft] at hs
      exact absurd hle (Nat.not_le_of_lt (lt_of_mem_drop t.timerQueue.sorted hs))
  · intro s hs
    rw [hleft] at hs
    obtain ⟨rest, hdrop⟩ := List.head?_eq_some_iff.mp hs
    exact last_of_drop hdrop

end TurtleServer.Timer
