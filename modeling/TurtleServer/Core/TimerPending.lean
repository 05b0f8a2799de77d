import TurtleServer.Core.Timer

/-!
# Which timers are pending after an operation

The specification of every operation of `Timer` in terms of the pending timers, i.e. of membership
in `timer_queue_`, and what follows for a timer that is added or refreshed: because the queue tells
timers apart by their expire time only, a new timer becomes pending exactly when no pending timer
expires in the same millisecond. Otherwise it is freed at once and its handle dangles.

1. `mem_addSingleTimer`, `mem_removeSingleTimer`, `mem_refreshSingleTimer`, `mem_handleRead`: the
   pending timers after each operation.
2. `no_timer_lost_iff`: the exact condition under which no timer is lost.
3. `same_millisecond_timer_lost`: two timers due in the same millisecond.
-/

namespace TurtleServer.Timer

open Lib

variable {κ : Type} {clock : Clock} {t : Timer κ} {s h : SingleTimer κ} {expireFromNow : ℕ}

/-! ## 1. The pending timers after each operation -/

/-- A timer just made is not pending yet. -/
theorem makeSingleTimer_not_mem (callback : κ) :
    t.makeSingleTimer clock expireFromNow callback ∉ t.timerQueue :=
  fun hmem => Nat.lt_irrefl _ (t.id_lt_made _ hmem)

theorem find?_of_mem (hs : s ∈ t.timerQueue) : t.timerQueue.find? s.expireTime = some s :=
  KeyedQueue.find?_eq_some.mpr ⟨hs, rfl⟩

theorem mem_addSingleTimer {callback : κ} :
    s ∈ (t.addSingleTimer clock expireFromNow callback).2.timerQueue ↔
      s ∈ t.timerQueue ∨ (s = t.makeSingleTimer clock expireFromNow callback ∧
        ∀ p ∈ t.timerQueue, p.expireTime ≠ t.newExpireTime clock expireFromNow) := by
  rw [addSingleTimer, resetIfChanged_timerQueue]
  exact KeyedQueue.mem_emplace

/-- A handle removes the pending timer with its expire time, which need not be the handle's own. -/
theorem mem_removeSingleTimer :
    s ∈ (t.removeSingleTimer clock h).2.timerQueue ↔
      s ∈ t.timerQueue ∧ s.expireTime ≠ h.expireTime := by
  unfold removeSingleTimer
  cases hf : t.timerQueue.find? h.expireTime with
  | some found =>
    rw [resetIfChanged_timerQueue]
    exact KeyedQueue.mem_erase
  | none =>
    have hfree := KeyedQueue.find?_eq_none.mp hf
    exact ⟨fun hs => ⟨hs, hfree s hs⟩, And.left⟩

theorem refreshSingleTimer_none (hfree : ∀ p ∈ t.timerQueue, p.expireTime ≠ h.expireTime) :
    t.refreshSingleTimer clock h expireFromNow = (none, t) := by
  rw [refreshSingleTimer, KeyedQueue.find?_eq_none.mpr hfree]

theorem refreshSingleTimer_fst {found : SingleTimer κ} (hfound : found ∈ t.timerQueue)
    (hexp : found.expireTime = h.expireTime) :
    (t.refreshSingleTimer clock h expireFromNow).1 =
      some (t.makeSingleTimer clock expireFromNow found.callback) := by
  rw [refreshSingleTimer, KeyedQueue.find?_eq_some.mpr ⟨hfound, hexp⟩]

theorem mem_refreshSingleTimer {found : SingleTimer κ} (hfound : found ∈ t.timerQueue)
    (hexp : found.expireTime = h.expireTime) :
    s ∈ (t.refreshSingleTimer clock h expireFromNow).2.timerQueue ↔
      (s ∈ t.timerQueue ∧ s ≠ found) ∨
      (s = t.makeSingleTimer clock expireFromNow found.callback ∧
        ∀ p ∈ t.timerQueue, p ≠ found → p.expireTime ≠ t.newExpireTime clock expireFromNow) := by
  have hkey : ∀ p ∈ t.timerQueue, (p.expireTime ≠ h.expireTime ↔ p ≠ found) := by
    intro p hp
    rw [← hexp]
    exact not_congr ⟨KeyedQueue.eq_of_key hp hfound, fun he => he ▸ rfl⟩
  have hmem : ∀ p, p ∈ (t.eraseAt h.expireTime).timerQueue ↔ p ∈ t.timerQueue ∧ p ≠ found := by
    intro p
    rw [eraseAt, KeyedQueue.mem_erase]
    exact and_congr_right fun hp => hkey p hp
  rw [refreshSingleTimer, KeyedQueue.find?_eq_some.mpr ⟨hfound, hexp⟩]
  simp only [resetIfChanged_timerQueue, emplaceNew]
  rw [KeyedQueue.mem_emplace, hmem]
  simp only [hmem, and_imp]
  exact Iff.rfl

theorem mem_handleRead : s ∈ (t.handleRead clock).2.timerQueue ↔
    s ∈ t.timerQueue.drop (expiredCount clock (t.reads + 1) t.timerQueue.toList) := by
  rw [handleRead, pruneExpiredTimer, resetIfChanged_timerQueue]
  exact Iff.rfl

/-! ### Looks at the clock

Their number only grows, and a timer found expired was due at the look that found it. -/

theorem reads_resetIfChanged (clock : Clock) (t : Timer κ) : t.reads ≤ (t.resetIfChanged clock).reads := by
  simp only [resetIfChanged, resetTimerFd]
  split
  · exact Nat.le_add_right _ _
  · exact Nat.le_refl _

theorem reads_addSingleTimer (clock : Clock) (t : Timer κ) (d : ℕ) (callback : κ) :
    t.reads ≤ (t.addSingleTimer clock d callback).2.reads :=
  (Nat.le_succ _).trans (reads_resetIfChanged _ (t.emplaceNew clock d callback))

theorem reads_removeSingleTimer (clock : Clock) (t : Timer κ) (h : SingleTimer κ) :
    t.reads ≤ (t.removeSingleTimer clock h).2.reads := by
  unfold removeSingleTimer
  split
  · exact reads_resetIfChanged _ (t.eraseAt h.expireTime)
  · exact Nat.le_refl _

theorem reads_refreshSingleTimer (clock : Clock) (t : Timer κ) (h : SingleTimer κ) (d : ℕ) :
    t.reads ≤ (t.refreshSingleTimer clock h d).2.reads := by
  unfold refreshSingleTimer
  split
  · exact Nat.le_refl _
  · exact (Nat.le_succ _).trans
      (reads_resetIfChanged _ ((t.eraseAt h.expireTime).emplaceNew clock d _))

theorem reads_handleRead (clock : Clock) (t : Timer κ) :
    t.reads + 1 + expiredTests clock (t.reads + 1) t.timerQueue.toList ≤
      (t.handleRead clock).2.reads := by
  have h := reads_resetIfChanged clock
    { (t.readTimerFd clock).eraseFirst (expiredCount clock (t.reads + 1) t.timerQueue.toList) with
      reads := t.reads + 1 + expiredTests clock (t.reads + 1) t.timerQueue.toList }
  exact h

theorem expiredCount_le_length (clock : Clock) : ∀ (i : ℕ) (q : List (SingleTimer κ)),
    expiredCount clock i q ≤ q.length
  | _, [] => Nat.le_refl _
  | i, s :: rest => by
    unfold expiredCount
    split
    · exact Nat.succ_le_succ (expiredCount_le_length _ (i + 1) rest)
    · exact Nat.zero_le _

/-- A timer that the first loop of `PruneExpiredTimer` passes was due at the clock of its test. -/
theorem expireTime_le_of_mem_take {j : ℕ} :
    ∀ {i : ℕ} {q : List (SingleTimer κ)}, s ∈ q.take (expiredCount clock i q) →
      i + expiredCount clock i q ≤ j + 1 → s.expireTime ≤ clock.now j
  | _, [], hs, _ => absurd hs (by simp)
  | i, p :: rest, hs, hj => by
    unfold expiredCount at hs hj
    split at hs
    · next hexp =>
      rw [if_pos hexp] at hj
      rw [List.take_succ_cons] at hs
      rcases List.mem_cons.mp hs with rfl | hs'
      · have hdue : s.expireTime ≤ clock.now i := by simpa [SingleTimer.expired] using hexp
        exact hdue.trans (clock.mono (by omega))
      · exact expireTime_le_of_mem_take hs' (by omega)
    · rw [List.take_zero] at hs
      exact absurd hs List.not_mem_nil

/-- The clock has come to the expire time of every timer that `HandleRead` is to run. -/
theorem expireTime_le_of_handleRead (hs : s ∈ (t.handleRead clock).1) :
    s.expireTime ≤ clock.now ((t.handleRead clock).2.reads - 1) := by
  have hreads := reads_handleRead clock t
  have hcount := expiredCount_le_length clock (t.reads + 1) t.timerQueue.toList
  refine expireTime_le_of_mem_take hs ?_
  simp only [readTimerFd]
  unfold expiredTests at hreads
  omega

/-! ## 2. When no timer is lost -/

/-- What `AddSingleTimer` is for: one more pending timer, the one returned, and no other change. -/
structure AddKeeps (clock : Clock) (t : Timer κ) (expireFromNow : ℕ) (callback : κ) : Prop where
  count : (t.addSingleTimer clock expireFromNow callback).2.timerCount = t.timerCount + 1
  added : (t.addSingleTimer clock expireFromNow callback).1 ∈
    (t.addSingleTimer clock expireFromNow callback).2.timerQueue
  others : ∀ s ∈ t.timerQueue, s ∈ (t.addSingleTimer clock expireFromNow callback).2.timerQueue

/-- What `RefreshSingleTimer` is for: as many pending timers as before, the one returned among them,
and every timer but the refreshed one as it was. -/
structure RefreshKeeps (clock : Clock) (t : Timer κ) (h : SingleTimer κ) (expireFromNow : ℕ) :
    Prop where
  count : (t.refreshSingleTimer clock h expireFromNow).2.timerCount = t.timerCount
  added : ∃ n, (t.refreshSingleTimer clock h expireFromNow).1 = some n ∧
    n ∈ (t.refreshSingleTimer clock h expireFromNow).2.timerQueue
  others : ∀ s ∈ t.timerQueue, s ≠ h → s ∈ (t.refreshSingleTimer clock h expireFromNow).2.timerQueue

theorem addKeeps_iff {callback : κ} :
    AddKeeps clock t expireFromNow callback ↔
      ∀ s ∈ t.timerQueue, s.expireTime ≠ t.newExpireTime clock expireFromNow := by
  constructor
  · intro hk
    rcases mem_addSingleTimer.mp hk.added with hold | ⟨_, hfree⟩
    · exact absurd hold (makeSingleTimer_not_mem callback)
    · exact hfree
  · intro hfree
    refine ⟨?_, mem_addSingleTimer.mpr (.inr ⟨rfl, hfree⟩), fun s hs =>
      mem_addSingleTimer.mpr (.inl hs)⟩
    rw [timerCount, addSingleTimer, resetIfChanged_timerQueue]
    exact KeyedQueue.length_emplace_of_free hfree

theorem refreshKeeps_iff (hh : h ∈ t.timerQueue) :
    RefreshKeeps clock t h expireFromNow ↔
      ∀ s ∈ t.timerQueue, s ≠ h → s.expireTime ≠ t.newExpireTime clock expireFromNow := by
  constructor
  · intro hk
    obtain ⟨n, hn, hmem⟩ := hk.added
    rw [refreshSingleTimer_fst hh rfl, Option.some.injEq] at hn
    subst hn
    rcases (mem_refreshSingleTimer hh rfl).mp hmem with ⟨hold, _⟩ | ⟨_, hfree⟩
    · exact absurd hold (makeSingleTimer_not_mem h.callback)
    · exact hfree
  · intro hfree
    refine ⟨?_, ⟨_, refreshSingleTimer_fst hh rfl,
      (mem_refreshSingleTimer hh rfl).mpr (.inr ⟨rfl, hfree⟩)⟩,
      fun s hs hne => (mem_refreshSingleTimer hh rfl).mpr (.inl ⟨hs, hne⟩)⟩
    -- one less by the erase, one more by the emplace, whose place is free
    have herase : (t.timerQueue.erase h.expireTime).length + 1 = t.timerQueue.length :=
      KeyedQueue.length_erase hh
    rw [timerCount, timerCount, ← herase, refreshSingleTimer, find?_of_mem hh]
    simp only [resetIfChanged_timerQueue]
    refine KeyedQueue.length_emplace_of_free fun p hp => ?_
    obtain ⟨hp', hpe⟩ := KeyedQueue.mem_erase.mp hp
    exact hfree p hp' fun he => hpe (he ▸ rfl)

/-- Adding a timer, or refreshing a pending one, loses no timer exactly when no other pending timer
expires in the millisecond in which the new one is to expire. -/
theorem no_timer_lost_iff (clock : Clock) (t : Timer κ) (expireFromNow : ℕ) :
    (∀ callback, AddKeeps clock t expireFromNow callback ↔
      ∀ s ∈ t.timerQueue, s.expireTime ≠ t.newExpireTime clock expireFromNow) ∧
    (∀ h ∈ t.timerQueue, RefreshKeeps clock t h expireFromNow ↔
      ∀ s ∈ t.timerQueue, s ≠ h → s.expireTime ≠ t.newExpireTime clock expireFromNow) :=
  ⟨fun _ => addKeeps_iff, fun _ hh => refreshKeeps_iff hh⟩

/-! ## 3. Two timers due in the same millisecond -/

/-- A timer with one pending single timer, due in 100 ms on a clock that stands still. -/
def oneTimer : Timer Unit := (Timer.new.addSingleTimer (Clock.upTo 0 (by decide)) 100 ()).2

/-- The second of two timers added with the same delay in the same millisecond is lost: the count
stays at one, and the handle returned is not pending. -/
theorem same_millisecond_timer_lost :
    ¬ AddKeeps (Clock.upTo 0 (by decide)) oneTimer 100 () ∧
    (oneTimer.addSingleTimer (Clock.upTo 0 (by decide)) 100 ()).2.timerCount = 1 := by
  refine ⟨fun hk => ?_, by decide⟩
  exact absurd hk.count (by decide)

/-- A second timer with another delay is not lost, and the first can be refreshed. -/
theorem no_timer_lost_of_distinct_delays :
    AddKeeps (Clock.upTo 0 (by decide)) oneTimer 200 () ∧
    ∃ h ∈ oneTimer.timerQueue, RefreshKeeps (Clock.upTo 0 (by decide)) oneTimer h 200 := by
  obtain ⟨hadd, hrefresh⟩ := no_timer_lost_iff (Clock.upTo 0 (by decide)) oneTimer 200
  exact ⟨(hadd ()).mpr (by decide), ⟨0, 100, ()⟩, by decide, (hrefresh _ (by decide)).mpr (by decide)⟩

end TurtleServer.Timer
