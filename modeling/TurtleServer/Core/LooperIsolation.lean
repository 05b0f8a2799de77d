import TurtleServer.Core.Looper

/-!
# One connection's operations and another's state

An operation on one fd is meant to leave everything the looper keeps for another one as it is. But
`timer_queue_` finds a timer by its expire time, and a handle may have the expire time of a timer that
belongs to somebody else: `AddConnection` stores a handle even when `timer_queue_` has dropped the
timer, and `RefreshConnection` leaves the handle of the erased timer in `timers_mapping_`.

1. `SameFor` and `Isolated`: the operation leaves the others alone; `Apart`: the handle does not find
   the timer of another fd.
2. `isolated_iff`: one step, from any state.
3. `connections_isolated_iff`: all runs.
-/

namespace TurtleServer.Looper

open Lib Timer

/-! ## 1. Isolation -/

/-- A timer of fd `a` with the deadline `t` is pending. -/
def Pending (l : Looper) (a : Fd) (t : ℕ) : Prop :=
  ∃ s ∈ l.timer.timerQueue, s.callback = a ∧ s.expireTime = t

instance (l : Looper) (a : Fd) (t : ℕ) : Decidable (l.Pending a t) :=
  inferInstanceAs (Decidable (∃ s ∈ l.timer.timerQueue.toList, s.callback = a ∧ s.expireTime = t))

/-- All that is kept for fd `a` is in `l'` as it is in `l`. -/
structure SameFor (a : Fd) (l l' : Looper) : Prop where
  connection : l'.connections.lookup a = l.connections.lookup a
  handle : l'.timersMapping.lookup a = l.timersMapping.lookup a
  timers : ∀ t, l'.Pending a t ↔ l.Pending a t

/-- The operation leaves alone what is kept for the other fds. -/
def Isolated (clock : Clock) (l : Looper) : Op → Prop
  | .addConnection newConn => ∀ a, a ≠ newConn.fd → SameFor a l (l.addConnection clock newConn)
  | .refreshConnection b => ∀ a, a ≠ b → SameFor a l (l.refreshConnection clock b).2
  | .deleteConnection b => ∀ a, a ≠ b → SameFor a l (l.deleteConnection clock b).2
  | .handleRead => True

/-- The handle stored for the fd finds no timer of another fd, or gives it the deadline it has. -/
def Apart (clock : Clock) (l : Looper) : Op → Prop
  | .addConnection _ => True
  | .refreshConnection b => ∀ h ∈ l.timersMapping.lookup b, ∀ s ∈ l.timer.timerQueue,
      s.expireTime = h.expireTime →
        s.callback = b ∨ s.expireTime = l.timer.newExpireTime clock l.timerExpiration
  | .deleteConnection b => b ∈ l.connections → ∀ h ∈ l.timersMapping.lookup b,
      ∀ s ∈ l.timer.timerQueue, s.expireTime = h.expireTime → s.callback = b
  | .handleRead => True

/-! ## 2. Steps -/

namespace IsolationLemmas

variable {clock : Clock} {l : Looper} {b : Fd} {h : SingleTimer Fd}

theorem add_isolated (huse : l.useTimer = true) (newConn : Conn) :
    Isolated clock l (.addConnection newConn) := by
  intro a ha
  rw [addConnection_eq huse]
  refine ⟨Map.lookup_emplace_ne ha, Map.lookup_emplace_ne ha, fun t => ?_⟩
  constructor
  · rintro ⟨s, hs, hcall, ht⟩
    rcases mem_addSingleTimer.mp hs with hs | ⟨rfl, -⟩
    · exact ⟨s, hs, hcall, ht⟩
    · exact absurd hcall.symm ha
  · rintro ⟨s, hs, hcall, ht⟩
    exact ⟨s, mem_addSingleTimer.mpr (.inl hs), hcall, ht⟩

/-- A refresh whose handle finds the timer `found`. -/
theorem refresh_found (huse : l.useTimer = true) (hh : l.timersMapping.lookup b = some h)
    {found : SingleTimer Fd} (hfound : found ∈ l.timer.timerQueue)
    (hexp : found.expireTime = h.expireTime) :
    Isolated clock l (.refreshConnection b) ↔
      found.callback = b ∨ found.expireTime = l.timer.newExpireTime clock l.timerExpiration := by
  show (∀ a, a ≠ b → SameFor a l (l.baseHandleCallback clock b)) ↔ _
  rw [refreshConnection_of_some huse hh]
  constructor
  · intro hsame
    by_contra hnot
    obtain ⟨hcall, hnew⟩ := not_or.mp hnot
    -- the deadline of `found` is gone
    obtain ⟨s, hs, hscall, hsexp⟩ :=
      ((hsame found.callback hcall).timers found.expireTime).mpr ⟨found, hfound, rfl, rfl⟩
    rcases (mem_refreshSingleTimer hfound hexp).mp hs with ⟨hq, hne⟩ | ⟨rfl, -⟩
    · exact hne (KeyedQueue.eq_of_key hq hfound hsexp)
    · exact hnew hsexp.symm
  · intro hor a ha
    refine ⟨rfl, rfl, fun t => ⟨?_, ?_⟩⟩
    · rintro ⟨s, hs, hcall, ht⟩
      rcases (mem_refreshSingleTimer hfound hexp).mp hs with ⟨hq, -⟩ | ⟨rfl, -⟩
      · exact ⟨s, hq, hcall, ht⟩
      · rcases hor with hb | hnew
        · exact absurd (hcall.symm.trans hb) ha
        · exact ⟨found, hfound, hcall, hnew.trans ht⟩
    · rintro ⟨s, hs, hcall, ht⟩
      rcases eq_or_ne s found with rfl | hne
      · rcases hor with hb | hnew
        · exact absurd (hcall.symm.trans hb) ha
        · refine ⟨_, (mem_refreshSingleTimer hfound hexp).mpr (.inr ⟨rfl, fun p hp hpne he => ?_⟩),
            hcall, hnew.symm.trans ht⟩
          exact hpne (KeyedQueue.eq_of_key hp hfound (he.trans hnew.symm))
      · exact ⟨s, (mem_refreshSingleTimer hfound hexp).mpr (.inl ⟨hs, hne⟩), hcall, ht⟩

theorem refresh_isolated_iff (huse : l.useTimer = true) :
    Isolated clock l (.refreshConnection b) ↔ Apart clock l (.refreshConnection b) := by
  cases hh : l.timersMapping.lookup b with
  | none =>
    refine iff_of_true ?_ fun h hmem => absurd (hh.symm.trans hmem) nofun
    show ∀ a, a ≠ b → SameFor a l (l.baseHandleCallback clock b)
    rw [refreshConnection_of_none hh]
    exact fun a _ => ⟨rfl, rfl, fun t => Iff.rfl⟩
  | some h =>
    by_cases hfind : ∃ s ∈ l.timer.timerQueue, s.expireTime = h.expireTime
    · obtain ⟨found, hfound, hexp⟩ := hfind
      rw [refresh_found huse hh hfound hexp]
      constructor
      · rintro hor h' hmem s hs hs'
        cases hh.symm.trans hmem
        rw [KeyedQueue.eq_of_key hs hfound (hs'.trans hexp.symm)]
        exact hor
      · exact fun hapart => hapart h hh found hfound hexp
    · have hnone : ∀ s ∈ l.timer.timerQueue, s.expireTime ≠ h.expireTime :=
        fun s hs he => hfind ⟨s, hs, he⟩
      refine iff_of_true ?_ fun h' hmem s hs hs' => ?_
      · show ∀ a, a ≠ b → SameFor a l (l.baseHandleCallback clock b)
        rw [refreshConnection_of_some huse hh, refreshSingleTimer_none hnone]
        exact fun a _ => ⟨rfl, rfl, fun t => Iff.rfl⟩
      · cases hh.symm.trans hmem
        exact absurd hs' (hnone s hs)

theorem delete_isolated_iff (huse : l.useTimer = true) :
    Isolated clock l (.deleteConnection b) ↔ Apart clock l (.deleteConnection b) := by
  show (∀ a, a ≠ b → SameFor a l (l.deleteConnection clock b).2) ↔ _
  by_cases hb : b ∈ l.connections
  · cases hh : l.timersMapping.lookup b with
    | none =>
      refine iff_of_true ?_ fun _ h hmem => absurd (hh.symm.trans hmem) nofun
      obtain ⟨conn, hconn⟩ := Map.mem_iff_lookup.mp hb
      simp only [deleteConnection, hconn, huse, hh, ↓reduceIte]
      exact fun a ha => ⟨AList.lookup_erase_ne ha, rfl, fun t => Iff.rfl⟩
    | some h =>
      rw [deleteConnection_of_some huse hb hh]
      constructor
      · rintro hsame - h' hmem s hs hs'
        cases hh.symm.trans hmem
        by_contra hcall
        -- the timer of another fd is gone
        obtain ⟨p, hp, -, hpexp⟩ :=
          ((hsame s.callback hcall).timers s.expireTime).mpr ⟨s, hs, rfl, rfl⟩
        exact (mem_removeSingleTimer.mp hp).2 (hpexp.trans hs')
      · intro hapart a ha
        refine ⟨AList.lookup_erase_ne ha, AList.lookup_erase_ne ha, fun t => ⟨?_, ?_⟩⟩
        · rintro ⟨s, hs, hcall, ht⟩
          exact ⟨s, (mem_removeSingleTimer.mp hs).1, hcall, ht⟩
        · rintro ⟨s, hs, hcall, ht⟩
          refine ⟨s, mem_removeSingleTimer.mpr ⟨hs, fun he => ha ?_⟩, hcall, ht⟩
          exact hcall.symm.trans (hapart hb h hh s hs he)
  · rw [deleteConnection_of_not_mem hb]
    exact iff_of_true (fun a _ => ⟨rfl, rfl, fun t => Iff.rfl⟩) fun hmem => absurd hmem hb

/-- One operation, from any state of a looper with timers. -/
theorem isolated_iff (huse : l.useTimer = true) (op : Op) :
    Isolated clock l op ↔ Apart clock l op := by
  cases op with
  | addConnection newConn => exact iff_of_true (add_isolated huse newConn) True.intro
  | refreshConnection b => exact refresh_isolated_iff huse
  | deleteConnection b => exact delete_isolated_iff huse
  | handleRead => exact Iff.rfl

theorem useTimer_delete (l : Looper) (fd : Fd) :
    (l.deleteConnection clock fd).2.useTimer = l.useTimer := by
  unfold deleteConnection
  split
  · rfl
  · dsimp only
    split
    · split
      · rfl
      · rfl
    · rfl

theorem useTimer_callbacks (timers : List (SingleTimer Fd)) (l : Looper) :
    (timers.foldl (runCallback clock) l).useTimer = l.useTimer := by
  induction timers generalizing l with
  | nil => rfl
  | cons s timers ih => exact (ih _).trans (useTimer_delete l s.callback)

theorem useTimer_step (huse : l.useTimer = true) (op : Op) : (l.step clock op).useTimer = true := by
  cases op with
  | addConnection newConn =>
    show (l.addConnection clock newConn).useTimer = true
    rw [addConnection_eq huse]
    exact huse
  | refreshConnection fd =>
    show (l.baseHandleCallback clock fd).useTimer = true
    cases hh : l.timersMapping.lookup fd with
    | none =>
      rw [refreshConnection_of_none hh]
      exact huse
    | some h =>
      rw [refreshConnection_of_some huse hh]
      exact huse
  | deleteConnection fd => exact (useTimer_delete l fd).trans huse
  | handleRead => exact (useTimer_callbacks _ _).trans huse

end IsolationLemmas

open IsolationLemmas

/-! ## 3. Runs -/

/-- Along every run of a looper with timers, and for every operation that comes after it, an operation
leaves the other fds alone exactly when its handle does not find a timer of theirs. -/
theorem connections_isolated_iff (clock : Clock) {timerExpiration : ℕ} (htimer : timerExpiration ≠ 0)
    (ops : List Op) :
    (Along (step clock) (Isolated clock) (new timerExpiration) ops ↔
      Along (step clock) (Apart clock) (new timerExpiration) ops) ∧
    ∀ op, Isolated clock (run (step clock) (new timerExpiration) ops) op ↔
      Apart clock (run (step clock) (new timerExpiration) ops) op := by
  have hstart : (new timerExpiration).useTimer = true := decide_eq_true htimer
  refine ⟨along_congr (I := fun l => l.useTimer = true) (fun l op huse _ => useTimer_step huse op)
    (fun l op huse => isolated_iff huse op) hstart, fun op => isolated_iff ?_ op⟩
  exact run_of_forall (I := fun l : Looper => l.useTimer = true)
    (fun l op huse => useTimer_step huse op) ops hstart

/-- Two connections, added in the same millisecond. -/
def twoArrivals : List Op := [.addConnection ⟨0, 5⟩, .addConnection ⟨1, 6⟩]

theorem twoArrivals_isolated_iff :
    1000 ≠ 0 ∧ ∀ op, Isolated (.upTo 0 (by decide)) (run (step (.upTo 0 (by decide))) (new 1000)
        twoArrivals) op ↔
      Apart (.upTo 0 (by decide)) (run (step (.upTo 0 (by decide))) (new 1000) twoArrivals) op :=
  ⟨by decide, (connections_isolated_iff (.upTo 0 (by decide)) (by decide) twoArrivals).2⟩

/-- When fd 6 leaves, the timer of fd 5 goes with it. -/
theorem leaving_takes_other_timer :
    ∃ l, run (step (.upTo 0 (by decide))) (new 1000) twoArrivals = l ∧ l.Pending 5 1000 ∧
      ¬ (l.deleteConnection (.upTo 0 (by decide)) 6).2.Pending 5 1000 ∧
      ¬ Isolated (.upTo 0 (by decide)) l (.deleteConnection 6) := by
  have hbefore : (run (step (.upTo 0 (by decide))) (new 1000) twoArrivals).Pending 5 1000 := by decide
  have hafter : ¬ ((run (step (.upTo 0 (by decide))) (new 1000) twoArrivals).deleteConnection
    (.upTo 0 (by decide)) 6).2.Pending 5 1000 := by decide
  exact ⟨_, rfl, hbefore, hafter, fun hiso =>
    hafter (((hiso 5 (by decide)).timers 1000).mpr hbefore)⟩

end TurtleServer.Looper
