import TurtleServer.Core.Looper

/-!
# Kick-outs: who is removed by an expired timer, and when

A connection is to be removed by its timer only after `timer_expiration` milliseconds without
activity. `Watch` runs a looper and takes notes beside it: when the connection now registered under
each fd was added or last refreshed, and every removal by a timer callback. Nothing of the notes
feeds back into the looper.

A removal is premature when an outdated timer for the fd is still pending, either because a refresh
did not find it (its handle in `timers_mapping_` is that of a timer already erased) or because an
earlier connection with the same fd left it behind when it was deleted.

1. `Unshadowed`: the step leaves no such timer behind.
2. `kickOuts_timely`: in a run of such steps no removal is premature.
3. `premature_kickOut`: two refreshes are enough for one that is.
-/

namespace TurtleServer

open Lib Timer Looper

/-- A removal of `conn` by a timer callback when the clock was last seen at `time`; `seen` is when
`conn` was added or last refreshed. -/
structure KickOut where
  conn : Conn
  seen : ℕ
  time : ℕ
deriving DecidableEq, Repr

/-- A looper under observation. -/
structure Watch where
  looper : Looper
  seen : Fd → ℕ
  kickOuts : List KickOut

namespace Watch

/-- A new looper, with nothing noted. -/
def new (timerExpiration : ℕ) : Watch := ⟨Looper.new timerExpiration, fun _ => 0, []⟩

variable (clock : Clock)

/-- The time of an operation that starts now: what its first look at the clock will give. -/
def now (w : Watch) : ℕ := clock.now w.looper.timer.reads

/-- Runs the callback of one expired timer and notes whom it removes. -/
def runCallback (w : Watch) (singleTimer : SingleTimer Fd) : Watch :=
  { w with
    looper := w.looper.runCallback clock singleTimer
    kickOuts := match w.looper.connections.lookup singleTimer.callback with
      | some conn =>
        w.kickOuts ++
          [⟨conn, w.seen singleTimer.callback, clock.now (w.looper.timer.reads - 1)⟩]
      | none => w.kickOuts }

/-- `HandleRead`. -/
def handleRead (w : Watch) : Watch :=
  (w.looper.timer.handleRead clock).1.foldl (runCallback clock)
    { w with looper := { w.looper with timer := (w.looper.timer.handleRead clock).2 } }

/-- One operation of the looper, with the notes. -/
def step (w : Watch) : Op → Watch
  | .addConnection newConn =>
    { w with
      looper := w.looper.step clock (.addConnection newConn)
      seen := Function.update w.seen newConn.fd (w.now clock) }
  | .refreshConnection fd =>
    { w with
      looper := w.looper.step clock (.refreshConnection fd)
      seen := Function.update w.seen fd (w.now clock) }
  | .deleteConnection fd => { w with looper := w.looper.step clock (.deleteConnection fd) }
  | .handleRead => w.handleRead clock

/-- No connection was removed by a timer before its time. -/
def Timely (timerExpiration : ℕ) (w : Watch) : Prop :=
  ∀ k ∈ w.kickOuts, k.seen + timerExpiration ≤ k.time

instance (timerExpiration : ℕ) (w : Watch) : Decidable (w.Timely timerExpiration) :=
  inferInstanceAs (Decidable (∀ k ∈ w.kickOuts, _))

/-- An fd is given to a new connection only when no timer is pending for it, and a connection is
refreshed only when the handle stored for it finds the timer that is pending for it. -/
def Unshadowed (w : Watch) : Op → Prop
  | .addConnection newConn => ∀ s ∈ w.looper.timer.timerQueue, s.callback ≠ newConn.fd
  | .refreshConnection fd => ∀ h, w.looper.timersMapping.lookup fd = some h →
      ∀ s ∈ w.looper.timer.timerQueue, s.callback = fd → s.expireTime = h.expireTime
  | .deleteConnection _ => True
  | .handleRead => True

instance (w : Watch) : (op : Op) → Decidable (w.Unshadowed op)
  | .addConnection newConn =>
    inferInstanceAs (Decidable (∀ s ∈ w.looper.timer.timerQueue.toList, s.callback ≠ newConn.fd))
  | .refreshConnection fd =>
    match hm : w.looper.timersMapping.lookup fd with
    | none => .isTrue fun _ hh => absurd (hm.symm.trans hh) (Option.some_ne_none _).symm
    | some h =>
      decidable_of_iff (∀ s ∈ w.looper.timer.timerQueue.toList, s.callback = fd →
        s.expireTime = h.expireTime)
        ⟨fun hall _ hh => Option.some.inj (hm.symm.trans hh) ▸ hall, fun hall => hall h hm⟩
  | .deleteConnection _ | .handleRead => inferInstanceAs (Decidable True)

namespace KickOutLemmas

variable {clock : Clock} {w : Watch} {l : Looper} {E : ℕ} {pruned : List (SingleTimer Fd)}

/-- `DeleteConnection` only takes away, and takes a connection out of both maps. -/
theorem deleteConnection_shrinks (clock : Clock) (l : Looper) (fd : Fd) :
    l.timer.reads ≤ (l.deleteConnection clock fd).2.timer.reads ∧
    (∀ s ∈ (l.deleteConnection clock fd).2.timer.timerQueue, s ∈ l.timer.timerQueue) ∧
    (∀ a ∈ (l.deleteConnection clock fd).2.connections, a ∈ l.connections) ∧
    ((∀ a ∈ l.connections, a ∈ l.timersMapping) →
      ∀ a ∈ (l.deleteConnection clock fd).2.connections,
        a ∈ (l.deleteConnection clock fd).2.timersMapping) ∧
    (l.deleteConnection clock fd).2.useTimer = l.useTimer ∧
    (l.deleteConnection clock fd).2.timerExpiration = l.timerExpiration := by
  have herase : ∀ a ∈ l.connections.erase fd, a ∈ l.connections :=
    fun a ha => (AList.mem_erase.mp ha).2
  rw [Looper.deleteConnection]
  split
  · exact ⟨Nat.le_refl _, fun _ => id, fun _ => id, id, rfl, rfl⟩
  · dsimp only
    split
    · split
      · next h _ =>
        exact ⟨reads_removeSingleTimer _ l.timer h, fun _ hs => (mem_removeSingleTimer.mp hs).1,
          herase, fun hk a ha => AList.mem_erase.mpr
            ⟨(AList.mem_erase.mp ha).1, hk a (herase a ha)⟩, rfl, rfl⟩
      · exact ⟨Nat.le_refl _, fun _ => id, herase, fun hk a ha => hk a (herase a ha), rfl, rfl⟩
    · exact ⟨Nat.le_refl _, fun _ => id, herase, fun hk a ha => hk a (herase a ha), rfl, rfl⟩

/-- The invariant: every pending timer of a registered connection is due no sooner than its time
after the last activity. `pruned` are expired timers whose callbacks are still to be run. -/
structure Good (clock : Clock) (E : ℕ) (w : Watch) (pruned : List (SingleTimer Fd)) : Prop where
  use : w.looper.useTimer = true
  expiration : w.looper.timerExpiration = E
  keys : ∀ a ∈ w.looper.connections, a ∈ w.looper.timersMapping
  due : ∀ s, s ∈ w.looper.timer.timerQueue ∨ s ∈ pruned → s.callback ∈ w.looper.connections →
    w.seen s.callback + E ≤ s.expireTime
  past : ∀ s ∈ pruned, s.expireTime ≤ clock.now (w.looper.timer.reads - 1)
  seen_le : ∀ fd, w.seen fd ≤ clock.now w.looper.timer.reads
  timely : w.Timely E

/-- A callback that finds its connection removes it in time, by `due` and `past`. -/
theorem runCallback_good {s : SingleTimer Fd} (h : Good clock E w (s :: pruned)) :
    Good clock E (w.runCallback clock s) pruned := by
  obtain ⟨hreads, hqueue, hconn, hkeys, huse, hexp⟩ :=
    deleteConnection_shrinks clock w.looper s.callback
  refine ⟨huse.trans h.use, hexp.trans h.expiration, hkeys h.keys, fun p hp hreg => ?_,
    fun p hp => ?_, fun fd => (h.seen_le fd).trans (clock.mono hreads), ?_⟩
  · exact h.due p (hp.imp (hqueue p) (List.mem_cons_of_mem _)) (hconn _ hreg)
  · exact (h.past p (List.mem_cons_of_mem _ hp)).trans (clock.mono (Nat.sub_le_sub_right hreads 1))
  · intro k hk
    unfold Watch.runCallback at hk
    cases hc : w.looper.connections.lookup s.callback with
    | none =>
      rw [hc] at hk
      exact h.timely k hk
    | some conn =>
      simp only [hc, List.mem_append, List.mem_singleton] at hk
      rcases hk with hk | rfl
      · exact h.timely k hk
      · exact (h.due s (.inr List.mem_cons_self) (Map.mem_of_lookup hc)).trans
          (h.past s List.mem_cons_self)

theorem callbacks_good : ∀ {pruned : List (SingleTimer Fd)} {w : Watch}, Good clock E w pruned →
    Good clock E (pruned.foldl (Watch.runCallback clock) w) []
  | [], _, h => h
  | s :: _, w, h => callbacks_good (w := w.runCallback clock s) (runCallback_good h)

theorem handleRead_good (h : Good clock E w []) : Good clock E (w.handleRead clock) [] := by
  refine callbacks_good ⟨h.use, h.expiration, h.keys, fun s hs hreg => ?_, fun s hs => ?_,
    fun fd => ?_, h.timely⟩
  · refine h.due s (.inl ?_) hreg
    rcases hs with hs | hs
    · exact KeyedQueue.mem_of_mem_drop (mem_handleRead.mp hs)
    · exact List.mem_of_mem_take hs
  · exact expireTime_le_of_handleRead hs
  · have hreads := reads_handleRead clock w.looper.timer
    exact (h.seen_le fd).trans (clock.mono (by simp only; omega))

/-- The note taken by an operation that starts now is not ahead of the clock after it. -/
theorem update_seen_le (h : Good clock E w pruned) (fd : Fd) {r : ℕ} (hr : w.looper.timer.reads ≤ r)
    (a : Fd) : Function.update w.seen fd (w.now clock) a ≤ clock.now r := by
  by_cases ha : a = fd
  · subst ha
    rw [Function.update_self]
    exact clock.mono hr
  · rw [Function.update_of_ne ha]
    exact (h.seen_le a).trans (clock.mono hr)

theorem addConnection_good (hclock : ∀ i, clock.now i + E < 2 ^ 64) {newConn : Conn}
    (h : Good clock E w []) (hfree : w.Unshadowed (.addConnection newConn)) :
    Good clock E (w.step clock (.addConnection newConn)) [] := by
  have hreads := reads_addSingleTimer clock w.looper.timer w.looper.timerExpiration
    newConn.fd
  simp only [Watch.step, Looper.step, addConnection_eq h.use]
  refine ⟨h.use, h.expiration, fun a ha => ?_, fun s hs hreg => ?_,
    fun s hs => absurd hs List.not_mem_nil, update_seen_le h newConn.fd hreads, h.timely⟩
  · exact Map.mem_emplace.mpr ((Map.mem_emplace.mp ha).imp_right (h.keys a))
  · rcases mem_addSingleTimer.mp (hs.resolve_right List.not_mem_nil) with hq | ⟨rfl, _⟩
    · have hne : s.callback ≠ newConn.fd := hfree s hq
      show Function.update w.seen newConn.fd (w.now clock) s.callback + E ≤ s.expireTime
      rw [Function.update_of_ne hne]
      exact h.due s (.inl hq) ((Map.mem_emplace.mp hreg).resolve_left hne)
    · simp only [makeSingleTimer, newExpireTime, Function.update_self, Watch.now, h.expiration]
      rw [Nat.mod_eq_of_lt (hclock _)]

theorem refreshConnection_good (hclock : ∀ i, clock.now i + E < 2 ^ 64) {fd : Fd}
    (h : Good clock E w []) (hfree : w.Unshadowed (.refreshConnection fd)) :
    Good clock E (w.step clock (.refreshConnection fd)) [] := by
  have hother : ∀ s : SingleTimer Fd, s ∈ w.looper.timer.timerQueue → s.callback ≠ fd →
      s.callback ∈ w.looper.connections →
      Function.update w.seen fd (w.now clock) s.callback + E ≤ s.expireTime := by
    intro s hs hne hreg
    rw [Function.update_of_ne hne]
    exact h.due s (.inl hs) hreg
  simp only [Watch.step, Looper.step]
  cases hm : w.looper.timersMapping.lookup fd with
  | none =>
    rw [refreshConnection_of_none hm]
    refine ⟨h.use, h.expiration, h.keys, fun s hs hreg => ?_,
      fun s hs => absurd hs List.not_mem_nil, update_seen_le h fd (Nat.le_refl _), h.timely⟩
    refine hother s (hs.resolve_right List.not_mem_nil) (fun he => ?_) hreg
    exact AList.lookup_eq_none.mp hm (h.keys fd (he ▸ hreg))
  | some t =>
    rw [refreshConnection_of_some h.use hm]
    have hreads := reads_refreshSingleTimer clock w.looper.timer t
      w.looper.timerExpiration
    refine ⟨h.use, h.expiration, h.keys, fun s hs hreg => ?_,
      fun s hs => absurd hs List.not_mem_nil, update_seen_le h fd hreads, h.timely⟩
    replace hs := hs.resolve_right List.not_mem_nil
    by_cases hfound : ∀ p ∈ w.looper.timer.timerQueue, p.expireTime ≠ t.expireTime
    · -- nothing found: then no timer is pending for `fd` either
      rw [refreshSingleTimer_none hfound] at hs
      exact hother s hs (fun he => hfound s hs (hfree t hm s hs he)) hreg
    · push Not at hfound
      obtain ⟨found, hmem, hexp⟩ := hfound
      rcases (mem_refreshSingleTimer hmem hexp).mp hs with ⟨hq, hne⟩ | ⟨rfl, _⟩
      · -- a timer left alone is not for `fd`: the one for `fd` is the one found
        refine hother s hq (fun he => hne ?_) hreg
        exact KeyedQueue.eq_of_key hq hmem ((hfree t hm s hq he).trans hexp.symm)
      · simp only [makeSingleTimer, newExpireTime, h.expiration]
        rw [Nat.mod_eq_of_lt (hclock _)]
        exact Nat.add_le_add_right (update_seen_le h fd (Nat.le_refl _) _) E

theorem step_good (hclock : ∀ i, clock.now i + E < 2 ^ 64) (h : Good clock E w []) {op : Op}
    (hop : w.Unshadowed op) : Good clock E (w.step clock op) [] := by
  cases op with
  | addConnection newConn => exact addConnection_good hclock h hop
  | refreshConnection fd => exact refreshConnection_good hclock h hop
  | deleteConnection fd =>
    obtain ⟨hreads, hqueue, hconn, hkeys, huse, hexp⟩ :=
      deleteConnection_shrinks clock w.looper fd
    exact ⟨huse.trans h.use, hexp.trans h.expiration, hkeys h.keys,
      fun s hs hreg => h.due s (hs.imp_left (hqueue s)) (hconn _ hreg),
      fun s hs => absurd hs List.not_mem_nil,
      fun a => (h.seen_le a).trans (clock.mono hreads), h.timely⟩
  | handleRead => exact handleRead_good h

end KickOutLemmas

open KickOutLemmas

/-- In a run of a looper with a timer expiration of `E` ms in which no step leaves an outdated timer
pending, every connection removed by a timer was added or last refreshed at least `E` ms before. -/
theorem kickOuts_timely (clock : Clock) (E : ℕ) (hE : 0 < E) (hclock : ∀ i, clock.now i + E < 2 ^ 64)
    (ops : List Op) (hops : Along (step clock) Unshadowed (Watch.new E) ops) :
    Always (step clock) (Timely E) (Watch.new E) ops := by
  have hnew : Good clock E (Watch.new E) [] :=
    { use := decide_eq_true hE.ne'
      expiration := rfl
      keys := fun a ha => absurd ha (AList.notMem_empty a)
      due := fun s hs => absurd hs (by simp [Watch.new, Looper.new, Timer.new])
      past := fun s hs => absurd hs List.not_mem_nil
      seen_le := fun _ => Nat.zero_le _
      timely := fun k hk => absurd hk List.not_mem_nil }
  have hall : Always (step clock) (fun w => Good clock E w []) (Watch.new E) ops :=
    always_of_along (fun _ _ hw hop => step_good hclock hw hop) hnew hops
  exact hall.mono fun _ hw => hw.timely

/-- A connection added at time 0 and refreshed at 3 and 10, with an expiration of 10 ms. -/
def twoRefreshes : List Op :=
  [.addConnection ⟨0, 5⟩, .refreshConnection 5, .handleRead, .handleRead, .refreshConnection 5,
    .handleRead, .handleRead]

/-- The second refresh does not reach the timer that the first one made: the connection is removed
at 15, five milliseconds after it was active. -/
theorem premature_kickOut :
    (run (step (Clock.upTo 1000 (by decide))) (Watch.new 10) twoRefreshes).kickOuts =
      [⟨⟨0, 5⟩, 10, 15⟩] ∧
    ¬ Always (step (Clock.upTo 1000 (by decide))) (Timely 10) (Watch.new 10) twoRefreshes := by
  decide

/-- A connection that is refreshed once and then falls silent. -/
def oneRefresh : List Op :=
  [.addConnection ⟨0, 5⟩, .refreshConnection 5, .handleRead, .handleRead, .handleRead, .handleRead]

theorem oneRefresh_timely :
    (run (step (Clock.upTo 1000 (by decide))) (Watch.new 10) oneRefresh).kickOuts =
      [⟨⟨0, 5⟩, 3, 15⟩] ∧
    Always (step (Clock.upTo 1000 (by decide))) (Timely 10) (Watch.new 10) oneRefresh := by
  refine ⟨by decide, kickOuts_timely _ 10 (by decide) ?_ _ ?_⟩
  · intro i
    have hle : (Clock.upTo 1000 (by decide)).now i ≤ 1000 := Nat.min_le_right i 1000
    omega
  · decide

end Watch

end TurtleServer
