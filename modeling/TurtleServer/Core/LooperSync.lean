import TurtleServer.Core.Looper

/-!
# Connections, handles and timers in step

A looper keeps each connection in three places: `connections_`, `timers_mapping_` and, through the
handle stored there, `timer_queue_` of its timer. `Sync` says that the three agree. The code means
to keep them so, and two slips break it:

* `RefreshConnection` stores the handle of the new timer with `map::insert`, which does nothing
  because the key is there, so `timers_mapping_` keeps the handle of the erased timer;
* a timer that expires in the same millisecond as a pending one is dropped by `timer_queue_`.

`sync_always_iff` says that nothing else does: a run keeps `Sync` in all its states exactly when it
never refreshes a connection it holds and never adds one due in the same millisecond as another.
-/

namespace TurtleServer.Looper

open Lib Timer

/-- The three containers agree. -/
structure Sync (l : Looper) : Prop where
  keys : ∀ fd, fd ∈ l.timersMapping ↔ fd ∈ l.connections
  owned : ∀ fd h, l.timersMapping.lookup fd = some h → h ∈ l.timer.timerQueue ∧ h.callback = fd
  distinct : ∀ fd fd' h, l.timersMapping.lookup fd = some h →
    l.timersMapping.lookup fd' = some h → fd = fd'
  noOther : ∀ s ∈ l.timer.timerQueue, ∃ fd, l.timersMapping.lookup fd = some s

/-- A connection is added only under an fd that is not in use. -/
def Admissible (l : Looper) : Op → Prop
  | .addConnection newConn => newConn.fd ∉ l.connections
  | _ => True

instance (l : Looper) : (op : Op) → Decidable (l.Admissible op)
  | .addConnection newConn => inferInstanceAs (Decidable (newConn.fd ∉ l.connections))
  | .refreshConnection _ | .deleteConnection _ | .handleRead => inferInstanceAs (Decidable True)

/-- The steps that keep the containers in step. -/
def KeepsSync (clock : Clock) (l : Looper) : Op → Prop
  | .addConnection _ => ∀ s ∈ l.timer.timerQueue,
      s.expireTime ≠ l.timer.newExpireTime clock l.timerExpiration
  | .refreshConnection fd => fd ∉ l.connections
  | .deleteConnection _ => True
  | .handleRead => True

instance (clock : Clock) (l : Looper) : (op : Op) → Decidable (KeepsSync clock l op)
  | .addConnection _ => inferInstanceAs (Decidable (∀ s ∈ l.timer.timerQueue.toList,
      s.expireTime ≠ l.timer.newExpireTime clock l.timerExpiration))
  | .refreshConnection fd => inferInstanceAs (Decidable (fd ∉ l.connections))
  | .deleteConnection _ | .handleRead => inferInstanceAs (Decidable True)

namespace SyncLemmas

variable {clock : Clock} {l : Looper} {fd : Fd} {pruned : List (SingleTimer Fd)}

/-- `Sync` while `HandleRead` runs callbacks: `pruned` are the expired timers still to be run, which
are out of the queue but not yet out of the other two containers. -/
structure Mid (l : Looper) (pruned : List (SingleTimer Fd)) : Prop where
  use : l.useTimer = true
  keys : ∀ fd, fd ∈ l.timersMapping ↔ fd ∈ l.connections
  owned : ∀ fd h, l.timersMapping.lookup fd = some h →
    (h ∈ l.timer.timerQueue ∨ h ∈ pruned) ∧ h.callback = fd
  noOther : ∀ s, s ∈ l.timer.timerQueue ∨ s ∈ pruned → l.timersMapping.lookup s.callback = some s
  nodup : pruned.Nodup
  apart : ∀ s ∈ pruned, ∀ p ∈ l.timer.timerQueue, p.expireTime ≠ s.expireTime

theorem Mid.sync (h : Mid l []) : Sync l where
  keys := h.keys
  owned := fun fd s hs => ⟨(h.owned fd s hs).1.resolve_right List.not_mem_nil, (h.owned fd s hs).2⟩
  distinct := fun fd fd' s hs hs' => (h.owned fd s hs).2.symm.trans (h.owned fd' s hs').2
  noOther := fun s hs => ⟨s.callback, h.noOther s (.inl hs)⟩

/-- `DeleteConnection` takes one connection out of all three containers, whether its timer is in the
queue or has just been pruned. -/
theorem delete_mid (h : Mid l pruned) (fd : Fd) :
    Mid (l.deleteConnection clock fd).2 (pruned.filter (·.callback ≠ fd)) := by
  by_cases hfd : fd ∈ l.connections
  · obtain ⟨s, hs⟩ := Map.mem_iff_lookup.mp ((h.keys fd).mpr hfd)
    obtain ⟨hsq, rfl⟩ := h.owned fd s hs
    rw [deleteConnection_of_some h.use hfd hs]
    -- a timer with the expire time of `s` is `s`, so `RemoveSingleTimer` hits no other
    have hsame : ∀ p, p ∈ l.timer.timerQueue → p.expireTime = s.expireTime → p = s := by
      intro p hp hpe
      rcases hsq with hq | hq
      · exact KeyedQueue.eq_of_key hp hq hpe
      · exact absurd hpe (h.apart s hq p hp)
    have hcall : ∀ p, p ∈ l.timer.timerQueue ∨ p ∈ pruned → p.callback = s.callback → p = s := by
      intro p hp hpc
      have hp' := h.noOther p hp
      rw [hpc, hs] at hp'
      exact (Option.some.inj hp').symm
    refine ⟨h.use, fun fd' => ?_, fun fd' p hp => ?_, fun p hp => ?_, h.nodup.filter _, ?_⟩
    · rw [AList.mem_erase, AList.mem_erase, h.keys]
    · obtain ⟨hne, hp'⟩ := Map.lookup_erase_eq_some.mp hp
      obtain ⟨hpq, hpc⟩ := h.owned fd' p hp'
      refine ⟨hpq.imp (fun hq => ?_) (fun hq => ?_), hpc⟩
      · exact mem_removeSingleTimer.mpr ⟨hq, fun he => hne (by rw [← hpc, hsame p hq he])⟩
      · exact List.mem_filter.mpr ⟨hq, by simpa [hpc] using hne⟩
    · have hboth : (p ∈ l.timer.timerQueue ∨ p ∈ pruned) ∧ p.callback ≠ s.callback := by
        rcases hp with hp | hp
        · obtain ⟨hq, hpe⟩ := mem_removeSingleTimer.mp hp
          exact ⟨.inl hq, fun hc => hpe (by rw [hcall p (.inl hq) hc])⟩
        · obtain ⟨hq, hc⟩ := List.mem_filter.mp hp
          exact ⟨.inr hq, by simpa using hc⟩
      exact Map.lookup_erase_eq_some.mpr ⟨hboth.2, h.noOther p hboth.1⟩
    · intro p hp p' hp'
      exact h.apart p (List.mem_filter.mp hp).1 p' (mem_removeSingleTimer.mp hp').1
  · rw [deleteConnection_of_not_mem hfd]
    have hall : pruned.filter (·.callback ≠ fd) = pruned := by
      refine List.filter_eq_self.mpr fun p hp => ?_
      have hmem := Map.mem_of_lookup (h.noOther p (.inr hp))
      have hne : p.callback ≠ fd := fun he => hfd ((h.keys fd).mp (he ▸ hmem))
      simpa using hne
    rw [hall]
    exact h

/-- Running the callbacks one after the other empties the list of pruned timers. -/
theorem callbacks_mid : ∀ {pruned : List (SingleTimer Fd)} {l : Looper}, Mid l pruned →
    Mid (pruned.foldl (runCallback clock) l) []
  | [], _, h => h
  | s :: rest, l, h => by
    have hstep : Mid (l.deleteConnection clock s.callback).2
        ((s :: rest).filter (·.callback ≠ s.callback)) := delete_mid h s.callback
    have hrest : (s :: rest).filter (·.callback ≠ s.callback) = rest := by
      rw [List.filter_cons_of_neg (by simp)]
      refine List.filter_eq_self.mpr fun p hp => ?_
      have hne : p.callback ≠ s.callback := by
        intro hc
        have hp' := h.noOther p (.inr (List.mem_cons_of_mem _ hp))
        rw [hc, h.noOther s (.inr List.mem_cons_self)] at hp'
        exact (List.nodup_cons.mp h.nodup).1 (Option.some.inj hp' ▸ hp)
      simpa using hne
    rw [hrest] at hstep
    exact callbacks_mid (l := runCallback clock l s) hstep

/-- `PruneExpiredTimer` splits the queue. -/
theorem prune_mid (h : Mid l []) :
    Mid { l with timer := (l.timer.handleRead clock).2 } (l.timer.handleRead clock).1 := by
  have hsplit : ∀ s, s ∈ (l.timer.handleRead clock).2.timerQueue ∨ s ∈ (l.timer.handleRead clock).1 ↔
      s ∈ l.timer.timerQueue := by
    intro s
    rw [mem_handleRead, KeyedQueue.mem_def (q := l.timer.timerQueue),
      ← List.take_append_drop (expiredCount clock (l.timer.reads + 1) l.timer.timerQueue.toList)
        l.timer.timerQueue.toList, List.mem_append, or_comm]
    simp only [List.take_append_drop]
    exact Iff.rfl
  refine ⟨h.use, h.keys, fun fd s hs => ?_, fun s hs => ?_, ?_, fun s hs p hp => ?_⟩
  · obtain ⟨hq, hc⟩ := h.owned fd s hs
    exact ⟨(hsplit s).mpr (hq.resolve_right List.not_mem_nil), hc⟩
  · exact h.noOther s (.inl ((hsplit s).mp hs))
  · have hnodup : l.timer.timerQueue.toList.Nodup :=
      l.timer.timerQueue.sorted.imp fun hlt he => hlt.ne (congrArg _ he)
    exact hnodup.sublist (List.take_sublist _ _)
  · exact (KeyedQueue.lt_of_mem_take_of_mem_drop hs (mem_handleRead.mp hp)).ne'

theorem add_mid (h : Mid l []) {newConn : Conn} (hnew : newConn.fd ∉ l.connections)
    (hfree : ∀ s ∈ l.timer.timerQueue,
      s.expireTime ≠ l.timer.newExpireTime clock l.timerExpiration) :
    Mid (l.addConnection clock newConn) [] := by
  have hnew' : newConn.fd ∉ l.timersMapping := fun hm => hnew ((h.keys _).mp hm)
  rw [addConnection_eq h.use]
  refine ⟨h.use, fun fd => ?_, fun fd s hs => ?_, fun s hs => ?_, List.nodup_nil,
    fun s hs => absurd hs List.not_mem_nil⟩
  · rw [Map.mem_emplace, Map.mem_emplace, h.keys]
  · by_cases hfd : fd = newConn.fd
    · subst hfd
      rw [Map.lookup_emplace_self hnew', Option.some.injEq] at hs
      subst hs
      exact ⟨.inl (mem_addSingleTimer.mpr (.inr ⟨rfl, hfree⟩)), rfl⟩
    · rw [Map.lookup_emplace_ne hfd] at hs
      obtain ⟨hq, hc⟩ := h.owned fd s hs
      exact ⟨hq.imp_left fun hq' => mem_addSingleTimer.mpr (.inl hq'), hc⟩
  · rcases mem_addSingleTimer.mp (hs.resolve_right List.not_mem_nil) with hq | ⟨rfl, _⟩
    · have hlook := h.noOther s (.inl hq)
      have hne : s.callback ≠ newConn.fd := fun he => hnew' (he ▸ Map.mem_of_lookup hlook)
      rw [Map.lookup_emplace_ne hne]
      exact hlook
    · exact Map.lookup_emplace_self hnew'

/-- A timer that was dropped by the queue leaves a handle that is not pending. -/
theorem add_not_sync (h : Mid l []) {newConn : Conn} (hnew : newConn.fd ∉ l.connections)
    (hsync : Sync (l.addConnection clock newConn)) :
    ∀ s ∈ l.timer.timerQueue, s.expireTime ≠ l.timer.newExpireTime clock l.timerExpiration := by
  have hnew' : newConn.fd ∉ l.timersMapping := fun hm => hnew ((h.keys _).mp hm)
  rw [addConnection_eq h.use] at hsync
  have hin := (hsync.owned newConn.fd _ (Map.lookup_emplace_self hnew')).1
  rcases mem_addSingleTimer.mp hin with hold | ⟨_, hfree⟩
  · exact absurd hold (makeSingleTimer_not_mem _)
  · exact hfree

/-- A refresh of a connection leaves the handle of a timer that is no longer pending. -/
theorem refresh_not_sync (h : Mid l []) (hfd : fd ∈ l.connections) :
    ¬ Sync (l.baseHandleCallback clock fd) := by
  intro hsync
  obtain ⟨s, hs⟩ := Map.mem_iff_lookup.mp ((h.keys fd).mpr hfd)
  have hq := (h.owned fd s hs).1.resolve_right List.not_mem_nil
  rw [refreshConnection_of_some h.use hs] at hsync
  have hin := (hsync.owned fd s hs).1
  rcases (mem_refreshSingleTimer hq rfl).mp hin with ⟨_, hne⟩ | ⟨heq, _⟩
  · exact hne rfl
  · exact makeSingleTimer_not_mem _ (heq ▸ hq)

/-- The step lemma. -/
theorem step_spec (h : Mid l []) {op : Op} (hadm : Admissible l op) :
    (Sync (l.step clock op) ↔ KeepsSync clock l op) ∧
    (KeepsSync clock l op → Mid (l.step clock op) []) := by
  cases op with
  | addConnection newConn =>
    exact ⟨⟨add_not_sync h hadm, fun hk => (add_mid h hadm hk).sync⟩, add_mid h hadm⟩
  | refreshConnection fd =>
    have hkeep : fd ∉ l.connections → Mid (l.step clock (.refreshConnection fd)) [] := by
      intro hfd
      have hnone : l.timersMapping.lookup fd = none :=
        AList.lookup_eq_none.mpr fun hm => hfd ((h.keys fd).mp hm)
      rw [step, refreshConnection_of_none hnone]
      exact h
    exact ⟨⟨fun hs hfd => refresh_not_sync h hfd hs, fun hk => (hkeep hk).sync⟩, hkeep⟩
  | deleteConnection fd =>
    have hmid : Mid (l.step clock (.deleteConnection fd)) [] := delete_mid h fd
    exact ⟨⟨fun _ => trivial, fun _ => hmid.sync⟩, fun _ => hmid⟩
  | handleRead =>
    have hmid : Mid (l.step clock .handleRead) [] := callbacks_mid (prune_mid h)
    exact ⟨⟨fun _ => trivial, fun _ => hmid.sync⟩, fun _ => hmid⟩

end SyncLemmas

open SyncLemmas

/-- A run of a looper with timers, which adds connections under free fds only, keeps the three
containers in step in all its states exactly when all its steps are of the kind `KeepsSync`. -/
theorem sync_always_iff (clock : Clock) (timerExpiration : ℕ) (htimer : timerExpiration ≠ 0)
    (ops : List Op) (hadm : Along (step clock) Admissible (Looper.new timerExpiration) ops) :
    Always (step clock) Sync (Looper.new timerExpiration) ops ↔
      Along (step clock) (KeepsSync clock) (Looper.new timerExpiration) ops := by
  have hnew : Mid (Looper.new timerExpiration) [] :=
    { use := by simpa [Looper.new] using htimer
      keys := fun _ => Iff.rfl
      owned := fun fd s h => absurd h (by simp [Looper.new])
      noOther := fun _ h => h.elim (fun h => absurd h List.not_mem_nil)
        (fun h => absurd h List.not_mem_nil)
      nodup := List.nodup_nil
      apart := fun _ h => absurd h List.not_mem_nil }
  exact always_iff_along (fun _ _ hI hG => (step_spec hI hG).2) (fun _ _ hI hG => (step_spec hI hG).1)
    hnew hadm

/-- One connection, refreshed once. -/
def refreshRun : List Op := [.addConnection ⟨0, 5⟩, .refreshConnection 5]

/-- After its first refresh a connection has a handle in `timers_mapping_` that `timer_queue_` does
not own. -/
theorem refresh_breaks_sync :
    Along (step (Clock.upTo 1000 (by decide))) Admissible (Looper.new 10) refreshRun ∧
    ¬ Always (step (Clock.upTo 1000 (by decide))) Sync (Looper.new 10) refreshRun := by
  refine ⟨by decide, ?_⟩
  rintro ⟨_, hsync, _⟩
  exact absurd (hsync.owned 5 ⟨0, 10, 5⟩ (by decide)).1 (by decide)

/-- Two connections due at different times, one of them deleted and the other kicked out: a run that
stays in step. -/
def quietRun : List Op :=
  [.addConnection ⟨0, 5⟩, .addConnection ⟨1, 6⟩, .deleteConnection 5, .handleRead, .handleRead]

theorem quietRun_in_step :
    Along (step (Clock.upTo 1000 (by decide))) Admissible (Looper.new 5) quietRun ∧
    Always (step (Clock.upTo 1000 (by decide))) Sync (Looper.new 5) quietRun := by
  have hadm : Along (step (Clock.upTo 1000 (by decide))) Admissible (Looper.new 5) quietRun :=
    by decide
  exact ⟨hadm, (sync_always_iff _ 5 (by decide) quietRun hadm).mpr (by decide)⟩

end TurtleServer.Looper
