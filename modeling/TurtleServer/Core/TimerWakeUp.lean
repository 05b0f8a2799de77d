import TurtleServer.Core.Timer

/-!
# Is a pending timer ever left without a wake-up?

A timer whose queue is not empty relies on its timer fd: nothing else calls `HandleRead`. Every
operation sets the fd when, and only when, the earliest deadline changes. The time it is set to is
computed from a second look at the clock, and `FromNow` answers zero once the deadline has passed,
which `timerfd_settime` takes as "disarm".

1. `WakeUp`: what a state owes to its pending timers.
2. `InTime`: the step changes the earliest deadline only to one still ahead when `FromNow` looks.
3. `wakeUp_always_iff`: a run keeps `WakeUp` in all its states exactly when all its steps are
   `InTime`.
4. `passed_deadline_disarms`: a step that is not.
-/

namespace TurtleServer.Timer

open Lib

variable {κ : Type}

/-! ## 1. Wake-ups -/

/-- The timer fd is set for `expireTime`, which was still ahead: `it_value` is what `FromNow` made of
its look at the clock, and `timerfd_settime` made the next one. -/
def ArmedFor (clock : Clock) (t : Timer κ) (expireTime : ℕ) : Prop :=
  ∃ look, look + 1 < t.reads ∧ clock.now look < expireTime ∧
    t.timerFd = .armed (fromNow (clock.now look) expireTime) (clock.now (look + 1))

/-- `next_expire_` is up to date, and pending timers have a wake-up ahead: the fd is armed for the
earliest of them, or its expiration is still to be read. -/
structure WakeUp (clock : Clock) (t : Timer κ) : Prop where
  next : t.nextExpire = t.nextExpireTime
  pending : t.timerQueue.toList ≠ [] →
    t.ArmedFor clock t.nextExpireTime ∨ t.timerFd.Unread (clock.now (t.reads - 1))

/-! ## 2. The condition -/

/-- The expire times in the queue. -/
def deadlines (t : Timer κ) : List ℕ := t.timerQueue.toList.map SingleTimer.expireTime

/-- `m` is the least element of `l`. -/
def Earliest (m : ℕ) (l : List ℕ) : Prop := m ∈ l ∧ ∀ x ∈ l, m ≤ x

/-- The deadlines an operation leaves, as far as the earliest is concerned: a new deadline joins the
others even when it is already among them. -/
def deadlinesAfter (clock : Clock) (t : Timer κ) : Op κ → List ℕ
  | .addSingleTimer expireFromNow _ => t.newExpireTime clock expireFromNow :: t.deadlines
  | .removeSingleTimer singleTimer => t.deadlines.filter (· ≠ singleTimer.expireTime)
  | .refreshSingleTimer singleTimer expireFromNow =>
    if singleTimer.expireTime ∈ t.deadlines then
      t.newExpireTime clock expireFromNow :: t.deadlines.filter (· ≠ singleTimer.expireTime)
    else t.deadlines
  | .handleRead => t.deadlines.drop (expiredCount clock (t.reads + 1) t.timerQueue.toList)

/-- How many looks at the clock an operation makes before the one of `FromNow`. -/
def looksBefore (clock : Clock) (t : Timer κ) : Op κ → ℕ
  | .addSingleTimer _ _ => 1
  | .removeSingleTimer _ => 0
  | .refreshSingleTimer _ _ => 1
  | .handleRead => 1 + expiredTests clock (t.reads + 1) t.timerQueue.toList

/-- If the operation changes the earliest deadline, the new one is still ahead when `FromNow` looks
at the clock. -/
def InTime (clock : Clock) (t : Timer κ) (op : Op κ) : Prop :=
  ∀ m, Earliest m (t.deadlinesAfter clock op) → ¬ Earliest m t.deadlines →
    clock.now (t.reads + t.looksBefore clock op) < m

/-! ## 3. Exactly the runs in time keep the wake-up -/

namespace WakeUpLemmas

variable {clock : Clock} {t t' : Timer κ}

/-- The invariant behind `WakeUp`: the fd is set for the head of the queue, and disarmed without
one. -/
structure Inv (clock : Clock) (t : Timer κ) : Prop where
  next : t.nextExpire = t.nextExpireTime
  idle : t.timerQueue.toList = [] → t.timerFd = .disarmed
  armed : t.timerQueue.toList ≠ [] → t.ArmedFor clock t.nextExpireTime

theorem Inv.wakeUp (hI : Inv clock t) : WakeUp clock t := ⟨hI.next, fun hne => .inl (hI.armed hne)⟩

theorem fromNow_of_lt {now timestamp : ℕ} (h : now < timestamp) :
    fromNow now timestamp = timestamp - now := if_pos h.le

theorem fromNow_of_le {now timestamp : ℕ} (h : timestamp ≤ now) : fromNow now timestamp = 0 := by
  unfold fromNow
  split
  · exact Nat.sub_eq_zero_of_le h
  · rfl

theorem ArmedFor.pos {expireTime : ℕ} (h : t.ArmedFor clock expireTime) : 0 < expireTime := by
  obtain ⟨_, _, hahead, _⟩ := h
  exact Nat.zero_lt_of_lt hahead

/-- An operation that leaves the fd alone leaves it armed. -/
theorem ArmedFor.of_timerFd_eq {expireTime : ℕ} (h : t.ArmedFor clock expireTime)
    (hfd : t'.timerFd = t.timerFd) (hreads : t.reads ≤ t'.reads) :
    t'.ArmedFor clock expireTime := by
  obtain ⟨look, hlook, hahead, harm⟩ := h
  exact ⟨look, hlook.trans_le hreads, hahead, hfd.trans harm⟩

/-- The fd does not fire before the deadline it is set for. -/
theorem ArmedFor.le_of_unread {expireTime now : ℕ} (h : t.ArmedFor clock expireTime)
    (hun : t.timerFd.Unread now) : expireTime ≤ now := by
  obtain ⟨look, _, hahead, harm⟩ := h
  have hmono : clock.now look ≤ clock.now (look + 1) := clock.mono (Nat.le_succ _)
  rw [harm, fromNow_of_lt hahead] at hun
  have hfire : clock.now (look + 1) + (expireTime - clock.now look) ≤ now := hun
  omega

theorem not_wakeUp_of_disarmed (hne : t.timerQueue.toList ≠ []) (hfd : t.timerFd = .disarmed) :
    ¬ WakeUp clock t := by
  intro hw
  rcases hw.pending hne with ⟨_, _, _, harm⟩ | hun
  · rw [hfd] at harm
    exact TimerFd.noConfusion harm
  · rw [hfd] at hun
    exact hun

theorem Earliest.unique {m n : ℕ} {l : List ℕ} (hm : Earliest m l) (hn : Earliest n l) : m = n :=
  Nat.le_antisymm (hm.2 n hn.1) (hn.2 m hm.1)

theorem Earliest.congr {m : ℕ} {l l' : List ℕ} (h : ∀ x, x ∈ l ↔ x ∈ l') :
    Earliest m l ↔ Earliest m l' := by
  unfold Earliest
  rw [h m]
  exact and_congr_right fun _ => forall_congr' fun x => imp_congr_left (h x)

/-- `NextExpireTime` is the earliest deadline. -/
theorem earliest_nextExpireTime (hne : t.timerQueue.toList ≠ []) :
    Earliest t.nextExpireTime t.deadlines := by
  cases hq : t.timerQueue.toList with
  | nil => exact absurd hq hne
  | cons s rest =>
    have hnext : t.nextExpireTime = s.expireTime := by rw [nextExpireTime, hq]
    refine ⟨?_, fun x hx => ?_⟩
    · rw [hnext, deadlines, hq]
      exact List.mem_map_of_mem List.mem_cons_self
    · obtain ⟨p, hp, rfl⟩ := List.mem_map.mp hx
      rw [hnext]
      exact KeyedQueue.head_le hq hp

theorem not_earliest_of_nil {m : ℕ} (hq : t.timerQueue.toList = []) : ¬ Earliest m t.deadlines := by
  rintro ⟨hm, _⟩
  rw [deadlines, hq] at hm
  exact List.not_mem_nil hm

theorem reset_of_eq (h : t'.nextExpireTime = t'.nextExpire) : t'.resetIfChanged clock = t' :=
  if_neg (not_not.mpr h)

@[simp] theorem nextExpireTime_reset :
    (t'.resetIfChanged clock).nextExpireTime = t'.nextExpireTime := by
  rw [nextExpireTime, resetIfChanged_timerQueue, nextExpireTime]

theorem nextExpire_reset : (t'.resetIfChanged clock).nextExpire = t'.nextExpireTime := by
  by_cases h : t'.nextExpireTime = t'.nextExpire
  · rw [reset_of_eq h, h]
  · rw [resetIfChanged, if_pos h]
    simp only [resetTimerFd]

theorem timerFd_reset (h : t'.nextExpireTime ≠ t'.nextExpire) :
    (t'.resetIfChanged clock).timerFd =
      if fromNow (clock.now t'.reads) t'.nextExpireTime = 0 then .disarmed
      else .armed (fromNow (clock.now t'.reads) t'.nextExpireTime) (clock.now (t'.reads + 1)) := by
  rw [resetIfChanged, if_pos h]
  simp only [resetTimerFd, TimerFd.settime, mills_fromNowInTimeSpec]

theorem reads_reset (h : t'.nextExpireTime ≠ t'.nextExpire) :
    (t'.resetIfChanged clock).reads = t'.reads + 2 := by
  rw [resetIfChanged, if_pos h]
  simp only [resetTimerFd]

theorem disarmed_of_passed (h : t'.nextExpireTime ≠ t'.nextExpire)
    (hle : t'.nextExpireTime ≤ clock.now t'.reads) :
    (t'.resetIfChanged clock).timerFd = .disarmed := by
  rw [timerFd_reset h, if_pos (fromNow_of_le hle)]

theorem armed_of_ahead (h : t'.nextExpireTime ≠ t'.nextExpire)
    (hlt : clock.now t'.reads < t'.nextExpireTime) :
    (t'.resetIfChanged clock).ArmedFor clock t'.nextExpireTime := by
  have hpos : 0 < fromNow (clock.now t'.reads) t'.nextExpireTime := by
    rw [fromNow_of_lt hlt]
    exact Nat.sub_pos_of_lt hlt
  refine ⟨t'.reads, ?_, hlt, ?_⟩
  · rw [reads_reset h]
    exact Nat.lt_succ_self _
  · rw [timerFd_reset h, if_neg hpos.ne']

/-- What the condition says of the queue in the middle of an operation. -/
def Ahead (clock : Clock) (t t' : Timer κ) : Prop :=
  ∀ m, Earliest m t'.deadlines → ¬ Earliest m t.deadlines → clock.now t'.reads < m

/-- `P` is what it takes for `t` to keep the wake-up, and `t` is a good state then. -/
def Settles (clock : Clock) (t : Timer κ) (P : Prop) : Prop := (WakeUp clock t ↔ P) ∧ (P → Inv clock t)

theorem settles_of_inv {P : Prop} (hI : Inv clock t) (hP : P) : Settles clock t P :=
  ⟨⟨fun _ => hP, fun _ => hI.wakeUp⟩, fun _ => hI⟩

theorem settles_of_disarmed {P : Prop} (hne : t.timerQueue.toList ≠ [])
    (hfd : t.timerFd = .disarmed) (hP : ¬ P) : Settles clock t P :=
  ⟨⟨fun hw => absurd hw (not_wakeUp_of_disarmed hne hfd), fun h => absurd h hP⟩,
    fun h => absurd h hP⟩

section reset

/-! One operation, seen from its last lines: `t` is the state before it, `t'` the one in which the
queue has been changed and `next_expire_` not yet. -/

variable (hI : Inv clock t) (hnext : t'.nextExpire = t.nextExpireTime)
  (hfd : t'.timerFd = t.timerFd ∨ t'.nextExpireTime ≠ t'.nextExpire) (hreads : t.reads ≤ t'.reads)

include hI hnext hfd

/-- Nothing is pending any more: the fd is disarmed, and nothing is owed. -/
theorem reset_of_empty (hq' : t'.timerQueue.toList = []) :
    Settles clock (t'.resetIfChanged clock) (Ahead clock t t') := by
  have hzero : t'.nextExpireTime = 0 := by rw [nextExpireTime, hq']
  refine settles_of_inv ⟨?_, fun _ => ?_, fun hne => ?_⟩
    fun m hm _ => absurd hm (not_earliest_of_nil hq')
  · rw [nextExpire_reset, nextExpireTime_reset]
  · by_cases hch : t'.nextExpireTime = t'.nextExpire
    · have hq : t.timerQueue.toList = [] := by
        by_contra hne
        have hpos := ArmedFor.pos (hI.armed hne)
        omega
      rw [reset_of_eq hch, hfd.resolve_right (not_not.mpr hch), hI.idle hq]
    · exact disarmed_of_passed hch (hzero ▸ Nat.zero_le _)
  · rw [resetIfChanged_timerQueue] at hne
    exact absurd hq' hne

include hreads in
/-- The earliest deadline is the old one, or zero, which `next_expire_` cannot tell from none. -/
theorem reset_of_same (hq' : t'.timerQueue.toList ≠ [])
    (hch : t'.nextExpireTime = t'.nextExpire) :
    Settles clock (t'.resetIfChanged clock) (Ahead clock t t') := by
  have hearly : Earliest t'.nextExpireTime t'.deadlines := earliest_nextExpireTime hq'
  have hfd' : t'.timerFd = t.timerFd := hfd.resolve_right (not_not.mpr hch)
  have hsame : t'.nextExpireTime = t.nextExpireTime := hch.trans hnext
  rw [reset_of_eq hch]
  by_cases hq : t.timerQueue.toList = []
  · refine settles_of_disarmed hq' (hfd'.trans (hI.idle hq)) ?_
    intro ha
    have hlt := ha _ hearly (not_earliest_of_nil hq)
    rw [hsame, nextExpireTime, hq] at hlt
    exact absurd hlt (Nat.not_lt_zero _)
  · refine settles_of_inv ⟨hch.symm, fun h => absurd h hq', fun _ => ?_⟩ ?_
    · rw [hsame]
      exact ArmedFor.of_timerFd_eq (hI.armed hq) hfd' hreads
    · intro m hm hnm
      have hmt : m = t.nextExpireTime := (Earliest.unique hm hearly).trans hsame
      exact absurd (hmt ▸ earliest_nextExpireTime hq) hnm

omit hI hfd in
/-- There is a new earliest deadline, and the fd is set for it. -/
theorem reset_of_changed (hq' : t'.timerQueue.toList ≠ [])
    (hch : t'.nextExpireTime ≠ t'.nextExpire) :
    Settles clock (t'.resetIfChanged clock) (Ahead clock t t') := by
  have hne : (t'.resetIfChanged clock).timerQueue.toList ≠ [] := by
    rwa [resetIfChanged_timerQueue]
  have hearly : Earliest t'.nextExpireTime t'.deadlines := earliest_nextExpireTime hq'
  have hnot : ¬ Earliest t'.nextExpireTime t.deadlines := by
    intro he
    by_cases hq : t.timerQueue.toList = []
    · exact not_earliest_of_nil hq he
    · exact hch ((Earliest.unique he (earliest_nextExpireTime hq)).trans hnext.symm)
  by_cases hlt : clock.now t'.reads < t'.nextExpireTime
  · refine settles_of_inv ⟨?_, fun h => absurd h hne, fun _ => ?_⟩
      fun m hm _ => Earliest.unique hm hearly ▸ hlt
    · rw [nextExpire_reset, nextExpireTime_reset]
    · rw [nextExpireTime_reset]
      exact armed_of_ahead hch hlt
  · exact settles_of_disarmed hne (disarmed_of_passed hch (Nat.le_of_not_lt hlt))
      fun ha => hlt (ha _ hearly hnot)

include hreads in
theorem reset_spec : Settles clock (t'.resetIfChanged clock) (Ahead clock t t') := by
  by_cases hq' : t'.timerQueue.toList = []
  · exact reset_of_empty hI hnext hfd hq'
  · by_cases hch : t'.nextExpireTime = t'.nextExpire
    · exact reset_of_same hI hnext hfd hreads hq' hch
    · exact reset_of_changed hnext hq' hch

end reset

theorem mem_deadlines_emplaceNew {expireFromNow x : ℕ} {callback : κ} :
    x ∈ (t.emplaceNew clock expireFromNow callback).deadlines ↔
      x ∈ t.newExpireTime clock expireFromNow :: t.deadlines := by
  simp only [deadlines, List.mem_map, List.mem_cons, emplaceNew, ← KeyedQueue.mem_def,
    KeyedQueue.mem_emplace]
  constructor
  · rintro ⟨p, hp | ⟨rfl, _⟩, rfl⟩
    · exact .inr ⟨p, hp, rfl⟩
    · exact .inl rfl
  · rintro (rfl | ⟨p, hp, rfl⟩)
    · by_cases hfree : ∀ p ∈ t.timerQueue, p.expireTime ≠ t.newExpireTime clock expireFromNow
      · exact ⟨_, .inr ⟨rfl, hfree⟩, rfl⟩
      · push Not at hfree
        obtain ⟨p, hp, hpe⟩ := hfree
        exact ⟨p, .inl hp, hpe⟩
    · exact ⟨p, .inl hp, rfl⟩

theorem deadlines_eraseAt {e : ℕ} : (t.eraseAt e).deadlines = t.deadlines.filter (· ≠ e) := by
  rw [deadlines, deadlines, List.filter_map]
  rfl

theorem mem_deadlines {e : ℕ} : e ∈ t.deadlines ↔ ∃ s ∈ t.timerQueue, s.expireTime = e := List.mem_map

/-- An expiration that can be read means that the head of the queue has expired, so that the prune
that follows takes it out. -/
theorem expiredCount_pos_of_unread (hI : Inv clock t) (hun : t.timerFd.Unread (clock.now t.reads)) :
    ∃ s rest n, t.timerQueue.toList = s :: rest ∧
      expiredCount clock (t.reads + 1) t.timerQueue.toList = n + 1 := by
  cases hq : t.timerQueue.toList with
  | nil =>
    rw [hI.idle hq] at hun
    exact hun.elim
  | cons s rest =>
    have hs : t.nextExpireTime = s.expireTime := by rw [nextExpireTime, hq]
    have hfired : s.expireTime ≤ clock.now t.reads :=
      hs ▸ ArmedFor.le_of_unread (hI.armed (by rw [hq]; simp)) hun
    have hexp : s.expired (clock.now (t.reads + 1)) = true :=
      decide_eq_true (hfired.trans (clock.mono (Nat.le_succ _)))
    exact ⟨s, rest, expiredCount clock (t.reads + 1 + 1) rest, rfl, by
      rw [expiredCount, if_pos hexp]⟩

/-- Without its first `n + 1` timers a queue has a later head, or none. -/
theorem nextExpireTime_eraseFirst_ne (hI : Inv clock t) {s : SingleTimer κ}
    {rest : List (SingleTimer κ)} {n : ℕ} (hq : t.timerQueue.toList = s :: rest) :
    (t.eraseFirst (n + 1)).nextExpireTime ≠ t.nextExpireTime := by
  have hs : t.nextExpireTime = s.expireTime := by rw [nextExpireTime, hq]
  have hpos : 0 < t.nextExpireTime := ArmedFor.pos (hI.armed (by rw [hq]; simp))
  cases hd : (t.eraseFirst (n + 1)).timerQueue.toList with
  | nil =>
    have hzero : (t.eraseFirst (n + 1)).nextExpireTime = 0 := by rw [nextExpireTime, hd]
    omega
  | cons p ps =>
    have hp : (t.eraseFirst (n + 1)).nextExpireTime = p.expireTime := by rw [nextExpireTime, hd]
    have hmem : p ∈ t.timerQueue.drop (n + 1) := by
      rw [KeyedQueue.mem_def]
      exact hd ▸ List.mem_cons_self
    have htake : s ∈ t.timerQueue.toList.take (n + 1) := by rw [hq]; exact List.mem_cons_self
    have hlt := KeyedQueue.lt_of_mem_take_of_mem_drop htake hmem
    omega

/-- An operation that finds nothing to do leaves the state as it is. -/
theorem step_idle (hI : Inv clock t) {op : Op κ} (hdeadlines : t.deadlinesAfter clock op = t.deadlines)
    (hstep : t.step clock op = t) : Settles clock (t.step clock op) (InTime clock t op) := by
  rw [hstep]
  exact settles_of_inv hI fun m hm hnm => absurd (hdeadlines ▸ hm) hnm

/-- Any other ends in `resetIfChanged` of some `t'`. -/
theorem step_resets (hI : Inv clock t) {op : Op κ} (t' : Timer κ)
    (hstep : t.step clock op = t'.resetIfChanged clock) (hnext : t'.nextExpire = t.nextExpire)
    (hfd : t'.timerFd = t.timerFd ∨ t'.nextExpireTime ≠ t'.nextExpire)
    (hdeadlines : ∀ x, x ∈ t'.deadlines ↔ x ∈ t.deadlinesAfter clock op)
    (hreads : t'.reads = t.reads + t.looksBefore clock op) :
    Settles clock (t.step clock op) (InTime clock t op) := by
  have hcond : Ahead clock t t' ↔ InTime clock t op := by
    unfold Ahead InTime
    rw [hreads]
    exact forall_congr' fun m => imp_congr_left (Earliest.congr hdeadlines)
  rw [hstep, ← hcond]
  exact reset_spec hI (hnext.trans hI.next) hfd (hreads ▸ Nat.le_add_right _ _)

/-- The step lemma: from a good state, one operation keeps the wake-up exactly when it is in
time, and then leads to a good state. -/
theorem step_spec (hI : Inv clock t) (op : Op κ) :
    Settles clock (t.step clock op) (InTime clock t op) := by
  cases op with
  | addSingleTimer expireFromNow callback =>
    exact step_resets hI (t.emplaceNew clock expireFromNow callback) rfl rfl (.inl rfl)
      (fun _ => mem_deadlines_emplaceNew) rfl
  | removeSingleTimer h =>
    cases hf : t.timerQueue.find? h.expireTime with
    | none =>
      have hfree := KeyedQueue.find?_eq_none.mp hf
      refine step_idle hI ?_ (by simp only [step, removeSingleTimer, hf])
      refine List.filter_eq_self.mpr fun x hx => ?_
      obtain ⟨p, hp, rfl⟩ := mem_deadlines.mp hx
      simpa using hfree p hp
    | some found =>
      refine step_resets hI (t.eraseAt h.expireTime) (by simp only [step, removeSingleTimer, hf]) rfl
        (.inl rfl) (fun x => ?_) rfl
      rw [deadlines_eraseAt]
      exact Iff.rfl
  | refreshSingleTimer h expireFromNow =>
    cases hf : t.timerQueue.find? h.expireTime with
    | none =>
      have hfree := KeyedQueue.find?_eq_none.mp hf
      have hmem : h.expireTime ∉ t.deadlines := by
        intro hx
        obtain ⟨p, hp, hpe⟩ := mem_deadlines.mp hx
        exact hfree p hp hpe
      exact step_idle hI (if_neg hmem) (by simp only [step, refreshSingleTimer, hf])
    | some found =>
      obtain ⟨hfound, hexp⟩ := KeyedQueue.find?_eq_some.mp hf
      have hmem : h.expireTime ∈ t.deadlines := mem_deadlines.mpr ⟨found, hfound, hexp⟩
      refine step_resets hI ((t.eraseAt h.expireTime).emplaceNew clock expireFromNow found.callback)
        (by simp only [step, refreshSingleTimer, hf]) rfl (.inl rfl) (fun x => ?_) rfl
      rw [mem_deadlines_emplaceNew, deadlines_eraseAt, deadlinesAfter, if_pos hmem]
      exact Iff.rfl
  | handleRead =>
    refine step_resets hI { (t.readTimerFd clock).eraseFirst
        (expiredCount clock (t.reads + 1) t.timerQueue.toList) with
      reads := t.reads + 1 + expiredTests clock (t.reads + 1) t.timerQueue.toList }
      rfl rfl ?_ (fun x => ?_) (Nat.add_assoc _ _ _)
    · by_cases hun : t.timerFd.Unread (clock.now t.reads)
      · obtain ⟨s, rest, n, hq, hn⟩ := expiredCount_pos_of_unread hI hun
        refine .inr ?_
        rw [hn]
        exact hI.next ▸ nextExpireTime_eraseFirst_ne hI hq
      · exact .inl (if_neg hun)
    · rw [deadlinesAfter, deadlines, deadlines, ← List.map_drop]
      exact Iff.rfl

end WakeUpLemmas

open WakeUpLemmas

/-- A run keeps every pending timer a wake-up in all its states exactly when, at each of its steps
that changes the earliest deadline, the new one is still ahead when `FromNow` looks at the clock. -/
theorem wakeUp_always_iff (clock : Clock) (ops : List (Op κ)) :
    Always (step clock) (WakeUp clock) Timer.new ops ↔
      Along (step clock) (InTime clock) Timer.new ops := by
  have hnew : Inv clock (Timer.new : Timer κ) := ⟨rfl, fun _ => rfl, fun h => absurd rfl h⟩
  exact always_iff_along (G := fun _ _ => True) (fun _ op hI _ => (step_spec hI op).2)
    (fun _ op hI _ => (step_spec hI op).1) hnew
    (Along.of_forall (fun _ _ => True.intro) _ _)

/-! ## 4. A deadline that passes between two looks at the clock -/

/-- A timer due in 1 ms, on a clock that moves on by 1 ms between the look of the constructor and
the look of `FromNow`: the timer is pending, the fd is disarmed, and no wake-up will come. -/
theorem passed_deadline_disarms :
    ¬ Always (step (Clock.upTo 1000 (by decide))) (WakeUp (Clock.upTo 1000 (by decide)))
      (Timer.new : Timer Unit) [.addSingleTimer 1 ()] := by
  rintro ⟨hw, _⟩
  exact not_wakeUp_of_disarmed (by decide) (by decide) hw

end TurtleServer.Timer
