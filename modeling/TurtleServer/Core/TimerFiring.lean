import TurtleServer.Core.TimerPending

/-!
# Which callbacks a timer runs, and when

`HandleRead` takes the expired timers out of the queue and then runs their callbacks one after the
other. A callback may add, remove and refresh timers itself, so these calls come between the callbacks
of one `HandleRead` as well as outside. `TimerRun` is a timer with the `HandleRead` in progress: a
callback is one step, and any call may come between two of them.

Beside it a record is kept of the callbacks run by each `HandleRead` and of the timers that a removal
or a refresh has taken out of the queue. The invariant (`TimerRun.Inv`) is about the record, the timers
in progress and the queue at once: every timer object is in one of these places at most.

* `timers_fire_soundly`: what holds of the record in every run.
-/

namespace TurtleServer

open Lib
open scoped List

/-- A callback that was run: of which timer, and what the last look at the clock had shown. -/
structure Firing (κ : Type) where
  timer : SingleTimer κ
  now : ℕ

/-- A timer and the `HandleRead` in progress. `expiredTimer` are those of its timers whose callbacks
are still to be run. `rounds` records the callbacks run by each call of `HandleRead`, the last call
first, and `taken` the timers taken out of the queue by a removal or a refresh. -/
structure TimerRun (κ : Type) where
  timer : Timer κ
  expiredTimer : List (SingleTimer κ)
  rounds : List (List (Firing κ))
  taken : List (SingleTimer κ)

namespace TimerRun

variable {κ : Type} (clock : Clock)

def new : TimerRun κ := ⟨.new, [], [], []⟩

/-- A call of one of the functions, by a callback or from outside, or the next callback. -/
inductive Move (κ : Type)
  | call (op : Timer.Op κ)
  | runCallback

/-- The timer that a call takes out of the queue. -/
def takes (t : Timer κ) : Timer.Op κ → List (SingleTimer κ)
  | .removeSingleTimer h => (t.timerQueue.find? h.expireTime).toList
  | .refreshSingleTimer h _ => (t.timerQueue.find? h.expireTime).toList
  | _ => []

/-- One more callback is run by the last `HandleRead`. -/
def record (firing : Firing κ) : List (List (Firing κ)) → List (List (Firing κ))
  | [] => [[firing]]
  | round :: rounds => (round ++ [firing]) :: rounds

/-- One step. `HandleRead` is not called again before it has come to its end. -/
def step (r : TimerRun κ) : Move κ → TimerRun κ
  | .call .handleRead =>
    if r.expiredTimer.isEmpty then
      { r with
        timer := (r.timer.handleRead clock).2
        expiredTimer := (r.timer.handleRead clock).1
        rounds := [] :: r.rounds }
    else r
  | .call op => { r with timer := r.timer.step clock op, taken := r.taken ++ takes r.timer op }
  | .runCallback =>
    match r.expiredTimer with
    | [] => r
    | s :: rest =>
      { r with
        expiredTimer := rest
        rounds := record ⟨s, clock.now (r.timer.reads - 1)⟩ r.rounds }

/-- No callback is run twice, or before its time, or after its timer was taken out of the queue; and
each `HandleRead` runs its callbacks in the order of their expire times. -/
structure Sound (r : TimerRun κ) : Prop where
  once : (r.rounds.flatten.map fun f => f.timer.id).Nodup
  due : ∀ f ∈ r.rounds.flatten, f.timer.expireTime ≤ f.now
  untaken : ∀ s ∈ r.taken, ∀ f ∈ r.rounds.flatten, f.timer.id ≠ s.id
  order : ∀ round ∈ r.rounds, (round.map fun f => f.timer.expireTime).Pairwise (· < ·)

/-! ## The invariant -/

/-- The numbers of the timer objects in all places where one can be. -/
def places (r : TimerRun κ) : List ℕ :=
  (r.rounds.flatten.map fun f => f.timer.id) ++ r.taken.map SingleTimer.id ++
    r.expiredTimer.map SingleTimer.id ++ r.timer.timerQueue.toList.map SingleTimer.id

structure Inv (r : TimerRun κ) : Prop where
  apart : r.places.Nodup
  made : ∀ i ∈ r.places, i < r.timer.made
  past : ∀ s ∈ r.expiredTimer, s.expireTime ≤ clock.now (r.timer.reads - 1)
  due : ∀ f ∈ r.rounds.flatten, f.timer.expireTime ≤ f.now
  order : ∀ round ∈ r.rounds, (round.map fun f => f.timer.expireTime).Pairwise (· < ·)
  current : (((r.rounds.headD []).map fun f => f.timer.expireTime) ++
    r.expiredTimer.map SingleTimer.expireTime).Pairwise (· < ·)

namespace FiringLemmas

variable {clock : Clock} {r : TimerRun κ} {t : Timer κ} {s h : SingleTimer κ} {d : ℕ}

/-! ### Where the timer objects are -/

/-- The numbers of the pending timers. -/
def pending (t : Timer κ) : List ℕ := t.timerQueue.toList.map SingleTimer.id

/-- From `ids` to `ids'` only numbers of timers made meanwhile are added. -/
def Grows (ids ids' : List ℕ) (made made' : ℕ) : Prop :=
  made ≤ made' ∧ ∃ new, ids'.Perm (new ++ ids) ∧ new.Nodup ∧ ∀ i ∈ new, made ≤ i ∧ i < made'

theorem grows_of_perm {ids ids' : List ℕ} {made : ℕ} (h : ids'.Perm ids) : Grows ids ids' made made :=
  ⟨Nat.le_refl _, [], h, List.nodup_nil, fun _ hi => absurd hi List.not_mem_nil⟩

theorem made_resetIfChanged (t : Timer κ) : (t.resetIfChanged clock).made = t.made := by
  simp only [Timer.resetIfChanged, Timer.resetTimerFd]
  split <;> rfl

theorem pending_resetIfChanged (t : Timer κ) : pending (t.resetIfChanged clock) = pending t := by
  unfold pending
  rw [Timer.resetIfChanged_timerQueue]

theorem emplaceNew_grows (clock : Clock) (t : Timer κ) (d : ℕ) (callback : κ) :
    Grows (pending t) (pending (t.emplaceNew clock d callback)) t.made (t.made + 1) := by
  refine ⟨Nat.le_succ _, ?_⟩
  unfold pending
  rcases t.timerQueue.emplace_perm (t.makeSingleTimer clock d callback) with hsame | hperm
  · refine ⟨[], ?_, List.nodup_nil, fun _ hi => absurd hi List.not_mem_nil⟩
    rw [Timer.emplaceNew, hsame]
    exact .refl _
  · refine ⟨[t.made], hperm.map SingleTimer.id, List.nodup_singleton _, ?_⟩
    intro i hi
    rw [List.mem_singleton.mp hi]
    exact ⟨Nat.le_refl _, Nat.lt_succ_self _⟩

theorem eraseAt_perm {found : SingleTimer κ} (hfound : t.timerQueue.find? h.expireTime = some found) :
    (pending t).Perm (found.id :: pending (t.eraseAt h.expireTime)) :=
  (KeyedQueue.perm_erase hfound).map SingleTimer.id

/-- A call moves the timer that it takes out of the queue, and puts in at most the one it has made. -/
theorem step_grows (t : Timer κ) (op : Timer.Op κ) (hop : op ≠ .handleRead) :
    Grows (pending t) ((takes t op).map SingleTimer.id ++ pending (t.step clock op)) t.made
      (t.step clock op).made := by
  cases op with
  | addSingleTimer d callback =>
    simp only [Timer.step, Timer.addSingleTimer, takes, List.map_nil, List.nil_append]
    rw [pending_resetIfChanged, made_resetIfChanged]
    exact emplaceNew_grows clock t d callback
  | removeSingleTimer h =>
    simp only [Timer.step, Timer.removeSingleTimer, takes]
    cases hfind : t.timerQueue.find? h.expireTime with
    | none => exact grows_of_perm (.refl _)
    | some found =>
      simp only []
      rw [pending_resetIfChanged, made_resetIfChanged]
      exact grows_of_perm (eraseAt_perm hfind).symm
  | refreshSingleTimer h d =>
    simp only [Timer.step, Timer.refreshSingleTimer, takes]
    cases hfind : t.timerQueue.find? h.expireTime with
    | none => exact grows_of_perm (.refl _)
    | some found =>
      simp only []
      rw [pending_resetIfChanged, made_resetIfChanged]
      obtain ⟨hmade, new, hperm, hnodup, hnew⟩ :=
        emplaceNew_grows clock (t.eraseAt h.expireTime) d found.callback
      refine ⟨hmade, new, ?_, hnodup, hnew⟩
      calc (found.id :: pending ((t.eraseAt h.expireTime).emplaceNew clock d found.callback))
        _ ~ found.id :: (new ++ pending (t.eraseAt h.expireTime)) := hperm.cons _
        _ ~ new ++ (found.id :: pending (t.eraseAt h.expireTime)) := List.perm_middle.symm
        _ ~ new ++ pending t := (eraseAt_perm hfind).symm.append_left new
  | handleRead => exact absurd rfl hop

/-- What is added is new, so nothing is in two places. -/
theorem apart_of_grows {ids ids' : List ℕ} {made made' : ℕ} (h : Grows ids ids' made made')
    (hnodup : ids.Nodup) (hmade : ∀ i ∈ ids, i < made) : ids'.Nodup ∧ ∀ i ∈ ids', i < made' := by
  obtain ⟨hle, new, hperm, hnew, hfresh⟩ := h
  constructor
  · refine hperm.nodup_iff.mpr (List.nodup_append.mpr ⟨hnew, hnodup, ?_⟩)
    rintro i hi _ hi' rfl
    exact Nat.lt_irrefl _ (Nat.lt_of_lt_of_le (hmade i hi') (hfresh i hi).1)
  · intro i hi
    rcases List.mem_append.mp (hperm.mem_iff.mp hi) with hi | hi
    · exact (hfresh i hi).2
    · exact Nat.lt_of_lt_of_le (hmade i hi) hle

theorem Grows.append_left {ids ids' : List ℕ} {made made' : ℕ} (h : Grows ids ids' made made')
    (front : List ℕ) : Grows (front ++ ids) (front ++ ids') made made' := by
  obtain ⟨hle, new, hperm, hnew⟩ := h
  refine ⟨hle, new, ?_, hnew⟩
  calc front ++ ids'
    _ ~ front ++ (new ++ ids) := hperm.append_left front
    _ ~ new ++ (front ++ ids) := by
      rw [← List.append_assoc, ← List.append_assoc]
      exact List.perm_append_comm.append_right ids

theorem Grows.perm {ids ids' ids'' : List ℕ} {made made' : ℕ} (h : Grows ids ids' made made')
    (hperm : ids''.Perm ids') : Grows ids ids'' made made' := by
  obtain ⟨hle, new, hnew, hfresh⟩ := h
  exact ⟨hle, new, hperm.trans hnew, hfresh⟩

/-! ### Steps -/

theorem reads_step (t : Timer κ) (op : Timer.Op κ) (hop : op ≠ .handleRead) :
    t.reads ≤ (t.step clock op).reads := by
  cases op with
  | addSingleTimer d callback => exact Timer.reads_addSingleTimer clock t d callback
  | removeSingleTimer h => exact Timer.reads_removeSingleTimer clock t h
  | refreshSingleTimer h d => exact Timer.reads_refreshSingleTimer clock t h d
  | handleRead => exact absurd rfl hop

theorem inv_call (hI : Inv clock r) (op : Timer.Op κ) (hop : op ≠ .handleRead) :
    Inv clock { r with timer := r.timer.step clock op, taken := r.taken ++ takes r.timer op } := by
  have hgrows : Grows r.places
      (places { r with timer := r.timer.step clock op, taken := r.taken ++ takes r.timer op })
      r.timer.made (r.timer.step clock op).made := by
    refine ((step_grows r.timer op hop).append_left ((r.rounds.flatten.map fun f => f.timer.id) ++
      r.taken.map SingleTimer.id ++ r.expiredTimer.map SingleTimer.id)).perm ?_
    -- the timer taken out goes past those in progress
    simp only [places, pending, List.map_append, List.append_assoc]
    refine List.Perm.append_left _ (List.Perm.append_left _ ?_)
    rw [← List.append_assoc, ← List.append_assoc]
    exact List.perm_append_comm.append_right _
  obtain ⟨hapart, hmade⟩ := apart_of_grows hgrows hI.apart hI.made
  refine ⟨hapart, hmade, fun s hs => ?_, hI.due, hI.order, hI.current⟩
  exact (hI.past s hs).trans (clock.mono (Nat.sub_le_sub_right (reads_step r.timer op hop) 1))

theorem inv_handleRead (hI : Inv clock r) (hidle : r.expiredTimer = []) :
    Inv clock { r with
      timer := (r.timer.handleRead clock).2
      expiredTimer := (r.timer.handleRead clock).1
      rounds := [] :: r.rounds } := by
  have hmade : (r.timer.handleRead clock).2.made = r.timer.made := made_resetIfChanged _
  have hqueue : (r.timer.handleRead clock).1 ++ (r.timer.handleRead clock).2.timerQueue.toList =
      r.timer.timerQueue.toList := by
    rw [Timer.handleRead, Timer.pruneExpiredTimer, Timer.resetIfChanged_timerQueue]
    exact List.take_append_drop _ _
  have hplaces : places { r with
      timer := (r.timer.handleRead clock).2
      expiredTimer := (r.timer.handleRead clock).1
      rounds := [] :: r.rounds } = r.places := by
    simp only [places, hidle, ← hqueue, List.flatten_cons, List.nil_append, List.map_append,
      List.map_nil, List.append_assoc]
  refine ⟨hplaces ▸ hI.apart, ?_, fun s hs => Timer.expireTime_le_of_handleRead hs, hI.due, ?_, ?_⟩
  · intro i hi
    rw [hplaces] at hi
    exact (hI.made i hi).trans_eq hmade.symm
  · exact List.forall_mem_cons.mpr ⟨List.Pairwise.nil, hI.order⟩
  · have hsorted := r.timer.timerQueue.sorted
    rw [← hqueue] at hsorted
    exact List.pairwise_map.mpr (List.pairwise_append.mp hsorted).1

theorem flatten_record (firing : Firing κ) (rounds : List (List (Firing κ))) :
    (record firing rounds).flatten ~ rounds.flatten ++ [firing] := by
  cases rounds with
  | nil => exact .refl _
  | cons round rounds =>
    simp only [record, List.flatten_cons, List.append_assoc]
    exact List.perm_append_comm.append_left round

theorem order_record {firing : Firing κ} {rounds : List (List (Firing κ))}
    (horder : ∀ round ∈ rounds, (round.map fun f => f.timer.expireTime).Pairwise (· < ·))
    (hlast : (((rounds.headD []).map fun f => f.timer.expireTime) ++
      [firing.timer.expireTime]).Pairwise (· < ·)) :
    ∀ round ∈ record firing rounds, (round.map fun f => f.timer.expireTime).Pairwise (· < ·) := by
  cases rounds with
  | nil => simp [record]
  | cons round rounds =>
    refine List.forall_mem_cons.mpr ⟨?_, (List.forall_mem_cons.mp horder).2⟩
    rw [List.map_append]
    exact hlast

theorem headD_record (firing : Firing κ) (rounds : List (List (Firing κ))) :
    (record firing rounds).headD [] = rounds.headD [] ++ [firing] := by
  cases rounds with
  | nil => rfl
  | cons round rounds => rfl

theorem inv_runCallback {rest : List (SingleTimer κ)} (hI : Inv clock r)
    (hnext : r.expiredTimer = s :: rest) :
    Inv clock { r with
      expiredTimer := rest
      rounds := record ⟨s, clock.now (r.timer.reads - 1)⟩ r.rounds } := by
  have hrecord := flatten_record ⟨s, clock.now (r.timer.reads - 1)⟩ r.rounds
  have hplaces : places { r with
      expiredTimer := rest
      rounds := record ⟨s, clock.now (r.timer.reads - 1)⟩ r.rounds } ~ r.places := by
    simp only [places, hnext, List.map_cons, List.append_assoc]
    refine ((hrecord.map _).append_right _).trans ?_
    rw [List.map_append, List.append_assoc, List.cons_append, List.map_singleton,
      List.singleton_append]
    exact List.Perm.append_left _ List.perm_middle.symm
  have hpast := hI.past
  have hcurrent := hI.current
  rw [hnext] at hpast hcurrent
  rw [List.map_cons, List.append_cons] at hcurrent
  refine ⟨hplaces.nodup_iff.mpr hI.apart, fun i hi => hI.made i (hplaces.mem_iff.mp hi),
    (List.forall_mem_cons.mp hpast).2, fun f hf => ?_,
    order_record hI.order (List.pairwise_append.mp hcurrent).1, ?_⟩
  · rcases List.mem_append.mp (hrecord.mem_iff.mp hf) with hf | hf
    · exact hI.due f hf
    · rw [List.mem_singleton.mp hf]
      exact (List.forall_mem_cons.mp hpast).1
  · rw [headD_record, List.map_append]
    exact hcurrent

theorem inv_step (hI : Inv clock r) (move : Move κ) : Inv clock (r.step clock move) := by
  cases move with
  | call op =>
    cases op with
    | addSingleTimer d callback => exact inv_call hI (.addSingleTimer d callback) nofun
    | removeSingleTimer h => exact inv_call hI (.removeSingleTimer h) nofun
    | refreshSingleTimer h d => exact inv_call hI (.refreshSingleTimer h d) nofun
    | handleRead =>
      simp only [step]
      split
      · next hidle => exact inv_handleRead hI (List.isEmpty_iff.mp hidle)
      · exact hI
  | runCallback =>
    simp only [step]
    split
    · exact hI
    · next s rest hnext => exact inv_runCallback hI hnext

theorem inv_new : Inv clock (new : TimerRun κ) where
  apart := List.nodup_nil
  made := fun _ hi => absurd hi List.not_mem_nil
  past := fun _ hs => absurd hs List.not_mem_nil
  due := fun _ hf => absurd hf List.not_mem_nil
  order := fun _ hr => absurd hr List.not_mem_nil
  current := List.Pairwise.nil

theorem sound_of_inv (hI : Inv clock r) : Sound r := by
  have hapart := hI.apart
  unfold places at hapart
  rw [List.append_assoc, List.append_assoc] at hapart
  obtain ⟨honce, -, hdisjoint⟩ := List.nodup_append.mp hapart
  refine ⟨honce, hI.due, fun s hs f hf => ?_, hI.order⟩
  exact hdisjoint _ (List.mem_map_of_mem hf) _ (List.mem_append_left _ (List.mem_map_of_mem hs))

end FiringLemmas

open FiringLemmas

/-- In every run callbacks are run soundly. A removal or a refresh with the handle of a pending timer
takes that timer out of the queue. -/
theorem timers_fire_soundly (clock : Clock) (moves : List (Move κ)) :
    (run (step clock) new moves).Sound ∧
    ∀ h ∈ (run (step clock) new moves).timer.timerQueue,
      ((run (step clock) new moves).step clock (.call (.removeSingleTimer h))).taken =
        (run (step clock) new moves).taken ++ [h] ∧
      ∀ d, ((run (step clock) new moves).step clock (.call (.refreshSingleTimer h d))).taken =
        (run (step clock) new moves).taken ++ [h] := by
  have hI : Inv clock (run (step clock) new moves) :=
    run_of_forall (I := Inv clock) (fun _ move hI => inv_step hI move) moves inv_new
  refine ⟨sound_of_inv hI, fun h hh => ?_⟩
  have hfind := Timer.find?_of_mem hh
  exact ⟨by simp only [step, takes, hfind, Option.toList_some],
    fun d => by simp only [step, takes, hfind, Option.toList_some]⟩

end TimerRun

end TurtleServer
