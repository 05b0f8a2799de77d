import TurtleServer.Core.Basic
import TurtleServer.Lib.KeyedQueue
import TurtleServer.Lib.Runs

/-!
# The timer (`core/timer.h`, `core/timer.cpp`)

`Timer κ` is the class `Timer`, for callbacks of type `κ`. A callback is data here; what running
it does is said by the owner of the timer (see `Core.Looper`).

* Time. `NowSinceEpoch` is called several times in one operation, and each call may return a
  larger value than the one before. `Clock.now i` is what the `i`-th look at the clock gives, and
  a timer counts the looks made so far in `reads`. The kernel looks at the same clock when it is
  asked to arm the timer fd or to read it.
* Objects. `std::make_unique<SingleTimer>` gives an object of its own on every call; `SingleTimer.id`
  numbers them, and `made` counts them. A `SingleTimer *` is the value of that object, which it
  keeps after the object is erased.
* The queue. `timer_queue_` is a `std::map` whose comparator `SingleTimerCompartor` compares
  `WhenExpire()` only: a `KeyedQueue` with the expire time as key.
* `uint64_t` sums are taken modulo `2 ^ 64`.
-/

namespace TurtleServer

open Lib

/-! ## The timer fd -/

/-- `struct timespec`. -/
structure TimeSpec where
  tvSec : ℕ
  tvNsec : ℕ
deriving DecidableEq, Repr

def millsInSecond : ℕ := 1000
def nanosInMill : ℕ := 1000 * 1000

/-- The duration a `timespec` stands for, in milliseconds. -/
def TimeSpec.mills (ts : TimeSpec) : ℕ := ts.tvSec * millsInSecond + ts.tvNsec / nanosInMill

/-- The one-shot kernel timer behind `timer_fd_`. `armed itValue since` was set to fire `itValue`
milliseconds after the clock showed `since`; it stays so until it is set again or its expiration
is read. -/
inductive TimerFd
  | disarmed
  | armed (itValue since : ℕ)
deriving DecidableEq, Repr

/-- `timerfd_settime` with the clock at `now`: a zero `it_value` disarms. -/
def TimerFd.settime (ts : TimeSpec) (now : ℕ) : TimerFd :=
  if ts.mills = 0 then .disarmed else .armed ts.mills now

/-- The timer fd has fired and nobody has read the expiration. -/
def TimerFd.Unread (now : ℕ) : TimerFd → Prop
  | .disarmed => False
  | .armed itValue since => since + itValue ≤ now

instance (now : ℕ) : (fd : TimerFd) → Decidable (fd.Unread now)
  | .disarmed => inferInstanceAs (Decidable False)
  | .armed itValue since => inferInstanceAs (Decidable (since + itValue ≤ now))

/-- `read` of the timer fd with the clock at `now`: an expiration is consumed, and without one the
nonblocking read fails and changes nothing. -/
def TimerFd.read (fd : TimerFd) (now : ℕ) : TimerFd := if fd.Unread now then .disarmed else fd

/-- `FromNow`, with the value of its `NowSinceEpoch()`. -/
def fromNow (now timestamp : ℕ) : ℕ := if timestamp ≥ now then timestamp - now else 0

/-- `FromNowInTimeSpec`, with the value of its `NowSinceEpoch()`. -/
def fromNowInTimeSpec (now timestamp : ℕ) : TimeSpec :=
  { tvSec := fromNow now timestamp / millsInSecond
    tvNsec := fromNow now timestamp % millsInSecond * nanosInMill }

/-- The round trip through seconds and nanoseconds loses nothing. -/
@[simp] theorem mills_fromNowInTimeSpec (now timestamp : ℕ) :
    (fromNowInTimeSpec now timestamp).mills = fromNow now timestamp := by
  rw [TimeSpec.mills, fromNowInTimeSpec, Nat.mul_div_cancel _ (by decide : 0 < nanosInMill)]
  exact Nat.div_add_mod' _ _

/-! ## `SingleTimer` and `Timer` -/

/-- A `SingleTimer` object. -/
structure SingleTimer (κ : Type) where
  id : ℕ
  expireTime : ℕ
  callback : κ
deriving DecidableEq, Repr

/-- `SingleTimer::Expired`, with the value of its `NowSinceEpoch()`. -/
def SingleTimer.expired {κ : Type} (s : SingleTimer κ) (now : ℕ) : Bool := now ≥ s.expireTime

/-- The key of `timer_queue_`: all that `SingleTimerCompartor` looks at. -/
abbrev TimerQueue (κ : Type) := KeyedQueue (SingleTimer.expireTime (κ := κ))

/-- The class `Timer`. Every object in the queue is one made before. -/
structure Timer (κ : Type) where
  timerFd : TimerFd
  nextExpire : ℕ
  timerQueue : TimerQueue κ
  made : ℕ
  reads : ℕ
  id_lt_made : ∀ s ∈ timerQueue, s.id < made

namespace Timer

variable {κ : Type} (clock : Clock)

/-- `Timer()`. -/
def new : Timer κ where
  timerFd := .disarmed
  nextExpire := 0
  timerQueue := .empty
  made := 0
  reads := 0
  id_lt_made := fun _ h => absurd h KeyedQueue.not_mem_empty

/-- `NextExpireTime`. -/
def nextExpireTime (t : Timer κ) : ℕ :=
  match t.timerQueue.toList with
  | [] => 0
  | s :: _ => s.expireTime

/-- `TimerCount`. -/
def timerCount (t : Timer κ) : ℕ := t.timerQueue.length

/-- The expire time of a `SingleTimer` constructed now: `NowSinceEpoch() + expire_from_now`. -/
def newExpireTime (t : Timer κ) (expireFromNow : ℕ) : ℕ :=
  (clock.now t.reads + expireFromNow) % 2 ^ 64

/-- `std::make_unique<SingleTimer>(expire_from_now, callback)`. -/
def makeSingleTimer (t : Timer κ) (expireFromNow : ℕ) (callback : κ) : SingleTimer κ :=
  ⟨t.made, t.newExpireTime clock expireFromNow, callback⟩

/-- `ResetTimerFd(timer_fd_, FromNowInTimeSpec(timestamp))`: one look at the clock by `FromNow` and
one by the kernel. -/
def resetTimerFd (t : Timer κ) (timestamp : ℕ) : Timer κ :=
  { t with
    timerFd := .settime (fromNowInTimeSpec (clock.now t.reads) timestamp) (clock.now (t.reads + 1))
    reads := t.reads + 2 }

/-- The last lines of every operation: when the head of the queue has changed, remember its expire
time and set the timer fd for it. -/
def resetIfChanged (t : Timer κ) : Timer κ :=
  if t.nextExpireTime ≠ t.nextExpire then
    { t with nextExpire := t.nextExpireTime }.resetTimerFd clock t.nextExpireTime
  else t

/-- `timer_queue_.emplace(raw_timer, std::move(new_timer))` of an object just made. -/
def emplaceNew (t : Timer κ) (expireFromNow : ℕ) (callback : κ) : Timer κ :=
  { t with
    timerQueue := t.timerQueue.emplace (t.makeSingleTimer clock expireFromNow callback)
    made := t.made + 1
    reads := t.reads + 1
    id_lt_made := by
      intro s hs
      rcases KeyedQueue.mem_emplace.mp hs with hs' | ⟨rfl, _⟩
      · exact Nat.lt_succ_of_lt (t.id_lt_made s hs')
      · exact Nat.lt_succ_self _ }

/-- `timer_queue_.erase(it)`, for the `it` that `find` gives for a handle. -/
def eraseAt (t : Timer κ) (expireTime : ℕ) : Timer κ :=
  { t with
    timerQueue := t.timerQueue.erase expireTime
    id_lt_made := fun s hs => t.id_lt_made s (KeyedQueue.mem_erase.mp hs).1 }

/-- `timer_queue_.erase(timer_queue_.begin(), it)`, with `it` at position `n`. -/
def eraseFirst (t : Timer κ) (n : ℕ) : Timer κ :=
  { t with
    timerQueue := t.timerQueue.drop n
    id_lt_made := fun s hs => t.id_lt_made s (KeyedQueue.mem_of_mem_drop hs) }

@[simp] theorem resetIfChanged_timerQueue (t : Timer κ) :
    (t.resetIfChanged clock).timerQueue = t.timerQueue := by
  simp only [resetIfChanged, resetTimerFd]
  split
  · simp only
  · rfl

/-- `AddSingleTimer`: the handle and the state after. -/
def addSingleTimer (t : Timer κ) (expireFromNow : ℕ) (callback : κ) : SingleTimer κ × Timer κ :=
  (t.makeSingleTimer clock expireFromNow callback,
    (t.emplaceNew clock expireFromNow callback).resetIfChanged clock)

/-- `RemoveSingleTimer`. -/
def removeSingleTimer (t : Timer κ) (singleTimer : SingleTimer κ) : Bool × Timer κ :=
  match t.timerQueue.find? singleTimer.expireTime with
  | some _ => (true, (t.eraseAt singleTimer.expireTime).resetIfChanged clock)
  | none => (false, t)

/-- `RefreshSingleTimer`: the new timer takes its callback from the one found, is made before the
erase and is emplaced after it. -/
def refreshSingleTimer (t : Timer κ) (singleTimer : SingleTimer κ) (expireFromNow : ℕ) :
    Option (SingleTimer κ) × Timer κ :=
  match t.timerQueue.find? singleTimer.expireTime with
  | none => (none, t)
  | some found =>
    (some (t.makeSingleTimer clock expireFromNow found.callback),
      ((t.eraseAt singleTimer.expireTime).emplaceNew clock expireFromNow
        found.callback).resetIfChanged clock)

/-- The first loop of `PruneExpiredTimer`: how many timers from the front are expired, each tested
with a look at the clock of its own, the first of them look number `i`. -/
def expiredCount (i : ℕ) : List (SingleTimer κ) → ℕ
  | [] => 0
  | s :: rest => if s.expired (clock.now i) then expiredCount (i + 1) rest + 1 else 0

/-- The number of tests the first loop of `PruneExpiredTimer` makes: one more than it finds expired,
unless it runs to the end. -/
def expiredTests (i : ℕ) (l : List (SingleTimer κ)) : ℕ :=
  min (expiredCount clock i l + 1) l.length

/-- `PruneExpiredTimer`: the expired timers, in order, and the state after. -/
def pruneExpiredTimer (t : Timer κ) : List (SingleTimer κ) × Timer κ :=
  let n := expiredCount clock t.reads t.timerQueue.toList
  (t.timerQueue.toList.take n,
    { t.eraseFirst n with
      reads := t.reads + expiredTests clock t.reads t.timerQueue.toList }.resetIfChanged clock)

/-- `read(timer_fd_, ..)`, at the start of `HandleRead`. -/
def readTimerFd (t : Timer κ) : Timer κ :=
  { t with timerFd := t.timerFd.read (clock.now t.reads), reads := t.reads + 1 }

/-- `HandleRead` up to the loop that runs the callbacks of the expired timers, which it returns. -/
def handleRead (t : Timer κ) : List (SingleTimer κ) × Timer κ :=
  (t.readTimerFd clock).pruneExpiredTimer clock

/-! ## Runs -/

/-- The operations on a timer. What the callbacks of a `HandleRead` do to the timer they do by
further operations after it. -/
inductive Op (κ : Type)
  | addSingleTimer (expireFromNow : ℕ) (callback : κ)
  | removeSingleTimer (singleTimer : SingleTimer κ)
  | refreshSingleTimer (singleTimer : SingleTimer κ) (expireFromNow : ℕ)
  | handleRead

/-- One operation. -/
def step (t : Timer κ) : Op κ → Timer κ
  | .addSingleTimer expireFromNow callback => (t.addSingleTimer clock expireFromNow callback).2
  | .removeSingleTimer singleTimer => (t.removeSingleTimer clock singleTimer).2
  | .refreshSingleTimer singleTimer expireFromNow =>
    (t.refreshSingleTimer clock singleTimer expireFromNow).2
  | .handleRead => (t.handleRead clock).2

end Timer

end TurtleServer
