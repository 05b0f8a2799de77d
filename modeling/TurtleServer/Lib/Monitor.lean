import Mathlib.Tactic

/-!
# A mutex with a condition variable

`Monitor ι` is a mutex and the wait set of one condition variable, for threads named by `ι`. A thread
in `wait` gives up the mutex and joins the wait set in one step; it stays there until a wake-up is
delivered to it, and has to take the mutex again before `wait` goes on. A notification wakes threads
that are in the wait set at that time, and is forgotten when there are none.
-/

namespace TurtleServer.Lib

/-- `owner` holds the mutex; `asleep` are the threads in the wait set to which no wake-up has been
delivered. -/
structure Monitor (ι : Type*) where
  owner : Option ι
  asleep : Finset ι

namespace Monitor

variable {ι : Type*} {m : Monitor ι} {i j : ι}

/-! ## The mutex -/

def new : Monitor ι := ⟨none, ∅⟩

/-- Thread `i` takes the mutex. -/
def lock (m : Monitor ι) (i : ι) : Monitor ι := { m with owner := some i }

/-- The mutex is given up. -/
def unlock (m : Monitor ι) : Monitor ι := { m with owner := none }

/-- `notify_all`. -/
def wakeAll (m : Monitor ι) : Monitor ι := { m with asleep := ∅ }

@[simp] theorem owner_new : (new : Monitor ι).owner = none := rfl
@[simp] theorem owner_lock : (m.lock i).owner = some i := rfl
@[simp] theorem owner_unlock : m.unlock.owner = none := rfl
@[simp] theorem owner_wakeAll : m.wakeAll.owner = m.owner := rfl

@[simp] theorem asleep_new : (new : Monitor ι).asleep = ∅ := rfl
@[simp] theorem asleep_lock : (m.lock i).asleep = m.asleep := rfl
@[simp] theorem asleep_unlock : m.unlock.asleep = m.asleep := rfl
@[simp] theorem asleep_wakeAll : m.wakeAll.asleep = ∅ := rfl

/-! ## The wait set -/

variable [DecidableEq ι]

/-- Thread `i` gives up the mutex and joins the wait set, in one step. -/
def sleep (m : Monitor ι) (i : ι) : Monitor ι := ⟨none, insert i m.asleep⟩

/-- A wake-up is delivered to thread `i`. -/
def wake (m : Monitor ι) (i : ι) : Monitor ι := { m with asleep := m.asleep.erase i }

/-- `notify_one` may deliver its wake-up to `i`: to any thread in the wait set, and to nobody when it
is empty. -/
def MayWake (m : Monitor ι) (i : ι) : Prop := i ∈ m.asleep ∨ m.asleep = ∅

instance (m : Monitor ι) (i : ι) : Decidable (m.MayWake i) := inferInstanceAs (Decidable (_ ∨ _))

@[simp] theorem owner_sleep : (m.sleep i).owner = none := rfl
@[simp] theorem owner_wake : (m.wake i).owner = m.owner := rfl

@[simp] theorem mem_asleep_sleep : j ∈ (m.sleep i).asleep ↔ j = i ∨ j ∈ m.asleep :=
  Finset.mem_insert

@[simp] theorem mem_asleep_wake : j ∈ (m.wake i).asleep ↔ j ≠ i ∧ j ∈ m.asleep :=
  Finset.mem_erase

end Monitor

end TurtleServer.Lib
