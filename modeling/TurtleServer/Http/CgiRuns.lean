import TurtleServer.Http.Server
import TurtleServer.Lib.Runs

/-!
# Runs of CGI programs and what they leave behind

`Cgier::Run` hands the output of the child over in a file whose name is fixed for the thread. The file
is opened for appending before `fork` and deleted after it was read. Two of the returns in between miss
something: when `fork` fails neither is `fd` closed nor the file deleted, and when `waitpid` fails the
file stays, so that the next `Run` reads what is in it as part of its own result (`stale_output_read`).

1. `Attempt` and `perform`: one call, by what the system calls answer.
2. `Isolated`: what a call should give and leave.
3. `cgi_runs_isolated_iff`: all calls of a sequence do so exactly when none of them meets one of these
   two failures.
-/

namespace TurtleServer.Http

open Lib

/-! ## 1. Calls of `Run` -/

/-- What the parent process has: the shared file of the thread, if there is one, and the descriptors
open. `strays` says that a child nobody has waited for still has the file open. -/
structure CgiParent where
  file : Option Bytes
  descriptors : Finset ℕ
  strays : Bool
deriving DecidableEq

namespace CgiParent

/-- No file yet. -/
def new (descriptors : Finset ℕ) : CgiParent := ⟨none, descriptors, false⟩

/-- The descriptor `open` gives: the lowest one that is free. -/
def lowestFree (descriptors : Finset ℕ) : ℕ :=
  ((List.range (descriptors.card + 1)).find? (· ∉ descriptors)).getD 0

/-- `open` with `O_APPEND | O_CREAT`, when it succeeds. -/
def openShared (s : CgiParent) : ℕ × CgiParent :=
  (lowestFree s.descriptors,
    { s with
      file := some (s.file.getD [])
      descriptors := insert (lowestFree s.descriptors) s.descriptors })

/-- `close`. -/
def close (s : CgiParent) (fd : ℕ) : CgiParent := { s with descriptors := s.descriptors.erase fd }

/-- A child appends to the file. -/
def append (s : CgiParent) (output : Bytes) : CgiParent := { s with file := s.file.map (· ++ output) }

/-- `DeleteFile`. What stray children still write goes to a file without a name. -/
def deleteFile (s : CgiParent) : CgiParent := { s with file := none, strays := false }

end CgiParent

/-- What a call of `Run` meets: whether `open`, `fork` and `waitpid` succeed, and what the child has
written when `waitpid` returns. -/
structure Attempt where
  opens : Bool
  forks : Bool
  waits : Bool
  output : Bytes
deriving DecidableEq, Repr

/-- `Run`: how it ends and what is left. -/
def Attempt.perform (a : Attempt) (s : CgiParent) : RunOutcome × CgiParent :=
  if !a.opens then (.openFailed, s)
  else
    let (fd, s) := s.openShared
    -- `fd` is not closed
    if !a.forks then (.forkFailed, s)
    else
      let s := (s.close fd).append a.output
      if !a.waits then (.waitFailed, { s with strays := true })
      else (.finished (s.file.getD []), s.deleteFile)

/-- A call of `Run`, or a child that nobody has waited for writes something. -/
inductive CgiMove
  | run (a : Attempt)
  | straggle (output : Bytes)
deriving DecidableEq, Repr

def CgiParent.step (s : CgiParent) : CgiMove → CgiParent
  | .run a => (a.perform s).2
  | .straggle output => if s.strays then s.append output else s

/-! ## 2. Isolation -/

/-- A call that comes to reading the file returns what its own child has written, and every call leaves
no file and the descriptors that were open before it. -/
structure Attempt.Isolated (threadId : Bytes) (s : CgiParent) (a : Attempt) : Prop where
  result : a.opens = true → a.forks = true → a.waits = true →
    Cgier.run threadId (a.perform s).1 = a.output
  file : (a.perform s).2.file = none
  descriptors : (a.perform s).2.descriptors = s.descriptors

/-- Once the file is open, `fork` and `waitpid` succeed. -/
def Attempt.Harvested (a : Attempt) : Prop := a.opens = true → a.forks = true ∧ a.waits = true

instance (a : Attempt) : Decidable a.Harvested := inferInstanceAs (Decidable (_ → _))

namespace CgiRunLemmas

variable {threadId : Bytes} {s : CgiParent} {a : Attempt}

theorem lowestFree_not_mem (descriptors : Finset ℕ) :
    CgiParent.lowestFree descriptors ∉ descriptors := by
  unfold CgiParent.lowestFree
  cases hfind : (List.range (descriptors.card + 1)).find? (· ∉ descriptors) with
  | some fd => simpa using List.find?_some hfind
  | none =>
    -- more numbers than descriptors
    have hsub : Finset.range (descriptors.card + 1) ⊆ descriptors := by
      intro fd hfd
      have hnone := List.find?_eq_none.mp hfind fd (List.mem_range.mpr (Finset.mem_range.mp hfd))
      simpa using hnone
    have hcard := Finset.card_le_card hsub
    rw [Finset.card_range] at hcard
    exact absurd hcard (Nat.not_succ_le_self _)

theorem close_openShared (s : CgiParent) :
    s.openShared.2.close s.openShared.1 = { s with file := some (s.file.getD []) } := by
  simp only [CgiParent.close, CgiParent.openShared]
  rw [Finset.erase_insert (lowestFree_not_mem s.descriptors)]

theorem perform_of_not_opens (h : a.opens = false) : a.perform s = (.openFailed, s) := by
  unfold Attempt.perform
  rw [h]
  rfl

theorem perform_of_not_forks (hopens : a.opens = true) (hforks : a.forks = false) :
    a.perform s = (.forkFailed, s.openShared.2) := by
  unfold Attempt.perform
  rw [hopens, hforks]
  rfl

theorem perform_of_not_waits (hopens : a.opens = true) (hforks : a.forks = true)
    (hwaits : a.waits = false) :
    a.perform s =
      (.waitFailed, { s with file := some (s.file.getD [] ++ a.output), strays := true }) := by
  unfold Attempt.perform
  rw [hopens, hforks, hwaits]
  simp only [Bool.not_true, Bool.false_eq_true, if_false, Bool.not_false, if_true, close_openShared]
  rfl

theorem perform_of_waits (hopens : a.opens = true) (hforks : a.forks = true)
    (hwaits : a.waits = true) :
    a.perform s =
      (.finished (s.file.getD [] ++ a.output), { s with file := none, strays := false }) := by
  unfold Attempt.perform
  rw [hopens, hforks, hwaits]
  simp only [Bool.not_true, Bool.false_eq_true, if_false, close_openShared]
  rfl

/-- Nothing is left of earlier calls. -/
structure Clean (s : CgiParent) : Prop where
  file : s.file = none
  strays : s.strays = false

theorem isolated_iff (hclean : Clean s) : a.Isolated threadId s ↔ a.Harvested := by
  constructor
  · rintro ⟨-, hfile, hdescriptors⟩ hopens
    cases hforks : a.forks with
    | false =>
      rw [perform_of_not_forks hopens hforks] at hfile
      cases hfile
    | true =>
      refine ⟨rfl, ?_⟩
      cases hwaits : a.waits with
      | false =>
        rw [perform_of_not_waits hopens hforks hwaits] at hfile
        cases hfile
      | true => rfl
  · intro hharvested
    cases hopens : a.opens with
    | false =>
      refine ⟨fun h => absurd (hopens.symm.trans h) Bool.false_ne_true, ?_, ?_⟩
      · rw [perform_of_not_opens hopens]
        exact hclean.file
      · rw [perform_of_not_opens hopens]
    | true =>
      obtain ⟨hforks, hwaits⟩ := hharvested hopens
      refine ⟨fun _ _ _ => ?_, ?_, ?_⟩
      · rw [perform_of_waits hopens hforks hwaits, hclean.file]
        rfl
      · rw [perform_of_waits hopens hforks hwaits]
      · rw [perform_of_waits hopens hforks hwaits]

theorem clean_perform (hclean : Clean s) (hharvested : a.Harvested) : Clean (a.perform s).2 := by
  cases hopens : a.opens with
  | false =>
    rw [perform_of_not_opens hopens]
    exact hclean
  | true =>
    obtain ⟨hforks, hwaits⟩ := hharvested hopens
    rw [perform_of_waits hopens hforks hwaits]
    exact ⟨rfl, rfl⟩

end CgiRunLemmas

open CgiRunLemmas

/-! ## 3. Sequences of calls -/

/-- What is asked of a step. -/
def CgiParent.IsolatedAt (threadId : Bytes) (s : CgiParent) : CgiMove → Prop
  | .run a => a.Isolated threadId s
  | .straggle _ => True

/-- All calls are isolated exactly when each of them that has opened the file forks and harvests its
child. -/
theorem cgi_runs_isolated_iff (threadId : Bytes) (descriptors : Finset ℕ) (moves : List CgiMove) :
    Along CgiParent.step (CgiParent.IsolatedAt threadId) (.new descriptors) moves ↔
      ∀ a, .run a ∈ moves → a.Harvested := by
  have hcongr : Along CgiParent.step (CgiParent.IsolatedAt threadId) (.new descriptors) moves ↔
      Along CgiParent.step (fun _ move => ∀ a, move = .run a → a.Harvested) (.new descriptors)
        moves := by
    refine along_congr (I := Clean) ?_ ?_ ⟨rfl, rfl⟩
    · rintro s (a | output) hclean hharvested
      · exact clean_perform hclean (hharvested a rfl)
      · simp only [CgiParent.step, hclean.strays, Bool.false_eq_true, if_false]
        exact hclean
    · rintro s (a | output) hclean
      · rw [CgiParent.IsolatedAt, isolated_iff hclean]
        constructor
        · intro h b hb
          cases hb
          exact h
        · exact fun h => h a rfl
      · exact iff_of_true True.intro nofun
  rw [hcongr, along_iff_forall]
  constructor
  · exact fun h a ha => h _ ha a rfl
  · rintro h _ hmove a rfl
    exact h a hmove

/-- The first child is not harvested, the second is. -/
def afterFailedWait : List CgiMove :=
  [.run ⟨true, true, false, [1]⟩, .run ⟨true, true, true, [2]⟩]

/-- The second call returns the output of both children, and a call whose `fork` fails leaves the file
and a descriptor. -/
theorem stale_output_read :
    Cgier.run [49] (Attempt.perform ⟨true, true, true, [2]⟩
        (CgiParent.step (.new {0, 1, 2}) (.run ⟨true, true, false, [1]⟩))).1 = [1, 2] ∧
      (CgiParent.step (.new {0, 1, 2}) (.run ⟨true, false, false, []⟩)).descriptors = {0, 1, 2, 3} ∧
      (CgiParent.step (.new {0, 1, 2}) (.run ⟨true, false, false, []⟩)).file = some [] ∧
      ¬ Along CgiParent.step (CgiParent.IsolatedAt [49]) (.new {0, 1, 2}) afterFailedWait := by
  refine ⟨by decide, by decide, by decide, ?_⟩
  rintro ⟨hfirst, -⟩
  exact absurd hfirst.file (by decide)

end TurtleServer.Http
