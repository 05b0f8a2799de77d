import TurtleServer.Core.Connection

/-!
# The calls of `send` in `Connection::Send`

`Send` keeps in `curr_write` how much of the write buffer has gone out and asks for the rest until
nothing is left. `sendAttempts` is this loop with a record of its calls. A script of results may end
before the loop does, which is `none`; otherwise the loop makes the calls of `Connection.sendLoop`, in
which the offset is gone (`WriteLemmas.writes_of_attempts`).

* `send_robust`: what the calls ask for and what goes out.
-/

namespace TurtleServer.Connection

/-- A call of `send`: what it was asked to take, and its result. -/
structure SendAttempt where
  asked : Bytes
  result : SendResult
deriving DecidableEq, Repr

/-- What the kernel took. -/
def SendAttempt.taken (a : SendAttempt) : Bytes :=
  match a.result with
  | .accepted count => a.asked.take count
  | .failed _ => []

/-- The loop of `Send` from `curr_write` on, with the results of `send`: the calls it makes until it
returns. -/
def sendAttempts (buf : Bytes) : List SendResult → ℕ → Option (List SendAttempt)
  | [], currWrite => if currWrite < buf.length then none else some []
  | result :: outgoing, currWrite =>
    if currWrite < buf.length then
      let attempt : SendAttempt := ⟨buf.drop currWrite, result⟩
      if result = .failed .other then some [attempt]
      else
        -- an error of the other three counts as zero bytes
        (sendAttempts buf outgoing (currWrite + attempt.taken.length)).map (attempt :: ·)
    else some []

/-- What goes out is what the calls have taken, the beginning of the write buffer, all of it exactly
when no call has failed for good. Every call asks for what is not out yet, and the write buffer is empty
in the end. -/
structure RobustWrite (c : Connection) (attempts : List SendAttempt) : Prop where
  delivered : c.send.socket.delivered = c.socket.delivered ++ attempts.flatMap SendAttempt.taken
  beginning : attempts.flatMap SendAttempt.taken <+: c.writeBuffer.buf
  whole : attempts.flatMap SendAttempt.taken = c.writeBuffer.buf ↔
    ∀ a ∈ attempts, a.result ≠ .failed .other
  asked : ∀ before a after, attempts = before ++ a :: after →
    before.flatMap SendAttempt.taken ++ a.asked = c.writeBuffer.buf ∧ a.asked ≠ []
  results : attempts.map SendAttempt.result = c.socket.outgoing.take attempts.length
  cleared : c.send.writeBuffer.buf = []

namespace WriteLemmas

variable {buf : Bytes} {outgoing : List SendResult} {currWrite : ℕ} {attempts : List SendAttempt}
  {result : SendResult}

/-! ### The ways a round can go -/

theorem sendAttempts_of_le (h : buf.length ≤ currWrite) (outgoing : List SendResult) :
    sendAttempts buf outgoing currWrite = some [] := by
  cases outgoing with
  | nil => rw [sendAttempts, if_neg (Nat.not_lt.mpr h)]
  | cons result outgoing => rw [sendAttempts, if_neg (Nat.not_lt.mpr h)]

theorem sendAttempts_of_other (h : currWrite < buf.length) :
    sendAttempts buf (.failed .other :: outgoing) currWrite =
      some [⟨buf.drop currWrite, .failed .other⟩] := by
  rw [sendAttempts, if_pos h]
  exact if_pos rfl

theorem sendAttempts_of_ne (h : currWrite < buf.length) (hresult : result ≠ .failed .other) :
    sendAttempts buf (result :: outgoing) currWrite =
      (sendAttempts buf outgoing
        (currWrite + (SendAttempt.taken ⟨buf.drop currWrite, result⟩).length)).map
          (⟨buf.drop currWrite, result⟩ :: ·) := by
  rw [sendAttempts, if_pos h]
  exact if_neg hresult

theorem prefix_taken (a : SendAttempt) : a.taken <+: a.asked := by
  unfold SendAttempt.taken
  split
  · exact List.take_prefix _ _
  · exact List.nil_prefix

theorem taken_append_drop (a : SendAttempt) : a.taken ++ a.asked.drop a.taken.length = a.asked :=
  List.prefix_iff_eq_append.mp (prefix_taken a)

/-- The offset and the bytes left say the same. -/
theorem sendLoop_of_ne {toWrite : Bytes} (hne : toWrite ≠ []) (hresult : result ≠ .failed .other) :
    sendLoop (result :: outgoing) toWrite =
      (SendAttempt.taken ⟨toWrite, result⟩ ++
          (sendLoop outgoing (toWrite.drop (SendAttempt.taken ⟨toWrite, result⟩).length)).1,
        (sendLoop outgoing (toWrite.drop (SendAttempt.taken ⟨toWrite, result⟩).length)).2) := by
  cases result with
  | accepted count =>
    have hdrop : toWrite.drop (SendAttempt.taken ⟨toWrite, .accepted count⟩).length =
        toWrite.drop count := by
      simp only [SendAttempt.taken, List.length_take]
      rcases Nat.le_total count toWrite.length with hle | hle
      · rw [Nat.min_eq_left hle]
      · rw [Nat.min_eq_right hle, List.drop_length, List.drop_eq_nil_of_le hle]
    rw [hdrop, sendLoop]
    · rfl
    · exact hne
  | failed errno =>
    obtain ⟨b, toWrite, rfl⟩ := List.exists_cons_of_ne_nil hne
    cases errno with
    | other => exact absurd rfl hresult
    | eintr => rfl
    | eagain => rfl
    | ewouldblock => rfl

/-! ### Whole runs of the loop -/

/-- What is to be said of the calls for the bytes `toWrite`. -/
structure Writes (toWrite : Bytes) (outgoing : List SendResult) (attempts : List SendAttempt) :
    Prop where
  sent : sendLoop outgoing toWrite =
    (attempts.flatMap SendAttempt.taken, outgoing.drop attempts.length)
  beginning : attempts.flatMap SendAttempt.taken <+: toWrite
  whole : attempts.flatMap SendAttempt.taken = toWrite ↔ ∀ a ∈ attempts, a.result ≠ .failed .other
  asked : ∀ before a after, attempts = before ++ a :: after →
    before.flatMap SendAttempt.taken ++ a.asked = toWrite ∧ a.asked ≠ []
  results : attempts.map SendAttempt.result = outgoing.take attempts.length

theorem writes_nil (outgoing : List SendResult) : Writes [] outgoing [] where
  sent := by cases outgoing <;> rfl
  beginning := List.prefix_rfl
  whole := iff_of_true rfl nofun
  asked := fun before a after h => absurd h (by simp)
  results := rfl

/-- A call that fails for good is the last one. -/
theorem writes_other {toWrite : Bytes} (hne : toWrite ≠ []) (outgoing : List SendResult) :
    Writes toWrite (.failed .other :: outgoing) [⟨toWrite, .failed .other⟩] where
  sent := by
    obtain ⟨b, toWrite, rfl⟩ := List.exists_cons_of_ne_nil hne
    rfl
  beginning := List.nil_prefix
  whole := iff_of_false (fun h => hne h.symm) fun h => h _ List.mem_cons_self rfl
  asked := by
    intro before a after h
    cases before with
    | nil =>
      cases h
      exact ⟨rfl, hne⟩
    | cons b before => exact absurd (List.cons.inj h).2 (by simp)
  results := rfl

/-- A call that takes some bytes, or none, and then the calls for the rest. -/
theorem writes_cons {toWrite : Bytes} (hne : toWrite ≠ []) (hresult : result ≠ .failed .other)
    (h : Writes (toWrite.drop (SendAttempt.taken ⟨toWrite, result⟩).length) outgoing attempts) :
    Writes toWrite (result :: outgoing) (⟨toWrite, result⟩ :: attempts) := by
  have hsplit : SendAttempt.taken ⟨toWrite, result⟩ ++
      toWrite.drop (SendAttempt.taken ⟨toWrite, result⟩).length = toWrite :=
    taken_append_drop ⟨toWrite, result⟩
  constructor
  · rw [sendLoop_of_ne hne hresult, h.sent]
    rfl
  · have hprefix :=
      (List.prefix_append_right_inj (SendAttempt.taken ⟨toWrite, result⟩)).mpr h.beginning
    rw [hsplit] at hprefix
    exact hprefix
  · rw [List.flatMap_cons, List.forall_mem_cons, and_iff_right hresult, ← h.whole]
    constructor
    · intro hall
      exact List.append_cancel_left (hall.trans hsplit.symm)
    · intro hrest
      rw [hrest]
      exact hsplit
  · intro before a after heq
    cases before with
    | nil =>
      cases heq
      exact ⟨rfl, hne⟩
    | cons b before =>
      obtain ⟨rfl, hrest⟩ := List.cons.inj heq
      obtain ⟨hasked, hsome⟩ := h.asked before a after hrest
      refine ⟨?_, hsome⟩
      rw [List.flatMap_cons, List.append_assoc, hasked]
      exact hsplit
  · rw [List.map_cons, h.results]
    rfl

theorem writes_of_attempts (h : sendAttempts buf outgoing currWrite = some attempts) :
    Writes (buf.drop currWrite) outgoing attempts := by
  induction outgoing generalizing currWrite attempts with
  | nil =>
    rcases Nat.lt_or_ge currWrite buf.length with hlt | hge
    · rw [sendAttempts, if_pos hlt] at h
      cases h
    · rw [sendAttempts_of_le hge] at h
      cases h
      rw [List.drop_eq_nil_of_le hge]
      exact writes_nil _
  | cons result outgoing ih =>
    rcases Nat.lt_or_ge currWrite buf.length with hlt | hge
    · have hne : buf.drop currWrite ≠ [] := by
        rw [ne_eq, List.drop_eq_nil_iff]
        exact Nat.not_le_of_lt hlt
      rcases eq_or_ne result (.failed .other) with rfl | hresult
      · rw [sendAttempts_of_other hlt] at h
        cases h
        exact writes_other hne outgoing
      · rw [sendAttempts_of_ne hlt hresult] at h
        obtain ⟨rest, hrest, rfl⟩ := Option.map_eq_some_iff.mp h
        have hwrites := ih hrest
        rw [← List.drop_drop] at hwrites
        exact writes_cons hne hresult hwrites
    · rw [sendAttempts_of_le hge] at h
      cases h
      rw [List.drop_eq_nil_of_le hge]
      exact writes_nil _

end WriteLemmas

open WriteLemmas

/-- `Send` writes robustly, with any results that make it return. -/
theorem send_robust {c : Connection} {attempts : List SendAttempt}
    (h : sendAttempts c.writeBuffer.buf c.socket.outgoing 0 = some attempts) :
    RobustWrite c attempts := by
  obtain ⟨hsent, hbeginning, hwhole, hasked, hresults⟩ := writes_of_attempts h
  rw [List.drop_zero] at hsent hbeginning hwhole
  refine ⟨?_, hbeginning, hwhole, hasked, hresults, rfl⟩
  rw [send, hsent]
  rfl

/-- A piece, an interrupt, and the rest. -/
theorem send_robust_pieces :
    sendAttempts [1, 2, 3] [.accepted 1, .failed .eintr, .accepted 2, .accepted 7] 0 =
        some [⟨[1, 2, 3], .accepted 1⟩, ⟨[2, 3], .failed .eintr⟩, ⟨[2, 3], .accepted 2⟩] ∧
      RobustWrite
        ⟨⟨[], [.accepted 1, .failed .eintr, .accepted 2, .accepted 7], []⟩, ⟨[]⟩, ⟨[1, 2, 3]⟩⟩
        [⟨[1, 2, 3], .accepted 1⟩, ⟨[2, 3], .failed .eintr⟩, ⟨[2, 3], .accepted 2⟩] :=
  ⟨by decide, send_robust (by decide)⟩

end TurtleServer.Connection
