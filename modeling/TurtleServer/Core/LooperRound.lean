import TurtleServer.Core.Looper

/-!
# One round of the loop

`Poll` gives pointers to the connections that are ready, and the callbacks that are then called one
after the other may free connections. `Loop` puts the timer connection aside and calls it last: its
callback deletes connections of any fd, those that are still to be called included.

A callback is any function of the looper here. What the callbacks of the server really do, they do by
the operations of the looper; `sparesOthers_of_ops` says which of them leave the other connections
alone.

* `round_calls_live`: a round calls every ready connection once, and none that was deleted; each call
  finds the looper as the one before it left it.
-/

namespace TurtleServer.Looper

open Lib

/-- The object is in `connections_`. -/
def Owns (l : Looper) (conn : Conn) : Prop := l.connections.lookup conn.fd = some conn

instance (l : Looper) (conn : Conn) : Decidable (l.Owns conn) :=
  inferInstanceAs (Decidable (_ = _))

/-- A callback that was called: of which connection, and on which looper. -/
structure Call where
  conn : Conn
  looper : Looper

/-- A round of `Loop`: the looper, the local variable `timer_conn`, and the calls made so far. -/
structure Round where
  looper : Looper
  timerConn : Option Conn
  calls : List Call

section loop

variable (callback : Conn → Looper → Looper) (timerConnection : Conn)

/-- `conn->GetCallback()()`. -/
def Round.invoke (r : Round) (conn : Conn) : Round :=
  { r with looper := callback conn r.looper, calls := r.calls ++ [⟨conn, r.looper⟩] }

/-- The body of the `for` loop. -/
def Round.visit (r : Round) (conn : Conn) : Round :=
  if conn = timerConnection then { r with timerConn := some conn } else r.invoke callback conn

/-- The body of the `while` loop, with the result of `Poll`. -/
def loopRound (l : Looper) (readyConnections : List Conn) : Round :=
  let r := readyConnections.foldl (Round.visit callback timerConnection) ⟨l, none, []⟩
  match r.timerConn with
  | some timerConn => r.invoke callback timerConn
  | none => r

end loop

/-- The object called is in `connections_`, or it is one of the two that never are. -/
def Call.Live (acceptor timerConnection : Conn) (call : Call) : Prop :=
  call.looper.Owns call.conn ∨ call.conn = acceptor ∨ call.conn = timerConnection

/-- The calls are made one after the other, the first of them on `l`, and the last one leaves `l'`. -/
def Successive (callback : Conn → Looper → Looper) (l : Looper) : List Call → Looper → Prop
  | [], l' => l' = l
  | call :: calls, l' => call.looper = l ∧ Successive callback (callback call.conn l) calls l'

/-- Called on `l`, the callback deletes at most its own connection. -/
def SparesOthers (callback : Conn → Looper → Looper) (conn : Conn) (l : Looper) : Prop :=
  ∀ other, l.Owns other → other ≠ conn → (callback conn l).Owns other

/-- The operation may delete the connection with this fd. -/
def Op.MayDelete (fd : Fd) : Op → Prop
  | .deleteConnection b => b = fd
  | .handleRead => True
  | _ => False

namespace RoundLemmas

variable {clock : Clock} {l : Looper} {conn other : Conn} {r : Round}
  {callback : Conn → Looper → Looper} {timerConnection acceptor : Conn}

theorem fd_ne_of_owns (hconn : l.Owns conn) (hother : l.Owns other) (hne : other ≠ conn) :
    conn.fd ≠ other.fd := by
  intro heq
  unfold Owns at hconn hother
  rw [heq] at hconn
  exact hne (Option.some.inj (hother.symm.trans hconn))

theorem owns_step {op : Op} (hother : l.Owns other) (hop : ¬ op.MayDelete other.fd) :
    (l.step clock op).Owns other := by
  unfold Owns at hother ⊢
  cases op with
  | addConnection newConn =>
    have hmem : other.fd ∈ l.connections := Map.mem_of_lookup hother
    rw [step, connections_addConnection]
    rcases eq_or_ne other.fd newConn.fd with heq | hne
    · rw [← heq, Map.emplace_of_mem hmem]
      exact hother
    · rw [Map.lookup_emplace_ne hne]
      exact hother
  | refreshConnection b =>
    have hsame : (l.step clock (.refreshConnection b)).connections = l.connections := by
      simp only [step, baseHandleCallback, refreshConnection]
      split
      · split
        · split <;> rfl
        · rfl
      · rfl
    rw [hsame]
    exact hother
  | deleteConnection b =>
    have hne : other.fd ≠ b := fun heq => hop heq.symm
    rw [step]
    by_cases hmem : b ∈ l.connections
    · rw [connections_deleteConnection hmem, AList.lookup_erase_ne hne]
      exact hother
    · rw [deleteConnection_of_not_mem hmem]
      exact hother
  | handleRead => exact absurd True.intro hop

theorem successive_append {start : Looper} {calls : List Call}
    (h : Successive callback start calls l) :
    Successive callback start (calls ++ [⟨conn, l⟩]) (callback conn l) := by
  induction calls generalizing start with
  | nil =>
    subst h
    exact ⟨rfl, rfl⟩
  | cons call calls ih => exact ⟨h.1, ih h.2⟩

/-! ### The `for` loop -/

/-- Between two rounds of the `for` loop, after the connections `visited` and before `waiting`. -/
structure Midway (callback : Conn → Looper → Looper) (start : Looper)
    (acceptor timerConnection : Conn) (visited waiting : List Conn) (r : Round) : Prop where
  waiting : ∀ conn ∈ waiting, conn ≠ timerConnection → r.looper.Owns conn ∨ conn = acceptor
  live : ∀ call ∈ r.calls, call.Live acceptor timerConnection
  called : r.calls.map Call.conn = visited.filter (· ≠ timerConnection)
  timerConn : r.timerConn = if timerConnection ∈ visited then some timerConnection else none
  successive : Successive callback start r.calls r.looper

variable {start : Looper} {visited waiting : List Conn}

/-- The timer connection is put aside. -/
theorem midway_timer
    (h : Midway callback start acceptor timerConnection visited (timerConnection :: waiting) r) :
    Midway callback start acceptor timerConnection (visited ++ [timerConnection]) waiting
      (r.visit callback timerConnection timerConnection) := by
  have hvisit : r.visit callback timerConnection timerConnection =
      { r with timerConn := some timerConnection } := if_pos rfl
  rw [hvisit]
  refine ⟨(List.forall_mem_cons.mp h.waiting).2, h.live, ?_, ?_, h.successive⟩
  · rw [List.filter_append, List.filter_cons_of_neg (by simp)]
    exact h.called.trans (List.append_nil _).symm
  · rw [if_pos (List.mem_append_right _ List.mem_cons_self)]

/-- Another connection is called, and those that wait are still there. -/
theorem midway_invoke (h : Midway callback start acceptor timerConnection visited (conn :: waiting) r)
    (hne : conn ≠ timerConnection) (hnot : conn ∉ waiting)
    (hspares : ∀ l : Looper, l.Owns conn ∨ conn = acceptor → SparesOthers callback conn l) :
    Midway callback start acceptor timerConnection (visited ++ [conn]) waiting
      (r.visit callback timerConnection conn) := by
  have hvisit : r.visit callback timerConnection conn = r.invoke callback conn := if_neg hne
  obtain ⟨hconn, hwaiting⟩ := List.forall_mem_cons.mp h.waiting
  rw [hvisit]
  constructor
  · intro other hother htimer
    rcases hwaiting other hother htimer with howns | hacceptor
    · exact .inl (hspares _ (hconn hne) other howns (ne_of_mem_of_not_mem hother hnot))
    · exact .inr hacceptor
  · intro call hcall
    rcases List.mem_append.mp hcall with hcall | hcall
    · exact h.live call hcall
    · rw [List.mem_singleton.mp hcall]
      exact (hconn hne).imp_right .inl
  · rw [List.filter_append, List.filter_cons_of_pos (by simpa using hne), ← h.called]
    exact List.map_append
  · show r.timerConn = _
    rw [h.timerConn]
    simp [Ne.symm hne]
  · exact successive_append h.successive

theorem midway_foldl
    (hcallback : ∀ conn ∈ waiting, conn ≠ timerConnection → ∀ l : Looper,
      l.Owns conn ∨ conn = acceptor → SparesOthers callback conn l)
    (hdistinct : waiting.Nodup) (h : Midway callback start acceptor timerConnection visited waiting r) :
    Midway callback start acceptor timerConnection (visited ++ waiting) []
      (waiting.foldl (Round.visit callback timerConnection) r) := by
  induction waiting generalizing r visited with
  | nil =>
    rw [List.append_nil]
    exact h
  | cons conn waiting ih =>
    obtain ⟨hnot, hdistinct⟩ := List.nodup_cons.mp hdistinct
    obtain ⟨hspares, hcallback⟩ := List.forall_mem_cons.mp hcallback
    rw [List.append_cons, List.foldl_cons]
    refine ih hcallback hdistinct ?_
    rcases eq_or_ne conn timerConnection with rfl | hne
    · exact midway_timer h
    · exact midway_invoke h hne hnot (hspares hne)

end RoundLemmas

open RoundLemmas

/-- A callback that works on the looper by its operations, none of which may delete another
connection. -/
theorem sparesOthers_of_ops (clock : Clock) {l : Looper} {conn : Conn}
    {program : Conn → Looper → List Op}
    (hops : ∀ op ∈ program conn l, ∀ other, l.Owns other → other ≠ conn → ¬ op.MayDelete other.fd) :
    SparesOthers (fun conn l => run (step clock) l (program conn l)) conn l := by
  intro other hother hne
  have hspare : ∀ op ∈ program conn l, ¬ op.MayDelete other.fd :=
    fun op hop => hops op hop other hother hne
  show (run (step clock) l (program conn l)).Owns other
  generalize program conn l = ops at hspare
  clear hops
  induction ops generalizing l with
  | nil => exact hother
  | cons op ops ih =>
    obtain ⟨hop, hspare⟩ := List.forall_mem_cons.mp hspare
    exact ih (owns_step hother hop) hspare

/-- The others, and the timer connection after them, are all of them. -/
theorem filter_append_timer_perm {timerConnection : Conn} {ready : List Conn} (h : ready.Nodup)
    (hmem : timerConnection ∈ ready) :
    (ready.filter (· ≠ timerConnection) ++ [timerConnection]).Perm ready := by
  have herase : ready.filter (· ≠ timerConnection) = ready.erase timerConnection := by
    rw [h.erase_eq_filter]
    refine List.filter_congr fun conn _ => ?_
    rw [bne, beq_eq_decide, decide_not]
  rw [herase]
  exact (List.perm_append_singleton _ _).trans (List.perm_cons_erase hmem).symm

/-- A round calls the callback of every ready connection once, and only while the connection is in
`connections_` or is one that is never there. The calls are all that happens to the looper. -/
theorem round_calls_live {callback : Conn → Looper → Looper} {acceptor timerConnection : Conn}
    {l : Looper} {readyConnections : List Conn} (hdistinct : readyConnections.Nodup)
    (hready : ∀ conn ∈ readyConnections, l.Owns conn ∨ conn = acceptor ∨ conn = timerConnection)
    (hcallback : ∀ conn ∈ readyConnections, conn ≠ timerConnection → ∀ l : Looper,
      l.Owns conn ∨ conn = acceptor → SparesOthers callback conn l) :
    ((loopRound callback timerConnection l readyConnections).calls.map Call.conn).Perm
        readyConnections ∧
      (∀ call ∈ (loopRound callback timerConnection l readyConnections).calls,
        call.Live acceptor timerConnection) ∧
      Successive callback l (loopRound callback timerConnection l readyConnections).calls
        (loopRound callback timerConnection l readyConnections).looper := by
  have hothers : ∀ conn ∈ readyConnections, conn ≠ timerConnection →
      l.Owns conn ∨ conn = acceptor := by
    intro conn hconn hne
    rcases hready conn hconn with howns | hacceptor | htimer
    · exact .inl howns
    · exact .inr hacceptor
    · exact absurd htimer hne
  have hstart : Midway callback l acceptor timerConnection [] readyConnections ⟨l, none, []⟩ :=
    ⟨hothers, fun _ hcall => absurd hcall List.not_mem_nil, rfl, rfl, rfl⟩
  obtain ⟨-, hlive, hmap, htimer, hsuccessive⟩ := midway_foldl hcallback hdistinct hstart
  rw [List.nil_append] at hmap htimer
  simp only [loopRound]
  generalize readyConnections.foldl (Round.visit callback timerConnection) ⟨l, none, []⟩ = r at *
  by_cases hmem : timerConnection ∈ readyConnections
  · rw [if_pos hmem] at htimer
    simp only [htimer]
    refine ⟨?_, ?_, successive_append hsuccessive⟩
    · simp only [Round.invoke, List.map_append, hmap]
      exact filter_append_timer_perm hdistinct hmem
    · intro call hcall
      rcases List.mem_append.mp hcall with hcall | hcall
      · exact hlive call hcall
      · rw [List.mem_singleton.mp hcall]
        exact .inr (.inr rfl)
  · rw [if_neg hmem] at htimer
    simp only [htimer]
    refine ⟨?_, hlive, hsuccessive⟩
    have hall : readyConnections.filter (· ≠ timerConnection) = readyConnections := by
      rw [List.filter_eq_self]
      exact fun conn hconn => decide_eq_true (ne_of_mem_of_not_mem hconn hmem)
    rw [hmap, hall]

def shortClock : Clock := .upTo 50 (by decide)

/-- A looper with two clients. -/
def twoClients : Looper :=
  ((new 100).addConnection shortClock ⟨1, 5⟩).addConnection shortClock ⟨2, 6⟩

/-- The first client leaves, the second one is refreshed, the acceptor adds a third one, and the timer
deletes both. -/
def busyProgram (conn : Conn) (_ : Looper) : List Op :=
  if conn = ⟨1, 5⟩ then [.refreshConnection 5, .deleteConnection 5]
  else if conn = ⟨2, 6⟩ then [.refreshConnection 6]
  else if conn = ⟨3, 3⟩ then [.addConnection ⟨9, 5⟩]
  else [.deleteConnection 6, .deleteConnection 5]

def busyCallback (conn : Conn) (l : Looper) : Looper :=
  run (step shortClock) l (busyProgram conn l)

/-- The timer connection comes first and is called last. -/
theorem round_calls_live_busy :
    ((loopRound busyCallback ⟨4, 4⟩ twoClients [⟨4, 4⟩, ⟨1, 5⟩, ⟨3, 3⟩, ⟨2, 6⟩]).calls.map
        Call.conn).Perm [⟨4, 4⟩, ⟨1, 5⟩, ⟨3, 3⟩, ⟨2, 6⟩] ∧
      (∀ call ∈ (loopRound busyCallback ⟨4, 4⟩ twoClients [⟨4, 4⟩, ⟨1, 5⟩, ⟨3, 3⟩, ⟨2, 6⟩]).calls,
        call.Live ⟨3, 3⟩ ⟨4, 4⟩) ∧
      Successive busyCallback twoClients
        (loopRound busyCallback ⟨4, 4⟩ twoClients [⟨4, 4⟩, ⟨1, 5⟩, ⟨3, 3⟩, ⟨2, 6⟩]).calls
        (loopRound busyCallback ⟨4, 4⟩ twoClients [⟨4, 4⟩, ⟨1, 5⟩, ⟨3, 3⟩, ⟨2, 6⟩]).looper := by
  refine round_calls_live (by decide) (by decide) fun conn hconn htimer l hlive => ?_
  refine sparesOthers_of_ops shortClock fun op hop other hother hne => ?_
  simp only [List.mem_cons, List.not_mem_nil, or_false] at hconn
  rcases hconn with rfl | rfl | rfl | rfl
  · exact absurd rfl htimer
  · have hfd := fd_ne_of_owns (hlive.resolve_right (by decide)) hother hne
    have hops : op = .refreshConnection 5 ∨ op = .deleteConnection 5 := by
      simpa [busyProgram] using hop
    rcases hops with rfl | rfl
    · exact id
    · exact hfd
  · have hops : op = .addConnection ⟨9, 5⟩ := by simpa [busyProgram] using hop
    subst hops
    exact id
  · have hops : op = .refreshConnection 6 := by simpa [busyProgram] using hop
    subst hops
    exact id

end TurtleServer.Looper
