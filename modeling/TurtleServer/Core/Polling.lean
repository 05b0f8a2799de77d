import TurtleServer.Core.Looper
import TurtleServer.Lib.Descriptors
import TurtleServer.Lib.Runs

/-!
# What `Poll` may return (`core/poller.cpp`, with `core/acceptor.cpp` and `http/cgier.cpp`)

A registration with the poller carries the pointer of its `Connection`, and it is never taken back:
`DeleteConnection` destroys the connection, its socket is closed, and the kernel is to drop the
registration because nobody has the socket open any more. But `accept` gives descriptors that are
inherited, and a CGI program that another looper has started meanwhile has a copy of all of them. As
long as it runs, the registration lives on, and `Poll` may return the pointer of a connection that is
gone (`stale_pointer_polled`).

1. `System`: the loopers, the descriptors, the children and the registrations.
2. `PollSafe`: whatever `Poll` returns is kept by its looper; `ClosesLast`: a connection is deleted only
   when no child has its socket.
3. `polled_kept_iff`: in all runs, the first holds of all states exactly when the second holds of all
   steps.
-/

namespace TurtleServer.Poller

open Lib

/-! ## 1. Steps -/

/-- The loopers of a server, each of which runs in a thread of its own, and the kernel. The `n`-th
socket accepted and the `Connection` made for it are both number `n`.

* `listener`: the looper whose poller has the acceptor (`AddAcceptor`).
* `waiting`: the child that a looper waits for, inside `Cgier::Run`.
* `accepted`: `client_connection` of `BaseAcceptCallback`, until it is handed to a looper.

The descriptors of the timers and of the acceptor are never closed, so they are left out of the table
and their registrations out of the list. -/
structure System where
  loopers : ℕ → Looper
  listener : ℕ
  kernel : Kernel Conn
  waiting : ℕ → Option ℕ
  accepted : Option Conn

/-- Loopers without connections. -/
def System.new (timerExpirations : ℕ → ℕ) (listener : ℕ) : System where
  loopers i := Looper.new (timerExpirations i)
  listener
  kernel := .new
  waiting _ := none
  accepted := none

/-- The steps of the threads and of the children. -/
inductive Move
  | accept (fd : Fd)
  | addConnection (looper : ℕ)
  | deleteConnection (looper : ℕ) (fd : Fd)
  | poll (looper : ℕ)
  | fork (looper pid : ℕ)
  | exec (pid : ℕ)
  | exit (pid : ℕ)
  | waitpid (looper : ℕ) (failed : Bool)
deriving DecidableEq, Repr

namespace System

/-- One step. Nothing happens where a step is not possible. A looper that waits for its child does
nothing else, but the acceptor may hand a connection to it. -/
def step (clock : Clock) (s : System) : Move → System
  | .accept fd =>
    if h : s.accepted = none ∧ ∀ d ∈ s.kernel.table, d.fd ≠ fd then
      { s with
        -- without `SOCK_CLOEXEC`
        kernel := s.kernel.openFile fd false h.2
        accepted := some ⟨s.kernel.opened, fd⟩ }
    else s
  | .addConnection i =>
    match s.accepted with
    | none => s
    | some newConn =>
      let kernel := s.kernel.register i newConn.fd newConn
      { s with
        loopers := Function.update s.loopers i ((s.loopers i).addConnection clock newConn)
        -- what `insert` does not take is destroyed
        kernel := if newConn.fd ∈ (s.loopers i).connections then kernel.close newConn.fd else kernel
        accepted := none }
  | .deleteConnection i fd =>
    match s.waiting i, (s.loopers i).connections.lookup fd with
    | none, some conn =>
      { s with
        loopers := Function.update s.loopers i ((s.loopers i).deleteConnection clock fd).2
        -- the destructor of the connection's socket
        kernel := s.kernel.close conn.fd }
    | _, _ => s
  -- what it may return is `Polls` below
  | .poll _ => s
  | .fork i pid =>
    if s.waiting i = none ∧ ∀ c ∈ s.kernel.children, c.pid ≠ pid then
      { s with
        kernel := s.kernel.fork pid
        waiting := Function.update s.waiting i (some pid) }
    else s
  | .exec pid => { s with kernel := s.kernel.exec pid }
  | .exit pid => { s with kernel := s.kernel.exit pid }
  | .waitpid i failed =>
    match s.waiting i with
    | none => s
    | some pid =>
      if failed ∨ ∀ c ∈ s.kernel.children, c.pid ≠ pid then
        { s with waiting := Function.update s.waiting i none }
      else s

end System

/-! ## 2. `Poll` -/

/-- A pointer that `Poll` returns. -/
inductive Ready
  | timer
  | acceptor
  | client (conn : Conn)
deriving DecidableEq, Repr

namespace System

variable (s : System) (i : ℕ)

/-- The pointer is that of a live registration with the poller of the looper. -/
def Registered : Ready → Prop
  | .timer => (s.loopers i).useTimer = true
  | .acceptor => i = s.listener
  | .client conn => ∃ g ∈ s.kernel.registrations i, g.data = conn

/-- The connection is in `connections_` of the looper, or it is its timer's or the acceptor's. -/
def Keeps : Ready → Prop
  | .timer => (s.loopers i).useTimer = true
  | .acceptor => i = s.listener
  | .client conn => (s.loopers i).connections.lookup conn.fd = some conn

/-- `Poll` of the looper may return `ready`: any of its live registrations. -/
def Polls (ready : List Ready) : Prop := s.waiting i = none ∧ ∀ r ∈ ready, s.Registered i r

/-- Whatever a `Poll` returns in this state, its looper keeps. -/
def PollSafe (s : System) : Prop := ∀ i ready, s.Polls i ready → ∀ r ∈ ready, s.Keeps i r

/-- A connection is deleted only when no child has a descriptor of its socket. -/
def ClosesLast (s : System) : Move → Prop
  | .deleteConnection i fd => s.waiting i = none →
      ∀ conn, (s.loopers i).connections.lookup fd = some conn →
        ∀ d ∈ s.kernel.table, d.fd = conn.fd → ¬ s.kernel.Inherited d.file
  | _ => True

end System

namespace PollingLemmas

variable {clock : Clock} {s : System} {i j : ℕ} {fd fd' : Fd} {conn conn' : Conn}

/-- The descriptor that a connection's socket has in the server. -/
def descriptor (conn : Conn) : Descriptor := ⟨conn.fd, conn.id, false⟩

/-- What holds as long as every connection is the last to close its socket. -/
structure Inv (s : System) : Prop where
  registered : ∀ i, ∀ g ∈ s.kernel.registrations i,
    (s.loopers i).connections.lookup g.data.fd = some g.data ∧ g.file = g.data.id
  held : ∀ i fd conn, (s.loopers i).connections.lookup fd = some conn →
    conn.fd = fd ∧ descriptor conn ∈ s.kernel.table ∧ ⟨conn.id, conn⟩ ∈ s.kernel.registrations i
  apart : ∀ i j fd fd' conn, (s.loopers i).connections.lookup fd = some conn →
    (s.loopers j).connections.lookup fd' = some conn → i = j
  accepted : ∀ conn ∈ s.accepted, descriptor conn ∈ s.kernel.table ∧
    ∀ i fd, (s.loopers i).connections.lookup fd ≠ some conn

theorem eq_of_fd (h : descriptor conn ∈ s.kernel.table) (h' : descriptor conn' ∈ s.kernel.table)
    (hfd : conn.fd = conn'.fd) : conn = conn' := by
  have heq : descriptor conn = descriptor conn' := Kernel.eq_of_fd h h' hfd
  obtain ⟨id, fd⟩ := conn
  obtain ⟨id', fd'⟩ := conn'
  cases heq
  rfl

theorem inv_new (timerExpirations : ℕ → ℕ) (listener : ℕ) :
    Inv (System.new timerExpirations listener) where
  registered _ _ hg := absurd hg List.not_mem_nil
  held _ _ _ hconn := absurd hconn nofun
  apart _ _ _ _ _ hconn := absurd hconn nofun
  accepted _ hconn := absurd hconn nofun

/-- A step that concerns neither the connections nor the server's own descriptors. -/
theorem Inv.congr {s' : System} (h : Inv s) (hloopers : s'.loopers = s.loopers)
    (haccepted : s'.accepted = s.accepted) (htable : s'.kernel.table = s.kernel.table)
    (hregistrations : ∀ i, s'.kernel.registrations i = s.kernel.registrations i) : Inv s' := by
  obtain ⟨hregistered, hheld, hapart, hacc⟩ := h
  constructor
  · simpa only [hloopers, hregistrations] using hregistered
  · simpa only [hloopers, htable, hregistrations] using hheld
  · simpa only [hloopers] using hapart
  · simpa only [hloopers, haccepted, htable] using hacc

theorem Inv.registered_table (h : Inv s) (i : ℕ) :
    ∀ g ∈ s.kernel.registrations i, ∃ d ∈ s.kernel.table, d.file = g.file := by
  intro g hg
  obtain ⟨hlookup, hfile⟩ := h.registered i g hg
  exact ⟨descriptor g.data, (h.held i _ _ hlookup).2.1, hfile.symm⟩

/-- `accept` makes a socket and a connection that are not known yet. -/
theorem inv_accept (h : Inv s) (hfree : s.accepted = none ∧ ∀ d ∈ s.kernel.table, d.fd ≠ fd) :
    Inv { s with
      kernel := s.kernel.openFile fd false hfree.2
      accepted := some ⟨s.kernel.opened, fd⟩ } where
  registered := h.registered
  held i fd' conn hconn := by
    obtain ⟨hfd, hmem, hreg⟩ := h.held i fd' conn hconn
    exact ⟨hfd, List.mem_cons_of_mem _ hmem, hreg⟩
  apart := h.apart
  accepted := by
    rintro - ⟨rfl⟩
    refine ⟨List.mem_cons_self, fun i fd' hconn => ?_⟩
    obtain ⟨-, hmem, -⟩ := h.held i fd' _ hconn
    exact hfree.2 _ hmem rfl

/-- The accepted connection is new to its looper. -/
theorem Inv.not_mem (h : Inv s) (hconn : s.accepted = some conn) (i : ℕ) :
    conn.fd ∉ (s.loopers i).connections := by
  intro hmem
  obtain ⟨hown, hnew⟩ := h.accepted conn hconn
  obtain ⟨conn', hconn'⟩ := Map.mem_iff_lookup.mp hmem
  obtain ⟨hfd, hown', -⟩ := h.held i _ conn' hconn'
  exact hnew i conn.fd (eq_of_fd hown' hown hfd ▸ hconn')

/-- The map of a looper after `AddConnection`. -/
theorem lookup_add (h : Inv s) (hconn : s.accepted = some conn) :
    (Function.update s.loopers i ((s.loopers i).addConnection clock conn) j).connections.lookup fd =
        some conn' ↔
      (s.loopers j).connections.lookup fd = some conn' ∨ j = i ∧ fd = conn.fd ∧ conn' = conn := by
  have hnot : conn.fd ∉ (s.loopers i).connections := h.not_mem hconn i
  rcases eq_or_ne j i with rfl | hne
  · rw [Function.update_self, Looper.connections_addConnection]
    rcases eq_or_ne fd conn.fd with rfl | hfd
    · rw [Map.lookup_emplace_self hnot, AList.lookup_eq_none.mpr hnot]
      simp [eq_comm]
    · rw [Map.lookup_emplace_ne hfd]
      simp [hfd]
  · rw [Function.update_of_ne hne]
    simp [hne]

/-- `AddConnection` registers the connection and keeps it. -/
theorem inv_add (h : Inv s) (hconn : s.accepted = some conn) :
    Inv { s with
      loopers := Function.update s.loopers i ((s.loopers i).addConnection clock conn)
      kernel := s.kernel.register i conn.fd conn
      accepted := none } := by
  obtain ⟨hown, hnew⟩ := h.accepted conn hconn
  have hregister : ∀ {j : ℕ} {g : Registration Conn},
      g ∈ (s.kernel.register i conn.fd conn).registrations j ↔
        g ∈ s.kernel.registrations j ∨ j = i ∧ g = ⟨conn.id, conn⟩ := by
    intro j g
    exact Kernel.mem_register hown conn
  constructor
  · intro j g hg
    rcases hregister.mp hg with hold | ⟨rfl, rfl⟩
    · obtain ⟨hlookup, hfile⟩ := h.registered j g hold
      exact ⟨(lookup_add h hconn).mpr (.inl hlookup), hfile⟩
    · exact ⟨(lookup_add h hconn).mpr (.inr ⟨rfl, rfl, rfl⟩), rfl⟩
  · intro j fd conn' hlookup
    rw [Kernel.table_register]
    rcases (lookup_add h hconn).mp hlookup with hold | ⟨rfl, rfl, rfl⟩
    · obtain ⟨hfd, hmem, hreg⟩ := h.held j fd conn' hold
      exact ⟨hfd, hmem, hregister.mpr (.inl hreg)⟩
    · exact ⟨rfl, hown, hregister.mpr (.inr ⟨rfl, rfl⟩)⟩
  · intro j j' fd fd' conn' hlookup hlookup'
    rcases (lookup_add h hconn).mp hlookup with hold | ⟨rfl, -, rfl⟩
    · rcases (lookup_add h hconn).mp hlookup' with hold' | ⟨-, -, rfl⟩
      · exact h.apart j j' fd fd' conn' hold hold'
      · exact absurd hold (hnew j fd)
    · rcases (lookup_add h hconn).mp hlookup' with hold' | ⟨rfl, -, -⟩
      · exact absurd hold' (hnew j' fd')
      · rfl
  · exact fun conn' hnone => absurd hnone nofun

/-- The state after `DeleteConnection` has destroyed `conn`. -/
def deleted (clock : Clock) (s : System) (i : ℕ) (fd : Fd) (conn : Conn) : System :=
  { s with
    loopers := Function.update s.loopers i ((s.loopers i).deleteConnection clock fd).2
    kernel := s.kernel.close conn.fd }

theorem lookup_deleted (hconn : (s.loopers i).connections.lookup fd = some conn) :
    ((deleted clock s i fd conn).loopers j).connections.lookup fd' = some conn' ↔
      (s.loopers j).connections.lookup fd' = some conn' ∧ (j = i → fd' ≠ fd) := by
  unfold deleted
  dsimp only
  rcases eq_or_ne j i with rfl | hne
  · rw [Function.update_self, Looper.connections_deleteConnection (Map.mem_of_lookup hconn),
      Map.lookup_erase_eq_some]
    simp [and_comm]
  · rw [Function.update_of_ne hne]
    simp [hne]

/-- `DeleteConnection`, when the server is the last to close the socket. -/
theorem inv_deleted (h : Inv s) (hconn : (s.loopers i).connections.lookup fd = some conn)
    (hlast : ¬ s.kernel.Inherited conn.id) : Inv (deleted clock s i fd conn) := by
  obtain ⟨hfd, hown, -⟩ := h.held i fd conn hconn
  -- the other connections have other descriptors
  have hothers : ∀ j fd' conn', (s.loopers j).connections.lookup fd' = some conn' →
      (j = i → fd' ≠ fd) → conn'.fd ≠ conn.fd := by
    intro j fd' conn' hconn' hne heq
    obtain ⟨hfd', hown', -⟩ := h.held j fd' conn' hconn'
    obtain rfl : conn = conn' := (eq_of_fd hown' hown heq).symm
    exact hne (h.apart j i fd' fd conn hconn' hconn) (hfd'.symm.trans hfd)
  constructor
  · intro j g hg
    obtain ⟨hold, hopen⟩ := Kernel.mem_close.mp hg
    obtain ⟨hlookup, hfile⟩ := h.registered j g hold
    refine ⟨(lookup_deleted hconn).mpr ⟨hlookup, ?_⟩, hfile⟩
    rintro rfl heq
    -- the registration of the deleted connection is gone
    rw [heq, hconn] at hlookup
    cases hlookup
    rw [hfile] at hopen
    exact hlast ((Kernel.open_close_iff hown).mp hopen)
  · intro j fd' conn' hlookup
    obtain ⟨hold, hne⟩ := (lookup_deleted hconn).mp hlookup
    obtain ⟨hfd', hown', hreg⟩ := h.held j fd' conn' hold
    have htable : descriptor conn' ∈ (s.kernel.close conn.fd).table :=
      Kernel.mem_table_close.mpr ⟨hown', hothers j fd' conn' hold hne⟩
    exact ⟨hfd', htable, Kernel.mem_close.mpr ⟨hreg, .inl ⟨_, htable, rfl⟩⟩⟩
  · intro j j' fd' fd'' conn' hlookup hlookup'
    exact h.apart j j' fd' fd'' conn' ((lookup_deleted hconn).mp hlookup).1
      ((lookup_deleted hconn).mp hlookup').1
  · intro conn' hacc
    obtain ⟨hown', hnew⟩ := h.accepted conn' hacc
    refine ⟨Kernel.mem_table_close.mpr ⟨hown', fun heq => ?_⟩, fun j fd' hlookup => ?_⟩
    · cases eq_of_fd hown' hown heq
      exact hnew i fd hconn
    · exact hnew j fd' ((lookup_deleted hconn).mp hlookup).1

/-- When a child has the socket, the pointer of the connection can still be polled. -/
theorem not_pollSafe_deleted (h : Inv s) (hrunning : s.waiting i = none)
    (hconn : (s.loopers i).connections.lookup fd = some conn)
    (hinherited : s.kernel.Inherited conn.id) : ¬ (deleted clock s i fd conn).PollSafe := by
  intro hsafe
  obtain ⟨hfd, hown, hreg⟩ := h.held i fd conn hconn
  have hlives : ⟨conn.id, conn⟩ ∈ (s.kernel.close conn.fd).registrations i :=
    Kernel.mem_close.mpr ⟨hreg, (Kernel.open_close_iff hown).mpr hinherited⟩
  have hpolls : (deleted clock s i fd conn).Polls i [.client conn] :=
    ⟨hrunning, List.forall_mem_singleton.mpr ⟨_, hlives, rfl⟩⟩
  have hkept := hsafe i _ hpolls _ List.mem_cons_self
  exact ((lookup_deleted hconn).mp hkept).2 rfl hfd

theorem pollSafe_of_inv (h : Inv s) : s.PollSafe := by
  rintro i ready ⟨-, hready⟩ r hr
  cases r with
  | timer => exact hready _ hr
  | acceptor => exact hready _ hr
  | client conn =>
    obtain ⟨g, hg, rfl⟩ := hready _ hr
    exact (h.registered i g hg).1

/-- A deletion that happens. -/
theorem step_delete (hrunning : s.waiting i = none)
    (hconn : (s.loopers i).connections.lookup fd = some conn) :
    s.step clock (.deleteConnection i fd) = deleted clock s i fd conn := by
  simp only [System.step, hrunning, hconn]
  rfl

theorem closesLast_iff (h : Inv s) (hrunning : s.waiting i = none)
    (hconn : (s.loopers i).connections.lookup fd = some conn) :
    s.ClosesLast (.deleteConnection i fd) ↔ ¬ s.kernel.Inherited conn.id := by
  obtain ⟨-, hown, -⟩ := h.held i fd conn hconn
  constructor
  · exact fun hlast => hlast hrunning conn hconn _ hown rfl
  · intro hlast _ conn' hconn' d hd hfd
    cases hconn.symm.trans hconn'
    cases Kernel.eq_of_fd hd hown hfd
    exact hlast

theorem step_inv (clock : Clock) (h : Inv s) (move : Move) (hlast : s.ClosesLast move) :
    Inv (s.step clock move) := by
  cases move with
  | accept fd =>
    simp only [System.step]
    split
    · next hfree => exact inv_accept h hfree
    · exact h
  | addConnection i =>
    simp only [System.step]
    split
    · exact h
    · next conn hconn =>
      rw [if_neg (h.not_mem hconn i)]
      exact inv_add h hconn
  | deleteConnection i fd =>
    cases hrunning : s.waiting i with
    | some pid => simpa only [System.step, hrunning] using h
    | none =>
      cases hconn : (s.loopers i).connections.lookup fd with
      | none => simpa only [System.step, hrunning, hconn] using h
      | some conn =>
        rw [step_delete hrunning hconn]
        exact inv_deleted h hconn ((closesLast_iff h hrunning hconn).mp hlast)
  | poll i => exact h
  | fork i pid =>
    simp only [System.step]
    split
    · exact h.congr rfl rfl rfl fun _ => rfl
    · exact h
  | exec pid => exact h.congr rfl rfl rfl fun i => Kernel.registrations_exec (h.registered_table i)
  | exit pid => exact h.congr rfl rfl rfl fun i => Kernel.registrations_exit (h.registered_table i)
  | waitpid i failed =>
    simp only [System.step]
    split
    · exact h
    · split
      · exact h.congr rfl rfl rfl fun _ => rfl
      · exact h

theorem pollSafe_step_iff (clock : Clock) (h : Inv s) (move : Move) :
    (s.step clock move).PollSafe ↔ s.ClosesLast move := by
  refine ⟨fun hsafe => ?_, fun hlast => pollSafe_of_inv (step_inv clock h move hlast)⟩
  cases move with
  | deleteConnection i fd =>
    intro hrunning conn hconn
    refine ((closesLast_iff h hrunning hconn).mpr fun hinherited => ?_) hrunning conn hconn
    rw [step_delete hrunning hconn] at hsafe
    exact not_pollSafe_deleted h hrunning hconn hinherited hsafe
  | accept fd => exact True.intro
  | addConnection i => exact True.intro
  | poll i => exact True.intro
  | fork i pid => exact True.intro
  | exec pid => exact True.intro
  | exit pid => exact True.intro
  | waitpid i failed => exact True.intro

end PollingLemmas

/-! ## 3. Runs -/

open PollingLemmas

/-- In every run, whatever can be polled in any state is kept by its looper exactly when no connection
is deleted while a child has its socket. -/
theorem polled_kept_iff (clock : Clock) (timerExpirations : ℕ → ℕ) (listener : ℕ)
    (moves : List Move) :
    Always (System.step clock) System.PollSafe (System.new timerExpirations listener) moves ↔
      Along (System.step clock) System.ClosesLast (System.new timerExpirations listener) moves :=
  always_iff_along (G := fun _ _ => True) (fun _ move h _ hlast => step_inv clock h move hlast)
    (fun _ move h _ => pollSafe_step_iff clock h move) (inv_new timerExpirations listener)
    (Along.of_forall (fun _ _ => True.intro) _ _)

/-- One client each for the loopers 1 and 2. The first asks for a CGI program, and the second leaves
while the program runs. -/
def leavesMeanwhile : List Move :=
  [.accept 5, .addConnection 1, .accept 6, .addConnection 2, .poll 1, .fork 1 100, .exec 100, .poll 2,
    .deleteConnection 2 6]

/-- The connection of the second client is gone, and `Poll` may return its pointer. -/
theorem stale_pointer_polled :
    let s := run (System.step (.upTo 9 (by decide))) (System.new (fun _ => 1000) 0) leavesMeanwhile
    s.Polls 2 [.client ⟨1, 6⟩] ∧ ¬ s.Keeps 2 (.client ⟨1, 6⟩) ∧ ¬ s.PollSafe := by
  have hpolls : (run (System.step (.upTo 9 (by decide))) (System.new (fun _ => 1000) 0)
      leavesMeanwhile).Polls 2 [.client ⟨1, 6⟩] :=
    ⟨by decide, List.forall_mem_singleton.mpr ⟨⟨1, ⟨1, 6⟩⟩, by decide, rfl⟩⟩
  have hgone : ¬ (run (System.step (.upTo 9 (by decide))) (System.new (fun _ => 1000) 0)
      leavesMeanwhile).Keeps 2 (.client ⟨1, 6⟩) := by
    unfold System.Keeps
    decide
  exact ⟨hpolls, hgone, fun hsafe => hgone (hsafe 2 _ hpolls _ List.mem_cons_self)⟩

end TurtleServer.Poller
