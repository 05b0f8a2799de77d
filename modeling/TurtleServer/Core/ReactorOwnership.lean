import TurtleServer.Core.Reactors

/-!
# Who has which descriptor

A connection comes into the server by `accept`, goes from the acceptor's hand to a reactor, and leaves
by `DeleteConnection`, while all other threads go on. `descriptors_accounted`: in every state of every
run the open descriptors of accepted sockets are those of the connections, and each of them has one
owner. The other descriptors of the server (of the acceptor, the timers, the pollers, the file of
`Cgier::Run`) are not among them.
-/

namespace TurtleServer.Reactors

open Lib Poller Server

namespace ReactorLemmas

variable {clock : Clock} {s s' : Server} {move : Move} {i j : ℕ} {conn conn' : Conn} {fd fd' : Fd}
  {t : Thread} {activity : Activity}

/-! ### What depends on the activity of the listener only -/

/-- A thread goes on, and the acceptor's connection stays where it is. -/
structure Still (s s' : Server) : Prop where
  inHand : s'.inHand = s.inHand
  addition : s'.addition = s.addition

theorem still_of_update (hactivity : (s.threads i).activity = activity)
    (hlistener : s'.listener = s.listener) (hthreads : s'.threads = Function.update s.threads i t)
    (hinHand : t.activity.inHand = activity.inHand)
    (haddition : t.activity.addition = activity.addition) : Still s s' := by
  constructor
  · rw [Server.inHand, Server.inHand, hlistener, hthreads, Function.update_apply]
    split
    · next heq => rw [heq, hactivity, hinHand]
    · rfl
  · rw [Server.addition, Server.addition, hlistener, hthreads, Function.update_apply]
    split
    · next heq => rw [heq, hactivity, haddition]
    · rfl

/-- The step is one of the listener, and `activity` is what it does next. -/
theorem listener_setActivity (s : Server) (activity : Activity) :
    ((s.setActivity s.listener activity).threads s.listener).activity = activity := by
  simp [Server.setActivity, Server.setThread]

/-! ### Steps that leave the connections alone -/

/-- Neither the connections nor the server's own descriptors are concerned. -/
structure Quiet (s s' : Server) : Prop extends Still s s' where
  connections : ∀ i, (s'.loopers i).connections = (s.loopers i).connections
  table : s'.kernel.table = s.kernel.table
  registered : ∀ i g, g ∈ s'.kernel.registrations i → g ∈ s.kernel.registrations i
  kept : ∀ i g, g ∈ s.kernel.registrations i → (∃ d ∈ s.kernel.table, d.file = g.file) →
    g ∈ s'.kernel.registrations i

/-- A thread goes on, and the kernel is not concerned. -/
theorem quiet_of_still (h : Still s s')
    (hconnections : ∀ i, (s'.loopers i).connections = (s.loopers i).connections)
    (hkernel : s'.kernel = s.kernel) : Quiet s s' where
  toStill := h
  connections := hconnections
  table := by rw [hkernel]
  registered i g hg := by rwa [hkernel] at hg
  kept i g hg _ := by rwa [hkernel]

theorem quiet_setThread (hactivity : (s.threads i).activity = activity)
    (hinHand : t.activity.inHand = activity.inHand)
    (haddition : t.activity.addition = activity.addition) : Quiet s (s.setThread i t) :=
  quiet_of_still (still_of_update hactivity rfl rfl hinHand haddition) (fun _ => rfl) rfl

theorem connections_update {l : Looper} (h : l.connections = (s.loopers i).connections) (j : ℕ) :
    (Function.update s.loopers i l j).connections = (s.loopers j).connections := by
  rcases eq_or_ne j i with rfl | hne
  · rw [Function.update_self, h]
  · rw [Function.update_of_ne hne]

theorem connections_baseHandleCallback (l : Looper) (fd : Fd) :
    (l.baseHandleCallback clock fd).connections = l.connections := by
  simp only [Looper.baseHandleCallback, Looper.refreshConnection]
  split
  · split
    · split <;> rfl
    · rfl
  · rfl

theorem quiet_settle {children : List Child} :
    Quiet s { s with kernel := Kernel.settle { s.kernel with children } } where
  inHand := rfl
  addition := rfl
  connections _ := rfl
  table := rfl
  registered _ _ hg := (Kernel.mem_settle.mp hg).1
  kept _ _ hg hd := Kernel.mem_settle.mpr ⟨hg, .inl hd⟩

/-! ### What a step does to the connections -/

/-- A connection comes into the server, changes its owner, or leaves; or nothing of this kind. -/
inductive Effect (clock : Clock) (s : Server) (move : Move) (s' : Server) : Prop
  | quiet (hspared : s.destroyed move = none) (h : Quiet s s')
  | accept {fd : Fd} (hspared : s.destroyed move = none)
      (hfree : ∀ d ∈ s.kernel.table, d.fd ≠ fd) (hinHand : s.inHand = none)
      (haddition : s.addition = none) (hinHand' : s'.inHand = some ⟨s.kernel.opened, fd⟩)
      (haddition' : s'.addition = none) (hloopers : s'.loopers = s.loopers)
      (hkernel : s'.kernel = s.kernel.openFile fd false hfree)
  | register {newConn : Conn} {j : ℕ} (hspared : s.destroyed move = none)
      (hinHand : s.inHand = some newConn)
      (haddition : s.addition = none) (hinHand' : s'.inHand = none)
      (haddition' : s'.addition = some (newConn, j)) (hloopers : s'.loopers = s.loopers)
      (hkernel : s'.kernel = s.kernel.register j newConn.fd newConn)
  | insert {newConn : Conn} {j : ℕ} (hspared : s.destroyed move = none)
      (haddition : s.addition = some (newConn, j))
      (hinHand' : s'.inHand = none) (haddition' : s'.addition = none)
      (hloopers : s'.loopers =
        Function.update s.loopers j ((s.loopers j).addConnection clock newConn))
      (hkernel : s'.kernel = if newConn.fd ∈ (s.loopers j).connections then
        s.kernel.close newConn.fd else s.kernel)
  | delete {i : ℕ} {fd : Fd} {conn : Conn} (hdestroyed : s.destroyed move = some conn)
      (hstill : Still s s') (hconn : (s.loopers i).connections.lookup fd = some conn)
      (hloopers : s'.loopers =
        Function.update s.loopers i ((s.loopers i).deleteConnection clock fd).2)
      (hkernel : s'.kernel = s.kernel.close conn.fd)

/-- `DeleteConnection`, and then the thread goes on. -/
theorem effect_delete (hactivity : (s.threads i).activity = activity) {after : Activity}
    (hinHand : after.inHand = activity.inHand) (haddition : after.addition = activity.addition)
    (hdestroyed : s.destroyed move = (s.loopers i).connections.lookup fd) :
    Effect clock s move ((s.deleteConnection clock i fd).setActivity i after) := by
  cases hconn : (s.loopers i).connections.lookup fd with
  | none =>
    rw [Server.deleteConnection, hconn]
    exact .quiet (hdestroyed.trans hconn) (quiet_setThread hactivity hinHand haddition)
  | some conn =>
    rw [Server.deleteConnection, hconn]
    exact .delete (hdestroyed.trans hconn) (still_of_update hactivity rfl rfl hinHand haddition)
      hconn rfl rfl

theorem effect_of_step (h : Step clock s move s') : Effect clock s move s' := by
  cases h with
  | poll hactivity hdistinct hready => exact .quiet rfl (quiet_setThread hactivity rfl rfl)
  | timer hactivity hwaiting => exact .quiet rfl (quiet_setThread hactivity rfl rfl)
  | acceptor hactivity hwaiting => exact .quiet rfl (quiet_setThread hactivity rfl rfl)
  | client hactivity hwaiting => exact .quiet rfl (quiet_setThread hactivity rfl rfl)
  | handleRead hactivity hwaiting =>
    exact .quiet rfl (quiet_of_still (still_of_update hactivity rfl rfl rfl rfl)
      (connections_update rfl) rfl)
  | again hactivity hwaiting => exact .quiet rfl (quiet_setThread hactivity rfl rfl)
  | accept hactivity hfree =>
    refine .accept rfl hfree ?_ ?_ ?_ ?_ rfl rfl
    · exact congrArg Activity.inHand hactivity
    · exact congrArg Activity.addition hactivity
    · exact congrArg Activity.inHand (listener_setActivity s _)
    · exact congrArg Activity.addition (listener_setActivity s _)
  | acceptFailed hactivity => exact .quiet rfl (quiet_setThread hactivity rfl rfl)
  | register hactivity =>
    refine .register rfl ?_ ?_ ?_ ?_ rfl rfl
    · exact congrArg Activity.inHand hactivity
    · exact congrArg Activity.addition hactivity
    · exact congrArg Activity.inHand (listener_setActivity s _)
    · exact congrArg Activity.addition (listener_setActivity s _)
  | insert hactivity =>
    refine .insert rfl ?_ ?_ ?_ rfl rfl
    · exact congrArg Activity.addition hactivity
    · exact congrArg Activity.inHand (listener_setActivity s _)
    · exact congrArg Activity.addition (listener_setActivity s _)
  | refresh hactivity =>
    exact .quiet rfl (quiet_of_still (still_of_update hactivity rfl rfl rfl rfl)
      (connections_update (connections_baseHandleCallback _ _)) rfl)
  | fork hactivity =>
    exact .quiet rfl ⟨still_of_update hactivity rfl rfl rfl rfl, fun _ => rfl, rfl, fun _ _ hg => hg,
      fun _ _ hg _ => hg⟩
  | exec => exact .quiet rfl quiet_settle
  | exit => exact .quiet rfl quiet_settle
  | waitpid hactivity => exact .quiet rfl (quiet_setThread hactivity rfl rfl)
  | close hactivity hunlocked =>
    exact effect_delete hactivity rfl rfl (by simp [Server.destroyed, hactivity, hunlocked])
  | leave hactivity => exact .quiet rfl (quiet_setThread hactivity rfl rfl)
  | expire hactivity hunlocked =>
    exact effect_delete hactivity rfl rfl (by simp [Server.destroyed, hactivity, hunlocked])
  | expired hactivity =>
    exact .quiet (by simp [Server.destroyed, hactivity]) (quiet_setThread hactivity rfl rfl)

/-! ### Who has which descriptor -/

/-- The invariant that needs no condition. -/
structure Owning (s : Server) : Prop where
  keyed : ∀ i fd conn, (s.loopers i).connections.lookup fd = some conn → conn.fd = fd
  held : ∀ i conn, s.Alive i conn →
    descriptor conn ∈ s.kernel.table ∧ ⟨conn.id, conn⟩ ∈ s.kernel.registrations i
  apart : ∀ i j conn, s.Alive i conn → s.Alive j conn → i = j
  inHand : ∀ conn, s.inHand = some conn →
    descriptor conn ∈ s.kernel.table ∧ ∀ i, ¬ s.Alive i conn
  added : ∀ conn j, s.addition = some (conn, j) → ∀ i,
    (s.loopers i).connections.lookup conn.fd ≠ some conn
  owned : ∀ d ∈ s.kernel.table, ∃ conn, d = descriptor conn ∧
    (s.inHand = some conn ∨ ∃ i, s.Alive i conn)

theorem eq_of_fd (h : descriptor conn ∈ s.kernel.table) (h' : descriptor conn' ∈ s.kernel.table)
    (hfd : conn.fd = conn'.fd) : conn = conn' := by
  have heq : descriptor conn = descriptor conn' := Kernel.eq_of_fd h h' hfd
  obtain ⟨id, fd⟩ := conn
  obtain ⟨id', fd'⟩ := conn'
  cases heq
  rfl

/-- A connection in the map of a looper is alive. -/
theorem Owning.alive (h : Owning s) (hconn : (s.loopers i).connections.lookup fd = some conn) :
    s.Alive i conn := by
  refine .inl ?_
  rwa [h.keyed i fd conn hconn]

/-- `AddConnection` finds the number of its connection unused. -/
theorem Owning.unused (h : Owning s) (hadd : s.addition = some (conn, j)) (i : ℕ) :
    conn.fd ∉ (s.loopers i).connections := by
  intro hmem
  obtain ⟨conn', hconn'⟩ := Map.mem_iff_lookup.mp hmem
  have hown : descriptor conn ∈ s.kernel.table := (h.held j conn (.inr hadd)).1
  have hown' : descriptor conn' ∈ s.kernel.table := (h.held i conn' (h.alive hconn')).1
  have heq : conn' = conn := eq_of_fd hown' hown (h.keyed i _ _ hconn')
  exact h.added conn j hadd i (heq ▸ hconn')

theorem alive_quiet (h : Quiet s s') : s'.Alive i conn ↔ s.Alive i conn := by
  unfold Server.Alive
  rw [h.connections, h.addition]

theorem owning_quiet (h : Owning s) (hquiet : Quiet s s') : Owning s' where
  keyed i fd conn hconn := h.keyed i fd conn (hquiet.connections i ▸ hconn)
  held i conn halive := by
    obtain ⟨hmem, hreg⟩ := h.held i conn ((alive_quiet hquiet).mp halive)
    exact ⟨hquiet.table ▸ hmem, hquiet.kept i _ hreg ⟨_, hmem, rfl⟩⟩
  apart i j conn hi hj :=
    h.apart i j conn ((alive_quiet hquiet).mp hi) ((alive_quiet hquiet).mp hj)
  inHand conn hconn := by
    obtain ⟨hmem, hnew⟩ := h.inHand conn (hquiet.inHand ▸ hconn)
    exact ⟨hquiet.table ▸ hmem, fun i halive => hnew i ((alive_quiet hquiet).mp halive)⟩
  added conn j hadd i := by
    rw [hquiet.connections]
    exact h.added conn j (hquiet.addition ▸ hadd) i
  owned d hd := by
    obtain ⟨conn, hconn, howner⟩ := h.owned d (hquiet.table ▸ hd)
    refine ⟨conn, hconn, howner.imp (fun hin => hquiet.inHand ▸ hin) ?_⟩
    exact fun ⟨i, halive⟩ => ⟨i, (alive_quiet hquiet).mpr halive⟩

/-- `accept` opens a descriptor for a connection that nobody has yet. -/
theorem owning_accept (h : Owning s) (hfree : ∀ d ∈ s.kernel.table, d.fd ≠ fd)
    (hinHand : s.inHand = none) (haddition : s.addition = none)
    (hinHand' : s'.inHand = some ⟨s.kernel.opened, fd⟩) (haddition' : s'.addition = none)
    (hloopers : s'.loopers = s.loopers)
    (hkernel : s'.kernel = s.kernel.openFile fd false hfree) : Owning s' := by
  have halive : ∀ i conn, s'.Alive i conn ↔ s.Alive i conn := by
    intro i conn
    unfold Server.Alive
    rw [hloopers, haddition, haddition']
  have htable : s'.kernel.table = descriptor ⟨s.kernel.opened, fd⟩ :: s.kernel.table := by
    rw [hkernel]
    rfl
  constructor
  · rw [hloopers]
    exact h.keyed
  · intro i conn hconn
    obtain ⟨hmem, hreg⟩ := h.held i conn ((halive i conn).mp hconn)
    rw [htable, hkernel]
    exact ⟨List.mem_cons_of_mem _ hmem, hreg⟩
  · intro i j conn hi hj
    exact h.apart i j conn ((halive i conn).mp hi) ((halive j conn).mp hj)
  · intro conn hconn
    obtain rfl : conn = ⟨s.kernel.opened, fd⟩ := Option.some.inj (hconn.symm.trans hinHand')
    rw [htable]
    refine ⟨List.mem_cons_self, fun i hconn => ?_⟩
    exact hfree _ (h.held i _ ((halive i _).mp hconn)).1 rfl
  · intro conn j hadd
    exact absurd (hadd.symm.trans haddition') (Option.some_ne_none _)
  · intro d hd
    rw [htable] at hd
    rcases List.mem_cons.mp hd with rfl | hd
    · exact ⟨_, rfl, .inl hinHand'⟩
    · obtain ⟨conn, hconn, hin | ⟨i, hi⟩⟩ := h.owned d hd
      · exact absurd (hin.symm.trans hinHand) (Option.some_ne_none _)
      · exact ⟨conn, hconn, .inr ⟨i, (halive i conn).mpr hi⟩⟩

/-- `poller_->AddConnection`: the connection goes from the acceptor's hand to a reactor. -/
theorem owning_register {newConn : Conn} (h : Owning s) (hinHand : s.inHand = some newConn)
    (haddition : s.addition = none) (hinHand' : s'.inHand = none)
    (haddition' : s'.addition = some (newConn, j)) (hloopers : s'.loopers = s.loopers)
    (hkernel : s'.kernel = s.kernel.register j newConn.fd newConn) : Owning s' := by
  obtain ⟨hown, hnew⟩ := h.inHand newConn hinHand
  have halive : ∀ i conn, s'.Alive i conn ↔ s.Alive i conn ∨ conn = newConn ∧ i = j := by
    intro i conn
    unfold Server.Alive
    rw [hloopers, haddition, haddition']
    simp [eq_comm]
  have htable : s'.kernel.table = s.kernel.table := by
    rw [hkernel, Kernel.table_register]
  have hregistered : ∀ i g, g ∈ s'.kernel.registrations i ↔
      g ∈ s.kernel.registrations i ∨ i = j ∧ g = ⟨newConn.id, newConn⟩ := by
    intro i g
    rw [hkernel]
    exact Kernel.mem_register hown newConn
  constructor
  · rw [hloopers]
    exact h.keyed
  · intro i conn hconn
    rw [htable, hregistered]
    rcases (halive i conn).mp hconn with hold | ⟨rfl, rfl⟩
    · exact (h.held i conn hold).imp_right .inl
    · exact ⟨hown, .inr ⟨rfl, rfl⟩⟩
  · intro i k conn hi hk
    rcases (halive i conn).mp hi with hi | ⟨rfl, rfl⟩
    · rcases (halive k conn).mp hk with hk | ⟨rfl, -⟩
      · exact h.apart i k conn hi hk
      · exact absurd hi (hnew i)
    · rcases (halive k conn).mp hk with hk | ⟨-, rfl⟩
      · exact absurd hk (hnew k)
      · rfl
  · intro conn hconn
    exact absurd (hconn.symm.trans hinHand') (Option.some_ne_none _)
  · intro conn k hadd i hlookup
    cases Option.some.inj (hadd.symm.trans haddition')
    rw [hloopers] at hlookup
    exact hnew i (.inl hlookup)
  · intro d hd
    rw [htable] at hd
    obtain ⟨conn, hconn, hin | ⟨i, hi⟩⟩ := h.owned d hd
    · cases Option.some.inj (hin.symm.trans hinHand)
      exact ⟨newConn, hconn, .inr ⟨j, (halive j newConn).mpr (.inr ⟨rfl, rfl⟩)⟩⟩
    · exact ⟨conn, hconn, .inr ⟨i, (halive i conn).mpr (.inl hi)⟩⟩

/-- The map of a looper after `connections_.insert`. -/
theorem lookup_insert {newConn : Conn} (hnot : newConn.fd ∉ (s.loopers j).connections)
    (hloopers : s'.loopers =
      Function.update s.loopers j ((s.loopers j).addConnection clock newConn)) :
    (s'.loopers i).connections.lookup fd = some conn ↔
      (s.loopers i).connections.lookup fd = some conn ∨
        i = j ∧ fd = newConn.fd ∧ conn = newConn := by
  rw [hloopers]
  rcases eq_or_ne i j with rfl | hne
  · rw [Function.update_self, Looper.connections_addConnection]
    rcases eq_or_ne fd newConn.fd with rfl | hfd
    · rw [Map.lookup_emplace_self hnot, AList.lookup_eq_none.mpr hnot]
      simp [eq_comm]
    · rw [Map.lookup_emplace_ne hfd]
      simp [hfd]
  · rw [Function.update_of_ne hne]
    simp [hne]

/-- `connections_.insert`: the looper still has the connection. -/
theorem alive_insert {newConn : Conn} (h : Owning s) (haddition : s.addition = some (newConn, j))
    (haddition' : s'.addition = none) (hloopers : s'.loopers =
      Function.update s.loopers j ((s.loopers j).addConnection clock newConn)) :
    s'.Alive i conn ↔ s.Alive i conn := by
  unfold Server.Alive
  rw [lookup_insert (h.unused haddition j) hloopers, haddition, haddition']
  constructor
  · rintro ((hold | ⟨rfl, -, rfl⟩) | hadd)
    · exact .inl hold
    · exact .inr rfl
    · exact absurd hadd.symm (Option.some_ne_none _)
  · rintro (hold | hadd)
    · exact .inl (.inl hold)
    · cases Option.some.inj hadd
      exact .inl (.inr ⟨rfl, rfl, rfl⟩)

theorem owning_insert {newConn : Conn} (h : Owning s) (haddition : s.addition = some (newConn, j))
    (hinHand' : s'.inHand = none) (haddition' : s'.addition = none)
    (hloopers : s'.loopers =
      Function.update s.loopers j ((s.loopers j).addConnection clock newConn))
    (hkernel : s'.kernel = if newConn.fd ∈ (s.loopers j).connections then
      s.kernel.close newConn.fd else s.kernel) : Owning s' := by
  have hunused : newConn.fd ∉ (s.loopers j).connections := h.unused haddition j
  have halive : ∀ i conn, s'.Alive i conn ↔ s.Alive i conn := fun i conn =>
    alive_insert h haddition haddition' hloopers
  rw [if_neg hunused] at hkernel
  constructor
  · intro i fd conn hconn
    rcases (lookup_insert hunused hloopers).mp hconn with hold | ⟨-, rfl, rfl⟩
    · exact h.keyed i fd conn hold
    · rfl
  · intro i conn hconn
    rw [hkernel]
    exact h.held i conn ((halive i conn).mp hconn)
  · intro i k conn hi hk
    exact h.apart i k conn ((halive i conn).mp hi) ((halive k conn).mp hk)
  · intro conn hconn
    exact absurd (hconn.symm.trans hinHand') (Option.some_ne_none _)
  · intro conn k hadd
    exact absurd (hadd.symm.trans haddition') (Option.some_ne_none _)
  · intro d hd
    rw [hkernel] at hd
    obtain ⟨conn, hconn, hin | ⟨i, hi⟩⟩ := h.owned d hd
    · -- the acceptor has nothing in its hand while it adds
      have hboth : s.inHand = none := by
        unfold Server.addition at haddition
        unfold Server.inHand
        revert haddition
        cases (s.threads s.listener).activity <;> simp [Activity.addition, Activity.inHand]
      exact absurd (hin.symm.trans hboth) (Option.some_ne_none _)
    · exact ⟨conn, hconn, .inr ⟨i, (halive i conn).mpr hi⟩⟩

/-- The map of a looper after `DeleteConnection`. -/
theorem lookup_delete (hconn : (s.loopers i).connections.lookup fd = some conn)
    (hloopers : s'.loopers =
      Function.update s.loopers i ((s.loopers i).deleteConnection clock fd).2) :
    (s'.loopers j).connections.lookup fd' = some conn' ↔
      (s.loopers j).connections.lookup fd' = some conn' ∧ (j = i → fd' ≠ fd) := by
  rw [hloopers]
  rcases eq_or_ne j i with rfl | hne
  · rw [Function.update_self, Looper.connections_deleteConnection (Map.mem_of_lookup hconn),
      Map.lookup_erase_eq_some]
    simp [and_comm]
  · rw [Function.update_of_ne hne]
    simp [hne]

/-- Only the deleted connection is not alive any more. -/
theorem alive_delete (h : Owning s) (hstill : Still s s')
    (hconn : (s.loopers i).connections.lookup fd = some conn)
    (hloopers : s'.loopers =
      Function.update s.loopers i ((s.loopers i).deleteConnection clock fd).2) :
    s'.Alive j conn' ↔ s.Alive j conn' ∧ conn' ≠ conn := by
  unfold Server.Alive
  rw [lookup_delete hconn hloopers, hstill.addition]
  constructor
  · rintro (⟨hold, hne⟩ | hadd)
    · refine ⟨.inl hold, ?_⟩
      rintro rfl
      exact hne (h.apart j i conn' (.inl hold) (h.alive hconn)) (h.keyed i fd conn' hconn)
    · refine ⟨.inr hadd, ?_⟩
      rintro rfl
      exact h.added conn' j hadd i (by rwa [h.keyed i fd conn' hconn])
  · rintro ⟨hold | hadd, hne⟩
    · refine .inl ⟨hold, ?_⟩
      rintro rfl heq
      rw [heq, hconn] at hold
      exact hne (Option.some.inj hold).symm
    · exact .inr hadd

theorem owning_delete (h : Owning s) (hstill : Still s s')
    (hconn : (s.loopers i).connections.lookup fd = some conn)
    (hloopers : s'.loopers =
      Function.update s.loopers i ((s.loopers i).deleteConnection clock fd).2)
    (hkernel : s'.kernel = s.kernel.close conn.fd) : Owning s' := by
  have hown : descriptor conn ∈ s.kernel.table := (h.held i conn (h.alive hconn)).1
  have halive : ∀ j conn', s'.Alive j conn' ↔ s.Alive j conn' ∧ conn' ≠ conn := fun j conn' =>
    alive_delete h hstill hconn hloopers
  have htable : ∀ d, d ∈ s'.kernel.table ↔ d ∈ s.kernel.table ∧ d.fd ≠ conn.fd := by
    intro d
    rw [hkernel]
    exact Kernel.mem_table_close
  constructor
  · intro j fd' conn' hlookup
    exact h.keyed j fd' conn' ((lookup_delete hconn hloopers).mp hlookup).1
  · intro j conn' hconn'
    obtain ⟨hold, hne⟩ := (halive j conn').mp hconn'
    obtain ⟨hmem, hreg⟩ := h.held j conn' hold
    have hmem' : descriptor conn' ∈ s'.kernel.table :=
      (htable _).mpr ⟨hmem, fun hfd => hne (eq_of_fd hmem hown hfd)⟩
    refine ⟨hmem', ?_⟩
    rw [hkernel] at hmem' ⊢
    exact Kernel.mem_close.mpr ⟨hreg, .inl ⟨_, hmem', rfl⟩⟩
  · intro j k conn' hj hk
    exact h.apart j k conn' ((halive j conn').mp hj).1 ((halive k conn').mp hk).1
  · intro conn' hin
    obtain ⟨hmem, hnew⟩ := h.inHand conn' (hstill.inHand ▸ hin)
    refine ⟨(htable _).mpr ⟨hmem, fun hfd => ?_⟩, fun j hj => hnew j ((halive j conn').mp hj).1⟩
    cases eq_of_fd hmem hown hfd
    exact hnew i (h.alive hconn)
  · intro conn' j hadd k hlookup
    exact h.added conn' j (hstill.addition ▸ hadd) k ((lookup_delete hconn hloopers).mp hlookup).1
  · intro d hd
    obtain ⟨hmem, hne⟩ := (htable d).mp hd
    obtain ⟨conn', rfl, hin | ⟨j, hj⟩⟩ := h.owned d hmem
    · exact ⟨conn', rfl, .inl (hstill.inHand ▸ hin)⟩
    · exact ⟨conn', rfl, .inr ⟨j, (halive j conn').mpr ⟨hj, fun heq => hne (heq ▸ rfl)⟩⟩⟩

theorem owning_step (h : Owning s) (hstep : Step clock s move s') : Owning s' := by
  cases effect_of_step hstep with
  | quiet hspared hquiet => exact owning_quiet h hquiet
  | accept hspared hfree hinHand haddition hinHand' haddition' hloopers hkernel =>
    exact owning_accept h hfree hinHand haddition hinHand' haddition' hloopers hkernel
  | register hspared hinHand haddition hinHand' haddition' hloopers hkernel =>
    exact owning_register h hinHand haddition hinHand' haddition' hloopers hkernel
  | insert hspared haddition hinHand' haddition' hloopers hkernel =>
    exact owning_insert h haddition hinHand' haddition' hloopers hkernel
  | delete hdestroyed hstill hconn hloopers hkernel =>
    exact owning_delete h hstill hconn hloopers hkernel

theorem accounted_of_owning (h : Owning s) : s.Accounted where
  owned := h.owned
  alive i conn hconn := (h.held i conn hconn).1
  inHand := h.inHand
  apart := h.apart
  unused _ _ hadd := h.unused hadd

theorem owning_new (timerExpirations : ℕ → ℕ) (listener : ℕ) :
    Owning (Server.new timerExpirations listener) where
  keyed _ _ _ hconn := absurd hconn.symm (Option.some_ne_none _)
  held _ _ halive := halive.elim (fun hconn => absurd hconn.symm (Option.some_ne_none _))
    fun hadd => absurd hadd.symm (Option.some_ne_none _)
  apart _ _ _ halive := halive.elim (fun hconn => absurd hconn.symm (Option.some_ne_none _))
    fun hadd => absurd hadd.symm (Option.some_ne_none _)
  inHand _ hconn := absurd hconn.symm (Option.some_ne_none _)
  added _ _ hadd := absurd hadd.symm (Option.some_ne_none _)
  owned _ hd := absurd hd List.not_mem_nil

end ReactorLemmas

open ReactorLemmas

/-! ## Runs -/

/-- In every run, with or without children, the descriptors of accepted sockets are those of the
connections that the loopers have, and of the one that the acceptor holds: none is left open without a
connection, and none is shared. -/
theorem descriptors_accounted (clock : Clock) (timerExpirations : ℕ → ℕ) (listener : ℕ)
    (moves : List Move) :
    Always (Server.step clock) Server.Accounted (Server.new timerExpirations listener) moves := by
  have hall : Always (Server.step clock) Owning (Server.new timerExpirations listener) moves := by
    refine always_of_along ?_ (owning_new timerExpirations listener)
      (Along.of_forall (P := fun _ _ => True) (fun _ _ => True.intro) _ _)
    intro s move h _
    rcases step_cases clock s move with hsame | hstep
    · rwa [hsame]
    · exact owning_step h hstep
  exact hall.mono fun _ => accounted_of_owning

end TurtleServer.Reactors
