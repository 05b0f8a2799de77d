import TurtleServer.Core.ReactorOwnership

/-!
# Whom the threads call

`calls_safe_iff`: the loops of all loopers run at the same time, and none of them is ever told about,
or about to call, a connection that is gone, exactly when every connection is the last to close its
socket. Since a connection has one owner, no two threads ever call it.
-/

namespace TurtleServer.Reactors

open Lib Poller Server

namespace ReactorLemmas

variable {clock : Clock} {s s' : Server} {move : Move} {i j : ℕ} {conn conn' : Conn} {fd fd' : Fd}
  {t : Thread} {activity : Activity}

/-! ### What can be polled -/

/-- Every registration is that of a connection its looper has. -/
def Known (s : Server) : Prop :=
  ∀ i, ∀ g ∈ s.kernel.registrations i, s.Alive i g.data ∧ g.file = g.data.id

/-- Nobody dies but the connection that is destroyed. -/
theorem alive_step (h : Owning s) (hstep : Step clock s move s') (halive : s.Alive i conn)
    (hother : s.destroyed move ≠ some conn) : s'.Alive i conn := by
  cases effect_of_step hstep with
  | quiet hspared hquiet => exact (alive_quiet hquiet).mpr halive
  | accept hspared hfree hinHand haddition hinHand' haddition' hloopers hkernel =>
    unfold Server.Alive at halive ⊢
    rwa [hloopers, haddition', ← haddition]
  | register hspared hinHand haddition hinHand' haddition' hloopers hkernel =>
    unfold Server.Alive at halive ⊢
    rw [haddition] at halive
    rw [hloopers]
    exact halive.imp_right fun hadd => absurd hadd.symm (Option.some_ne_none _)
  | insert hspared haddition hinHand' haddition' hloopers hkernel =>
    exact (alive_insert h haddition haddition' hloopers).mpr halive
  | delete hdestroyed hstill hconn hloopers hkernel =>
    refine (alive_delete h hstill hconn hloopers).mpr ⟨halive, ?_⟩
    rintro rfl
    exact hother hdestroyed

/-- A connection that is destroyed is not alive any more. -/
theorem not_alive_destroyed (h : Owning s) (hstep : Step clock s move s')
    (hdestroyed : s.destroyed move = some conn) (i : ℕ) : ¬ s'.Alive i conn := by
  have hnot : s.destroyed move ≠ none := by simp [hdestroyed]
  cases effect_of_step hstep with
  | quiet hspared hquiet => exact absurd hspared hnot
  | accept hspared => exact absurd hspared hnot
  | register hspared => exact absurd hspared hnot
  | insert hspared => exact absurd hspared hnot
  | delete hdestroyed' hstill hconn hloopers hkernel =>
    obtain rfl := Option.some.inj (hdestroyed'.symm.trans hdestroyed)
    exact fun halive => ((alive_delete h hstill hconn hloopers).mp halive).2 rfl

/-- What is polled stays known, as long as a connection is the last to close its socket. -/
theorem known_step (h : Owning s) (hknown : Known s) (hlast : s.ClosesLast move)
    (hstep : Step clock s move s') : Known s' := by
  have hstays : s.destroyed move = none → ∀ i g, g ∈ s.kernel.registrations i →
      s'.Alive i g.data ∧ g.file = g.data.id := by
    intro hspared i g hg
    obtain ⟨halive, hfile⟩ := hknown i g hg
    exact ⟨alive_step h hstep halive (by simp [hspared]), hfile⟩
  intro i g hg
  cases effect_of_step hstep with
  | quiet hspared hquiet => exact hstays hspared i g (hquiet.registered i g hg)
  | accept hspared hfree hinHand haddition hinHand' haddition' hloopers hkernel =>
    rw [hkernel] at hg
    exact hstays hspared i g hg
  | register hspared hinHand haddition hinHand' haddition' hloopers hkernel =>
    rw [hkernel] at hg
    rcases (Kernel.mem_register (h.inHand _ hinHand).1 _).mp hg with hold | ⟨rfl, rfl⟩
    · exact hstays hspared i g hold
    · exact ⟨.inr haddition', rfl⟩
  | insert hspared haddition hinHand' haddition' hloopers hkernel =>
    rw [hkernel, if_neg (h.unused haddition _)] at hg
    exact hstays hspared i g hg
  | delete hdestroyed hstill hconn hloopers hkernel =>
    rw [hkernel] at hg
    obtain ⟨hold, hopen⟩ := Kernel.mem_close.mp hg
    obtain ⟨halive, hfile⟩ := hknown i g hold
    refine ⟨(alive_delete h hstill hconn hloopers).mpr ⟨halive, fun heq => ?_⟩, hfile⟩
    -- the registration of the deleted connection is gone
    rw [hfile, heq] at hopen
    exact hlast _ hdestroyed ((Kernel.open_close_iff (h.held _ _ (h.alive hconn)).1).mp hopen)

/-- When a child has the socket, the pointer of the connection can still be polled. -/
theorem registered_destroyed (h : Owning s) (hstep : Step clock s move s')
    (hdestroyed : s.destroyed move = some conn) (hinherited : s.kernel.Inherited conn.id) :
    ∃ i, s'.Registered i (.client conn) := by
  have hnot : s.destroyed move ≠ none := by simp [hdestroyed]
  cases effect_of_step hstep with
  | quiet hspared hquiet => exact absurd hspared hnot
  | accept hspared => exact absurd hspared hnot
  | register hspared => exact absurd hspared hnot
  | insert hspared => exact absurd hspared hnot
  | @delete i fd conn' hdestroyed' hstill hconn hloopers hkernel =>
    obtain rfl := Option.some.inj (hdestroyed'.symm.trans hdestroyed)
    obtain ⟨hown, hreg⟩ := h.held i _ (h.alive hconn)
    refine ⟨i, ⟨conn'.id, conn'⟩, ?_, rfl⟩
    rw [hkernel]
    exact Kernel.mem_close.mpr ⟨hreg, (Kernel.open_close_iff hown).mpr hinherited⟩

/-! ### What a thread holds -/

/-- Whatever the thread of looper `i` is about to call is alive, and is called once. -/
structure Sound (s : Server) (i : ℕ) (t : Thread) : Prop where
  pending : ∀ conn, t.Pending conn → s.Alive i conn
  distinct : t.waiting.Nodup
  callee : ∀ conn, t.activity.callee = some conn → .client conn ∉ t.waiting
  expiring : ∀ expired, t.activity = .expiring expired → t.waiting = []

/-- The other threads: what is destroyed is not theirs. -/
theorem sound_other (h : Owning s) (hstep : Step clock s move s') (hsound : Sound s j t)
    (hapart : ∀ conn, s.destroyed move = some conn → ¬ s.Alive j conn) : Sound s' j t where
  pending conn hpending := by
    have halive : s.Alive j conn := hsound.pending conn hpending
    exact alive_step h hstep halive fun hdestroyed => hapart conn hdestroyed halive
  distinct := hsound.distinct
  callee := hsound.callee
  expiring := hsound.expiring

/-- The thread calls nobody new. -/
theorem sound_activity (hsound : Sound s i t)
    (halive : ∀ conn, .client conn ∈ t.waiting ∨ activity.callee = some conn → s'.Alive i conn)
    (hcallee : activity.callee = none ∨ activity.callee = t.activity.callee)
    (hexpiring : ∀ expired, activity = .expiring expired → t.waiting = []) :
    Sound s' i { t with activity } where
  pending := halive
  distinct := hsound.distinct
  callee conn hconn := by
    rcases hcallee with hnone | hsame
    · exact absurd (hconn.symm.trans hnone) (Option.some_ne_none _)
    · exact hsound.callee conn (hsame ▸ hconn)
  expiring := hexpiring

/-- The thread takes the next of `ready_connections`. -/
theorem sound_visit {r : Ready} {waiting : List Ready} {timerConn : Bool} (hsound : Sound s i t)
    (hwaiting : t.waiting = r :: waiting)
    (hcallee : ∀ conn, activity.callee = some conn → r = .client conn)
    (hexpiring : ∀ expired, activity ≠ .expiring expired)
    (halive : ∀ conn, s.Alive i conn → s'.Alive i conn) :
    Sound s' i ⟨activity, waiting, timerConn⟩ := by
  have hdistinct : (r :: waiting).Nodup := hwaiting ▸ hsound.distinct
  constructor
  · rintro conn (hmem | hconn)
    · exact halive conn (hsound.pending conn (.inl (hwaiting ▸ List.mem_cons_of_mem _ hmem)))
    · refine halive conn (hsound.pending conn (.inl ?_))
      rw [hwaiting, hcallee conn hconn]
      exact List.mem_cons_self
  · exact (List.nodup_cons.mp hdistinct).2
  · intro conn hconn
    rw [← hcallee conn hconn]
    exact (List.nodup_cons.mp hdistinct).1
  · exact fun expired heq => absurd heq (hexpiring expired)

/-- One thread goes on. -/
theorem sound_update (h : Owning s) (hsound : ∀ k, Sound s k (s.threads k))
    (hstep : Step clock s move s') (hthreads : s'.threads = Function.update s.threads i t)
    (hdestroyed : ∀ conn, s.destroyed move = some conn → s.Alive i conn) (hself : Sound s' i t) :
    ∀ k, Sound s' k (s'.threads k) := by
  intro k
  rw [hthreads]
  rcases eq_or_ne k i with rfl | hne
  · rw [Function.update_self]
    exact hself
  · rw [Function.update_of_ne hne]
    refine sound_other h hstep (hsound k) fun conn hconn halive => hne ?_
    exact h.apart k i conn halive (hdestroyed conn hconn)

/-- The connection deleted by its handler is the one that was called. -/
theorem destroyed_close (hactivity : (s.threads i).activity = .handling conn none)
    (hsound : Sound s i (s.threads i)) (hunlocked : s.Unlocked i)
    (hdestroyed : s.destroyed (.close i) = some conn') : conn' = conn := by
  have halive : s.Alive i conn := hsound.pending conn (.inr (by rw [hactivity]; rfl))
  have hlookup : (s.loopers i).connections.lookup conn.fd = some conn :=
    halive.resolve_right fun hadd => hunlocked _ hadd rfl
  simp only [Server.destroyed, hactivity, hunlocked, hlookup, ↓reduceIte] at hdestroyed
  exact (Option.some.inj hdestroyed).symm

theorem sound_step (h : Owning s) (hknown : Known s) (hsound : ∀ k, Sound s k (s.threads k))
    (hstep : Step clock s move s') : ∀ k, Sound s' k (s'.threads k) := by
  have hspared : s.destroyed move = none → ∀ i conn, s.Alive i conn → s'.Alive i conn :=
    fun hnone i conn halive => alive_step h hstep halive (by simp [hnone])
  have hnobody : s.destroyed move = none → ∀ i conn, s.destroyed move = some conn →
      s.Alive i conn := fun hnone _ _ hsome =>
    absurd (hsome.symm.trans hnone) (Option.some_ne_none _)
  -- the thread goes on with the same connections
  have hgoes : ∀ {i : ℕ} {activity : Activity}, s.destroyed move = none →
      (activity.callee = none ∨ activity.callee = (s.threads i).activity.callee) →
      (∀ expired, activity = .expiring expired → (s.threads i).waiting = []) →
      Sound s' i { s.threads i with activity } := by
    intro i activity hnone hcallee hexpiring
    refine sound_activity (hsound i) (fun conn hconn => ?_) hcallee hexpiring
    refine hspared hnone i conn ((hsound i).pending conn (hconn.imp_right fun hcalled => ?_))
    rcases hcallee with hnothing | hsame
    · exact absurd (hcalled.symm.trans hnothing) (Option.some_ne_none _)
    · exact hsame ▸ hcalled
  have hstep' := hstep
  cases hstep with
  | poll hactivity hdistinct hready =>
    refine sound_update h hsound hstep' rfl (hnobody rfl _) ?_
    refine ⟨?_, hdistinct, ?_, ?_⟩
    · rintro conn (hmem | hconn)
      · obtain ⟨g, hg, rfl⟩ := hready _ hmem
        exact hspared rfl _ _ (hknown _ g hg).1
      · exact absurd hconn.symm (Option.some_ne_none _)
    · exact fun _ hconn => absurd hconn.symm (Option.some_ne_none _)
    · exact fun _ heq => Activity.noConfusion heq
  | timer hactivity hwaiting =>
    refine sound_update h hsound hstep' rfl (hnobody rfl _) ?_
    exact sound_visit (hsound _) hwaiting (fun _ hconn => absurd hconn.symm (Option.some_ne_none _))
      (fun _ => Activity.noConfusion) (hspared rfl _)
  | acceptor hactivity hwaiting =>
    refine sound_update h hsound hstep' rfl (hnobody rfl _) ?_
    exact sound_visit (hsound _) hwaiting (fun _ hconn => absurd hconn.symm (Option.some_ne_none _))
      (fun _ => Activity.noConfusion) (hspared rfl _)
  | client hactivity hwaiting =>
    refine sound_update h hsound hstep' rfl (hnobody rfl _) ?_
    exact sound_visit (hsound _) hwaiting (fun _ hconn => congrArg _ (Option.some.inj hconn))
      (fun _ => Activity.noConfusion) (hspared rfl _)
  | handleRead hactivity hwaiting =>
    refine sound_update h hsound hstep' rfl (hnobody rfl _) ?_
    refine ⟨?_, List.nodup_nil, fun _ _ => List.not_mem_nil, fun _ _ => rfl⟩
    rintro conn (hmem | hconn)
    · exact absurd hmem List.not_mem_nil
    · exact absurd hconn.symm (Option.some_ne_none _)
  | again hactivity hwaiting =>
    refine sound_update h hsound hstep' rfl (hnobody rfl _) ?_
    refine ⟨?_, List.nodup_nil, fun _ _ => List.not_mem_nil, fun _ _ => rfl⟩
    rintro conn (hmem | hconn)
    · exact absurd hmem List.not_mem_nil
    · exact absurd hconn.symm (Option.some_ne_none _)
  | accept hactivity hfree =>
    exact sound_update h hsound hstep' rfl (hnobody rfl _)
      (hgoes rfl (.inl rfl) fun _ => Activity.noConfusion)
  | acceptFailed hactivity =>
    exact sound_update h hsound hstep' rfl (hnobody rfl _)
      (hgoes rfl (.inl rfl) fun _ => Activity.noConfusion)
  | register hactivity =>
    exact sound_update h hsound hstep' rfl (hnobody rfl _)
      (hgoes rfl (.inl rfl) fun _ => Activity.noConfusion)
  | insert hactivity =>
    exact sound_update h hsound hstep' rfl (hnobody rfl _)
      (hgoes rfl (.inl rfl) fun _ => Activity.noConfusion)
  | refresh hactivity =>
    exact sound_update h hsound hstep' rfl (hnobody rfl _)
      (hgoes rfl (.inr (by rw [hactivity]; rfl)) fun _ => Activity.noConfusion)
  | fork hactivity =>
    exact sound_update h hsound hstep' rfl (hnobody rfl _)
      (hgoes rfl (.inr (by rw [hactivity]; rfl)) fun _ => Activity.noConfusion)
  | exec => exact fun k => sound_other h hstep' (hsound k) fun _ hsome =>
      absurd hsome.symm (Option.some_ne_none _)
  | exit => exact fun k => sound_other h hstep' (hsound k) fun _ hsome =>
      absurd hsome.symm (Option.some_ne_none _)
  | waitpid hactivity =>
    exact sound_update h hsound hstep' rfl (hnobody rfl _)
      (hgoes rfl (.inr (by rw [hactivity]; rfl)) fun _ => Activity.noConfusion)
  | @close i conn hactivity hunlocked =>
    have hself : s.Alive i conn := (hsound i).pending conn (.inr (by rw [hactivity]; rfl))
    have hown : ∀ conn', s.destroyed (.close i) = some conn' → conn' = conn := fun conn' =>
      destroyed_close hactivity (hsound i) hunlocked
    refine sound_update h hsound hstep' (threads_delete _)
      (fun conn' hconn' => hown conn' hconn' ▸ hself) ?_
    refine sound_activity (hsound i) ?_ (.inl rfl) fun _ => Activity.noConfusion
    rintro other (hmem | hconn)
    · -- it waits, so it is not the one that is deleted
      refine alive_step h hstep' ((hsound i).pending other (.inl hmem)) ?_
      intro hdestroyed
      refine (hsound i).callee conn (by rw [hactivity]; rfl) ?_
      rwa [← hown other hdestroyed]
    · exact absurd hconn.symm (Option.some_ne_none _)
  | leave hactivity =>
    exact sound_update h hsound hstep' rfl (hnobody rfl _)
      (hgoes rfl (.inl rfl) fun _ => Activity.noConfusion)
  | @expire i singleTimer expired hactivity hunlocked =>
    have hnil : (s.threads i).waiting = [] := (hsound i).expiring _ hactivity
    refine sound_update h hsound hstep' (threads_delete _) ?_ ?_
    · intro conn hconn
      simp only [Server.destroyed, hactivity, hunlocked, ↓reduceIte] at hconn
      exact h.alive hconn
    · refine sound_activity (hsound i) ?_ (.inl rfl) fun _ _ => hnil
      rintro other (hmem | hconn)
      · exact absurd (hnil ▸ hmem) List.not_mem_nil
      · exact absurd hconn.symm (Option.some_ne_none _)
  | @expired i hactivity =>
    have hnone : s.destroyed (.expire i) = none := by simp [Server.destroyed, hactivity]
    exact sound_update h hsound hstep' rfl (hnobody hnone _)
      (hgoes hnone (.inl rfl) fun _ => Activity.noConfusion)

/-- The invariant. -/
structure Inv (s : Server) : Prop where
  owning : Owning s
  known : Known s
  sound : ∀ i, Sound s i (s.threads i)

theorem inv_new (timerExpirations : ℕ → ℕ) (listener : ℕ) :
    Inv (Server.new timerExpirations listener) where
  owning := owning_new timerExpirations listener
  known _ _ hg := absurd hg List.not_mem_nil
  sound _ := by
    refine ⟨?_, List.nodup_nil, fun _ _ => List.not_mem_nil, fun _ _ => rfl⟩
    rintro conn (hmem | hconn)
    · exact absurd hmem List.not_mem_nil
    · exact absurd hconn.symm (Option.some_ne_none _)

theorem inv_step (clock : Clock) (h : Inv s) (move : Move) (hlast : s.ClosesLast move) :
    Inv (s.step clock move) := by
  rcases step_cases clock s move with hsame | hstep
  · rwa [hsame]
  · exact ⟨owning_step h.owning hstep, known_step h.owning h.known hlast hstep,
      sound_step h.owning h.known h.sound hstep⟩

theorem safe_of_inv (h : Inv s) : s.Safe where
  polled i conn := by
    rintro ⟨g, hg, rfl⟩
    exact (h.known i g hg).1
  called i conn := (h.sound i).pending conn
  alone i j conn hi hj :=
    h.owning.apart i j conn ((h.sound i).pending conn hi) ((h.sound j).pending conn hj)

theorem safe_step_iff (clock : Clock) (h : Inv s) (move : Move) :
    (s.step clock move).Safe ↔ s.ClosesLast move := by
  refine ⟨fun hsafe conn hdestroyed hinherited => ?_, fun hlast =>
    safe_of_inv (inv_step clock h move hlast)⟩
  have hstep : Step clock s move (s.step clock move) := step_of_destroyed clock hdestroyed
  obtain ⟨i, hregistered⟩ := registered_destroyed h.owning hstep hdestroyed hinherited
  exact not_alive_destroyed h.owning hstep hdestroyed i (hsafe.polled i conn hregistered)

end ReactorLemmas

/-! ## Runs -/

open ReactorLemmas

/-- In every run, whatever a looper can be told about and whatever it is about to call is alive in
every state exactly when no connection is destroyed while a child has its socket. -/
theorem calls_safe_iff (clock : Clock) (timerExpirations : ℕ → ℕ) (listener : ℕ)
    (moves : List Move) :
    Always (Server.step clock) Server.Safe (Server.new timerExpirations listener) moves ↔
      Along (Server.step clock) Server.ClosesLast (Server.new timerExpirations listener) moves :=
  always_iff_along (G := fun _ _ => True) (fun _ move h _ hlast => inv_step clock h move hlast)
    (fun _ move h _ => safe_step_iff clock h move) (inv_new timerExpirations listener)
    (Along.of_forall (fun _ _ => True.intro) _ _)

/-- Reactor 1 is told about the client before `AddConnection` has inserted it. -/
def earlyPoll : List Move :=
  [.poll 0 [.acceptor], .visit 0, .accept 5, .register 1, .poll 1 [.client ⟨0, 5⟩], .visit 1]

/-- The callback has to wait, and the connection it is called for is alive. -/
example : let s := run (Server.step (.upTo 3 (by decide))) (Server.new (fun _ => 1000) 0) earlyPoll
    (s.threads 1).activity = .refreshing ⟨0, 5⟩ ∧ ¬ s.Unlocked 1 ∧
      (5 : Fd) ∉ (s.loopers 1).connections ∧ s.addition = some (⟨0, 5⟩, 1) := by
  decide

end TurtleServer.Reactors
