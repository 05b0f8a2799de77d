import TurtleServer.Core.EdgeTriggerReading

/-!
# The server comes to rest

`EdgeTriggerReading` is about quiet states. Here: when the clients fall silent, and the handler is
done after a number of steps that the bytes of a call of `Recv` bound (`FiniteHandler`), the server
gets to a quiet state, in whatever order its threads go on (`quiet_in_the_end`).

1. `Working`: the steps in which the server gets on. Interrupted calls, time-outs of `epoll_wait`
   and what the clients and the timers do are left aside.
2. `weight`: each of these steps makes it smaller. A byte goes from the socket into a call of `Recv`
   and from there into the steps of the handler, a client goes from the backlog to a reactor, a
   report is taken from the ready list. Where none of them does anything, the state is quiet.
-/

namespace TurtleServer.EdgeTrigger

open Lib Network

variable {σ : Type}

/-! ## 1. Steps of the server -/

/-- The server has so many reactors. -/
def Move.Of (reactors : ℕ) : Move → Prop
  | .register r => r < reactors
  | .poll r _ => r < reactors
  | .visit r _ => r < reactors
  | .recv r _ => r < reactors
  | .advance r => r < reactors
  | .expire r _ => r < reactors
  | _ => True

/-- A step of the server with which it gets on: no client sends, no timer expires, no call fails,
and `epoll_wait` returns because there is something to report. -/
def Move.Works : Move → Prop
  | .pollAcceptor => True
  | .accept => True
  | .register _ => True
  | .poll _ ready => ready ≠ []
  | .visit _ _ => True
  | .recv _ count => count ≠ none
  | .advance _ => True
  | _ => False

/-- The server makes a step that does something. -/
def Working (handler : Handler σ) (reactors : ℕ) (o : Option (Network σ)) (move : Move) : Prop :=
  move.Of reactors ∧ move.Works ∧ next handler o move ≠ o

/-- It does so, and no `send` fails for good. -/
def Delivering (handler : Handler σ) (reactors : ℕ) (o : Option (Network σ)) (move : Move) : Prop :=
  Working handler reactors o move ∧ move.Delivers

/-- The server has nothing to do. -/
def Rested (handler : Handler σ) (reactors : ℕ) (o : Option (Network σ)) : Prop :=
  ∀ move, ¬ Working handler reactors o move

/-- A handler that is done at some time. A client has so many steps `left` before it; a call of
`Recv` adds at most `cost` to them, and `cost` for each of its bytes. -/
structure FiniteHandler (σ : Type) extends Handler σ where
  cost : ℕ
  left : ℕ → σ → ℕ
  arrive_le : ∀ c call x, left c (arrive c call x) ≤
    left c x + cost * (received call.incoming).length + cost
  advance_lt : ∀ c x x', returned c x = false → advance c x = some x' → left c x' < left c x
  arrive_of_ne : ∀ c d call x, d ≠ c → left d (arrive c call x) = left d x
  advance_of_ne : ∀ c d x x', d ≠ c → advance c x = some x' → left d x' = left d x

/-! ## 2. What is left to be done -/

def Stage.weight (cost : ℕ) : Stage → ℕ
  | .idle => 0
  | .reported => cost + 3
  | .receiving call => cost * (received call.incoming).length + cost + 2
  | .handling => 1

def Place.weight (cost : ℕ) : Place → ℕ
  | .backlog => cost + 8
  | .accepted => cost + 7
  | _ => 0

/-- A socket on the ready list, or not. -/
def edgeWeight (cost : ℕ) : Bool → ℕ
  | true => cost + 5
  | false => 0

def Thread.weight : Thread → ℕ
  | .polling => 0
  | _ => 1

def Listener.weight : Listener → ℕ
  | .polling => 1
  | _ => 0

/-- What is left to be done for a client, whose handler has so many steps left. -/
def ClientSocket.weight (cost : ℕ) (k : ClientSocket) (left : ℕ) (stage : Stage) : ℕ :=
  (cost + 1) * k.unread.length + left + stage.weight cost + edgeWeight cost k.edge +
    k.place.weight cost

/-- What is left to be done for so many clients by so many reactors. -/
def weight (handler : FiniteHandler σ) (clients reactors : ℕ) (s : Network σ) : ℕ :=
  ∑ c ∈ Finset.range clients,
      (s.sockets c).weight handler.cost (handler.left c s.state) (s.stage c) +
    ∑ r ∈ Finset.range reactors, (s.reactors r).weight + s.listener.weight

/-- The weight of a process that has ended is less than that of any other. -/
def weightOf (handler : FiniteHandler σ) (clients reactors : ℕ) : Option (Network σ) → ℕ
  | none => 0
  | some s => weight handler clients reactors s + 1

/-- The clients that have connected and the reactors at work are among so many. -/
structure Sized (clients reactors : ℕ) (s : Network σ) : Prop where
  connected : ∀ c, (s.sockets c).place ≠ .away → c < clients
  registered : ∀ c r, (s.sockets c).place = .registered r → r < reactors
  working : ∀ r, s.reactors r ≠ .polling → r < reactors
  accepting : s.listener = .accepting → s.backlog ≠ []

/-- The invariants, as long as the process lives. -/
def Settled (clients reactors : ℕ) (o : Option (Network σ)) : Prop :=
  ∀ s ∈ o, Inv s ∧ Sized clients reactors s

namespace EdgeTriggerLemmas

/-- Two sums where one term makes a difference. -/
theorem sum_add_le {s : Finset ℕ} (f f' : ℕ → ℕ) {c a b : ℕ} (hc : c ∈ s)
    (hothers : ∀ d ≠ c, f' d ≤ f d) (hself : f' c + a ≤ f c + b) :
    ∑ d ∈ s, f' d + a ≤ ∑ d ∈ s, f d + b := by
  rw [← Finset.add_sum_erase s f hc, ← Finset.add_sum_erase s f' hc]
  have hle : ∑ d ∈ s.erase c, f' d ≤ ∑ d ∈ s.erase c, f d :=
    Finset.sum_le_sum fun d hd => hothers d (Finset.ne_of_mem_erase hd)
  omega

variable {handler : Handler σ} {s s' : Network σ} {move : Move} {c d r reactors clients : ℕ}
  {t : Thread} {k : ClientSocket}

/-! ### Numbers of clients and reactors -/

/-- A client that changes its place has connected, or it does so now. -/
theorem places_of_step (hI : Orderly s) (h : Step handler s move s') (d : ℕ) :
    (s'.sockets d).place = (s.sockets d).place ∨
      (move = .connect d ∨ (s.sockets d).place ≠ .away) ∧
        ∀ r, (s'.sockets d).place = .registered r → move = .register r := by
  -- the client of the step, with its new place
  have hset : ∀ {s' : Network σ} {c : ℕ} {k : ClientSocket},
      s'.sockets = Function.update s.sockets c k →
      (move = .connect c ∨ (s.sockets c).place ≠ .away) →
      (∀ r, k.place = .registered r → move = .register r) →
      (s'.sockets d).place = (s.sockets d).place ∨
        (move = .connect d ∨ (s.sockets d).place ≠ .away) ∧
          ∀ r, (s'.sockets d).place = .registered r → move = .register r := by
    intro s' c k hsockets hbefore hafter
    by_cases hd : d = c
    · subst hd
      rw [hsockets, Function.update_self]
      exact .inr ⟨hbefore, hafter⟩
    · rw [hsockets, Function.update_of_ne hd]
      exact .inl rfl
  have hkept : ∀ {s' : Network σ} {c : ℕ} {k : ClientSocket},
      s'.sockets = Function.update s.sockets c k → k.place = (s.sockets c).place →
      (s'.sockets d).place = (s.sockets d).place := by
    intro s' c k hsockets hk
    rw [hsockets]
    exact place_setSocket (s := s) hk d
  cases h with
  | connect => exact hset rfl (.inl rfl) fun _ hr => Place.noConfusion hr
  | send => exact .inl (hkept rfl rfl)
  | finish => exact .inl (hkept rfl rfl)
  | @accept c backlog _ hbacklog =>
    have hplace : (s.sockets c).place = .backlog := by
      rw [← hI.backlog, hbacklog]
      exact List.mem_cons_self
    exact hset rfl (.inr (hplace ▸ Place.noConfusion)) fun _ hr => Place.noConfusion hr
  | @register c r hlistener =>
    have hplace : (s.sockets c).place = .accepted := (hI.accepted c).mp hlistener
    refine hset rfl (.inr (hplace ▸ Place.noConfusion)) fun r' hr => ?_
    rw [Place.registered.inj hr]
  | poll =>
    refine .inl ?_
    show (if d ∈ _ then (s.sockets d).report else s.sockets d).place = _
    split <;> rfl
  | received => exact .inl (hkept rfl rfl)
  | ended => exact .inl (hkept rfl rfl)
  | drained => exact .inl (hkept rfl rfl)
  | @close r c waiting hthread =>
    have hplace : (s.sockets c).place = .registered r := by
      refine hI.called r c ?_
      rw [hthread]
      exact List.mem_cons_self
    exact hset rfl (.inr (hplace ▸ Place.noConfusion)) fun _ hr => Place.noConfusion hr
  | expire _ hplace =>
    exact hset rfl (.inr (hplace ▸ Place.noConfusion)) fun _ hr => Place.noConfusion hr
  | _ => exact .inl rfl

/-- A reactor leaves `epoll_wait` in `poll` only. -/
theorem threads_of_step (h : Step handler s move s') (r : ℕ) :
    s'.reactors r = .polling ∨ s.reactors r ≠ .polling ∨ ∃ ready, move = .poll r ready := by
  have hset : ∀ {s : Network σ} {r' : ℕ} {t : Thread}, s.reactors r' ≠ .polling →
      (s.setThread r' t).reactors r = .polling ∨ s.reactors r ≠ .polling ∨
        ∃ ready, move = .poll r ready := by
    intro s r' t hthread
    by_cases hr : r = r'
    · subst hr
      exact .inr (.inl hthread)
    · rw [reactors_setThread_of_ne hr]
      exact (em _).imp_right .inl
  cases h with
  | @poll r' ready =>
    by_cases hr : r = r'
    · subst hr
      exact .inr (.inr ⟨ready, rfl⟩)
    · show (s.setThread r' _).reactors r = _ ∨ _
      rw [reactors_setThread_of_ne hr]
      exact (em _).imp_right .inl
  | again hthread => exact hset (hthread ▸ Thread.noConfusion)
  | visit hthread => exact hset (hthread ▸ Thread.noConfusion)
  | interrupted hthread => exact hset (hthread ▸ Thread.noConfusion)
  | received _ hthread => exact hset (s := s.setSocket _ _) (hthread ▸ Thread.noConfusion)
  | ended hthread => exact hset (s := s.setSocket _ _) (hthread ▸ Thread.noConfusion)
  | drained hthread => exact hset (s := s.setSocket _ _) (hthread ▸ Thread.noConfusion)
  | leave hthread => exact hset (hthread ▸ Thread.noConfusion)
  | close hthread => exact hset (hthread ▸ Thread.noConfusion)
  | _ => exact (em _).imp_right .inl

theorem sized_new (state : σ) : Sized clients reactors (Network.new state) where
  connected _ hplace := absurd rfl hplace
  registered _ _ hplace := Place.noConfusion hplace
  working _ hthread := absurd rfl hthread
  accepting hlistener := Listener.noConfusion hlistener

theorem sized_step (hI : Orderly s) (hS : Sized clients reactors s) (h : Step handler s move s')
    (hreactor : move.Of reactors) (hclient : ∀ c, move = .connect c → c < clients) :
    Sized clients reactors s' where
  connected c hplace := by
    rcases places_of_step hI h c with hsame | ⟨hconnect | hbefore, -⟩
    · exact hS.connected c (hsame ▸ hplace)
    · exact hclient c hconnect
    · exact hS.connected c hbefore
  registered c r hplace := by
    rcases places_of_step hI h c with hsame | ⟨-, hregister⟩
    · exact hS.registered c r (hsame ▸ hplace)
    · obtain rfl := hregister r hplace
      exact hreactor
  working r hthread := by
    rcases threads_of_step h r with hpolling | hbefore | ⟨ready, rfl⟩
    · exact absurd hpolling hthread
    · exact hS.working r hbefore
    · exact hreactor
  accepting hlistener := by
    cases h with
    | connect => exact List.append_ne_nil_of_right_ne_nil _ (List.cons_ne_nil _ _)
    | pollAcceptor _ hbacklog => exact hbacklog
    | accept => exact Listener.noConfusion hlistener
    | acceptFailed => exact Listener.noConfusion hlistener
    | register => exact Listener.noConfusion hlistener
    | _ => exact hS.accepting hlistener

/-- The clients have not sent anything. -/
theorem sent_step (h : Step handler s move s') (hworks : move.Works) (d : ℕ) :
    (s'.sockets d).sent = (s.sockets d).sent := by
  have hset : ∀ {s' : Network σ} {c : ℕ} {k : ClientSocket},
      s'.sockets = Function.update s.sockets c k → k.sent = (s.sockets c).sent →
      (s'.sockets d).sent = (s.sockets d).sent := by
    intro s' c k hsockets hk
    by_cases hd : d = c
    · subst hd
      rw [hsockets, Function.update_self, hk]
    · rw [hsockets, Function.update_of_ne hd]
  cases h with
  | connect => exact hworks.elim
  | send => exact hworks.elim
  | finish => exact hworks.elim
  | poll =>
    show (if d ∈ _ then (s.sockets d).report else s.sockets d).sent = _
    split <;> rfl
  | accept => exact hset rfl rfl
  | register => exact hset rfl rfl
  | received => exact hset rfl rfl
  | ended => exact hset rfl rfl
  | drained => exact hset rfl rfl
  | close => exact hset rfl rfl
  | expire => exact hworks.elim
  | _ => rfl

/-! ### One client -/

section client

variable {cost left left' n : ℕ} {call last : RecvCall} {outgoing : List SendResult}

theorem weight_accept (hplace : k.place = .backlog) :
    (k.moveTo .accepted).weight cost left .idle + 1 ≤ k.weight cost left .idle := by
  simp only [ClientSocket.weight, ClientSocket.moveTo, hplace, Place.weight]
  omega

/-- The socket may be ready at once. -/
theorem weight_register (hplace : k.place = .accepted) :
    (k.register r).weight cost left .idle + 2 ≤ k.weight cost left .idle := by
  have hedge : edgeWeight cost k.readable ≤ cost + 5 := by cases k.readable <;> simp [edgeWeight]
  simp only [ClientSocket.weight, ClientSocket.register, hplace, Place.weight]
  omega

theorem weight_report (hedge : k.edge = true) :
    k.report.weight cost left .reported + 2 ≤ k.weight cost left .idle := by
  simp only [ClientSocket.weight, ClientSocket.report, hedge, Stage.weight, edgeWeight]
  omega

theorem weight_visit :
    k.weight cost left (.receiving ⟨[], outgoing⟩) + 1 ≤ k.weight cost left .reported := by
  simp only [ClientSocket.weight, Stage.weight, received, List.flatMap_nil, List.length_nil,
    Nat.mul_zero]
  omega

/-- Bytes go from the socket into the call. -/
theorem weight_received (hn : 0 < n) (hunread : k.unread ≠ []) :
    (k.take n).weight cost left (.receiving (call.push (.received (k.unread.take n)))) + 1 ≤
      k.weight cost left (.receiving call) := by
  have hlength : k.unread.length = (k.unread.take n).length + (k.unread.drop n).length := by
    rw [← List.length_append, List.take_append_drop]
  have hpos : 0 < (k.unread.take n).length := by
    refine List.length_pos_of_ne_nil fun hnil => ?_
    rcases List.take_eq_nil_iff.mp hnil with hzero | hnil
    · exact hn.ne' hzero
    · exact hunread hnil
  simp only [ClientSocket.weight, ClientSocket.take, Stage.weight, received_push, RecvResult.chunk,
    List.length_append, hlength, Nat.mul_add, Nat.add_mul, Nat.one_mul]
  omega

/-- The bytes of the call go to the handler. -/
theorem weight_endCall (hbytes : received last.incoming = received call.incoming)
    (hleft : left' ≤ left + cost * (received last.incoming).length + cost) :
    (k.endCall last).weight cost left' .handling + 1 ≤ k.weight cost left (.receiving call) := by
  rw [hbytes] at hleft
  simp only [ClientSocket.weight, ClientSocket.endCall, Stage.weight]
  omega

theorem weight_handle (hleft : left' < left) :
    k.weight cost left' .handling + 1 ≤ k.weight cost left .handling := by
  simp only [ClientSocket.weight]
  omega

theorem weight_leave : k.weight cost left .idle + 1 ≤ k.weight cost left .handling := by
  simp only [ClientSocket.weight, Stage.weight]
  omega

theorem weight_close :
    (k.moveTo .closed).weight cost left .idle + 1 ≤ k.weight cost left .handling := by
  have hclosed : Place.closed.weight cost = 0 := rfl
  simp only [ClientSocket.weight, ClientSocket.moveTo, Stage.weight, hclosed]
  omega

end client

/-! ### The server -/

section server

variable {handler : FiniteHandler σ} {x x' : σ} {waiting : List ℕ}

theorem left_of_elsewhere (h : Elsewhere handler.toHandler c x x') :
    handler.left c x' = handler.left c x := by
  cases h with
  | nothing => rfl
  | arrive hd => exact handler.arrive_of_ne _ c _ _ hd.symm
  | advance hd hstate => exact handler.advance_of_ne _ c _ _ hd.symm hstate

theorem weight_setThread (hbefore : s.reactors r ≠ .polling) (r' : ℕ) :
    ((s.setThread r t).reactors r').weight ≤ (s.reactors r').weight := by
  by_cases hr : r' = r
  · subst hr
    rw [reactors_setThread_self]
    have hbusy : (s.reactors r').weight = 1 := by
      cases hthread : s.reactors r' with
      | polling => exact absurd hthread hbefore
      | _ => rfl
    rw [hbusy]
    cases t <;> simp [Thread.weight]
  · rw [reactors_setThread_of_ne hr]

/-- A step makes the weight of its client smaller, and no thread gets more to do. -/
theorem weight_lt_of_concerns {a : ℕ} (h : Concerns handler.toHandler c s s') (hc : c < clients)
    (hown : (s'.sockets c).weight handler.cost (handler.left c s'.state) (s'.stage c) + a ≤
      (s.sockets c).weight handler.cost (handler.left c s.state) (s.stage c))
    (hthreads : ∀ r, (s'.reactors r).weight ≤ (s.reactors r).weight)
    (hlistener : s'.listener.weight < s.listener.weight + a) :
    weight handler clients reactors s' < weight handler clients reactors s := by
  have hclients := sum_add_le (b := 0)
    (fun c => (s.sockets c).weight handler.cost (handler.left c s.state) (s.stage c))
    (fun c => (s'.sockets c).weight handler.cost (handler.left c s'.state) (s'.stage c))
    (Finset.mem_range.mpr hc)
    (fun d hd => by rw [h.sockets d hd, h.stages d hd, left_of_elsewhere (h.states d hd)]) hown
  have hreactors : ∑ r ∈ Finset.range reactors, (s'.reactors r).weight ≤
      ∑ r ∈ Finset.range reactors, (s.reactors r).weight :=
    Finset.sum_le_sum fun r _ => hthreads r
  unfold weight
  omega

theorem stage_visiting (hI : Orderly s) (hthread : s.reactors r = .visiting (c :: waiting)) :
    s.stage c = .reported := by
  have hmem : c ∈ (s.reactors r).called := hthread ▸ List.mem_cons_self
  rw [stage_of_called hI hmem, hthread]
  exact if_pos List.mem_cons_self

/-- The weight of a client that a thread calls goes down, or it is called no more. -/
theorem weight_lt_of_called {move : Move} (hI : Orderly s) (hS : Sized clients reactors s)
    (h : Step handler.toHandler s move s') (hmove : s.client move = (s.reactors r).called.head?)
    (hcalled : (s.reactors r).called = c :: waiting)
    (hreactors : s'.reactors = Function.update s.reactors r t)
    (hlistener : s'.listener = s.listener)
    (hown : (s'.sockets c).weight handler.cost (handler.left c s'.state) (s'.stage c) + 1 ≤
      (s.sockets c).weight handler.cost (handler.left c s.state) (s.stage c)) :
    weight handler clients reactors s' < weight handler clients reactors s := by
  have hclient : s.client move = some c := by rw [hmove, hcalled, List.head?_cons]
  have hplace : (s.sockets c).place = .registered r := hI.called r c (hcalled ▸ List.mem_cons_self)
  have hbusy : s.reactors r ≠ .polling := by
    intro hpolling
    rw [hpolling] at hcalled
    exact absurd hcalled.symm (List.cons_ne_nil _ _)
  refine weight_lt_of_concerns (concerns_of_step hI h hclient)
    (hS.connected c (hplace ▸ Place.noConfusion)) hown ?_ ?_
  · rw [hreactors]
    exact weight_setThread hbusy
  · rw [hlistener]
    exact Nat.lt_succ_self _

/-- One reactor more is at work, and the reported clients make up for it. -/
theorem weight_poll {ready : List ℕ} (hS : Sized clients reactors s)
    (hthread : s.reactors r = .polling) (hready : ∀ c ∈ ready, s.Reports r c) (hsome : ready ≠ [])
    (hr : r < reactors) (hreactors : s'.reactors = Function.update s.reactors r (.visiting ready))
    (hsockets : s'.sockets = fun c => if c ∈ ready then (s.sockets c).report else s.sockets c)
    (hlistener : s'.listener = s.listener) (hstate : s'.state = s.state) :
    weight handler clients reactors s' < weight handler clients reactors s := by
  have hreported : ∀ d ∈ ready,
      (s'.sockets d).weight handler.cost (handler.left d s'.state) (s'.stage d) + 2 ≤
        (s.sockets d).weight handler.cost (handler.left d s.state) (s.stage d) := by
    intro d hd
    obtain ⟨hidle, hsocket, hstage⟩ := reported_poll hthread hready hreactors hsockets hd
    rw [hidle, hsocket, hstage, hstate]
    exact weight_report (hready d hd).2.1
  obtain ⟨c, hc⟩ := List.exists_mem_of_ne_nil ready hsome
  have hplace : (s.sockets c).place = .registered r := (hready c hc).1
  have hclients := sum_add_le (b := 0)
    (fun c => (s.sockets c).weight handler.cost (handler.left c s.state) (s.stage c))
    (fun c => (s'.sockets c).weight handler.cost (handler.left c s'.state) (s'.stage c))
    (Finset.mem_range.mpr (hS.connected c (hplace ▸ Place.noConfusion)))
    (fun d _ => by
      by_cases hd : d ∈ ready
      · exact (Nat.le_add_right _ 2).trans (hreported d hd)
      · obtain ⟨hsocket, hstage⟩ := kept_poll hthread hreactors hsockets hd
        rw [hsocket, hstage, hstate])
    (hreported c hc)
  have hthreads := sum_add_le (a := 0) (b := 1) (fun r => (s.reactors r).weight)
    (fun r => (s'.reactors r).weight) (Finset.mem_range.mpr hr)
    (fun r' hr' => by rw [hreactors, Function.update_of_ne hr'])
    (by rw [hreactors, Function.update_self, hthread]; rfl)
  unfold weight
  rw [hlistener]
  omega

theorem weight_again (hthread : s.reactors r = .visiting []) (hr : r < reactors) :
    weight handler clients reactors (s.setThread r .polling) <
      weight handler clients reactors s := by
  have hthreads := sum_add_le (a := 1) (b := 0) (fun r => (s.reactors r).weight)
    (fun r' => ((s.setThread r .polling).reactors r').weight) (Finset.mem_range.mpr hr)
    (fun r' hr' => by rw [reactors_setThread_of_ne hr'])
    (by rw [reactors_setThread_self, hthread]; rfl)
  unfold weight
  simp only [stage_again hthread]
  show ∑ c ∈ Finset.range clients, (s.sockets c).weight _ (handler.left c s.state) _ + _ +
    s.listener.weight < _
  omega

theorem weight_step (hI : Inv s) (hS : Sized clients reactors s)
    (h : Step handler.toHandler s move s') (hworks : move.Works) (hreactor : move.Of reactors) :
    weight handler clients reactors s' < weight handler clients reactors s := by
  have hI' : Orderly s' := orderly_step hI.orderly h
  have hstep := h
  cases h with
  | pollAcceptor hlistener =>
    show _ + _ + 0 < _ + _ + s.listener.weight
    rw [hlistener]
    exact Nat.lt_succ_self _
  | @accept c backlog hlistener hbacklog =>
    have hplace : (s.sockets c).place = .backlog := by
      rw [← hI.orderly.backlog, hbacklog]
      exact List.mem_cons_self
    have hclient : s.client .accept = some c := congrArg List.head? hbacklog
    refine weight_lt_of_concerns (a := 1)
      (concerns_of_step hI.orderly hstep hclient)
      (hS.connected c (hplace ▸ Place.noConfusion)) ?_ (fun _ => le_rfl) (Nat.succ_pos _)
    have hsocket : (s.setSocket c ((s.sockets c).moveTo .accepted)).sockets c =
        (s.sockets c).moveTo .accepted := sockets_setSocket_self
    rw [stage_of_not_registered (s := s) fun r => hplace ▸ Place.noConfusion,
      stage_of_not_registered fun r => ?_]
    · show ((s.setSocket c _).sockets c).weight _ _ _ + 1 ≤ _
      rw [hsocket]
      exact weight_accept hplace
    · show ((s.setSocket c _).sockets c).place ≠ _
      rw [hsocket]
      exact Place.noConfusion
  | @register c r hlistener =>
    have hplace : (s.sockets c).place = .accepted := (hI.orderly.accepted c).mp hlistener
    have hclient : s.client (.register r) = some c := by rw [Network.client, hlistener]
    refine weight_lt_of_concerns (a := 2)
      (concerns_of_step hI.orderly hstep hclient)
      (hS.connected c (hplace ▸ Place.noConfusion)) ?_ (fun _ => le_rfl) ?_
    · have hsocket : (s.setSocket c ((s.sockets c).register r)).sockets c =
          (s.sockets c).register r := sockets_setSocket_self
      obtain ⟨hidle, hidle'⟩ : s.stage c = .idle ∧ Network.stage
          { s.setSocket c ((s.sockets c).register r) with listener := .polling } c = .idle :=
        stage_register hI.orderly hlistener hsocket rfl
      rw [hidle, hidle']
      show ((s.setSocket c _).sockets c).weight _ _ _ + 2 ≤ _
      rw [hsocket]
      exact weight_register hplace
    · show 1 < s.listener.weight + 2
      omega
  | poll hthread _ hready => exact weight_poll hS hthread hready hworks hreactor rfl rfl rfl rfl
  | again hthread => exact weight_again hthread hreactor
  | @visit r c waiting outgoing hthread =>
    refine weight_lt_of_called hI.orderly hS hstep rfl (congrArg Thread.called hthread)
      rfl rfl ?_
    rw [stage_receiving hI' reactors_setThread_self, stage_visiting hI.orderly hthread]
    exact weight_visit
  | @received r c call waiting count n hn hthread hunread =>
    refine weight_lt_of_called hI.orderly hS hstep rfl
      (congrArg Thread.called hthread) rfl rfl ?_
    rw [stage_receiving hI' reactors_setThread_self, stage_receiving hI.orderly hthread]
    show ((s.setSocket c _).sockets c).weight _ _ _ + 1 ≤ _
    rw [sockets_setSocket_self]
    exact weight_received hn hunread
  | @ended r c call waiting count ending hthread hunread hending =>
    refine weight_lt_of_called hI.orderly hS hstep rfl
      (congrArg Thread.called hthread) rfl rfl ?_
    rw [stage_handling hI' reactors_setThread_self, stage_receiving hI.orderly hthread]
    show ((s.setSocket c _).sockets c).weight _ _ _ + 1 ≤ _
    rw [sockets_setSocket_self]
    refine weight_endCall ?_ (handler.arrive_le c _ s.state)
    rw [received_push, chunk_result, List.append_nil]
  | @drained r c call waiting count hthread hunread hopen =>
    refine weight_lt_of_called hI.orderly hS hstep rfl
      (congrArg Thread.called hthread) rfl rfl ?_
    rw [stage_handling hI' reactors_setThread_self, stage_receiving hI.orderly hthread]
    show ((s.setSocket c _).sockets c).weight _ _ _ + 1 ≤ _
    rw [sockets_setSocket_self]
    exact weight_endCall rfl (handler.arrive_le c _ s.state)
  | @handle r c waiting state hthread hreturned hstate =>
    refine weight_lt_of_called hI.orderly hS hstep rfl
      (congrArg Thread.called hthread) (Function.update_eq_self r s.reactors).symm rfl ?_
    rw [stage_handling hI' hthread, stage_handling hI.orderly hthread]
    exact weight_handle (handler.advance_lt c _ _ hreturned hstate)
  | @leave r c waiting hthread hreturned hdeleted =>
    refine weight_lt_of_called hI.orderly hS hstep rfl
      (congrArg Thread.called hthread) rfl rfl ?_
    obtain ⟨hmem, hnot⟩ := head_called hI.orderly (congrArg Thread.called hthread)
    have hidle : (s.setThread r (.visiting waiting)).stage c = .idle := by
      rw [stage_of_registered (s := s.setThread r _) (hI.orderly.called r c hmem),
        reactors_setThread_self]
      exact if_neg hnot
    rw [hidle, stage_handling hI.orderly hthread]
    exact weight_leave
  | @close r c waiting hthread hreturned hdeleted =>
    refine weight_lt_of_called hI.orderly hS hstep rfl
      (congrArg Thread.called hthread) rfl rfl ?_
    rw [stage_handling hI.orderly hthread, stage_of_not_registered fun r' => ?_]
    · rw [sockets_setSocket_self]
      exact weight_close
    · rw [sockets_setSocket_self]
      exact Place.noConfusion
  | connect => exact hworks.elim
  | send => exact hworks.elim
  | finish => exact hworks.elim
  | acceptFailed => exact hworks.elim
  | interrupted => exact absurd rfl hworks
  | expire => exact hworks.elim

/-- Where no reactor gets on, all of them wait in `epoll_wait`. -/
theorem polling_of_stuck (hS : Sized clients reactors s)
    (hstuck : ∀ move : Move, move.Of reactors → move.Works →
      s.step handler.toHandler move = some s) (r : ℕ) : s.reactors r = .polling := by
  by_contra hbusy
  have hr : r < reactors := hS.working r hbusy
  have hthread : ∀ {s' : Network σ}, some s' = some s → s'.reactors r = s.reactors r :=
    fun h => congrArg (fun s : Network σ => s.reactors r) (Option.some.inj h)
  cases hcase : s.reactors r with
  | polling => exact hbusy hcase
  | visiting waiting =>
    have hvisit := hstuck (.visit r []) hr True.intro
    cases waiting with
    | nil =>
      simp only [Network.step, hcase] at hvisit
      have hsame := hthread hvisit
      rw [reactors_setThread_self, hcase] at hsame
      exact Thread.noConfusion hsame
    | cons c waiting =>
      simp only [Network.step, hcase] at hvisit
      have hsame := hthread hvisit
      rw [reactors_setThread_self, hcase] at hsame
      exact Thread.noConfusion hsame
  | receiving c call waiting =>
    have hrecv := hstuck (.recv r (some 1)) hr (Option.some_ne_none 1)
    simp only [Network.step, hcase, Network.recv] at hrecv
    split at hrecv
    · have hsame := hthread hrecv
      rw [reactors_setThread_self, hcase] at hsame
      have hlength := congrArg (fun call => call.incoming.length) (Thread.receiving.inj hsame).2.1
      simp [RecvCall.push] at hlength
    · split at hrecv
      all_goals
        have hsame : Function.update s.reactors r (.handling c waiting) r = s.reactors r :=
          hthread hrecv
        rw [Function.update_self, hcase] at hsame
        exact Thread.noConfusion hsame
  | handling c waiting =>
    have hadvance := hstuck (.advance r) hr True.intro
    simp only [Network.step, hcase] at hadvance
    split at hadvance
    · split at hadvance
      all_goals
        have hsame : Function.update s.reactors r (.visiting waiting) r = s.reactors r :=
          hthread hadvance
        rw [Function.update_self, hcase] at hsame
        exact Thread.noConfusion hsame
    · next hreturned =>
      -- the handler has not come to the same state
      obtain ⟨state, hstate, hsame⟩ := Option.map_eq_some_iff.mp hadvance
      have hlt := handler.advance_lt c s.state state (Bool.eq_false_iff.mpr hreturned) hstate
      rw [← congrArg Network.state hsame] at hlt
      exact lt_irrefl _ hlt

/-- Where the server does not get on, everybody waits in `epoll_wait`. -/
theorem quiet_of_stuck (hS : Sized clients reactors s) (hreactors : 0 < reactors)
    (hstuck : ∀ move : Move, move.Of reactors → move.Works →
      s.step handler.toHandler move = some s) : s.Quiet := by
  have hsame : ∀ {s' : Network σ}, some s' = some s → s'.listener = s.listener :=
    fun h => congrArg Network.listener (Option.some.inj h)
  have hpolling : ∀ r, s.reactors r = .polling := polling_of_stuck hS hstuck
  have hlistener : s.listener = .polling := by
    cases hcase : s.listener with
    | polling => rfl
    | accepting =>
      obtain ⟨c, backlog, hbacklog⟩ := List.exists_cons_of_ne_nil (hS.accepting hcase)
      have haccept := hstuck .accept True.intro True.intro
      simp only [Network.step, hcase, hbacklog] at haccept
      exact Listener.noConfusion ((hsame haccept).trans hcase)
    | accepted c =>
      have hregister := hstuck (.register 0) hreactors True.intro
      simp only [Network.step, hcase] at hregister
      exact Listener.noConfusion ((hsame hregister).trans hcase)
  refine ⟨hlistener, ?_, hpolling, fun r c hreports => ?_⟩
  · by_contra hbacklog
    have hpoll := hstuck .pollAcceptor True.intro True.intro
    simp only [Network.step, if_pos (And.intro hlistener hbacklog)] at hpoll
    exact Listener.noConfusion ((hsame hpoll).trans hlistener)
  · have hpoll := hstuck (.poll r [c]) (hS.registered c r hreports.1) (List.cons_ne_nil c [])
    have hguard : s.reactors r = .polling ∧ [c].Nodup ∧ ∀ d ∈ [c], s.Reports r d :=
      ⟨hpolling r, List.nodup_singleton c, List.forall_mem_singleton.mpr hreports⟩
    simp only [Network.step, if_pos hguard] at hpoll
    have hthread := congrArg (fun s : Network σ => s.reactors r) (Option.some.inj hpoll)
    have hvisiting : (s.setThread r (.visiting [c])).reactors r = s.reactors r := hthread
    rw [reactors_setThread_self, hpolling r] at hvisiting
    exact Thread.noConfusion hvisiting

end server

/-! ### Runs -/

section run

variable {handler : FiniteHandler σ} {o : Option (Network σ)} {move : Move}

theorem next_settled (handler : Handler σ) (h : Settled clients reactors o)
    (hreactor : move.Of reactors) (hclient : ∀ c, move = .connect c → c < clients) :
    Settled clients reactors (next handler o move) := by
  intro s' hs'
  have hI' : Inv s' := next_inv handler (fun s hs => (h s hs).1) move s' hs'
  obtain ⟨s, hs, hstep⟩ := Option.bind_eq_some_iff.mp hs'
  obtain ⟨hI, hS⟩ := h s hs
  rcases step_cases handler s move with ⟨r, c, waiting, rfl, hthread, hreturned, hnone⟩ |
    ⟨s'', hs'', hcases⟩
  · simp [Network.step, hthread, hreturned, hnone] at hstep
  · obtain rfl : s'' = s' := Option.some.inj (hs''.symm.trans hstep)
    rcases hcases with rfl | hcases
    · exact ⟨hI, hS⟩
    · exact ⟨hI', sized_step hI.orderly hS hcases hreactor hclient⟩

/-- A step of the server ends the process, or it is one of `Step`. -/
theorem working_cases {handler : Handler σ} (h : Working handler reactors o move) :
    ∃ s, o = some s ∧ (next handler o move = none ∨
      ∃ s', next handler o move = some s' ∧ Step handler s move s') := by
  obtain ⟨-, -, hdiffers⟩ := h
  cases o with
  | none => exact absurd rfl hdiffers
  | some s =>
    refine ⟨s, rfl, ?_⟩
    rcases step_cases handler s move with ⟨r, c, waiting, rfl, hthread, hreturned, hnone⟩ |
      ⟨s', hs', hcases⟩
    · exact .inl (by simp [next, Network.step, hthread, hreturned, hnone])
    · rcases hcases with rfl | hcases
      · exact absurd hs' hdiffers
      · exact .inr ⟨s', hs', hcases⟩

theorem not_connect_of_works (h : move.Works) (hconnect : move = .connect c) : c < clients := by
  subst hconnect
  exact h.elim

theorem working_settled {handler : Handler σ} (h : Settled clients reactors o)
    (hworking : Working handler reactors o move) :
    Settled clients reactors (next handler o move) :=
  next_settled handler h hworking.1 fun _ => not_connect_of_works hworking.2.1

theorem working_weight (handler : FiniteHandler σ) (h : Settled clients reactors o)
    (hworking : Working handler.toHandler reactors o move) :
    weightOf handler clients reactors (next handler.toHandler o move) <
      weightOf handler clients reactors o := by
  obtain ⟨s, rfl, hcases⟩ := working_cases hworking
  rcases hcases with hnone | ⟨s', hsome, hstep⟩
  · rw [hnone]
    exact Nat.succ_pos _
  · rw [hsome]
    obtain ⟨hI, hS⟩ := h s rfl
    exact Nat.succ_lt_succ (weight_step hI hS hstep hworking.2.1 hworking.1)

theorem quiet_of_rested (handler : FiniteHandler σ) (h : Settled clients reactors o)
    (hreactors : 0 < reactors) (hrested : Rested handler.toHandler reactors o) :
    ∀ s ∈ o, s.Quiet := by
  rintro s rfl
  have hstuck : ∀ move : Move, move.Of reactors → move.Works →
      s.step handler.toHandler move = some s := by
    intro move hreactor hworks
    by_contra hdiffers
    exact hrested move ⟨hreactor, hworks, hdiffers⟩
  exact quiet_of_stuck (h s rfl).2 hreactors hstuck

/-- Finitely many clients connect in a run. -/
theorem exists_clients (moves : List Move) :
    ∃ clients, ∀ move ∈ moves, ∀ c, move = .connect c → c < clients := by
  induction moves with
  | nil => exact ⟨0, fun _ hmove => absurd hmove List.not_mem_nil⟩
  | cons move moves ih =>
    obtain ⟨clients, hclients⟩ := ih
    obtain ⟨first, hfirst⟩ : ∃ first, ∀ c, move = .connect c → c < first := by
      cases move with
      | connect c => exact ⟨c + 1, by rintro _ ⟨rfl⟩; exact Nat.lt_succ_self c⟩
      | _ => exact ⟨0, fun _ hconnect => Move.noConfusion hconnect⟩
    refine ⟨max first clients, List.forall_mem_cons.mpr ⟨fun c hc => ?_, fun m hm c hc => ?_⟩⟩
    · exact lt_max_of_lt_left (hfirst c hc)
    · exact lt_max_of_lt_right (hclients m hm c hc)

theorem settled_run (handler : Handler σ) (state : σ) {moves : List Move}
    (hreactors : ∀ move ∈ moves, move.Of reactors) :
    ∃ clients, Settled clients reactors (run (next handler) (some (Network.new state)) moves) := by
  obtain ⟨clients, hclients⟩ := exists_clients moves
  refine ⟨clients, run_of_along (P := fun _ move => move.Of reactors ∧
    ∀ c, move = .connect c → c < clients)
    (fun _ _ h hmove => next_settled handler h hmove.1 hmove.2) ?_
    (along_iff_forall.mpr fun move hmove => ⟨hreactors move hmove, hclients move hmove⟩)⟩
  rintro _ ⟨rfl⟩
  exact ⟨inv_new state, sized_new state⟩

/-- The server does not get on for ever. -/
theorem working_ends (handler : FiniteHandler σ) (h : Settled clients reactors o) :
    let step := next handler.toHandler
    let working := Working handler.toHandler reactors
    (∃ bound, ∀ later, Along step working o later → later.length ≤ bound) ∧
      ∃ later, Along step working o later ∧
        Rested handler.toHandler reactors (run step o later) := by
  intro step working
  have hkeep : ∀ o move, Settled clients reactors o → working o move →
      Settled clients reactors (step o move) := fun _ _ => working_settled
  have hweight : ∀ o move, Settled clients reactors o → working o move →
      weightOf handler clients reactors (step o move) < weightOf handler clients reactors o :=
    fun _ _ => working_weight handler
  exact ⟨⟨_, fun later hlater => length_le_of_along hkeep hweight h hlater⟩,
    exists_along_end hkeep hweight h⟩

/-- What a reactor gets to visit does not depend on what `send` is going to answer. -/
theorem rested_of_not_delivering {handler : Handler σ}
    (h : ∀ move, ¬ Delivering handler reactors o move) : Rested handler reactors o := by
  intro move hworking
  cases move with
  | visit r outgoing =>
    obtain ⟨hreactor, hworks, hdiffers⟩ := hworking
    refine h (.visit r []) ⟨⟨hreactor, hworks, ?_⟩, fun _ hx => absurd hx List.not_mem_nil⟩
    obtain ⟨s, rfl, -⟩ := working_cases ⟨hreactor, hworks, hdiffers⟩
    cases hthread : s.reactors r with
    | visiting waiting =>
      cases waiting with
      | nil => simpa [next, Network.step, hthread] using hdiffers
      | cons c waiting =>
        intro hsame
        simp only [next, Network.step, hthread, Option.bind_some] at hsame
        have hreceiving := congrArg (fun s : Network σ => s.reactors r) (Option.some.inj hsame)
        rw [reactors_setThread_self, hthread] at hreceiving
        exact Thread.noConfusion hreceiving
    | _ => exact absurd (by simp [next, Network.step, hthread]) hdiffers
  | _ => exact h _ ⟨hworking, True.intro⟩

/-- The server does not get on for ever, also when no `send` fails for good. -/
theorem delivering_ends (handler : FiniteHandler σ) (h : Settled clients reactors o) :
    let step := next handler.toHandler
    let delivering := Delivering handler.toHandler reactors
    (∃ bound, ∀ later, Along step delivering o later → later.length ≤ bound) ∧
      ∃ later, Along step delivering o later ∧
        Rested handler.toHandler reactors (run step o later) := by
  intro step delivering
  obtain ⟨⟨bound, hbound⟩, -⟩ := working_ends handler h
  refine ⟨⟨bound, fun later hlater => hbound later (hlater.imp fun _ _ => And.left)⟩, ?_⟩
  obtain ⟨later, hlater, hend⟩ := exists_along_end (P := delivering)
    (fun _ _ h hmove => working_settled h hmove.1)
    (fun _ _ h hmove => working_weight handler h hmove.1) h
  exact ⟨later, hlater, rested_of_not_delivering hend⟩

/-- The rule for a handler that does not end the process: an invariant of the steps of the server is
there in the end, where nothing has come since from the clients. -/
theorem rests (handler : FiniteHandler σ) {J : Network σ → Prop} (hreactors : 0 < reactors)
    (hsettled : Settled clients reactors (some s)) (hJ : J s)
    (hkeep : ∀ s move, J s → Delivering handler.toHandler reactors (some s) move →
      (∀ s' ∈ next handler.toHandler (some s) move, ∀ c, (s'.sockets c).sent = (s.sockets c).sent) →
      ∃ s', next handler.toHandler (some s) move = some s' ∧ J s') :
    let step := next handler.toHandler
    let delivering := Delivering handler.toHandler reactors
    (∃ bound, ∀ later, Along step delivering (some s) later → later.length ≤ bound) ∧
    (∃ later, Along step delivering (some s) later ∧
      Rested handler.toHandler reactors (run step (some s) later)) ∧
    ∀ later, Along step delivering (some s) later →
      Rested handler.toHandler reactors (run step (some s) later) →
      ∃ s', run step (some s) later = some s' ∧ J s' ∧ s'.Quiet ∧ (∀ c, s'.HeardOut c) ∧
        ∀ c, (s'.sockets c).sent = (s.sockets c).sent := by
  intro step delivering
  have hsent : ∀ o move, delivering o move → ∀ s' ∈ step o move, ∀ s ∈ o, ∀ c,
      (s'.sockets c).sent = (s.sockets c).sent := by
    rintro o move ⟨hworking, -⟩ s' hs' s rfl
    obtain ⟨_, hs, hcases⟩ := working_cases hworking
    cases hs
    rcases hcases with hnone | ⟨s₁, hs₁, hstep⟩
    · exact absurd (hs'.symm.trans hnone) (Option.some_ne_none s')
    · obtain rfl : s₁ = s' := Option.some.inj (hs₁.symm.trans hs')
      exact sent_step hstep hworking.2.1
  obtain ⟨hbound, hexists⟩ := delivering_ends handler hsettled
  refine ⟨hbound, hexists, fun later hlater hrested => ?_⟩
  have hend : Settled clients reactors (run step (some s) later) :=
    run_of_along (fun _ _ h hmove => working_settled h hmove.1) hsettled hlater
  obtain ⟨s', hs', hJ', hsame⟩ : ∃ s', run step (some s) later = some s' ∧ J s' ∧
      ∀ c, (s'.sockets c).sent = (s.sockets c).sent := by
    refine run_of_along (I := fun o => ∃ s', o = some s' ∧ J s' ∧
      ∀ c, (s'.sockets c).sent = (s.sockets c).sent) ?_ ⟨s, rfl, hJ, fun _ => rfl⟩ hlater
    rintro _ move ⟨s₁, rfl, hJ₁, hsame⟩ hmove
    obtain ⟨s₂, hs₂, hJ₂⟩ := hkeep s₁ move hJ₁ hmove
      fun s₂ hs₂ => hsent _ move hmove s₂ hs₂ s₁ rfl
    exact ⟨s₂, hs₂, hJ₂, fun c => (hsent _ move hmove s₂ hs₂ s₁ rfl c).trans (hsame c)⟩
  have hquiet : s'.Quiet := quiet_of_rested handler hend hreactors hrested s' hs'
  exact ⟨s', hs', hJ', hquiet, heardOut_of_quiet (hend s' hs').1 hquiet, hsame⟩

end run

end EdgeTriggerLemmas

open EdgeTriggerLemmas

/-! ## 3. Runs -/

/-- After any run there is a bound for the steps in which the server gets on when the clients fall
silent, in whatever order its threads make them; and it gets to a state in which it has nothing to
do. Every such state is quiet, and all clients have been heard out, unless the process has ended. -/
theorem quiet_in_the_end (handler : FiniteHandler σ) {reactors : ℕ} (hreactors : 0 < reactors)
    (state : σ) (moves : List Move) (hmoves : ∀ move ∈ moves, move.Of reactors) :
    let step := next handler.toHandler
    let o := run step (some (Network.new state)) moves
    (∃ bound, ∀ later, Along step (Working handler.toHandler reactors) o later →
      later.length ≤ bound) ∧
    (∃ later, Along step (Working handler.toHandler reactors) o later ∧
      Rested handler.toHandler reactors (run step o later)) ∧
    ∀ later, Along step (Working handler.toHandler reactors) o later →
      Rested handler.toHandler reactors (run step o later) →
      ∀ s ∈ run step o later, s.Quiet ∧ ∀ c, s.HeardOut c := by
  intro step o
  obtain ⟨clients, hsettled⟩ := settled_run handler.toHandler state hmoves
  obtain ⟨hbound, hexists⟩ := working_ends handler hsettled
  refine ⟨hbound, hexists, fun later hlater hrested s hs => ?_⟩
  have hend : Settled clients reactors (run step o later) :=
    run_of_along (fun _ _ => working_settled) hsettled hlater
  have hquiet : s.Quiet := quiet_of_rested handler hend hreactors hrested s hs
  exact ⟨hquiet, heardOut_of_quiet (hend s hs).1 hquiet⟩

/-- A callback that handles one by one the bytes that `Recv` has read. -/
def byteByByte : FiniteHandler (ℕ → ℕ) where
  arrive c call unhandled :=
    Function.update unhandled c (unhandled c + (received call.incoming).length)
  advance c unhandled := some (Function.update unhandled c (unhandled c - 1))
  returned c unhandled := decide (unhandled c = 0)
  deleted _ _ := false
  cost := 1
  left c unhandled := unhandled c
  arrive_le c call unhandled := by
    rw [Function.update_self]
    omega
  advance_lt := by
    rintro c unhandled _ hreturned ⟨⟩
    have hleft : unhandled c ≠ 0 := of_decide_eq_false hreturned
    rw [Function.update_self]
    exact Nat.sub_lt (Nat.pos_of_ne_zero hleft) Nat.one_pos
  arrive_of_ne _ _ _ _ hne := Function.update_of_ne hne _ _
  advance_of_ne := by
    rintro _ _ _ _ hne ⟨⟩
    exact Function.update_of_ne hne _ _

/-- One client and one reactor, in the middle of the callback: the first of three bytes is handled, and
another one has come. -/
def threeBytes : List Move :=
  [.connect 0, .send 0 [71, 69, 84], .pollAcceptor, .accept, .register 0, .poll 0 [0], .visit 0 [],
    .recv 0 (some (Nat.succPNat 2)), .recv 0 (some (Nat.succPNat 0)), .advance 0, .send 0 [32]]

theorem byteByByte_quiet_in_the_end :
    let step := next byteByByte.toHandler
    let o := run step (some (Network.new fun _ => 0)) threeBytes
    (∃ bound, ∀ later, Along step (Working byteByByte.toHandler 1) o later →
      later.length ≤ bound) ∧
    (∃ later, Along step (Working byteByByte.toHandler 1) o later ∧
      Rested byteByByte.toHandler 1 (run step o later)) ∧
    ∀ later, Along step (Working byteByByte.toHandler 1) o later →
      Rested byteByByte.toHandler 1 (run step o later) →
      ∀ s ∈ run step o later, s.Quiet ∧ ∀ c, s.HeardOut c :=
  quiet_in_the_end byteByByte (by decide) (fun _ => 0) threeBytes (by simp [threeBytes, Move.Of])

end TurtleServer.EdgeTrigger
