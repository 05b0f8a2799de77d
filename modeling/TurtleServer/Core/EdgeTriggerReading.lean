import TurtleServer.Core.EdgeTrigger

/-!
# No byte is left unread

Whatever the handler does after `Recv`: what a client has sent and `recv` has not taken yet is not
forgotten. The socket is on the ready list, or its reactor is going to call `recv` for it before the
next `epoll_wait` (`Watched.noticed`). So where everybody waits in `epoll_wait`, all bytes of all
clients have gone to the handler, in order, and every client that has connected is registered
(`all_read_when_quiet`).

The proof looks at one client at a time: `local_of_step` says what a step does to its socket and to
the place of its reactor (`Local`), and `watched_of_local` is the invariant of that.
-/

namespace TurtleServer.EdgeTrigger

open Lib Network

variable {σ : Type}

/-! ## 1. One client -/

/-- Where its reactor stands with a client: not concerned with it, told by `Poll` about it, inside
`Recv` for it, or in the rest of the handler for it. -/
inductive Stage
  | idle
  | reported
  | receiving (call : RecvCall)
  | handling
deriving DecidableEq, Repr

/-- There will be a call of `recv` before the next `epoll_wait`. -/
def Stage.Reads : Stage → Prop
  | .reported => True
  | .receiving _ => True
  | _ => False

def Thread.stage (c : ℕ) : Thread → Stage
  | .polling => .idle
  | .visiting waiting => if c ∈ waiting then .reported else .idle
  | .receiving c' call waiting =>
    if c = c' then .receiving call else if c ∈ waiting then .reported else .idle
  | .handling c' waiting =>
    if c = c' then .handling else if c ∈ waiting then .reported else .idle

def Network.stage (s : Network σ) (c : ℕ) : Stage :=
  match (s.sockets c).place with
  | .registered r => (s.reactors r).stage c
  | _ => .idle

/-- There are bytes in the socket, or an ending that `recv` has not told yet. -/
def ClientSocket.Due (k : ClientSocket) : Prop :=
  k.unread ≠ [] ∨ k.ending.isSome = true ∧ k.told = false

/-- The bytes that the calls of `Recv` have taken. -/
def ClientSocket.taken (k : ClientSocket) : Bytes :=
  k.calls.flatMap fun call => received call.incoming

/-- The bytes that the call of `Recv` under way has taken. -/
def Stage.taken : Stage → Bytes
  | .receiving call => received call.incoming
  | _ => []

/-- No bytes get lost between the socket and the handler. -/
structure Watched (k : ClientSocket) (stage : Stage) : Prop where
  noticed : ∀ r, k.place = .registered r → k.Due → k.edge = true ∨ stage.Reads
  bytes : k.sent = k.taken ++ stage.taken ++ k.unread
  clean : k.ending = none → ∀ call ∈ k.calls, ∀ x ∈ call.incoming, x.Clean
  receiving : ∀ call, stage = .receiving call → ∀ x ∈ call.incoming, x.Clean

section handler

variable (handler : Handler σ) (c : ℕ)

/-- What the handler may do for others than client `c`. -/
inductive Elsewhere : σ → σ → Prop
  | nothing {x : σ} : Elsewhere x x
  | arrive {x : σ} {d : ℕ} {call : RecvCall} (hd : d ≠ c) : Elsewhere x (handler.arrive d call x)
  | advance {x x' : σ} {d : ℕ} (hd : d ≠ c) (hstate : handler.advance d x = some x') :
    Elsewhere x x'

/-- What a step may do to client `c`, with its socket, its stage and the states of the handler. -/
inductive Local : σ → ClientSocket → Stage → σ → ClientSocket → Stage → Prop
  | same {x x' : σ} {k : ClientSocket} {stage : Stage} (helsewhere : Elsewhere handler c x x') :
    Local x k stage x' k stage
  | handle {x x' : σ} {k : ClientSocket} (hreturned : handler.returned c x = false)
      (hstate : handler.advance c x = some x') : Local x k .handling x' k .handling
  | move {x : σ} {k : ClientSocket} {place : Place} (hbefore : k.place ≠ .closed)
      (hplace : ∀ r, place ≠ .registered r) (hafter : place ≠ .closed) :
    Local x k .idle x (k.moveTo place) .idle
  | deliver {x : σ} {k : ClientSocket} {stage : Stage} {chunk : Bytes} :
    Local x k stage x (k.deliver chunk) stage
  | finish {x : σ} {k : ClientSocket} {stage : Stage} {ending : Ending} :
    Local x k stage x (k.finish ending) stage
  | register {x : σ} {k : ClientSocket} {r : ℕ} (hplace : k.place ≠ .closed) :
    Local x k .idle x (k.register r) .idle
  | report {x : σ} {k : ClientSocket} : Local x k .idle x k.report .reported
  | visit {x : σ} {k : ClientSocket} {outgoing : List SendResult} :
    Local x k .reported x k (.receiving ⟨[], outgoing⟩)
  | interrupted {x : σ} {k : ClientSocket} {call : RecvCall} :
    Local x k (.receiving call) x k (.receiving (call.push (.failed .eintr)))
  | received {x : σ} {k : ClientSocket} {call : RecvCall} {n : ℕ} (hn : 0 < n)
      (hunread : k.unread ≠ []) :
    Local x k (.receiving call) x (k.take n)
      (.receiving (call.push (.received (k.unread.take n))))
  | ended {x : σ} {k : ClientSocket} {call : RecvCall} {ending : Ending} (hunread : k.unread = [])
      (hending : k.ending = some ending) :
    Local x k (.receiving call) (handler.arrive c (call.push ending.result) x)
      (k.endCall (call.push ending.result)) .handling
  | drained {x : σ} {k : ClientSocket} {call : RecvCall} (hunread : k.unread = [])
      (hopen : k.ending = none) :
    Local x k (.receiving call) (handler.arrive c call x) (k.endCall call) .handling
  | leave {x : σ} {k : ClientSocket} (hreturned : handler.returned c x = true)
      (hdeleted : handler.deleted c x = false) : Local x k .handling x k .idle
  | close {x : σ} {k : ClientSocket} (hreturned : handler.returned c x = true)
      (hdeleted : handler.deleted c x = true) : Local x k .handling x (k.moveTo .closed) .idle

end handler

namespace EdgeTriggerLemmas

variable {handler : Handler σ} {c : ℕ} {x x' : σ} {k k' : ClientSocket} {stage stage' : Stage}
  {call : RecvCall}

/-! ### Calls of `Recv` -/

theorem received_push (call : RecvCall) (x : RecvResult) :
    received (call.push x).incoming = received call.incoming ++ x.chunk := by
  simp [RecvCall.push, received]

theorem clean_push {x : RecvResult} (h : ∀ y ∈ call.incoming, y.Clean) (hx : x.Clean) :
    ∀ y ∈ (call.push x).incoming, y.Clean := by
  intro y hy
  rcases List.mem_append.mp hy with hy | hy
  · exact h y hy
  · rw [List.mem_singleton.mp hy]
    exact hx

theorem chunk_result (ending : Ending) : ending.result.chunk = [] := by
  cases ending <;> rfl

theorem taken_endCall (k : ClientSocket) (call : RecvCall) :
    (k.endCall call).taken = k.taken ++ received call.incoming := by
  simp [ClientSocket.endCall, ClientSocket.taken]

theorem Stage.taken_receiving : (Stage.receiving call).taken = received call.incoming := rfl

theorem readable_of_due (h : k.Due) : k.readable = true := by
  unfold ClientSocket.readable
  rcases h with hunread | ⟨hending, -⟩
  · rw [Bool.or_eq_true]
    exact .inl (by simpa using hunread)
  · rw [hending, Bool.or_true]

/-- The invariant of a client. -/
theorem watched_of_local (h : Watched k stage)
    (hlocal : Local handler c x k stage x' k' stage') : Watched k' stage' := by
  cases hlocal with
  | same => exact h
  | handle => exact h
  | move _ hplace => exact ⟨fun r hr => absurd hr (hplace r), h.bytes, h.clean, h.receiving⟩
  | deliver =>
    refine ⟨fun _ _ _ => .inl rfl, ?_, h.clean, h.receiving⟩
    show k.sent ++ _ = k.taken ++ stage.taken ++ (k.unread ++ _)
    rw [h.bytes, List.append_assoc]
  | finish =>
    exact ⟨fun _ _ _ => .inl rfl, h.bytes, fun hopen => absurd hopen (Option.some_ne_none _),
      h.receiving⟩
  | register =>
    exact ⟨fun _ _ hdue => .inl (readable_of_due hdue), h.bytes, h.clean, h.receiving⟩
  | report =>
    exact ⟨fun _ _ _ => .inr True.intro, h.bytes, h.clean, fun _ hcall => Stage.noConfusion hcall⟩
  | visit =>
    refine ⟨fun _ _ _ => .inr True.intro, h.bytes, h.clean, ?_⟩
    rintro _ ⟨rfl⟩ x hx
    exact absurd hx List.not_mem_nil
  | interrupted =>
    refine ⟨fun _ _ _ => .inr True.intro, ?_, h.clean, ?_⟩
    · rw [h.bytes, Stage.taken_receiving, Stage.taken_receiving, received_push, RecvResult.chunk,
        List.append_nil]
    · rintro _ ⟨rfl⟩
      exact clean_push (h.receiving _ rfl) rfl
  | @received _ call n hn hunread =>
    refine ⟨fun _ _ _ => .inr True.intro, ?_, h.clean, ?_⟩
    · show k.sent = k.taken ++ _ ++ k.unread.drop n
      rw [h.bytes, Stage.taken_receiving, Stage.taken_receiving, received_push, RecvResult.chunk,
        List.append_assoc, List.append_assoc, List.append_assoc, List.take_append_drop]
    · rintro _ ⟨rfl⟩
      refine clean_push (h.receiving _ rfl) ?_
      show k.unread.take n ≠ []
      rw [Ne, List.take_eq_nil_iff]
      exact not_or.mpr ⟨hn.ne', hunread⟩
  | @ended _ call ending hunread hending =>
    refine ⟨fun _ _ hdue => ?_, ?_, fun hopen => ?_, fun _ hcall => Stage.noConfusion hcall⟩
    · rcases hdue with hdue | ⟨-, htold⟩
      · exact absurd hunread hdue
      · have htold' : (k.told || k.ending.isSome) = false := htold
        rw [hending, Option.isSome_some, Bool.or_true] at htold'
        exact absurd htold'.symm Bool.false_ne_true
    · rw [taken_endCall, received_push, chunk_result]
      show k.sent = _ ++ [] ++ k.unread
      rw [h.bytes, Stage.taken_receiving, List.append_nil, List.append_nil]
    · have hnone : k.ending = none := hopen
      exact absurd (hending.symm.trans hnone) (Option.some_ne_none _)
  | @drained _ call hunread hopen =>
    refine ⟨fun _ _ hdue => ?_, ?_, fun _ => ?_, fun _ hcall => Stage.noConfusion hcall⟩
    · rcases hdue with hdue | ⟨hending, -⟩
      · exact absurd hunread hdue
      · have hsome : k.ending.isSome = true := hending
        rw [hopen] at hsome
        exact absurd hsome Bool.false_ne_true
    · rw [taken_endCall]
      show k.sent = _ ++ [] ++ k.unread
      rw [h.bytes, Stage.taken_receiving, List.append_nil]
    · exact List.forall_mem_append.mpr
        ⟨h.clean hopen, List.forall_mem_singleton.mpr (h.receiving _ rfl)⟩
  | leave =>
    exact ⟨fun r hr hdue => (h.noticed r hr hdue).imp_right False.elim, h.bytes, h.clean,
      fun _ hcall => Stage.noConfusion hcall⟩
  | close =>
    exact ⟨fun _ hr => Place.noConfusion hr, h.bytes, h.clean,
      fun _ hcall => Stage.noConfusion hcall⟩

end EdgeTriggerLemmas

/-! ## 2. The server -/

/-- What happens to client `c` between two states. -/
def LocalAt (handler : Handler σ) (c : ℕ) (s s' : Network σ) : Prop :=
  Local handler c s.state (s.sockets c) (s.stage c) s'.state (s'.sockets c) (s'.stage c)

/-- A step that concerns no other client than `c`. -/
structure Concerns (handler : Handler σ) (c : ℕ) (s s' : Network σ) : Prop where
  sockets : ∀ d ≠ c, s'.sockets d = s.sockets d
  stages : ∀ d ≠ c, s'.stage d = s.stage d
  states : ∀ d ≠ c, Elsewhere handler d s.state s'.state
  own : LocalAt handler c s s'

/-- The clients that the thread is to call, and the one that it calls. -/
def Thread.called : Thread → List ℕ
  | .polling => []
  | .visiting waiting => waiting
  | .receiving c _ waiting => c :: waiting
  | .handling c waiting => c :: waiting

/-- The client that a step is about, if it is about one. -/
def Network.client (s : Network σ) : Move → Option ℕ
  | .connect c => some c
  | .send c _ => some c
  | .finish c _ => some c
  | .accept => s.backlog.head?
  | .register _ =>
    match s.listener with
    | .accepted c => some c
    | _ => none
  | .visit r _ => (s.reactors r).called.head?
  | .recv r _ => (s.reactors r).called.head?
  | .advance r => (s.reactors r).called.head?
  | .expire _ c => some c
  | _ => none

/-- Every client is in one place only: a reactor calls its own clients, each once, and the listener
has the backlog and one connection at most. -/
structure Orderly (s : Network σ) : Prop where
  called : ∀ r, ∀ c ∈ (s.reactors r).called, (s.sockets c).place = .registered r
  distinct : ∀ r, (s.reactors r).called.Nodup
  backlog : ∀ c, c ∈ s.backlog ↔ (s.sockets c).place = .backlog
  backlogDistinct : s.backlog.Nodup
  accepted : ∀ c, s.listener = .accepted c ↔ (s.sockets c).place = .accepted

namespace EdgeTriggerLemmas

variable {handler : Handler σ} {s s' : Network σ} {move : Move} {c d r r' : ℕ} {t : Thread}
  {k : ClientSocket}

@[simp] theorem sockets_setSocket_self : (s.setSocket c k).sockets c = k := Function.update_self ..

theorem sockets_setSocket_of_ne (h : d ≠ c) : (s.setSocket c k).sockets d = s.sockets d :=
  Function.update_of_ne h ..

@[simp] theorem reactors_setThread_self : (s.setThread r t).reactors r = t :=
  Function.update_self ..

theorem reactors_setThread_of_ne (h : r' ≠ r) : (s.setThread r t).reactors r' = s.reactors r' :=
  Function.update_of_ne h ..

theorem stage_of_registered (h : (s.sockets c).place = .registered r) :
    s.stage c = (s.reactors r).stage c := by
  rw [Network.stage, h]

theorem stage_of_not_registered (h : ∀ r, (s.sockets c).place ≠ .registered r) :
    s.stage c = .idle := by
  unfold Network.stage
  split
  · next r hr => exact absurd hr (h r)
  · rfl

theorem registered_of_stage (h : s.stage c ≠ .idle) : ∃ r, (s.sockets c).place = .registered r := by
  unfold Network.stage at h
  split at h
  · next r hr => exact ⟨r, hr⟩
  · exact absurd rfl h

/-- A thread is not concerned with the clients that it does not call. -/
theorem stage_of_not_called (h : c ∉ t.called) : t.stage c = .idle := by
  cases t with
  | polling => rfl
  | visiting waiting => exact if_neg h
  | receiving c' call waiting =>
    obtain ⟨hne, hnot⟩ := not_or.mp (List.mem_cons.not.mp h)
    rw [Thread.stage, if_neg hne, if_neg hnot]
  | handling c' waiting =>
    obtain ⟨hne, hnot⟩ := not_or.mp (List.mem_cons.not.mp h)
    rw [Thread.stage, if_neg hne, if_neg hnot]

/-- The stage of a client depends on its place and on the thread of its reactor. -/
theorem stage_congr (hplace : (s'.sockets c).place = (s.sockets c).place)
    (hthread : ∀ r, (s.sockets c).place = .registered r →
      (s'.reactors r).stage c = (s.reactors r).stage c) : s'.stage c = s.stage c := by
  unfold Network.stage
  rw [hplace]
  split
  · next r hr => exact hthread r hr
  · rfl

theorem stage_setThread (h : t.stage d = (s.reactors r).stage d) (r' : ℕ) :
    ((s.setThread r t).reactors r').stage d = (s.reactors r').stage d := by
  by_cases hr : r' = r
  · subst hr
    rw [reactors_setThread_self, h]
  · rw [reactors_setThread_of_ne hr]

/-- A step that concerns one client. -/
theorem concerns_of_frame (c : ℕ) (hsockets : ∀ d ≠ c, s'.sockets d = s.sockets d)
    (hreactors : ∀ d ≠ c, ∀ r, (s'.reactors r).stage d = (s.reactors r).stage d)
    (hstate : ∀ d ≠ c, Elsewhere handler d s.state s'.state) (hown : LocalAt handler c s s') :
    Concerns handler c s s' where
  sockets := hsockets
  stages d hd := stage_congr (congrArg _ (hsockets d hd)) fun r _ => hreactors d hd r
  states := hstate
  own := hown

theorem local_of_concerns (h : Concerns handler c s s') (d : ℕ) : LocalAt handler d s s' := by
  by_cases hd : d = c
  · subst hd
    exact h.own
  · unfold LocalAt
    rw [h.sockets d hd, h.stages d hd]
    exact .same (h.states d hd)

/-- The client that a thread calls is a client of its reactor. -/
theorem stage_of_called (hI : Orderly s) (h : c ∈ (s.reactors r).called) :
    s.stage c = (s.reactors r).stage c := stage_of_registered (hI.called r c h)

theorem stage_receiving (hI : Orderly s) {call : RecvCall} {waiting : List ℕ}
    (hthread : s.reactors r = .receiving c call waiting) : s.stage c = .receiving call := by
  have hmem : c ∈ (s.reactors r).called := hthread ▸ List.mem_cons_self
  rw [stage_of_called hI hmem, hthread]
  exact if_pos rfl

theorem stage_handling (hI : Orderly s) {waiting : List ℕ}
    (hthread : s.reactors r = .handling c waiting) : s.stage c = .handling := by
  have hmem : c ∈ (s.reactors r).called := hthread ▸ List.mem_cons_self
  rw [stage_of_called hI hmem, hthread]
  exact if_pos rfl

/-- A client that no thread is concerned with changes its place. -/
theorem concerns_move (c : ℕ) (place : Place)
    (hsockets : s'.sockets = Function.update s.sockets c ((s.sockets c).moveTo place))
    (hreactors : s'.reactors = s.reactors) (hstate : s'.state = s.state) (hidle : s.stage c = .idle)
    (hbefore : (s.sockets c).place ≠ .closed) (hplace : ∀ r, place ≠ .registered r)
    (hafter : place ≠ .closed) : Concerns handler c s s' := by
  refine concerns_of_frame c (fun d hd => ?_) (fun _ _ _ => by rw [hreactors])
    (fun _ _ => hstate ▸ .nothing) ?_
  · rw [hsockets, Function.update_of_ne hd]
  · have hsocket : s'.sockets c = (s.sockets c).moveTo place := by
      rw [hsockets, Function.update_self]
    have hidle' : s'.stage c = .idle := stage_of_not_registered fun r => by
      rw [hsocket]
      exact hplace r
    unfold LocalAt
    rw [hsocket, hidle, hidle', hstate]
    exact .move hbefore hplace hafter

/-- The socket of a client changes, and nothing else. -/
theorem concerns_socket (c : ℕ) (k : ClientSocket) (hplace : k.place = (s.sockets c).place)
    (hlocal : Local handler c s.state (s.sockets c) (s.stage c) s.state k (s.stage c)) :
    Concerns handler c s (s.setSocket c k) := by
  refine concerns_of_frame c (fun d hd => sockets_setSocket_of_ne hd) (fun _ _ _ => rfl)
    (fun _ _ => .nothing) ?_
  have hplace' : ((s.setSocket c k).sockets c).place = (s.sockets c).place := by
    rw [sockets_setSocket_self, hplace]
  unfold LocalAt
  rw [stage_congr hplace' fun _ _ => rfl, sockets_setSocket_self]
  exact hlocal

/-- The thread that calls client `c` goes on to `t`, and the socket of `c` becomes `k`. -/
theorem concerns_thread (k : ClientSocket) (t : Thread) (hI : Orderly s)
    (hcalled : c ∈ (s.reactors r).called)
    (hothers : ∀ d ≠ c, t.stage d = (s.reactors r).stage d)
    (hplace : k.place = (s.sockets c).place)
    (hlocal : Local handler c s.state (s.sockets c) ((s.reactors r).stage c) s'.state k (t.stage c))
    (hsockets : s'.sockets = Function.update s.sockets c k)
    (hreactors : s'.reactors = Function.update s.reactors r t)
    (hstate : ∀ d ≠ c, Elsewhere handler d s.state s'.state) : Concerns handler c s s' := by
  refine concerns_of_frame c (fun d hd => ?_) (fun d hd r' => ?_) hstate ?_
  · rw [hsockets, Function.update_of_ne hd]
  · rw [hreactors]
    exact stage_setThread (hothers d hd) r'
  · have hsocket : s'.sockets c = k := by rw [hsockets, Function.update_self]
    have hstage : s'.stage c = t.stage c := by
      rw [stage_of_registered (by rw [hsocket, hplace]; exact hI.called r c hcalled), hreactors,
        Function.update_self]
    unfold LocalAt
    rw [stage_of_called hI hcalled, hsocket, hstage]
    exact hlocal

section poll

variable {ready : List ℕ}

/-- What `epoll_wait` does to the clients that it reports. -/
theorem reported_poll (hthread : s.reactors r = .polling) (hready : ∀ c ∈ ready, s.Reports r c)
    (hreactors : s'.reactors = Function.update s.reactors r (.visiting ready))
    (hsockets : s'.sockets = fun c => if c ∈ ready then (s.sockets c).report else s.sockets c)
    (hd : d ∈ ready) :
    s.stage d = .idle ∧ s'.sockets d = (s.sockets d).report ∧ s'.stage d = .reported := by
  have hsocket : s'.sockets d = (s.sockets d).report := by
    rw [hsockets]
    exact if_pos hd
  have hplace : (s.sockets d).place = .registered r := (hready d hd).1
  refine ⟨?_, hsocket, ?_⟩
  · rw [stage_of_registered hplace, hthread]
    rfl
  · rw [stage_of_registered (r := r) (by rw [hsocket]; exact hplace), hreactors,
      Function.update_self]
    exact if_pos hd

/-- What it does to the others. -/
theorem kept_poll (hthread : s.reactors r = .polling)
    (hreactors : s'.reactors = Function.update s.reactors r (.visiting ready))
    (hsockets : s'.sockets = fun c => if c ∈ ready then (s.sockets c).report else s.sockets c)
    (hd : d ∉ ready) : s'.sockets d = s.sockets d ∧ s'.stage d = s.stage d := by
  have hsocket : s'.sockets d = s.sockets d := by
    rw [hsockets]
    exact if_neg hd
  refine ⟨hsocket, stage_congr (congrArg _ hsocket) fun r' _ => ?_⟩
  rw [hreactors]
  refine stage_setThread ?_ r'
  rw [hthread]
  exact if_neg hd

theorem local_poll (hthread : s.reactors r = .polling) (hready : ∀ c ∈ ready, s.Reports r c)
    (hreactors : s'.reactors = Function.update s.reactors r (.visiting ready))
    (hsockets : s'.sockets = fun c => if c ∈ ready then (s.sockets c).report else s.sockets c)
    (hstate : s'.state = s.state) : LocalAt handler d s s' := by
  unfold LocalAt
  rw [hstate]
  by_cases hd : d ∈ ready
  · obtain ⟨hidle, hsocket, hreported⟩ := reported_poll hthread hready hreactors hsockets hd
    rw [hidle, hreported, hsocket]
    exact .report
  · obtain ⟨hsocket, hstage⟩ := kept_poll hthread hreactors hsockets hd
    rw [hstage, hsocket]
    exact .same .nothing

end poll

/-- The list of `Poll` is done with. -/
theorem stage_again (hthread : s.reactors r = .visiting []) :
    (s.setThread r .polling).stage d = s.stage d :=
  stage_congr rfl fun r' _ => stage_setThread (by rw [hthread]; rfl) r'

/-- A client that is registered now was called by no thread. -/
theorem stage_register (hI : Orderly s) (hlistener : s.listener = .accepted c)
    (hsocket : s'.sockets c = (s.sockets c).register r) (hreactors : s'.reactors = s.reactors) :
    s.stage c = .idle ∧ s'.stage c = .idle := by
  have hplace : (s.sockets c).place = .accepted := (hI.accepted c).mp hlistener
  have hnot : c ∉ (s.reactors r).called := fun hmem =>
    Place.noConfusion (hplace.symm.trans (hI.called r c hmem))
  refine ⟨stage_of_not_registered fun r => ?_, ?_⟩
  · rw [hplace]
    exact Place.noConfusion
  · rw [stage_of_registered (r := r) (by rw [hsocket]; rfl), hreactors]
    exact stage_of_not_called hnot

/-- `AddConnection` for a client that no thread has heard of. -/
theorem concerns_register (hI : Orderly s) (hlistener : s.listener = .accepted c)
    (hsockets : s'.sockets = Function.update s.sockets c ((s.sockets c).register r))
    (hreactors : s'.reactors = s.reactors) (hstate : s'.state = s.state) :
    Concerns handler c s s' := by
  have hplace : (s.sockets c).place = .accepted := (hI.accepted c).mp hlistener
  refine concerns_of_frame c (fun d hd => ?_) (fun _ _ _ => by rw [hreactors])
    (fun _ _ => hstate ▸ .nothing) ?_
  · rw [hsockets, Function.update_of_ne hd]
  · have hsocket : s'.sockets c = (s.sockets c).register r := by
      rw [hsockets, Function.update_self]
    obtain ⟨hidle, hidle'⟩ := stage_register hI hlistener hsocket hreactors
    unfold LocalAt
    rw [hidle, hidle', hsocket, hstate]
    refine .register ?_
    rw [hplace]
    exact Place.noConfusion

/-- The client at the head is called, and it is not among the others. -/
theorem head_called (hI : Orderly s) {waiting : List ℕ}
    (hcalled : (s.reactors r).called = c :: waiting) : c ∈ (s.reactors r).called ∧ c ∉ waiting := by
  have hdistinct := hI.distinct r
  rw [hcalled] at hdistinct ⊢
  exact ⟨List.mem_cons_self, (List.nodup_cons.mp hdistinct).1⟩

/-- The client of a step of a thread is the one at the head. -/
theorem eq_of_client {waiting : List ℕ} (hcalled : (s.reactors r).called = d :: waiting)
    (hclient : (s.reactors r).called.head? = some c) : c = d := by
  rw [hcalled] at hclient
  exact (Option.some.inj hclient).symm

/-- All steps that are about a client concern no other one. -/
theorem concerns_of_step (hI : Orderly s) (h : Step handler s move s')
    (hclient : s.client move = some c) : Concerns handler c s s' := by
  have hself : s.sockets = Function.update s.sockets c (s.sockets c) :=
    (Function.update_eq_self c s.sockets).symm
  cases h with
  | connect hplace =>
    cases hclient
    refine concerns_move c .backlog rfl rfl rfl (stage_of_not_registered fun r => ?_) ?_
      (fun _ => Place.noConfusion) Place.noConfusion
    all_goals
      rw [hplace]
      exact Place.noConfusion
  | @send c chunk =>
    cases hclient
    exact concerns_socket c ((s.sockets c).deliver chunk) rfl .deliver
  | @finish c ending =>
    cases hclient
    exact concerns_socket c ((s.sockets c).finish ending) rfl .finish
  | @accept c backlog hlistener hbacklog =>
    simp only [Network.client, hbacklog, List.head?_cons, Option.some.injEq] at hclient
    subst hclient
    have hplace : (s.sockets c).place = .backlog := by
      rw [← hI.backlog, hbacklog]
      exact List.mem_cons_self
    refine concerns_move c .accepted rfl rfl rfl (stage_of_not_registered fun r => ?_) ?_
      (fun _ => Place.noConfusion) Place.noConfusion
    all_goals
      rw [hplace]
      exact Place.noConfusion
  | register hlistener =>
    simp only [Network.client, hlistener, Option.some.injEq] at hclient
    subst hclient
    exact concerns_register hI hlistener rfl rfl rfl
  | again hthread =>
    simp [Network.client, hthread, Thread.called] at hclient
  | @visit r c waiting outgoing hthread =>
    obtain rfl := eq_of_client (congrArg Thread.called hthread) hclient
    obtain ⟨hcalled, -⟩ := head_called hI (congrArg Thread.called hthread)
    refine concerns_thread (s.sockets c) (.receiving c ⟨[], outgoing⟩ waiting) hI hcalled
      (fun d hd => ?_) rfl ?_ hself rfl (fun _ _ => .nothing)
    · simp [hthread, Thread.stage, hd]
    · simp only [hthread, Thread.stage, List.mem_cons_self, if_true]
      exact .visit
  | @interrupted r c call waiting hthread =>
    obtain rfl := eq_of_client (congrArg Thread.called hthread) hclient
    obtain ⟨hcalled, -⟩ := head_called hI (congrArg Thread.called hthread)
    refine concerns_thread (s.sockets c) (.receiving c (call.push (.failed .eintr)) waiting) hI
      hcalled (fun d hd => ?_) rfl ?_ hself rfl (fun _ _ => .nothing)
    · simp [hthread, Thread.stage, hd]
    · simp only [hthread, Thread.stage, if_true]
      exact .interrupted
  | @received r c call waiting _ n hn hthread hunread =>
    obtain rfl := eq_of_client (congrArg Thread.called hthread) hclient
    obtain ⟨hcalled, -⟩ := head_called hI (congrArg Thread.called hthread)
    refine concerns_thread ((s.sockets c).take n)
      (.receiving c (call.push (.received ((s.sockets c).unread.take n))) waiting) hI hcalled
      (fun d hd => ?_) rfl ?_ rfl rfl (fun _ _ => .nothing)
    · simp [hthread, Thread.stage, hd]
    · simp only [hthread, Thread.stage, if_true]
      exact .received hn hunread
  | @ended r c call waiting _ ending hthread hunread hending =>
    obtain rfl := eq_of_client (congrArg Thread.called hthread) hclient
    obtain ⟨hcalled, -⟩ := head_called hI (congrArg Thread.called hthread)
    refine concerns_thread ((s.sockets c).endCall (call.push ending.result)) (.handling c waiting) hI
      hcalled (fun d hd => ?_) rfl ?_ rfl rfl (fun _ hd => .arrive hd.symm)
    · simp [hthread, Thread.stage, hd]
    · simp only [hthread, Thread.stage, if_true]
      exact .ended hunread hending
  | @drained r c call waiting _ hthread hunread hopen =>
    obtain rfl := eq_of_client (congrArg Thread.called hthread) hclient
    obtain ⟨hcalled, -⟩ := head_called hI (congrArg Thread.called hthread)
    refine concerns_thread ((s.sockets c).endCall call) (.handling c waiting) hI hcalled
      (fun d hd => ?_) rfl ?_ rfl rfl (fun _ hd => .arrive hd.symm)
    · simp [hthread, Thread.stage, hd]
    · simp only [hthread, Thread.stage, if_true]
      exact .drained hunread hopen
  | @handle r c waiting state hthread hreturned hstate =>
    obtain rfl := eq_of_client (congrArg Thread.called hthread) hclient
    refine concerns_of_frame c (fun _ _ => rfl) (fun _ _ _ => rfl)
      (fun _ hd => .advance hd.symm hstate) ?_
    show Local handler c s.state (s.sockets c) (s.stage c) state (s.sockets c) (s.stage c)
    rw [stage_handling hI hthread]
    exact .handle hreturned hstate
  | @leave r c waiting hthread hreturned hdeleted =>
    obtain rfl := eq_of_client (congrArg Thread.called hthread) hclient
    obtain ⟨hcalled, hnot⟩ := head_called hI (congrArg Thread.called hthread)
    refine concerns_thread (s.sockets c) (.visiting waiting) hI hcalled
      (fun d hd => ?_) rfl ?_ hself rfl (fun _ _ => .nothing)
    · simp [hthread, Thread.stage, hd]
    · simp only [hthread, Thread.stage, if_true, if_neg hnot]
      exact .leave hreturned hdeleted
  | @close r c waiting hthread hreturned hdeleted =>
    obtain rfl := eq_of_client (congrArg Thread.called hthread) hclient
    have hidle : ((s.setThread r (.visiting waiting)).setSocket c
        ((s.sockets c).moveTo .closed)).stage c = .idle := stage_of_not_registered fun r' => by
      rw [sockets_setSocket_self]
      exact Place.noConfusion
    refine concerns_of_frame c (fun d hd => ?_) (fun d hd r' => ?_) (fun _ _ => .nothing) ?_
    · exact sockets_setSocket_of_ne hd
    · refine stage_setThread ?_ r'
      simp [hthread, Thread.stage, hd]
    · unfold LocalAt
      rw [stage_handling hI hthread, hidle, sockets_setSocket_self]
      exact .close hreturned hdeleted
  | expire hthread hplace =>
    cases hclient
    refine concerns_move c .expired rfl rfl rfl ?_ ?_ (fun _ => Place.noConfusion) Place.noConfusion
    · rw [stage_of_registered hplace, hthread]
      rfl
    · rw [hplace]
      exact Place.noConfusion
  | _ => exact absurd hclient.symm (Option.some_ne_none c)

theorem local_of_step (hI : Orderly s) (h : Step handler s move s') (d : ℕ) :
    LocalAt handler d s s' := by
  cases hclient : s.client move with
  | some c => exact local_of_concerns (concerns_of_step hI h hclient) d
  | none =>
    cases h with
    | pollAcceptor => exact .same .nothing
    | acceptFailed => exact .same .nothing
    | poll hthread _ hready => exact local_poll hthread hready rfl rfl rfl
    | again hthread =>
      unfold LocalAt
      rw [stage_again hthread]
      exact .same .nothing
    | _ => simp_all [Network.client, Thread.called]

/-! ### Order -/

theorem orderly_new (state : σ) : Orderly (Network.new state) where
  called _ _ hc := absurd hc List.not_mem_nil
  distinct _ := List.nodup_nil
  backlog _ := iff_of_false List.not_mem_nil Place.noConfusion
  backlogDistinct := List.nodup_nil
  accepted _ := iff_of_false Listener.noConfusion Place.noConfusion

/-- No client changes its place. -/
theorem orderly_of_places (hI : Orderly s)
    (hplaces : ∀ d, (s'.sockets d).place = (s.sockets d).place)
    (hcalled : ∀ r, (s'.reactors r).called.Sublist (s.reactors r).called)
    (hbacklog : s'.backlog = s.backlog)
    (hlistener : ∀ d, s'.listener = .accepted d ↔ s.listener = .accepted d) : Orderly s' where
  called r d hd := (hplaces d).trans (hI.called r d ((hcalled r).subset hd))
  distinct r := (hI.distinct r).sublist (hcalled r)
  backlog d := by rw [hbacklog, hplaces, hI.backlog]
  backlogDistinct := by
    rw [hbacklog]
    exact hI.backlogDistinct
  accepted d := by rw [hlistener, hplaces, hI.accepted]

/-- Client `c` changes its place, and no thread calls it afterwards. -/
theorem orderly_of_move (c : ℕ) (hI : Orderly s)
    (hothers : ∀ d ≠ c, (s'.sockets d).place = (s.sockets d).place)
    (hcalled : ∀ r, (s'.reactors r).called.Sublist (s.reactors r).called)
    (hnot : ∀ r, c ∉ (s'.reactors r).called)
    (hbacklogs : ∀ d ≠ c, d ∈ s'.backlog ↔ d ∈ s.backlog)
    (hbacklog : c ∈ s'.backlog ↔ (s'.sockets c).place = .backlog)
    (hdistinct : s'.backlog.Nodup)
    (hlisteners : ∀ d ≠ c, s'.listener = .accepted d ↔ s.listener = .accepted d)
    (hlistener : s'.listener = .accepted c ↔ (s'.sockets c).place = .accepted) : Orderly s' where
  called r d hd := by
    have hne : d ≠ c := fun h => hnot r (h ▸ hd)
    rw [hothers d hne]
    exact hI.called r d ((hcalled r).subset hd)
  distinct r := (hI.distinct r).sublist (hcalled r)
  backlog d := by
    by_cases hd : d = c
    · rw [hd, hbacklog]
    · rw [hbacklogs d hd, hothers d hd, hI.backlog]
  backlogDistinct := hdistinct
  accepted d := by
    by_cases hd : d = c
    · rw [hd, hlistener]
    · rw [hlisteners d hd, hothers d hd, hI.accepted]

/-- A client that is not registered is not called. -/
theorem not_called {place : Place} (hI : Orderly s) (hplace : (s.sockets c).place = place)
    (h : ∀ r, place ≠ .registered r) (r : ℕ) : c ∉ (s.reactors r).called := fun hmem =>
  h r (hplace.symm.trans (hI.called r c hmem))

/-- A registered client is deleted. -/
theorem orderly_of_removal (c : ℕ) (hI : Orderly s)
    (hothers : ∀ d ≠ c, (s'.sockets d).place = (s.sockets d).place)
    (hcalled : ∀ r, (s'.reactors r).called.Sublist (s.reactors r).called)
    (hnot : ∀ r, c ∉ (s'.reactors r).called) (hbacklog : s'.backlog = s.backlog)
    (hlistener : s'.listener = s.listener) (hplace : (s.sockets c).place = .registered r)
    (hgone : (s'.sockets c).place = .closed ∨ (s'.sockets c).place = .expired) : Orderly s' := by
  refine orderly_of_move c hI hothers hcalled hnot (fun _ _ => by rw [hbacklog]) ?_ ?_
    (fun _ _ => by rw [hlistener]) ?_
  · refine iff_of_false (fun hmem => ?_) fun hmem => ?_
    · rw [hbacklog, hI.backlog, hplace] at hmem
      exact Place.noConfusion hmem
    · rcases hgone with hgone | hgone <;> exact Place.noConfusion (hgone.symm.trans hmem)
  · rw [hbacklog]
    exact hI.backlogDistinct
  · refine iff_of_false (fun hmem => ?_) fun hmem => ?_
    · rw [hlistener, hI.accepted, hplace] at hmem
      exact Place.noConfusion hmem
    · rcases hgone with hgone | hgone <;> exact Place.noConfusion (hgone.symm.trans hmem)

theorem called_setThread (h : t.called.Sublist (s.reactors r).called) (r' : ℕ) :
    ((s.setThread r t).reactors r').called.Sublist (s.reactors r').called := by
  by_cases hr : r' = r
  · subst hr
    rw [reactors_setThread_self]
    exact h
  · rw [reactors_setThread_of_ne hr]

theorem place_setSocket (h : k.place = (s.sockets c).place) (d : ℕ) :
    ((s.setSocket c k).sockets d).place = (s.sockets d).place := by
  by_cases hd : d = c
  · subst hd
    rw [sockets_setSocket_self, h]
  · rw [sockets_setSocket_of_ne hd]

theorem orderly_step (hI : Orderly s) (h : Step handler s move s') : Orderly s' := by
  cases h with
  | @connect c hplace =>
    have hsocket : (s.setSocket c ((s.sockets c).moveTo .backlog)).sockets c =
        (s.sockets c).moveTo .backlog := sockets_setSocket_self
    have hnot : c ∉ s.backlog := fun hmem =>
      Place.noConfusion (hplace.symm.trans ((hI.backlog c).mp hmem))
    have hnone : ∀ r, c ∉ (s.reactors r).called := not_called hI hplace fun _ =>
      Place.noConfusion
    refine orderly_of_move c hI (fun d hd => ?_) (fun _ => List.Sublist.refl _)
      hnone (fun d hd => ?_) ?_ ?_
      (fun _ _ => Iff.rfl) ?_
    · exact congrArg _ (sockets_setSocket_of_ne hd)
    · simp [hd]
    · exact iff_of_true (by simp) (congrArg _ hsocket)
    · exact List.nodup_append.mpr ⟨hI.backlogDistinct, List.nodup_singleton c,
        fun a ha b hb hab => hnot (List.mem_singleton.mp hb ▸ hab ▸ ha)⟩
    · refine iff_of_false (fun hmem => ?_) fun hmem => ?_
      · exact Place.noConfusion (hplace.symm.trans ((hI.accepted c).mp hmem))
      · exact Place.noConfusion ((congrArg ClientSocket.place hsocket).symm.trans hmem)
  | send =>
    exact orderly_of_places hI (place_setSocket rfl) (fun _ => List.Sublist.refl _) rfl
      fun _ => Iff.rfl
  | finish =>
    exact orderly_of_places hI (place_setSocket rfl) (fun _ => List.Sublist.refl _) rfl
      fun _ => Iff.rfl
  | pollAcceptor hlistener =>
    refine orderly_of_places hI (fun _ => rfl) (fun _ => List.Sublist.refl _) rfl fun d => ?_
    rw [hlistener]
    exact iff_of_false Listener.noConfusion Listener.noConfusion
  | acceptFailed hlistener =>
    refine orderly_of_places hI (fun _ => rfl) (fun _ => List.Sublist.refl _) rfl fun d => ?_
    rw [hlistener]
    exact iff_of_false Listener.noConfusion Listener.noConfusion
  | @accept c backlog hlistener hbacklog =>
    have hsocket : (s.setSocket c ((s.sockets c).moveTo .accepted)).sockets c =
        (s.sockets c).moveTo .accepted := sockets_setSocket_self
    have hplace : (s.sockets c).place = .backlog := by
      rw [← hI.backlog, hbacklog]
      exact List.mem_cons_self
    have hdistinct := hI.backlogDistinct
    rw [hbacklog] at hdistinct
    obtain ⟨hnot, hrest⟩ := List.nodup_cons.mp hdistinct
    have hnone : ∀ r, c ∉ (s.reactors r).called := not_called hI hplace fun _ =>
      Place.noConfusion
    refine orderly_of_move c hI (fun d hd => ?_) (fun _ => List.Sublist.refl _)
      hnone (fun d hd => ?_) ?_ hrest
      (fun d hd => ?_) ?_
    · exact congrArg _ (sockets_setSocket_of_ne hd)
    · rw [hbacklog]
      simp [hd]
    · refine iff_of_false hnot fun hmem => ?_
      exact Place.noConfusion ((congrArg ClientSocket.place hsocket).symm.trans hmem)
    · refine iff_of_false (fun h => hd (Listener.accepted.inj h).symm) fun h => ?_
      exact Listener.noConfusion (hlistener.symm.trans h)
    · exact iff_of_true rfl (congrArg _ hsocket)
  | @register c r hlistener =>
    have hsocket : (s.setSocket c ((s.sockets c).register r)).sockets c =
        (s.sockets c).register r := sockets_setSocket_self
    have hplace : (s.sockets c).place = .accepted := (hI.accepted c).mp hlistener
    have hnone : ∀ r, c ∉ (s.reactors r).called := not_called hI hplace fun _ =>
      Place.noConfusion
    refine orderly_of_move c hI (fun d hd => ?_) (fun _ => List.Sublist.refl _)
      hnone (fun _ _ => Iff.rfl) ?_
      hI.backlogDistinct (fun d hd => ?_) ?_
    · exact congrArg _ (sockets_setSocket_of_ne hd)
    · refine iff_of_false (fun hmem => ?_) fun hmem => ?_
      · exact Place.noConfusion (hplace.symm.trans ((hI.backlog c).mp hmem))
      · exact Place.noConfusion ((congrArg ClientSocket.place hsocket).symm.trans hmem)
    · refine iff_of_false Listener.noConfusion fun h => ?_
      exact hd (Listener.accepted.inj (hlistener.symm.trans h)).symm
    · refine iff_of_false Listener.noConfusion fun hmem => ?_
      exact Place.noConfusion ((congrArg ClientSocket.place hsocket).symm.trans hmem)
  | @poll r ready hthread hdistinct hready =>
    have hplaces : ∀ d, (if d ∈ ready then (s.sockets d).report else s.sockets d).place =
        (s.sockets d).place := by
      intro d
      split <;> rfl
    refine ⟨fun r' d hd => ?_, fun r' => ?_, fun d => ?_, hI.backlogDistinct, fun d => ?_⟩
    · refine (hplaces d).trans ?_
      have hd' : d ∈ ((s.setThread r (.visiting ready)).reactors r').called := hd
      by_cases hr : r' = r
      · subst hr
        rw [reactors_setThread_self] at hd'
        exact (hready d hd').1
      · rw [reactors_setThread_of_ne hr] at hd'
        exact hI.called r' d hd'
    · show ((s.setThread r (.visiting ready)).reactors r').called.Nodup
      by_cases hr : r' = r
      · subst hr
        rw [reactors_setThread_self]
        exact hdistinct
      · rw [reactors_setThread_of_ne hr]
        exact hI.distinct r'
    · exact (hI.backlog d).trans (by rw [← hplaces d])
    · exact (hI.accepted d).trans (by rw [← hplaces d])
  | again hthread =>
    exact orderly_of_places hI (fun _ => rfl) (called_setThread (List.nil_sublist _)) rfl
      fun _ => Iff.rfl
  | visit hthread =>
    refine orderly_of_places hI (fun _ => rfl) (called_setThread ?_) rfl fun _ => Iff.rfl
    rw [hthread]
    exact List.Sublist.refl _
  | interrupted hthread =>
    refine orderly_of_places hI (fun _ => rfl) (called_setThread ?_) rfl fun _ => Iff.rfl
    rw [hthread]
    exact List.Sublist.refl _
  | received _ hthread =>
    refine orderly_of_places hI (place_setSocket rfl) (called_setThread (s := s) ?_) rfl
      fun _ => Iff.rfl
    rw [hthread]
    exact List.Sublist.refl _
  | ended hthread =>
    refine orderly_of_places hI (place_setSocket rfl) (called_setThread (s := s) ?_) rfl
      fun _ => Iff.rfl
    rw [hthread]
    exact List.Sublist.refl _
  | drained hthread =>
    refine orderly_of_places hI (place_setSocket rfl) (called_setThread (s := s) ?_) rfl
      fun _ => Iff.rfl
    rw [hthread]
    exact List.Sublist.refl _
  | handle =>
    exact orderly_of_places hI (fun _ => rfl) (fun _ => List.Sublist.refl _) rfl fun _ => Iff.rfl
  | leave hthread =>
    refine orderly_of_places hI (fun _ => rfl) (called_setThread ?_) rfl fun _ => Iff.rfl
    rw [hthread]
    exact List.sublist_cons_self ..
  | @close r c waiting hthread =>
    have hsocket : ((s.setThread r (.visiting waiting)).setSocket c
        ((s.sockets c).moveTo .closed)).sockets c = (s.sockets c).moveTo .closed :=
      sockets_setSocket_self
    obtain ⟨hcalled, hnot⟩ := head_called hI (congrArg Thread.called hthread)
    have hplace : (s.sockets c).place = .registered r := hI.called r c hcalled
    have hsub : (Thread.visiting waiting).called.Sublist (s.reactors r).called := by
      rw [hthread]
      exact List.sublist_cons_self ..
    refine orderly_of_removal c hI (fun d hd => ?_) (called_setThread hsub) (fun r' hr' => ?_) rfl
      rfl hplace (.inl (congrArg _ hsocket))
    · exact congrArg _ (sockets_setSocket_of_ne hd)
    · have hr'' : c ∈ ((s.setThread r (.visiting waiting)).reactors r').called := hr'
      by_cases hr : r' = r
      · subst hr
        rw [reactors_setThread_self] at hr''
        exact hnot hr''
      · rw [reactors_setThread_of_ne hr] at hr''
        exact hr (Place.registered.inj ((hI.called r' c hr'').symm.trans hplace))
  | @expire r c hthread hplace =>
    have hsocket : (s.setSocket c ((s.sockets c).moveTo .expired)).sockets c =
        (s.sockets c).moveTo .expired := sockets_setSocket_self
    refine orderly_of_removal c hI (fun d hd => ?_) (fun _ => List.Sublist.refl _)
      (fun r' hr' => ?_) rfl rfl hplace (.inr (congrArg _ hsocket))
    · exact congrArg _ (sockets_setSocket_of_ne hd)
    · have hr'' : c ∈ (s.reactors r').called := hr'
      obtain rfl : r' = r := Place.registered.inj ((hI.called r' c hr'').symm.trans hplace)
      rw [hthread] at hr''
      exact absurd hr'' List.not_mem_nil

end EdgeTriggerLemmas

/-! ## 3. What is sent -/

/-- No `send` of the call fails for good: none meets a peer that has closed, where `SIGPIPE` would end
the process, or another error. -/
def Move.Delivers : Move → Prop
  | .visit _ outgoing => ∀ x ∈ outgoing, x.Clean
  | _ => True

instance : DecidablePred Move.Delivers
  | .visit _ outgoing => inferInstanceAs (Decidable (∀ x ∈ outgoing, x.Clean))
  | .connect _ | .send _ _ | .finish _ _ | .pollAcceptor | .accept | .acceptFailed | .register _
  | .poll _ _ | .recv _ _ | .advance _ | .expire _ _ => .isTrue True.intro

def ClientSocket.Delivered (k : ClientSocket) : Prop := ∀ call ∈ k.calls, ∀ x ∈ call.outgoing, x.Clean

def Thread.Delivers : Thread → Prop
  | .receiving _ call _ => ∀ x ∈ call.outgoing, x.Clean
  | _ => True

/-- No `send` has failed for good so far, and none will in the calls that have begun. -/
structure Network.Delivered (s : Network σ) : Prop where
  sockets : ∀ c, (s.sockets c).Delivered
  reactors : ∀ r, (s.reactors r).Delivers

namespace EdgeTriggerLemmas

variable {handler : Handler σ} {s s' : Network σ} {move : Move} {c r : ℕ} {t : Thread}
  {k : ClientSocket} {call : RecvCall} {waiting : List ℕ}

theorem delivered_new (state : σ) : (Network.new state).Delivered :=
  ⟨fun _ _ hcall => absurd hcall List.not_mem_nil, fun _ => True.intro⟩

/-- A socket is set whose calls are as before. -/
theorem delivered_setSocket (h : s.Delivered) (c : ℕ) (k : ClientSocket)
    (hcalls : k.calls = (s.sockets c).calls) : (s.setSocket c k).Delivered where
  sockets := (Function.forall_update_iff s.sockets fun _ k => k.Delivered).mpr
    ⟨by unfold ClientSocket.Delivered; rw [hcalls]; exact h.sockets c, fun c _ => h.sockets c⟩
  reactors := h.reactors

theorem delivered_setThread (h : s.Delivered) (r : ℕ) {t : Thread} (ht : t.Delivers) :
    (s.setThread r t).Delivered where
  sockets := h.sockets
  reactors := (Function.forall_update_iff s.reactors fun _ t => t.Delivers).mpr
    ⟨ht, fun r _ => h.reactors r⟩

theorem delivers_receiving (h : s.Delivered) (hthread : s.reactors r = .receiving c call waiting) :
    ∀ x ∈ call.outgoing, x.Clean := by
  have hdelivers := h.reactors r
  rwa [hthread] at hdelivers

/-- `Recv` is over, after results that leave the script of `send` as it is. -/
theorem delivered_leaveRecv (h : s.Delivered) (hthread : s.reactors r = .receiving c call waiting)
    {last : RecvCall} (hlast : last.outgoing = call.outgoing) :
    (s.leaveRecv handler r c last waiting).Delivered where
  sockets := by
    have hcall : ∀ x ∈ last.outgoing, x.Clean := hlast ▸ delivers_receiving h hthread
    exact (Function.forall_update_iff s.sockets fun _ k => k.Delivered).mpr
      ⟨List.forall_mem_append.mpr ⟨h.sockets c, List.forall_mem_singleton.mpr hcall⟩,
        fun c _ => h.sockets c⟩
  reactors := (delivered_setThread h r (t := .handling c waiting) True.intro).reactors

theorem delivered_step (h : s.Delivered) (hstep : Step handler s move s') (hmove : move.Delivers) :
    s'.Delivered := by
  cases hstep with
  | @connect c =>
    exact ⟨(delivered_setSocket h c ((s.sockets c).moveTo .backlog) rfl).sockets, h.reactors⟩
  | send => exact delivered_setSocket h _ _ rfl
  | finish => exact delivered_setSocket h _ _ rfl
  | pollAcceptor => exact ⟨h.sockets, h.reactors⟩
  | @accept c =>
    exact ⟨(delivered_setSocket h c ((s.sockets c).moveTo .accepted) rfl).sockets, h.reactors⟩
  | acceptFailed => exact ⟨h.sockets, h.reactors⟩
  | @register c r =>
    exact ⟨(delivered_setSocket h c ((s.sockets c).register r) rfl).sockets, h.reactors⟩
  | @poll r ready =>
    refine ⟨fun c => ?_, (delivered_setThread h r (t := .visiting ready) True.intro).reactors⟩
    show ClientSocket.Delivered (if c ∈ ready then (s.sockets c).report else s.sockets c)
    split
    · exact h.sockets c
    · exact h.sockets c
  | again => exact delivered_setThread h _ True.intro
  | visit => exact delivered_setThread h _ hmove
  | @interrupted r c call waiting hthread =>
    have hcall := delivers_receiving h hthread
    exact delivered_setThread h r hcall
  | @received r c call waiting _ n _ hthread =>
    have hcall := delivers_receiving h hthread
    exact delivered_setThread (delivered_setSocket h c ((s.sockets c).take n) rfl) r hcall
  | ended hthread => exact delivered_leaveRecv h hthread rfl
  | drained hthread => exact delivered_leaveRecv h hthread rfl
  | handle => exact ⟨h.sockets, h.reactors⟩
  | leave => exact delivered_setThread h _ True.intro
  | @close r c waiting =>
    have hthread := delivered_setThread h r (t := .visiting waiting) True.intro
    exact delivered_setSocket hthread c ((s.sockets c).moveTo .closed) rfl
  | expire => exact delivered_setSocket h _ _ rfl

end EdgeTriggerLemmas

/-! ## 4. Runs -/

/-- The client is not kept waiting, and if its connection still exists, everything that has come from
it has gone to the handler. -/
structure Network.HeardOut (s : Network σ) (c : ℕ) : Prop where
  taken : (s.sockets c).place ≠ .backlog ∧ (s.sockets c).place ≠ .accepted
  bytes : ∀ r, (s.sockets c).place = .registered r → (s.sockets c).sent = (s.sockets c).taken
  told : ∀ r, (s.sockets c).place = .registered r → (s.sockets c).ending.isSome = true →
    (s.sockets c).told = true

/-- The invariant of all clients. -/
structure Inv (s : Network σ) : Prop where
  orderly : Orderly s
  watched : ∀ c, Watched (s.sockets c) (s.stage c)

namespace EdgeTriggerLemmas

variable {handler : Handler σ} {s s' : Network σ} {move : Move} {c : ℕ}

theorem inv_new (state : σ) : Inv (Network.new state) where
  orderly := orderly_new state
  watched _ := ⟨fun _ hr => Place.noConfusion hr, rfl,
    fun _ _ hcall => absurd hcall List.not_mem_nil, fun _ hcall => Stage.noConfusion hcall⟩

theorem inv_step (hI : Inv s) (h : Step handler s move s') : Inv s' where
  orderly := orderly_step hI.orderly h
  watched c := watched_of_local (hI.watched c) (local_of_step hI.orderly h c)

theorem next_inv (handler : Handler σ) {o : Option (Network σ)} (h : ∀ s ∈ o, Inv s) (move : Move) :
    ∀ s ∈ next handler o move, Inv s := by
  intro s' hs'
  obtain ⟨s, hs, hstep⟩ := Option.bind_eq_some_iff.mp hs'
  have hI : Inv s := h s hs
  rcases step_cases handler s move with ⟨r, c, waiting, rfl, hthread, hreturned, hnone⟩ |
    ⟨s'', hs'', hcases⟩
  · simp [Network.step, hthread, hreturned, hnone] at hstep
  · obtain rfl : s'' = s' := Option.some.inj (hs''.symm.trans hstep)
    rcases hcases with rfl | hcases
    · exact hI
    · exact inv_step hI hcases

/-- Where a reactor waits in `epoll_wait`, nothing of its clients is due. -/
theorem not_due_of_quiet (hI : Inv s) (hquiet : s.Quiet) {r : ℕ}
    (hplace : (s.sockets c).place = .registered r) : ¬ (s.sockets c).Due := by
  intro hdue
  rcases (hI.watched c).noticed r hplace hdue with hedge | hreads
  · exact hquiet.ready r c ⟨hplace, hedge, readable_of_due hdue⟩
  · rw [stage_of_registered hplace, hquiet.reactors r] at hreads
    exact hreads

theorem heardOut_of_quiet (hI : Inv s) (hquiet : s.Quiet) (c : ℕ) : s.HeardOut c where
  taken := by
    constructor
    · intro hplace
      rw [← hI.orderly.backlog, hquiet.backlog] at hplace
      exact absurd hplace List.not_mem_nil
    · intro hplace
      rw [← hI.orderly.accepted, hquiet.listener] at hplace
      exact Listener.noConfusion hplace
  bytes r hplace := by
    have hunread : (s.sockets c).unread = [] := by
      by_contra hunread
      exact not_due_of_quiet hI hquiet hplace (.inl hunread)
    have hidle : (s.stage c).taken = [] := by
      rw [stage_of_registered hplace, hquiet.reactors r]
      rfl
    rw [(hI.watched c).bytes, hunread, hidle, List.append_nil, List.append_nil]
  told r hplace hending := by
    by_contra htold
    exact not_due_of_quiet hI hquiet hplace (.inr ⟨hending, Bool.eq_false_iff.mpr htold⟩)

end EdgeTriggerLemmas

open EdgeTriggerLemmas

/-- In every state of every run nothing is forgotten that comes from a client; and in every quiet
state all clients have been heard out. -/
theorem all_read_when_quiet (handler : Handler σ) (state : σ) (moves : List Move) :
    Always (next handler) (fun o => ∀ s ∈ o, (∀ c, Watched (s.sockets c) (s.stage c)) ∧
      (s.Quiet → ∀ c, s.HeardOut c)) (some (Network.new state)) moves := by
  have hall : Always (next handler) (fun o => ∀ s ∈ o, Inv s) (some (Network.new state)) moves := by
    refine always_of_along (fun o move h _ => next_inv handler h move) ?_
      (Along.of_forall (P := fun _ _ => True) (fun _ _ => True.intro) _ _)
    rintro _ ⟨rfl⟩
    exact inv_new state
  exact hall.mono fun o h s hs => ⟨(h s hs).watched, heardOut_of_quiet (h s hs)⟩

end TurtleServer.EdgeTrigger
