import TurtleServer.Http.Closing

/-!
# What is sent when `send` fails

`Send` retries after `EINTR`, `EAGAIN` and `EWOULDBLOCK`. After any other error it drops what is left
of the write buffer and says nothing to its caller, and the loop of `ProcessHttpRequest` goes on with
the next request. When the error was a passing one, the next response follows the piece of the one
before (`response_after_piece`).

* `SendCall`: a call of `Send`, with what the socket had in store for it and the response to be sent.
* `Life`: the calls of `ProcessHttpRequest` for a connection, one after the other.
* `output_integrity_iff`: at any time in the life of a connection, what went out is the beginning of its
  responses, and nothing followed a piece, exactly when no `send` took bytes after one that had failed
  for good.
-/

namespace TurtleServer

namespace Connection

/-- The results of `send` that `Send` gets to see. -/
def sendOutcomes : List SendResult → Bytes → List SendResult
  | _, [] => []
  | [], b :: toWrite => [.accepted ⟨(b :: toWrite).length, Nat.succ_pos _⟩]
  | .accepted count :: outgoing, b :: toWrite =>
    .accepted count :: sendOutcomes outgoing ((b :: toWrite).drop count)
  | .failed .other :: _, _ :: _ => [.failed .other]
  | .failed errno :: outgoing, b :: toWrite => .failed errno :: sendOutcomes outgoing (b :: toWrite)

/-- Not a `send` that failed for good and then one that takes bytes. -/
def NothingAfterFailure (a b : SendResult) : Prop := a = .failed .other → ∀ count, b ≠ .accepted count

theorem sendLoop_accepted (count : ℕ+) (outgoing : List SendResult) (b : UInt8) (toWrite : Bytes) :
    (sendLoop (.accepted count :: outgoing) (b :: toWrite)).1 =
      (b :: toWrite).take count ++ (sendLoop outgoing ((b :: toWrite).drop count)).1 := by
  rw [sendLoop]
  exact List.cons_ne_nil _ _

theorem sendLoop_retry {errno : Errno} (h : errno ≠ .other) (outgoing : List SendResult) (b : UInt8)
    (toWrite : Bytes) :
    sendLoop (.failed errno :: outgoing) (b :: toWrite) = sendLoop outgoing (b :: toWrite) := by
  cases errno with
  | other => exact absurd rfl h
  | eintr => rfl
  | eagain => rfl
  | ewouldblock => rfl

/-- `Send` sends the beginning of the write buffer, all of it unless a `send` fails for good, and some
of it if a `send` takes bytes. -/
theorem sendLoop_spec (outgoing : List SendResult) (toWrite : Bytes) :
    (sendLoop outgoing toWrite).1 <+: toWrite ∧
      ((sendLoop outgoing toWrite).1 ≠ toWrite ↔ .failed .other ∈ sendOutcomes outgoing toWrite) ∧
      ((sendLoop outgoing toWrite).1 = [] ↔ ∀ count, .accepted count ∉ sendOutcomes outgoing toWrite) ∧
      (sendOutcomes outgoing toWrite).Pairwise NothingAfterFailure := by
  fun_induction sendOutcomes outgoing toWrite with
  | case1 outgoing => simp [sendLoop]
  | case2 b toWrite =>
    refine ⟨by simp [sendLoop], by simp [sendLoop], ?_, by simp⟩
    exact iff_of_false (by simp [sendLoop]) fun h => h _ List.mem_cons_self
  | case3 count outgoing b toWrite ih =>
    obtain ⟨hpart, hcut, -, hafter⟩ := ih
    have hsplit : (b :: toWrite).take count ++ (b :: toWrite).drop count = b :: toWrite :=
      List.take_append_drop _ _
    have htake : (b :: toWrite).take count ≠ [] := by simp
    rw [sendLoop_accepted]
    refine ⟨?_, ?_, ?_, ?_⟩
    · nth_rewrite 3 [← hsplit]
      exact (List.prefix_append_right_inj _).mpr hpart
    · nth_rewrite 3 [← hsplit]
      rw [ne_eq, List.append_right_inj, ← ne_eq, hcut]
      simp
    · exact iff_of_false (by simp [htake]) fun h => h count List.mem_cons_self
    · refine List.pairwise_cons.mpr ⟨fun next _ => ?_, hafter⟩
      intro hfailed
      cases hfailed
  | case4 outgoing b toWrite => simp [sendLoop]
  | case5 errno outgoing b toWrite herrno ih =>
    rw [sendLoop_retry herrno]
    obtain ⟨hpart, hcut, hnone, hafter⟩ := ih
    refine ⟨hpart, ?_, ?_, ?_⟩
    · rw [hcut]
      simp [Ne.symm herrno]
    · rw [hnone]
      simp
    · exact List.pairwise_cons.mpr ⟨fun _ _ h => absurd (SendResult.failed.inj h) herrno, hafter⟩

end Connection

namespace Http

/-- A call of `Send`: what `send` is going to answer, and the response in the write buffer. -/
structure SendCall where
  outgoing : List SendResult
  response : Bytes
deriving DecidableEq, Repr

namespace SendCall

/-- The bytes that go out. -/
def sent (call : SendCall) : Bytes := (Connection.sendLoop call.outgoing call.response).1

/-- What `send` answers. -/
def outcomes (call : SendCall) : List SendResult :=
  Connection.sendOutcomes call.outgoing call.response

end SendCall

/-- The calls of `Send` for one response after the other. -/
def sendCalls : List SendResult → List Bytes → List SendCall
  | _, [] => []
  | outgoing, response :: responses =>
    ⟨outgoing, response⟩ :: sendCalls (Connection.sendLoop outgoing response).2 responses

/-- What went out is the beginning of the responses, and once a response has been cut short no byte of
a later one is sent. -/
structure Integrity (delivered : Bytes) (calls : List SendCall) : Prop where
  beginning : delivered <+: calls.flatMap SendCall.response
  cut : calls.Pairwise fun earlier later => earlier.sent ≠ earlier.response → later.sent = []

section life

variable {σ : Type} (fetch : Fetch σ) (site : Site)

/-- `ProcessHttpRequest` after at most `rounds` rounds of its loop. -/
def processRounds (rounds : ℕ) (conn : Connection) (shared : Shared σ) :
    Option (Connection × Bool × Shared σ) :=
  let (_, exit, conn) := conn.recv
  if exit then some (conn, true, shared)
  else serveLoop fetch site (min rounds conn.readBuffer.buf.length) conn shared

/-- The calls of `Send` for the responses that were built between two states of the log. -/
def newCalls (event : Event) (shared shared' : Shared σ) : List SendCall :=
  sendCalls event.outgoing ((shared'.log.drop shared.log.length).map Exchange.responseBuf)

/-- A connection outside `ProcessHttpRequest`, and all calls of `Send` on it so far. Between the calls
of `ProcessHttpRequest` other connections may do anything to the shared state. -/
inductive Life : Connection → List SendCall → Prop
  | fresh : Life .fresh []
  | visit {conn conn' : Connection} {calls : List SendCall} {shared' : Shared σ} (event : Event)
      (shared : Shared σ) (h : Life conn calls)
      (hcall : processHttpRequest fetch site (event.arrive conn) shared =
        some (conn', false, shared')) :
    Life conn' (calls ++ newCalls event shared shared')

end life

namespace SendFailureLemmas

open StreamLemmas

variable {σ : Type} {fetch : Fetch σ} {site : Site} {conn conn' : Connection} {deleted : Bool}
  {shared shared' : Shared σ} {calls : List SendCall}

/-! ### The calls of `Send` -/

/-- In terms of the answers of `send`: nothing is sent after a piece. -/
theorem cut_iff (calls : List SendCall) :
    (calls.Pairwise fun earlier later => earlier.sent ≠ earlier.response → later.sent = []) ↔
      (calls.flatMap SendCall.outcomes).Pairwise Connection.NothingAfterFailure := by
  rw [List.pairwise_flatMap]
  have hcall : ∀ earlier later : SendCall,
      (earlier.sent ≠ earlier.response → later.sent = []) ↔
        ∀ a ∈ earlier.outcomes, ∀ b ∈ later.outcomes, Connection.NothingAfterFailure a b := by
    intro earlier later
    obtain ⟨-, hcut, -, -⟩ := Connection.sendLoop_spec earlier.outgoing earlier.response
    obtain ⟨-, -, hnone, -⟩ := Connection.sendLoop_spec later.outgoing later.response
    unfold SendCall.sent SendCall.outcomes
    rw [hcut, hnone]
    constructor
    · rintro h a ha b hb rfl count rfl
      exact h ha count hb
    · exact fun h ha count hb => h _ ha _ hb rfl count rfl
  simp only [hcall]
  refine (and_iff_right fun call _ => ?_).symm
  exact (Connection.sendLoop_spec call.outgoing call.response).2.2.2

/-- Pieces of the responses, of which none follows an incomplete one. -/
theorem beginning_of_cut (h : calls.Pairwise fun earlier later =>
      earlier.sent ≠ earlier.response → later.sent = []) :
    calls.flatMap SendCall.sent <+: calls.flatMap SendCall.response := by
  induction calls with
  | nil => exact List.prefix_rfl
  | cons call calls ih =>
    obtain ⟨hfirst, hrest⟩ := List.pairwise_cons.mp h
    rw [List.flatMap_cons, List.flatMap_cons]
    by_cases hsent : call.sent = call.response
    · rw [hsent]
      exact (List.prefix_append_right_inj _).mpr (ih hrest)
    · have hnone : calls.flatMap SendCall.sent = [] :=
        List.flatMap_eq_nil_iff.mpr fun later hlater => hfirst later hlater hsent
      rw [hnone, List.append_nil]
      exact (Connection.sendLoop_spec call.outgoing call.response).1.trans (List.prefix_append _ _)

theorem integrity_iff (calls : List SendCall) :
    Integrity (calls.flatMap SendCall.sent) calls ↔
      (calls.flatMap SendCall.outcomes).Pairwise Connection.NothingAfterFailure := by
  rw [← cut_iff]
  exact ⟨Integrity.cut, fun h => ⟨beginning_of_cut h, h⟩⟩

/-! ### The life of a connection -/

/-- What `Send` does with a response, when all that was written before is gone. -/
theorem send_response (hwrite : conn.writeBuffer.buf = []) (response : Bytes) :
    (conn.writeToWriteBuffer response).send.socket.delivered =
        conn.socket.delivered ++ (Connection.sendLoop conn.socket.outgoing response).1 ∧
      (conn.writeToWriteBuffer response).send.socket.outgoing =
        (Connection.sendLoop conn.socket.outgoing response).2 := by
  have hbuf : (conn.writeToWriteBuffer response).writeBuffer.buf = response := by
    show conn.writeBuffer.buf ++ response = response
    rw [hwrite, List.nil_append]
  unfold Connection.send
  rw [hbuf]
  exact ⟨rfl, rfl⟩

/-- What the loop sends, whatever `send` answers. -/
theorem serveLoop_calls {rounds : ℕ} (hwrite : conn.writeBuffer.buf = [])
    (h : serveLoop fetch site rounds conn shared = some (conn', deleted, shared')) :
    ∃ new, shared'.log = shared.log ++ new ∧ conn'.writeBuffer.buf = [] ∧
      conn'.socket.delivered = conn.socket.delivered ++
        (sendCalls conn.socket.outgoing (new.map Exchange.responseBuf)).flatMap SendCall.sent := by
  induction rounds generalizing conn shared with
  | zero =>
    cases h
    exact ⟨[], by simp [sendCalls, hwrite]⟩
  | succ rounds ih =>
    cases hpop : conn.findAndPopTill (crlf ++ crlf) with
    | none =>
      cases (serveLoop_none hpop).symm.trans h
      exact ⟨[], by simp [sendCalls, hwrite]⟩
    | some r =>
      obtain ⟨requestStr, conn₁⟩ := r
      obtain ⟨-, -, -, hsocket, hwrite₁⟩ := findAndPopTill_eq_some hpop
      cases hanswer : answer fetch site (site.disk shared.log.length) shared.store requestStr with
      | none => exact absurd ((serveLoop_stuck hpop hanswer).symm.trans h) nofun
      | some r =>
        obtain ⟨response, body, noMoreParse, store⟩ := r
        rw [serveLoop_some hpop hanswer] at h
        obtain ⟨hdelivered, houtgoing⟩ := send_response (hwrite₁ ▸ hwrite)
          (response.serialize [] ++ body)
        rw [hsocket] at hdelivered houtgoing
        cases noMoreParse with
        | true =>
          cases h
          exact ⟨[_], rfl, rfl, by rw [hdelivered]; simp [sendCalls]; rfl⟩
        | false =>
          obtain ⟨new, hlog, hwrite', hrest⟩ := ih rfl h
          refine ⟨shared.exchange requestStr response body :: new, ?_, hwrite', ?_⟩
          · rw [hlog, List.append_assoc]
            rfl
          · rw [hrest, hdelivered, houtgoing, List.append_assoc]
            rfl

/-- What one call of `ProcessHttpRequest` sends. -/
theorem processRounds_calls {rounds : ℕ} {event : Event} (hwrite : conn.writeBuffer.buf = [])
    (h : processRounds fetch site rounds (event.arrive conn) shared =
      some (conn', deleted, shared')) :
    conn'.writeBuffer.buf = [] ∧ conn'.socket.delivered = conn.socket.delivered ++
      (newCalls event shared shared').flatMap SendCall.sent := by
  obtain ⟨hwrite₁, houtgoing, hdelivered⟩ :=
    Connection.recvLoop_frame (event.arrive conn).socket.incoming 0 (event.arrive conn)
  unfold processRounds Connection.recv at h
  dsimp only at h
  split at h
  · cases h
    have hnone : newCalls event shared shared = [] := by simp [newCalls, sendCalls]
    rw [hnone, List.flatMap_nil, List.append_nil]
    exact ⟨(congrArg Buffer.buf hwrite₁).trans hwrite, hdelivered⟩
  · obtain ⟨new, hlog, hwrite', hsent⟩ :=
      serveLoop_calls ((congrArg Buffer.buf hwrite₁).trans hwrite) h
    refine ⟨hwrite', ?_⟩
    rw [hsent, hdelivered, houtgoing, newCalls, hlog, List.drop_left]
    rfl

/-- A call that comes to its end makes as many rounds as it needs. -/
theorem process_eq_processRounds (conn : Connection) (shared : Shared σ) :
    processHttpRequest fetch site conn shared =
      processRounds fetch site conn.recv.2.2.readBuffer.buf.length conn shared := by
  unfold processRounds processHttpRequest
  obtain ⟨read, exit, conn'⟩ := conn.recv
  dsimp only
  rw [min_self]

theorem life_calls (h : Life fetch site conn calls) :
    conn.writeBuffer.buf = [] ∧ conn.socket.delivered = calls.flatMap SendCall.sent := by
  induction h with
  | fresh => exact ⟨rfl, rfl⟩
  | visit event shared h hcall ih =>
    rw [process_eq_processRounds] at hcall
    obtain ⟨hwrite, hdelivered⟩ := processRounds_calls ih.1 hcall
    refine ⟨hwrite, ?_⟩
    rw [hdelivered, ih.2, List.flatMap_append]

end SendFailureLemmas

open SendFailureLemmas

/-- At any time in the life of a connection, inside a call of `ProcessHttpRequest` or at its end: the
output is intact exactly when no `send` took bytes after one that had failed for good. -/
theorem output_integrity_iff {σ : Type} (fetch : Fetch σ) (site : Site) (conn : Connection)
    (calls : List SendCall) (hlife : Life fetch site conn calls) (event : Event) (shared : Shared σ)
    (rounds : ℕ) (conn' : Connection) (deleted : Bool) (shared' : Shared σ)
    (hcall : processRounds fetch site rounds (event.arrive conn) shared =
      some (conn', deleted, shared')) :
    Integrity conn'.socket.delivered (calls ++ newCalls event shared shared') ↔
      ((calls ++ newCalls event shared shared').flatMap SendCall.outcomes).Pairwise
        Connection.NothingAfterFailure := by
  obtain ⟨hwrite, hdelivered⟩ := life_calls hlife
  rw [← integrity_iff, (processRounds_calls hwrite hcall).2, hdelivered, List.flatMap_append]

/-- Two requests in one event. The first `send` takes five bytes, the second one fails, and the error
has passed when the next response is sent. -/
def passingError : Event :=
  ⟨twoRequests.incoming, [.accepted (Nat.succPNat 4), .failed .other]⟩

/-- An empty cache, and nothing answered yet. -/
def nothingYet : Shared Cache := ⟨.new (.upTo 9 (by decide)) 8, []⟩

theorem passingError_integrity_iff :
    ∃ conn' deleted shared',
      processRounds (cachedFetch (.upTo 9 (by decide))) smallSite 2 (passingError.arrive .fresh)
        nothingYet = some (conn', deleted, shared') ∧
      (Integrity conn'.socket.delivered ([] ++ newCalls passingError nothingYet shared') ↔
        (([] ++ newCalls passingError nothingYet shared').flatMap SendCall.outcomes).Pairwise
          Connection.NothingAfterFailure) := by
  obtain ⟨⟨conn', deleted, shared'⟩, hcall⟩ := Option.isSome_iff_exists.mp
    (show (processRounds (cachedFetch (.upTo 9 (by decide))) smallSite 2 (passingError.arrive .fresh)
      nothingYet).isSome = true by decide)
  exact ⟨conn', deleted, shared', hcall, output_integrity_iff _ smallSite .fresh [] .fresh passingError
    nothingYet 2 conn' deleted shared' hcall⟩

/-- The second response follows five bytes of the first. -/
theorem response_after_piece :
    (processHttpRequest (cachedFetch (.upTo 9 (by decide))) smallSite (passingError.arrive .fresh)
        nothingYet).map (fun r => (r.1.socket.delivered, r.2.2.log.map Exchange.responseBuf)) =
      some (bytes "HTTP/" ++ Response.make404Response.serialize [],
        [(Response.ofResource responseOk false (bytes "/srv/index.html") 3).serialize [] ++ bytes "<p>",
          Response.make404Response.serialize []]) ∧
      ¬ bytes "HTTP/" ++ Response.make404Response.serialize [] <+:
        [(Response.ofResource responseOk false (bytes "/srv/index.html") 3).serialize [] ++ bytes "<p>",
          Response.make404Response.serialize []].flatten := by
  decide

end Http

end TurtleServer
