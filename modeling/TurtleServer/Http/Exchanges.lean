import TurtleServer.Http.Fragmentation

/-!
# The record of what was answered

Every request that is handled leaves an `Exchange` in the log: the request, the cache before it, and
the response with its body. `processHttpRequest_spec` says what a call of `ProcessHttpRequest` adds
to the log and sends: it answers a prefix of the requests in the read buffer, each of the new records
is `Genuine`, and the bytes sent are theirs.
-/

namespace TurtleServer.Http

open Lib

/-- The record tells what the server answers to the request, with the cache and the file system as
they were then. -/
structure Genuine (clock : Clock) (capacity : ℕ) (site : Site) (e : Exchange Cache) : Prop where
  store : ∃ l, Holds clock capacity e.store l
  plain : site.Plain (site.disk e.number) e.requestStr
  answered : ∃ noMoreParse store, answer (cachedFetch clock) site (site.disk e.number) e.store
    e.requestStr = some (e.response, e.body, noMoreParse, store)

namespace ExchangeLemmas

open StreamLemmas FragmentationLemmas

variable {clock : Clock} {capacity : ℕ} {site : Site} {conn : Connection} {shared : Shared Cache}
  {l : List (Bytes × Bytes)}

theorem answer_spec {disk : FileSystem} {cache : Cache} {requestStr : Bytes}
    (hstore : Holds clock capacity cache l) (hplain : site.Plain disk requestStr) :
    ∃ response body noMoreParse cache' l',
      answer (cachedFetch clock) site disk cache requestStr =
        some (response, body, noMoreParse, cache') ∧ Holds clock capacity cache' l' := by
  obtain ⟨_, _, _, _, hr⟩ := answer_total capacity hplain l
  rcases answer_simulates cachedFetch_simulates site disk hstore requestStr with
    ⟨-, hnone⟩ | ⟨response, body, noMoreParse, cache', l', h, -, hholds⟩
  · rw [hr] at hnone
    exact absurd hnone (Option.some_ne_none _)
  · exact ⟨response, body, noMoreParse, cache', l', h, hholds⟩

/-- What a call adds to the log and to the bytes sent. -/
structure Adds (clock : Clock) (capacity : ℕ) (site : Site) (conn : Connection)
    (shared : Shared Cache) (requests : List Bytes) (conn' : Connection) (shared' : Shared Cache)
    (new : List (Exchange Cache)) : Prop where
  log : shared'.log = shared.log ++ new
  requests : new.map Exchange.requestStr <+: requests
  genuine : ∀ e ∈ new, Genuine clock capacity site e
  store : ∃ l, Holds clock capacity shared'.store l
  sent : conn.writeBuffer.buf = [] → (∀ r ∈ conn.socket.outgoing, r.Clean) →
    conn'.writeBuffer.buf = [] ∧
    conn'.socket.delivered = conn.socket.delivered ++ new.flatMap Exchange.responseBuf

theorem adds_nothing (hstore : Holds clock capacity shared.store l) (requests : List Bytes) :
    Adds clock capacity site conn shared requests conn shared [] where
  log := (List.append_nil _).symm
  requests := List.nil_prefix
  genuine := fun _ he => absurd he List.not_mem_nil
  store := ⟨l, hstore⟩
  sent := fun hwrite _ => ⟨hwrite, (List.append_nil _).symm⟩

/-- What is added does not depend on the read buffer and the input of the connection. -/
theorem Adds.congr {requests : List Bytes} {conn₁ conn' : Connection} {shared' : Shared Cache}
    {new : List (Exchange Cache)}
    (h : Adds clock capacity site conn₁ shared requests conn' shared' new)
    (hwrite : conn₁.writeBuffer = conn.writeBuffer)
    (houtgoing : conn₁.socket.outgoing = conn.socket.outgoing)
    (hdelivered : conn₁.socket.delivered = conn.socket.delivered) :
    Adds clock capacity site conn shared requests conn' shared' new :=
  { h with
    sent := by
      rw [← hwrite, ← houtgoing, ← hdelivered]
      exact h.sent }

/-- One request answered, and then more on the connection as it is after that. -/
theorem adds_cons {requestStr body : Bytes} {response : Response} {noMoreParse : Bool}
    {cache : Cache} {requests : List Bytes} {conn₁ conn' : Connection} {shared' : Shared Cache}
    {new : List (Exchange Cache)} (hsocket : conn₁.socket = conn.socket)
    (hwrite₁ : conn₁.writeBuffer = conn.writeBuffer) (hstore : Holds clock capacity shared.store l)
    (hplain : site.Plain (site.disk shared.log.length) requestStr)
    (hanswer : answer (cachedFetch clock) site (site.disk shared.log.length) shared.store requestStr =
      some (response, body, noMoreParse, cache))
    (hrest : Adds clock capacity site
      (conn₁.writeToWriteBuffer (response.serialize [] ++ body)).send
      ⟨cache, shared.log ++ [shared.exchange requestStr response body]⟩ requests conn' shared' new) :
    Adds clock capacity site conn shared (requestStr :: requests) conn' shared'
      (shared.exchange requestStr response body :: new) where
  log := by
    rw [hrest.log, List.append_assoc]
    rfl
  requests := List.cons_prefix_cons.mpr ⟨rfl, hrest.requests⟩
  genuine := by
    refine List.forall_mem_cons.mpr ⟨?_, hrest.genuine⟩
    exact ⟨⟨l, hstore⟩, hplain, ⟨noMoreParse, cache, hanswer⟩⟩
  store := hrest.store
  sent := by
    intro hwrite hsend
    obtain ⟨conn₂, hconn₂, hdelivered, -, hwrite₂, hsend₂⟩ :=
      respond_clean conn₁ (hwrite₁ ▸ hwrite) (hsocket ▸ hsend) (response.serialize [] ++ body)
    rw [hconn₂] at hrest
    obtain ⟨hwrite', hdelivered'⟩ := hrest.sent hwrite₂ hsend₂
    refine ⟨hwrite', ?_⟩
    rw [hdelivered', hdelivered, hsocket, List.append_assoc, List.flatMap_cons]
    rfl

theorem serveLoop_spec (bound : ℕ) (conn : Connection) (shared : Shared Cache)
    (hstore : Holds clock capacity shared.store l)
    (hplain : ∀ r ∈ requestsIn conn.readBuffer.buf, ∀ n, site.Plain (site.disk n) r) :
    ∃ conn' deleted shared' new,
      serveLoop (cachedFetch clock) site bound conn shared = some (conn', deleted, shared') ∧
      Adds clock capacity site conn shared (requestsIn conn.readBuffer.buf) conn' shared' new := by
  induction bound generalizing conn shared l with
  | zero => exact ⟨conn, false, shared, [], rfl, adds_nothing hstore _⟩
  | succ bound ih =>
    cases hpop : conn.findAndPopTill (crlf ++ crlf) with
    | none => exact ⟨conn, false, shared, [], serveLoop_none hpop, adds_nothing hstore _⟩
    | some r =>
      obtain ⟨requestStr, conn₁⟩ := r
      obtain ⟨hrequests, -, -, hsocket, hwrite₁⟩ := findAndPopTill_eq_some hpop
      rw [hrequests] at hplain ⊢
      obtain ⟨hfirst, hlater⟩ := List.forall_mem_cons.mp hplain
      obtain ⟨response, body, noMoreParse, cache, l', hanswer, hholds⟩ :=
        answer_spec hstore (hfirst shared.log.length)
      rw [serveLoop_some hpop hanswer]
      cases noMoreParse with
      | true =>
        exact ⟨_, true, _, _, rfl, adds_cons hsocket hwrite₁ hstore (hfirst _) hanswer
          (adds_nothing hholds _)⟩
      | false =>
        obtain ⟨conn', deleted, shared', new, hloop, hadds⟩ :=
          ih (conn₁.writeToWriteBuffer (response.serialize [] ++ body)).send
            ⟨cache, shared.log ++ [shared.exchange requestStr response body]⟩ hholds hlater
        exact ⟨conn', deleted, shared', _, hloop,
          adds_cons hsocket hwrite₁ hstore (hfirst _) hanswer hadds⟩

end ExchangeLemmas

open ExchangeLemmas

/-- The requests that are complete in the read buffer once the bytes of an event have been read. -/
def pendingRequests (conn : Connection) (event : Event) : List Bytes :=
  requestsIn (event.arrive conn).recv.2.2.readBuffer.buf

namespace ExchangeLemmas

variable {σ : Type} {fetch : Fetch σ} {site : Site} {conn : Connection} {shared : Shared σ}
  {event : Event}

/-- Without the end of the file the requests in the read buffer are answered. -/
theorem process_of_open (hopen : (event.arrive conn).recv.2.1 = false) :
    ∃ conn₁ : Connection, processHttpRequest fetch site (event.arrive conn) shared =
        serveLoop fetch site conn₁.readBuffer.buf.length conn₁ shared ∧
      pendingRequests conn event = requestsIn conn₁.readBuffer.buf ∧
      conn₁.writeBuffer = conn.writeBuffer ∧ conn₁.socket.outgoing = event.outgoing ∧
      conn₁.socket.delivered = conn.socket.delivered := by
  obtain ⟨hwrite, houtgoing, hdelivered⟩ :=
    Connection.recvLoop_frame (event.arrive conn).socket.incoming 0 (event.arrive conn)
  refine ⟨(event.arrive conn).recv.2.2, ?_, rfl, hwrite, houtgoing, hdelivered⟩
  unfold processHttpRequest
  exact if_neg (Bool.eq_false_iff.mp hopen)

/-- At the end of the file the connection is deleted, and nothing else happens. -/
theorem process_of_exit (hexit : (event.arrive conn).recv.2.1 = true) :
    ∃ conn₁ : Connection,
      processHttpRequest fetch site (event.arrive conn) shared = some (conn₁, true, shared) ∧
      conn₁.writeBuffer = conn.writeBuffer ∧ conn₁.socket.outgoing = event.outgoing ∧
      conn₁.socket.delivered = conn.socket.delivered := by
  obtain ⟨hwrite, houtgoing, hdelivered⟩ :=
    Connection.recvLoop_frame (event.arrive conn).socket.incoming 0 (event.arrive conn)
  refine ⟨(event.arrive conn).recv.2.2, ?_, hwrite, houtgoing, hdelivered⟩
  unfold processHttpRequest
  exact if_pos hexit

end ExchangeLemmas

theorem processHttpRequest_spec {clock : Clock} {capacity : ℕ} {site : Site} {conn : Connection}
    {shared : Shared Cache} {l : List (Bytes × Bytes)} {event : Event}
    (hstore : Holds clock capacity shared.store l)
    (hplain : ∀ r ∈ pendingRequests conn event, ∀ n, site.Plain (site.disk n) r) :
    ∃ conn' deleted shared' new,
      processHttpRequest (cachedFetch clock) site (event.arrive conn) shared =
        some (conn', deleted, shared') ∧
      Adds clock capacity site (event.arrive conn) shared (pendingRequests conn event) conn' shared'
        new := by
  cases hexit : (event.arrive conn).recv.2.1 with
  | true =>
    obtain ⟨conn₁, hprocess, hwrite, houtgoing, hdelivered⟩ := process_of_exit hexit
    exact ⟨conn₁, true, shared, [], hprocess,
      (adds_nothing hstore _).congr hwrite houtgoing hdelivered⟩
  | false =>
    obtain ⟨conn₁, hprocess, hpending, hwrite, houtgoing, hdelivered⟩ := process_of_open hexit
    rw [hpending] at hplain ⊢
    obtain ⟨conn', deleted, shared', new, hloop, hadds⟩ :=
      serveLoop_spec conn₁.readBuffer.buf.length conn₁ shared hstore hplain
    exact ⟨conn', deleted, shared', new, hprocess.trans hloop,
      hadds.congr hwrite houtgoing hdelivered⟩

end TurtleServer.Http
