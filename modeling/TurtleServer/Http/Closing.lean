import TurtleServer.Http.Exchanges
import TurtleServer.Http.ResponseHeads

/-!
# The announcement of a close

A response tells the client in its header `Connection` whether the connection stays open, and
`no_more_parse` decides whether it does. The two are computed separately in every branch of the loop.
`close_announced`: they always agree. Of the requests in the read buffer the first ones are answered,
up to and including the first that closes, every response but the last announces `Keep-Alive`, and the
connection is deleted exactly when the last one announces `Close`. What a response announces is what
is in the bytes that are sent of it (`readConnection`).
-/

namespace TurtleServer.Http

open Lib

/-- A request after which the connection is closed: it is invalid, what it asks for is missing, or it
does not ask to keep the connection. -/
def Site.closes (site : Site) (disk : FileSystem) (requestStr : Bytes) : Bool :=
  !(Request.parse requestStr).isValid || decide (disk (site.target requestStr) = .absent) ||
    (Request.parse requestStr).shouldClose

/-- The number of requests that are answered, the first of them as request `number`: up to and
including the first that closes, or all. -/
def Site.answered (site : Site) (number : ℕ) (requests : List Bytes) : ℕ :=
  min ((requests.zipIdx number).findIdx (fun r => site.closes (site.disk r.2) r.1) + 1)
    requests.length

/-- The values of the headers `Connection` of a response. -/
def Response.connection (response : Response) : List Bytes :=
  (response.headers.filter fun h => h.key = headerConnection).map Header.value

/-- The values after `Connection` in the lines of the head that a client has received. -/
def readConnection (received : Bytes) : Option (List Bytes) :=
  (Response.headerBlock received).map fun block =>
    ((split block.1 crlf).filter fun line => (headerConnection ++ colon).isPrefixOf line).map
      fun line => line.drop (headerConnection ++ colon).length

/-- What the records of one call of `ProcessHttpRequest` say about the requests in the read buffer and
the connection. -/
structure Announced {σ : Type} (site : Site) (number : ℕ) (requests : List Bytes)
    (new : List (Exchange σ)) (deleted : Bool) : Prop where
  answered : new.map Exchange.requestStr = requests.take (site.answered number requests)
  keepAlive : ∀ e ∈ new.dropLast, e.response.connection = [connectionKeepAlive]
  deleted : deleted = true ↔ ∃ e, new.getLast? = some e ∧ e.response.connection = [connectionClose]
  read : ∀ e ∈ new, ∀ later, readConnection (e.responseBuf ++ later) = some e.response.connection

namespace ClosingLemmas

open StreamLemmas FragmentationLemmas ExchangeLemmas Response.HeadLemmas

variable {clock : Clock} {capacity : ℕ} {site : Site} {disk : FileSystem} {requestStr : Bytes}
  {l : List (Bytes × Bytes)}

/-! ### The header -/

/-- The value that a response with or without `should_close` announces. -/
def announcement (shouldClose : Bool) : Bytes :=
  if shouldClose then connectionClose else connectionKeepAlive

theorem connection_bare (statusCode : Bytes) (shouldClose : Bool) :
    (Response.bare statusCode shouldClose).connection = [announcement shouldClose] := by
  cases shouldClose <;> rfl

theorem connection_ofResource (statusCode : Bytes) (shouldClose : Bool) (url : Bytes) (n : ℕ) :
    (Response.ofResource statusCode shouldClose url n).connection = [announcement shouldClose] := by
  have hserver : headerServer ≠ headerConnection := by decide
  have hlength : headerContentLength ≠ headerConnection := by decide
  have htype : headerContentType ≠ headerConnection := by decide
  have hcontent : (Response.contentType url).filter (fun h => h.key = headerConnection) = [] := by
    unfold Response.contentType
    split
    · simp [htype]
    · rfl
  simp [Response.connection, Response.ofResource, Response.commonHeaders, hserver, hlength, hcontent,
    announcement]

/-- `ChangeHeader` of another header. -/
theorem connection_changeHeader {key : Bytes} (hkey : key ≠ headerConnection) (response : Response)
    (newValue : Bytes) : (response.changeHeader key newValue).2.connection = response.connection := by
  have hfirst : ∀ hs : List Header,
      ((Response.changeFirst key newValue hs).2.filter fun h => h.key = headerConnection) =
        hs.filter fun h => h.key = headerConnection := by
    intro hs
    induction hs with
    | nil => rfl
    | cons h hs ih =>
      unfold Response.changeFirst
      split
      · next heq => simp [heq, hkey]
      · rw [List.filter_cons, List.filter_cons, ih]
  exact congrArg (List.map Header.value) (hfirst response.headers)

/-- A client reads what the response announces. -/
theorem readConnection_serialize {response : Response} {statusCode : Bytes}
    (h : response.HeadForm statusCode) (hstatus : ¬ crlf <:+: statusCode) (rest : Bytes) :
    readConnection (response.serialize [] ++ rest) = some response.connection := by
  rw [readConnection, headerBlock_of_headForm h hstatus, Option.map_some,
    filter_split h hstatus (by decide), List.map_map, Response.connection]
  refine congrArg some (List.map_congr_left fun x hx => ?_)
  have hkey : x.key = headerConnection := of_decide_eq_true (List.mem_filter.mp hx).2
  rw [Function.comp_apply, hkey, List.drop_left]

/-! ### One request -/

theorem closes_of_present (hvalid : (Request.parse requestStr).isValid = true)
    (hpresent : disk (site.target requestStr) ≠ .absent) :
    site.closes disk requestStr = (Request.parse requestStr).shouldClose := by
  simp [Site.closes, hvalid, hpresent]

/-- The responses of the server. `should_close` is what becomes of `no_more_parse`. -/
inductive Made (noMoreParse : Bool) : Response → Prop
  | bare {statusCode : Bytes} (hstatus : ¬ crlf <:+: statusCode) :
    Made noMoreParse (.bare statusCode noMoreParse)
  | sized (n : ℕ) :
    Made noMoreParse
      ((Response.bare responseOk noMoreParse).changeHeader headerContentLength (toDecimal n)).2
  | ofResource (url : Bytes) (n : ℕ) :
    Made noMoreParse (.ofResource responseOk noMoreParse url n)

/-- Whatever a request names, its response is made with the `no_more_parse` that it asks for. -/
theorem answer_made {σ : Type} {fetch : Fetch σ} {store store' : σ} {response : Response}
    {body : Bytes} {noMoreParse : Bool}
    (hanswer : answer fetch site disk store requestStr =
      some (response, body, noMoreParse, store')) :
    noMoreParse = site.closes disk requestStr ∧ Made noMoreParse response := by
  have hcourse := begin_cases site disk requestStr
  rw [answer] at hanswer
  generalize beginRequest site disk requestStr = o at hcourse hanswer
  cases hcourse with
  | badRequest hinvalid =>
    cases hanswer
    exact ⟨by simp [Site.closes, hinvalid], .bare (by decide)⟩
  | notFound hvalid hdisk =>
    cases hanswer
    exact ⟨by simp [Site.closes, hdisk], .bare (by decide)⟩
  | untold hvalid hdisk => cases hanswer
  | cgi hvalid hcgi hpresent htold =>
    rw [closes_of_present hvalid (target_of_cgi hcgi ▸ hpresent)]
    obtain ⟨pending, hrun, hfinish⟩ := Option.bind_eq_some_iff.mp hanswer
    obtain ⟨cgiResult, -, rfl⟩ := Option.map_eq_some_iff.mp hrun
    cases hfinish
    exact ⟨rfl, .sized _⟩
  | static hvalid hcgi hpresent htold =>
    rw [closes_of_present hvalid (target_of_static hcgi ▸ hpresent)]
    obtain ⟨pending, hsize, hfinish⟩ := Option.bind_eq_some_iff.mp hanswer
    obtain ⟨size, -, rfl⟩ := Option.map_eq_some_iff.mp hsize
    split at hfinish
    · obtain ⟨⟨body', store''⟩, -, heq⟩ := Option.bind_eq_some_iff.mp hfinish
      cases heq
      exact ⟨rfl, .ofResource _ _⟩
    · cases hfinish
      exact ⟨rfl, .ofResource _ _⟩

theorem connection_of_made {noMoreParse : Bool} {response : Response} (h : Made noMoreParse response) :
    response.connection = [announcement noMoreParse] := by
  cases h with
  | bare hstatus => exact connection_bare _ _
  | sized n => exact (connection_changeHeader (by decide) _ _).trans (connection_bare _ _)
  | ofResource url n => exact connection_ofResource _ _ _ _

theorem headForm_of_made {noMoreParse : Bool} {response : Response} (h : Made noMoreParse response) :
    ∃ statusCode, response.HeadForm statusCode ∧ ¬ crlf <:+: statusCode := by
  have hok : ¬ crlf <:+: responseOk := by decide
  cases h with
  | bare hstatus => exact ⟨_, headForm_bare _ _, hstatus⟩
  | sized n =>
    have hlength : ¬ crlf <:+: toDecimal n := not_infix_crlf (Response.BlockLemmas.not_mem_toDecimal n)
    exact ⟨responseOk, headForm_changeHeader (headForm_bare _ _) hlength, hok⟩
  | ofResource url n => exact ⟨responseOk, headForm_ofResource _ _ _ _, hok⟩

/-- Nothing that comes after a response changes what is read of it. -/
theorem readConnection_of_made {noMoreParse : Bool} {response : Response}
    (h : Made noMoreParse response) (body later : Bytes) :
    readConnection (response.serialize [] ++ body ++ later) = some response.connection := by
  obtain ⟨statusCode, hform, hstatus⟩ := headForm_of_made h
  rw [List.append_assoc]
  exact readConnection_serialize hform hstatus (body ++ later)

/-! ### The requests of one call -/

theorem answered_cons (site : Site) (number : ℕ) (requestStr : Bytes) (requests : List Bytes) :
    site.answered number (requestStr :: requests) =
      if site.closes (site.disk number) requestStr then 1
      else site.answered (number + 1) requests + 1 := by
  unfold Site.answered
  rw [List.zipIdx_cons, List.findIdx_cons]
  cases hcloses : site.closes (site.disk number) requestStr with
  | true => simp
  | false => simp [Nat.add_min_add_right]

theorem announced_nil {σ : Type} (number : ℕ) :
    Announced (σ := σ) site number [] [] false where
  answered := rfl
  keepAlive := nofun
  deleted := by simp
  read := nofun

/-- A request that closes. -/
theorem announced_last {σ : Type} {number : ℕ} {e : Exchange σ} (requests : List Bytes)
    (hcloses : site.closes (site.disk number) e.requestStr = true)
    (hconnection : e.response.connection = [announcement true])
    (hread : ∀ later, readConnection (e.responseBuf ++ later) = some e.response.connection) :
    Announced site number (e.requestStr :: requests) [e] true where
  answered := by
    rw [answered_cons, if_pos hcloses]
    rfl
  keepAlive := nofun
  deleted := iff_of_true rfl ⟨e, rfl, hconnection⟩
  read := List.forall_mem_singleton.mpr hread

/-- A request that does not close, and then the others. -/
theorem announced_cons {σ : Type} {number : ℕ} {e : Exchange σ} {requests : List Bytes}
    {new : List (Exchange σ)} {deleted : Bool}
    (hcloses : site.closes (site.disk number) e.requestStr = false)
    (hconnection : e.response.connection = [announcement false])
    (hread : ∀ later, readConnection (e.responseBuf ++ later) = some e.response.connection)
    (h : Announced site (number + 1) requests new deleted) :
    Announced site number (e.requestStr :: requests) (e :: new) deleted where
  answered := by
    rw [answered_cons, if_neg (by simp [hcloses]), List.map_cons, h.answered, List.take_succ_cons]
  keepAlive := by
    cases new with
    | nil => exact nofun
    | cons e' new => exact List.forall_mem_cons.mpr ⟨hconnection, h.keepAlive⟩
  deleted := by
    rw [h.deleted]
    cases new with
    | nil =>
      refine iff_of_false (by simp) ?_
      rintro ⟨e', he', hclose⟩
      obtain rfl : e = e' := Option.some.inj he'
      exact absurd (hconnection.symm.trans hclose) (by decide)
    | cons e' new => rw [List.getLast?_cons_cons]
  read := List.forall_mem_cons.mpr ⟨hread, h.read⟩

theorem serveLoop_announces (bound : ℕ) (conn : Connection) (shared : Shared Cache)
    (hbound : conn.readBuffer.buf.length ≤ bound) (hstore : Holds clock capacity shared.store l)
    (hplain : ∀ r ∈ requestsIn conn.readBuffer.buf, ∀ n, site.Plain (site.disk n) r) :
    ∃ conn' deleted shared' new,
      serveLoop (cachedFetch clock) site bound conn shared = some (conn', deleted, shared') ∧
      Adds clock capacity site conn shared (requestsIn conn.readBuffer.buf) conn' shared' new ∧
      Announced site shared.log.length (requestsIn conn.readBuffer.buf) new deleted := by
  induction bound generalizing conn shared l with
  | zero =>
    have hbuf : conn.readBuffer.buf = [] := List.length_eq_zero_iff.mp (Nat.le_zero.mp hbound)
    have hrequests := (findAndPopTill_eq_none (findAndPopTill_of_nil hbuf)).1
    rw [hrequests]
    exact ⟨conn, false, shared, [], rfl, adds_nothing hstore _, announced_nil _⟩
  | succ bound ih =>
    cases hpop : conn.findAndPopTill (crlf ++ crlf) with
    | none =>
      rw [(findAndPopTill_eq_none hpop).1]
      exact ⟨conn, false, shared, [], serveLoop_none hpop, adds_nothing hstore _, announced_nil _⟩
    | some r =>
      obtain ⟨requestStr, conn₁⟩ := r
      obtain ⟨hrequests, -, hlength, hsocket, hwrite₁⟩ := findAndPopTill_eq_some hpop
      rw [hrequests] at hplain ⊢
      obtain ⟨hfirst, hlater⟩ := List.forall_mem_cons.mp hplain
      obtain ⟨response, body, noMoreParse, cache, l', hanswer, hholds⟩ :=
        answer_spec hstore (hfirst shared.log.length)
      obtain ⟨hcloses, hmade⟩ := answer_made hanswer
      have hconnection := connection_of_made hmade
      have hread := readConnection_of_made hmade body
      rw [serveLoop_some hpop hanswer]
      cases noMoreParse with
      | true =>
        exact ⟨_, true, _, _, rfl,
          adds_cons hsocket hwrite₁ hstore (hfirst _) hanswer (adds_nothing hholds _),
          announced_last (e := shared.exchange requestStr response body) _ hcloses.symm hconnection
            hread⟩
      | false =>
        obtain ⟨conn', deleted, shared', new, hloop, hadds, hannounced⟩ :=
          ih (conn₁.writeToWriteBuffer (response.serialize [] ++ body)).send
            ⟨cache, shared.log ++ [shared.exchange requestStr response body]⟩
            (Nat.le_of_lt_succ (Nat.lt_of_lt_of_le hlength hbound)) hholds hlater
        rw [List.length_append, List.length_singleton] at hannounced
        exact ⟨conn', deleted, shared', _, hloop,
          adds_cons hsocket hwrite₁ hstore (hfirst _) hanswer hadds,
          announced_cons (e := shared.exchange requestStr response body) hcloses.symm hconnection hread
            hannounced⟩

end ClosingLemmas

open ClosingLemmas FragmentationLemmas ExchangeLemmas

/-- One call of `ProcessHttpRequest` without the end of the file. -/
theorem close_announced (clock : Clock) (capacity : UInt64) (site : Site) (conn : Connection)
    (event : Event) (shared : Shared Cache) (hcache : shared.store.Reachable clock capacity)
    (hopen : (event.arrive conn).recv.2.1 = false)
    (hplain : ∀ r ∈ pendingRequests conn event, ∀ n, site.Plain (site.disk n) r) :
    ∃ conn' deleted shared' new,
      processHttpRequest (cachedFetch clock) site (event.arrive conn) shared =
        some (conn', deleted, shared') ∧
      shared'.log = shared.log ++ new ∧
      (conn.writeBuffer.buf = [] → (∀ r ∈ event.outgoing, r.Clean) →
        conn'.socket.delivered = conn.socket.delivered ++ new.flatMap Exchange.responseBuf) ∧
      Announced site shared.log.length (pendingRequests conn event) new deleted := by
  obtain ⟨conn₁, hprocess, hpending, hwrite, houtgoing, hdelivered⟩ := process_of_open hopen
  rw [hpending] at hplain ⊢
  obtain ⟨conn', deleted, shared', new, hloop, hadds, hannounced⟩ :=
    serveLoop_announces _ conn₁ shared (le_refl _) (holds_of_reachable hcache) hplain
  refine ⟨conn', deleted, shared', new, hprocess.trans hloop, hadds.log, fun hempty hclean => ?_,
    hannounced⟩
  rw [← hdelivered]
  exact (hadds.sent (hwrite ▸ hempty) (houtgoing ▸ hclean)).2

/-- Two requests in one event: the first keeps the connection, and the second asks for a page that is
not there. -/
def twoRequests : Event :=
  ⟨[.received (bytes "GET / HTTP/1.1\r\nConnection:Keep-Alive\r\n\r\nGET /x HTTP/1.1\r\n\r\n")], []⟩

theorem twoRequests_announced :
    ∃ conn' deleted shared' new,
      processHttpRequest (cachedFetch (.upTo 9 (by decide))) smallSite (twoRequests.arrive .fresh)
          ⟨.new (.upTo 9 (by decide)) 8, []⟩ = some (conn', deleted, shared') ∧
      shared'.log = [] ++ new ∧
      ((Connection.fresh).writeBuffer.buf = [] → (∀ r ∈ twoRequests.outgoing, r.Clean) →
        conn'.socket.delivered = [] ++ new.flatMap Exchange.responseBuf) ∧
      Announced smallSite 0 (pendingRequests .fresh twoRequests) new deleted :=
  close_announced _ 8 smallSite .fresh twoRequests ⟨_, []⟩ ⟨[], rfl⟩ (by decide) fun r _ n =>
    smallSite_plain n r

end TurtleServer.Http
