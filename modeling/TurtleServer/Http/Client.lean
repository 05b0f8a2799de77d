import TurtleServer.Http.Closing
import TurtleServer.Http.Framing
import TurtleServer.Http.Interleaving
import TurtleServer.Http.RequestLanguage
import TurtleServer.Http.ResponseHeads

/-!
# What the clients read

The purpose of the server, seen from outside: a request is to be told a status and a content
(`Site.reply`). A client has nothing but the bytes of its connection. It reads the lines of a head up
to the first empty one, finds the status in the first line and the length of the content in the line
`Content-Length`, and reads so many bytes, except after a HEAD request (`readReply`).

`replies_read_back`: when no file changes, all clients read the replies to their requests, in order,
whatever the others do at the same time, and however the bytes are cut: at any time the beginning of
them, and outside of `ProcessHttpRequest` all of them. CGI programs asked for by HEAD are left out
(`HeadRequests`).
-/

namespace TurtleServer.Http

open Lib

/-! ## 1. Replies -/

/-- A status and a content. -/
structure Reply where
  statusCode : Bytes
  content : Bytes
deriving DecidableEq, Repr

section site

variable (site : Site) (disk : FileSystem)

/-- What a request is to be told. -/
def Site.reply (requestStr : Bytes) : Reply :=
  if (Request.parse requestStr).isValid then
    if disk (site.target requestStr) = .absent then ⟨responseNotFound, []⟩
    else
      ⟨responseOk,
        if isCgiRequest (site.path requestStr) then site.cgiResult requestStr
        else if (Request.parse requestStr).method = .get then
          (disk (site.target requestStr)).content
        else []⟩
  else ⟨responseBadRequest, []⟩

/-- The replies to requests on one connection, up to the first after which it is closed. -/
def Site.replies : List Bytes → List Reply
  | [] => []
  | requestStr :: requests =>
    site.reply disk requestStr ::
      if site.closes disk requestStr then [] else Site.replies requests

/-- A HEAD request for a CGI program that is there is for one without output. -/
def Site.HeadSafe (requestStr : Bytes) : Prop :=
  (Request.parse requestStr).isValid = true → (Request.parse requestStr).method = .head →
    isCgiRequest (site.path requestStr) = true → disk (site.program requestStr) ≠ .absent →
      site.cgiResult requestStr = []

end site

/-! ## 2. The client -/

/-- The number after `Content-Length`. -/
def readContentLength (lines : List Bytes) : Option ℕ :=
  (lines.find? fun line => (headerContentLength ++ colon).isPrefixOf line).map fun line =>
    ofDecimal (line.drop (headerContentLength ++ colon).length)

/-- The status after the version. -/
def readStatus (lines : List Bytes) : Option Bytes :=
  lines.head?.map fun line => line.drop (httpVersionTurtle ++ space).length

/-- The next reply, and the bytes after it. -/
def readReply (asksHead : Bool) (received : Bytes) : Option (Reply × Bytes) := do
  let (head, rest) ← Response.headerBlock received
  let statusCode ← readStatus (split head crlf)
  let contentLength ← readContentLength (split head crlf)
  if asksHead then return (⟨statusCode, []⟩, rest)
  else if rest.length < contentLength then none
  else return (⟨statusCode, rest.take contentLength⟩, rest.drop contentLength)

/-- The replies to the requests of a client that are complete in what it has received. -/
def readReplies : List Bytes → Bytes → List Reply
  | [], _ => []
  | requestStr :: requests, received =>
    match readReply ((Request.parse requestStr).method = .head) received with
    | none => []
    | some (reply, rest) => reply :: readReplies requests rest

namespace ClientLemmas

open StreamLemmas Response Response.HeadLemmas Response.BlockLemmas FramingLemmas

variable {site : Site} {disk : FileSystem} {requestStr body statusCode rest : Bytes}
  {response : Response} {received received' : Bytes} {asksHead : Bool}

/-! ### Bytes that come later -/

theorem headerBlock_append {head : Bytes} (h : headerBlock received = some (head, rest))
    (later : Bytes) : headerBlock (received ++ later) = some (head, rest ++ later) := by
  obtain ⟨⟨before, after⟩, hcut, heq⟩ := Option.map_eq_some_iff.mp h
  cases heq
  rw [headerBlock, cut_append hcut later]
  rfl

theorem readReply_append {reply : Reply} (h : readReply asksHead received = some (reply, rest))
    (later : Bytes) : readReply asksHead (received ++ later) = some (reply, rest ++ later) := by
  unfold readReply at h ⊢
  obtain ⟨⟨head, rest'⟩, hblock, h⟩ := Option.bind_eq_some_iff.mp h
  obtain ⟨statusCode, hstatus, h⟩ := Option.bind_eq_some_iff.mp h
  obtain ⟨contentLength, hlength, h⟩ := Option.bind_eq_some_iff.mp h
  simp only [headerBlock_append hblock, Option.bind_eq_bind, Option.bind_some, hstatus, hlength]
  cases asksHead with
  | true =>
    cases h
    rfl
  | false =>
    simp only [Bool.false_eq_true, if_false] at h ⊢
    split at h
    · exact absurd h.symm (Option.some_ne_none _)
    · next hlong =>
      cases h
      have hle : contentLength ≤ rest'.length := not_lt.mp hlong
      have hlonger : ¬ (rest' ++ later).length < contentLength := by
        rw [List.length_append]
        omega
      rw [if_neg hlonger, List.take_append_of_le_length hle, List.drop_append_of_le_length hle]
      rfl

/-- More bytes, more replies. -/
theorem readReplies_prefix (requests : List Bytes) (h : received <+: received') :
    readReplies requests received <+: readReplies requests received' := by
  induction requests generalizing received received' with
  | nil => exact List.prefix_refl _
  | cons requestStr requests ih =>
    obtain ⟨later, rfl⟩ := h
    unfold readReplies
    split
    · exact List.nil_prefix
    · next reply rest hread =>
      rw [readReply_append hread later]
      exact List.cons_prefix_cons.mpr ⟨rfl, ih (List.prefix_append _ _)⟩

theorem readReplies_nil (requests : List Bytes) : readReplies requests [] = [] := by
  cases requests with
  | nil => rfl
  | cons requestStr requests => rfl

/-! ### One head -/

/-- The line with the key is that of the header. -/
theorem find_contentLength (h : response.HeadForm statusCode) (hstatus : ¬ crlf <:+: statusCode) :
    ((split (response.serialize []) crlf).find? fun line =>
        (headerContentLength ++ colon).isPrefixOf line) =
      (response.headers.find? fun x => x.key = headerContentLength).map fun x =>
        x.key ++ colon ++ x.value := by
  rw [← List.head?_filter, filter_split h hstatus (by decide), List.head?_map, List.head?_filter]

theorem readContentLength_serialize {n : ℕ} (h : response.HeadForm statusCode)
    (hstatus : ¬ crlf <:+: statusCode) (hlength : response.contentLength = some (toDecimal n)) :
    readContentLength (split (response.serialize []) crlf) = some n := by
  obtain ⟨x, hx, hvalue⟩ := Option.map_eq_some_iff.mp hlength
  have hkey : x.key = headerContentLength := by simpa using List.find?_some hx
  rw [readContentLength, find_contentLength h hstatus, hx, Option.map_some, Option.map_some, hkey,
    List.drop_left, hvalue, ofDecimal_toDecimal]

theorem readStatus_serialize (h : response.HeadForm statusCode) (hstatus : ¬ crlf <:+: statusCode) :
    readStatus (split (response.serialize []) crlf) = some statusCode := by
  rw [readStatus, split_serialize (lines_of_headForm h hstatus), lines, h.statusLine, makeStatusLine]
  exact congrArg some List.drop_left

/-- A response that the client can read. -/
structure Readable (response : Response) (statusCode : Bytes) (n : ℕ) : Prop where
  head : response.HeadForm statusCode
  status : ¬ crlf <:+: statusCode
  contentLength : response.contentLength = some (toDecimal n)

theorem readReply_of_readable {n : ℕ} (h : Readable response statusCode n) (body rest : Bytes)
    (hbody : if asksHead then body = [] else body.length = n) :
    readReply asksHead (response.serialize [] ++ body ++ rest) =
      some (⟨statusCode, body⟩, rest) := by
  rw [readReply, List.append_assoc, headerBlock_of_headForm h.head h.status]
  simp only [Option.bind_eq_bind, Option.bind_some, readStatus_serialize h.head h.status,
    readContentLength_serialize h.head h.status h.contentLength]
  cases asksHead with
  | true =>
    obtain rfl : body = [] := hbody
    rfl
  | false =>
    obtain rfl : body.length = n := hbody
    have hlong : ¬ (body ++ rest).length < body.length := by
      rw [List.length_append]
      omega
    rw [if_neg Bool.false_ne_true, if_neg hlong, List.take_left, List.drop_left]
    rfl

theorem readable_bare (shouldClose : Bool) (hstatus : 13 ∉ statusCode) :
    Readable (bare statusCode shouldClose) statusCode 0 where
  head := headForm_bare statusCode shouldClose
  status := not_infix_crlf hstatus
  contentLength := by
    have hserver : headerServer ≠ headerContentLength := by decide
    have hconnection : headerConnection ≠ headerContentLength := by decide
    simp [Response.contentLength, bare, commonHeaders, hserver, hconnection, contentLengthZero,
      toDecimal, bytes]

theorem readable_ofResource (shouldClose : Bool) (url : Bytes) (n : ℕ) :
    Readable (ofResource responseOk shouldClose url n) responseOk n where
  head := headForm_ofResource responseOk shouldClose url n
  status := not_infix_crlf (by decide)
  contentLength := contentLength_ofResource shouldClose url n

theorem readable_changeHeader (shouldClose : Bool) (n : ℕ) :
    Readable ((bare responseOk shouldClose).changeHeader headerContentLength (toDecimal n)).2
      responseOk n where
  head := headForm_changeHeader (headForm_bare responseOk shouldClose)
    (not_infix_crlf (not_mem_toDecimal n))
  status := not_infix_crlf (by decide)
  contentLength := contentLength_changeHeader shouldClose (toDecimal n)

/-! ### One request -/

/-- A valid request that is not a GET is a HEAD. -/
theorem method_of_valid (hvalid : (Request.parse requestStr).isValid = true)
    (hget : (Request.parse requestStr).method ≠ .get) :
    (Request.parse requestStr).method = .head := by
  obtain ⟨t, ht, rfl⟩ := LanguageLemmas.wellFormed_of_valid hvalid
  rw [(LanguageLemmas.reads_of_wellFormed ht).method] at hget ⊢
  split at hget
  · exact absurd rfl hget
  · next hnot => rw [if_neg hnot]

/-- The answer to a request, read by the client that has asked. -/
theorem readReply_answer {noMoreParse : Bool} (hplain : site.Plain disk requestStr)
    (hsafe : site.HeadSafe disk requestStr)
    (hanswer : answer directFetch site disk () requestStr = some (response, body, noMoreParse, ()))
    (rest : Bytes) :
    readReply ((Request.parse requestStr).method = .head) (response.serialize [] ++ body ++ rest) =
      some (site.reply disk requestStr, rest) := by
  obtain ⟨pending, hbegin, hbegun⟩ := begun_of_plain hplain
  rw [answer, hbegin] at hanswer
  cases hbegun with
  | badRequest hinvalid =>
    cases hanswer
    have hreply : site.reply disk requestStr = ⟨responseBadRequest, []⟩ := by
      simp [Site.reply, hinvalid]
    rw [hreply]
    exact readReply_of_readable (readable_bare true (by decide)) [] rest (by simp)
  | notFound hvalid hdisk =>
    cases hanswer
    have hreply : site.reply disk requestStr = ⟨responseNotFound, []⟩ := by
      simp [Site.reply, hvalid, hdisk]
    rw [hreply]
    exact readReply_of_readable (readable_bare true (by decide)) [] rest (by simp)
  | cgi hvalid hcgi hpresent hreturns =>
    cases hanswer
    have htarget : disk (site.target requestStr) ≠ .absent := target_of_cgi hcgi ▸ hpresent
    have hreply : site.reply disk requestStr = ⟨responseOk, site.cgiResult requestStr⟩ := by
      simp [Site.reply, hvalid, htarget, hcgi]
    rw [hreply]
    refine readReply_of_readable (readable_changeHeader _ _) _ rest ?_
    split
    · next hhead => exact hsafe hvalid (of_decide_eq_true hhead) hcgi hpresent
    · rfl
  | noBody size hvalid hcgi hpresent hsize hmethod =>
    cases hanswer
    have htarget : disk (site.target requestStr) ≠ .absent := target_of_static hcgi ▸ hpresent
    have hreply : site.reply disk requestStr = ⟨responseOk, []⟩ := by
      simp [Site.reply, hvalid, htarget, hcgi, hmethod]
    rw [hreply, decide_eq_true (method_of_valid hvalid hmethod)]
    exact readReply_of_readable (readable_ofResource _ _ _) [] rest (by simp)
  | resource content hvalid hcgi hdisk hmethod =>
    have hfetch : directFetch disk () (site.path requestStr) = some (content, ()) := by
      rw [directFetch, FileSystem.loadFile_regular hdisk]
      rfl
    simp only [Option.bind_eq_bind, Option.bind_some, finishRequest, hfetch] at hanswer
    obtain ⟨rfl, hrest⟩ := Prod.mk.inj (Option.some.inj hanswer)
    obtain ⟨rfl, hclose⟩ := Prod.mk.inj hrest
    obtain ⟨rfl, -⟩ := Prod.mk.inj hclose
    have htarget : disk (site.target requestStr) = .regular content := by
      rw [target_of_static hcgi, hdisk]
    have hreply : site.reply disk requestStr = ⟨responseOk, content⟩ := by
      simp [Site.reply, hvalid, htarget, hcgi, hmethod, FileStatus.content]
    have hhead : decide ((Request.parse requestStr).method = .head) = false := by
      rw [hmethod]
      decide
    rw [hreply, hhead]
    exact readReply_of_readable (readable_ofResource _ _ _) content rest (by simp)

/-! ### All requests -/

/-- Served one after the other without the cache. Requests after those that are served change nothing,
and neither do requests after the connection is closed. -/
theorem readReplies_serveAll (hdisk : ∀ n, site.disk n = disk) {requests : List Bytes}
    (hplain : ∀ r ∈ requests, site.Plain disk r) (hsafe : ∀ r ∈ requests, site.HeadSafe disk r)
    {shared shared' : Shared Unit} {sent : Bytes} {closed : Bool}
    (h : serveAll directFetch site requests shared = some (sent, closed, shared'))
    (more : List Bytes) :
    readReplies (requests ++ more) sent = site.replies disk requests ∧
      (closed = true → site.replies disk (requests ++ more) = site.replies disk requests) := by
  induction requests generalizing shared sent with
  | nil =>
    cases h
    exact ⟨readReplies_nil more, fun hclosed => absurd hclosed Bool.false_ne_true⟩
  | cons requestStr requests ih =>
    obtain ⟨hplain, hlater⟩ := List.forall_mem_cons.mp hplain
    obtain ⟨hsafe, hsafe'⟩ := List.forall_mem_cons.mp hsafe
    obtain ⟨response, body, noMoreParse, hanswer⟩ := InterleavingLemmas.answer_direct hplain
    have hanswer' : answer directFetch site (site.disk shared.log.length) shared.store requestStr =
        some (response, body, noMoreParse, ()) := by
      rw [hdisk]
      exact hanswer
    have hread := readReply_answer hplain hsafe hanswer
    have hcloses := (ClosingLemmas.answer_made hanswer).1
    rw [List.cons_append, Site.replies, Site.replies, ← hcloses, readReplies]
    cases noMoreParse with
    | true =>
      rw [serveAll_cons_last hanswer'] at h
      cases h
      have hall := hread []
      rw [List.append_nil] at hall
      rw [Shared.exchange, Exchange.responseBuf, hall, if_pos rfl, if_pos rfl]
      exact ⟨congrArg (site.reply disk requestStr :: ·) (readReplies_nil _), fun _ => rfl⟩
    | false =>
      rw [serveAll_cons_more hanswer'] at h
      obtain ⟨⟨sent', closed', shared''⟩, hrest, heq⟩ := Option.map_eq_some_iff.mp h
      cases heq
      obtain ⟨hreplies, hclosed⟩ := ih hlater hsafe' hrest
      rw [Shared.exchange, Exchange.responseBuf, hread sent', if_neg Bool.false_ne_true,
        if_neg Bool.false_ne_true]
      exact ⟨congrArg (site.reply disk requestStr :: ·) hreplies,
        fun h => congrArg (site.reply disk requestStr :: ·) (hclosed h)⟩

/-- A client that is served alone and without the cache. -/
theorem readReplies_alone (hdisk : ∀ n, site.disk n = disk) {events : List Event}
    {conn : Connection} {deleted : Bool} (hclean : ∀ e ∈ events, e.Clean)
    (hplain : ∀ r ∈ requestsIn (arriving events), site.Plain disk r)
    (hsafe : ∀ r ∈ requestsIn (arriving events), site.HeadSafe disk r)
    (halone : alone site events = some (conn, deleted)) (more : List Bytes) :
    readReplies (requestsIn (arriving events) ++ more) conn.socket.delivered =
        site.replies disk (requestsIn (arriving events)) ∧
      (deleted = true → site.replies disk (requestsIn (arriving events) ++ more) =
        site.replies disk (requestsIn (arriving events))) := by
  obtain ⟨⟨conn', deleted', shared'⟩, hserve, heq⟩ := Option.map_eq_some_iff.mp halone
  cases heq
  have hview : (serveEvents directFetch site events .fresh ⟨(), []⟩).map view =
      (serveAll directFetch site (requestsIn (arriving events)) ⟨(), []⟩).map
        (viewAll [] (leftOver (arriving events))) :=
    serveEvents_eq_serveAll hclean rfl rfl
  rw [hserve] at hview
  obtain ⟨⟨sent, closed, shared''⟩, hall, heq⟩ := Option.map_eq_some_iff.mp hview.symm
  have hdelivered : conn'.socket.delivered = sent := (congrArg Prod.fst heq).symm
  have hclosed : deleted' = true → closed = true := by
    rintro rfl
    cases closed with
    | true => rfl
    | false => exact absurd (congrArg (fun v => v.2.1) heq) (Option.some_ne_none _)
  rw [hdelivered]
  obtain ⟨hreplies, hlast⟩ := readReplies_serveAll hdisk hplain hsafe hall more
  exact ⟨hreplies, fun h => hlast (hclosed h)⟩

end ClientLemmas

open ClientLemmas InterleavingLemmas

/-! ## 3. Runs -/

/-- The client has not ended its side, and no call on its socket has failed for good. It asks for
nothing but what is absent or a regular file, for programs that come to their end, and by HEAD for none
with output. -/
structure Client.Regular (site : Site) (client : Client) : Prop where
  clean : ∀ e ∈ client.events, e.Clean
  plain : ∀ r ∈ requestsIn (arriving client.events), site.Plain (site.disk 0) r
  headSafe : ∀ r ∈ requestsIn (arriving client.events), site.HeadSafe (site.disk 0) r

/-- In every state of every run, what a client reads is the beginning of the replies to its requests,
and it is all of them whenever the client is outside `ProcessHttpRequest`. -/
theorem replies_read_back (clock : Clock) (capacity : UInt64) (site : Site)
    (hdisk : ∀ n, site.disk n = site.disk 0) (moves : List Move)
    (hplain : Along (World.step clock site) (World.AsksPlain site)
      (some (World.new clock capacity)) moves) :
    Always (World.step clock site)
      (fun o => ∃ w, o = some w ∧ ∀ i, (w.clients i).Regular site →
        let requests := requestsIn (arriving (w.clients i).events)
        readReplies requests (w.clients i).conn.socket.delivered <+:
            site.replies (site.disk 0) requests ∧
          ((w.clients i).phase.AtRest →
            readReplies requests (w.clients i).conn.socket.delivered =
              site.replies (site.disk 0) requests))
      (some (World.new clock capacity)) moves := by
  have hnew : World.Sound clock capacity.toNat site (some (World.new clock capacity)) := by
    refine ⟨_, rfl, ⟨[], FragmentationLemmas.holds_of_reachable ⟨[], rfl⟩, ?_⟩, ?_⟩
    · exact fun _ he => absurd he List.not_mem_nil
    · exact fun _ => ⟨⟨fun _ hr => absurd hr List.not_mem_nil, True.intro⟩, rfl⟩
  have hall : Always (World.step clock site) (World.Sound clock capacity.toNat site)
      (some (World.new clock capacity)) moves :=
    always_of_along (fun _ _ ho hmove => step_sound hdisk ho hmove) hnew hplain
  refine hall.mono ?_
  rintro - ⟨w, rfl, -, hclients⟩
  refine ⟨w, rfl, fun i hregular => ?_⟩
  obtain ⟨conn, deleted, hfinish, hdelivered⟩ := finish_spec hdisk (hclients i).prepared
  have halone : alone site (w.clients i).events = some (conn, deleted) :=
    (hclients i).finish.symm.trans hfinish
  have hreplies :=
    (readReplies_alone hdisk hregular.clean hregular.plain hregular.headSafe halone []).1
  rw [List.append_nil] at hreplies
  constructor
  · rw [← hreplies]
    exact readReplies_prefix _ hdelivered
  · intro hrest
    rw [conn_eq_of_atRest (hclients i) rfl halone hrest]
    exact hreplies

/-- Two clients, of which one asks for the page, for its head and for a page that is not there, and the
other for the output of a program. -/
def pageAndProgram : List Move :=
  [.arrive 0 ⟨[.received (bytes "GET / HTTP/1.1\r\nConnection:Keep-Alive\r\n\r\nHEAD / HT")], []⟩,
    .arrive 1 ⟨[.received (bytes "GET /cgi-bin/echo&hi HTTP/1.1\r\n\r\n")], []⟩,
    .advance 0, .advance 1, .advance 0, .advance 0, .advance 0, .advance 0,
    .arrive 0 ⟨[.received (bytes "TP/1.1\r\nConnection:Keep-Alive\r\n\r\nGET /x HTTP/1.1\r\n\r\n")],
      []⟩,
    .advance 0, .advance 0]

/-- They read what they have asked for. -/
theorem pageAndProgram_read_back :
    (run (World.step (Clock.upTo 1000 (by decide)) smallSite)
      (some (World.new (Clock.upTo 1000 (by decide)) 64)) pageAndProgram).map (fun w =>
        (List.range 2).map fun i => readReplies (requestsIn (arriving (w.clients i).events))
          (w.clients i).conn.socket.delivered) =
      some [[⟨bytes "200 OK", bytes "<p>"⟩, ⟨bytes "200 OK", []⟩, ⟨bytes "404 Not Found", []⟩],
        [⟨bytes "200 OK", bytes "hi"⟩]] ∧
    Always (World.step (Clock.upTo 1000 (by decide)) smallSite)
      (fun o => ∃ w, o = some w ∧ ∀ i, (w.clients i).Regular smallSite →
        let requests := requestsIn (arriving (w.clients i).events)
        readReplies requests (w.clients i).conn.socket.delivered <+:
            smallSite.replies (smallSite.disk 0) requests ∧
          ((w.clients i).phase.AtRest →
            readReplies requests (w.clients i).conn.socket.delivered =
              smallSite.replies (smallSite.disk 0) requests))
      (some (World.new (Clock.upTo 1000 (by decide)) 64)) pageAndProgram :=
  ⟨by decide +kernel, replies_read_back _ 64 smallSite (fun _ => rfl) pageAndProgram
    (Along.of_forall (World.asksPlain_of_plain (smallSite_plain 0)) _ _)⟩

end TurtleServer.Http
