import TurtleServer.Http.Server

/-!
# What the server does with a stream of bytes

A client sends a stream of bytes, and the complete requests in it are determined by the bytes alone
(`requestsIn`). `serveAll` answers a list of requests one after the other. The results of this module
bring `ProcessHttpRequest`, with its buffers and its loop, down to `serveAll`:

1. `begin_cases`: how a request is answered, branch by branch; `begun_of_plain` where what it asks for
   is absent or a regular file.
2. `serveLoop_eq_serveAll`: the loop answers the requests in the read buffer.
3. `serveEvents_eq_serveAll`: over all events, it answers the requests in the bytes that arrived.
-/

namespace TurtleServer.Http

open Lib

/-! ## 1. One request -/

section request

variable (site : Site) (disk : FileSystem) (requestStr : Bytes)

/-- `resource_full_path`. -/
def Site.path : Bytes := site.servingDirectory ++ (Request.parse requestStr).resourceUrl

/-- The CGI program that a request names. -/
def Site.program : Bytes := (Cgier.parseCgier (site.path requestStr)).cgiProgramPath

/-- The call of `Run` returns. -/
def Site.Returns : Prop := (site.runCgi (Cgier.parseCgier (site.path requestStr))).isSome

instance : Decidable (site.Returns requestStr) := inferInstanceAs (Decidable (_ = _))

/-- What the CGI program answers, when it does. -/
def Site.cgiResult : Bytes := (site.runCgi (Cgier.parseCgier (site.path requestStr))).getD []

/-- The path that a request makes the server look up, if it is valid. -/
def Site.target : Bytes :=
  if isCgiRequest (site.path requestStr) then site.program requestStr else site.path requestStr

/-- A program is asked for that is there. -/
def Site.Runs : Prop :=
  isCgiRequest (site.path requestStr) = true ∧ disk (site.program requestStr) ≠ .absent

instance : Decidable (site.Runs disk requestStr) := inferInstanceAs (Decidable (_ ∧ _))

/-- A file whose content is asked for can be opened. -/
def Site.Opens : Prop :=
  isCgiRequest (site.path requestStr) = false → (Request.parse requestStr).method = .get →
    ¬ (disk (site.path requestStr)).Sealed

instance : Decidable (site.Opens disk requestStr) := inferInstanceAs (Decidable (_ → _ → _))

/-- The path requested, if the request is valid, is absent or a regular file, which can be opened if
its content is asked for; and a program that is run comes to its end. -/
def Site.Plain : Prop :=
  (Request.parse requestStr).isValid = true → (disk (site.target requestStr)).Plain ∧
    site.Opens disk requestStr ∧ (site.Runs disk requestStr → site.Returns requestStr)

instance : Decidable (site.Plain disk requestStr) :=
  inferInstanceAs (Decidable (_ → _ ∧ _ ∧ _))

/-- The ways in which a request is answered before the cache is asked. -/
inductive Begun : Pending → Prop
  | badRequest (h : (Request.parse requestStr).isValid = false) :
    Begun (.ready .make400Response [] true)
  | notFound (h : (Request.parse requestStr).isValid = true)
      (hdisk : disk (site.target requestStr) = .absent) :
    Begun (.ready .make404Response [] true)
  | cgi (h : (Request.parse requestStr).isValid = true)
      (hcgi : isCgiRequest (site.path requestStr) = true)
      (hpresent : disk (site.program requestStr) ≠ .absent) (hreturns : site.Returns requestStr) :
    Begun (.ready
      ((Response.bare responseOk (Request.parse requestStr).shouldClose).changeHeader
        headerContentLength (toDecimal (site.cgiResult requestStr).length)).2
      (site.cgiResult requestStr) (Request.parse requestStr).shouldClose)
  | noBody (size : ℕ) (h : (Request.parse requestStr).isValid = true)
      (hcgi : isCgiRequest (site.path requestStr) = false)
      (hpresent : disk (site.path requestStr) ≠ .absent)
      (hsize : disk.checkFileSize (site.path requestStr) = some size)
      (hmethod : (Request.parse requestStr).method ≠ .get) :
    Begun (.ready
      (.ofResource responseOk (Request.parse requestStr).shouldClose (site.path requestStr) size) []
      (Request.parse requestStr).shouldClose)
  | resource (content : Bytes) (h : (Request.parse requestStr).isValid = true)
      (hcgi : isCgiRequest (site.path requestStr) = false)
      (hdisk : disk (site.path requestStr) = .regular content)
      (hmethod : (Request.parse requestStr).method = .get) :
    Begun (.resource
      (.ofResource responseOk (Request.parse requestStr).shouldClose (site.path requestStr)
        content.length) (Request.parse requestStr).shouldClose (site.path requestStr))

/-- What comes of a request before the cache is asked, whatever there is on the disk. -/
inductive Course : Option Pending → Prop
  | badRequest (hvalid : (Request.parse requestStr).isValid = false) :
    Course (some (.ready .make400Response [] true))
  | notFound (hvalid : (Request.parse requestStr).isValid = true)
      (hdisk : disk (site.target requestStr) = .absent) :
    Course (some (.ready .make404Response [] true))
  -- `exists` throws
  | untold (hvalid : (Request.parse requestStr).isValid = true)
      (hdisk : disk (site.target requestStr) = .inaccessible) :
    Course none
  -- whatever there is under the path of a program is run
  | cgi (hvalid : (Request.parse requestStr).isValid = true)
      (hcgi : isCgiRequest (site.path requestStr) = true)
      (hpresent : disk (site.program requestStr) ≠ .absent)
      (htold : disk (site.program requestStr) ≠ .inaccessible) :
    Course ((site.runCgi (Cgier.parseCgier (site.path requestStr))).map fun cgiResult =>
      .ready ((Response.bare responseOk (Request.parse requestStr).shouldClose).changeHeader
        headerContentLength (toDecimal cgiResult.length)).2 cgiResult
        (Request.parse requestStr).shouldClose)
  -- of a static resource the size is asked for
  | static (hvalid : (Request.parse requestStr).isValid = true)
      (hcgi : isCgiRequest (site.path requestStr) = false)
      (hpresent : disk (site.path requestStr) ≠ .absent)
      (htold : disk (site.path requestStr) ≠ .inaccessible) :
    Course ((disk.checkFileSize (site.path requestStr)).map fun size =>
      if (Request.parse requestStr).method = .get then
        .resource (.ofResource responseOk (Request.parse requestStr).shouldClose
          (site.path requestStr) size) (Request.parse requestStr).shouldClose (site.path requestStr)
      else .ready (.ofResource responseOk (Request.parse requestStr).shouldClose
        (site.path requestStr) size) [] (Request.parse requestStr).shouldClose)

end request

namespace StreamLemmas

variable {site : Site} {disk : FileSystem} {requestStr : Bytes}

/-- A url with `cgi-bin` in it always parses. -/
theorem parseCgier_valid {url : Bytes} (h : isCgiRequest url = true) :
    (Cgier.parseCgier url).valid = true := by
  have hne : url.isEmpty = false := by
    cases url with
    | nil => exact absurd h (by decide)
    | cons b url => rfl
  obtain ⟨r, hr⟩ := Option.isSome_iff_exists.mp h
  simp only [Cgier.parseCgier, hne, hr]
  cases cut parameterSeparator (url.drop r.1.length) <;> rfl

theorem path_eq : site.servingDirectory ++ (Request.parse requestStr).resourceUrl =
    site.path requestStr := rfl

theorem program_eq : (Cgier.parseCgier (site.path requestStr)).cgiProgramPath =
    site.program requestStr := rfl

theorem target_of_cgi (h : isCgiRequest (site.path requestStr) = true) :
    site.target requestStr = site.program requestStr := if_pos h

theorem target_of_static (h : isCgiRequest (site.path requestStr) = false) :
    site.target requestStr = site.path requestStr := if_neg (Bool.eq_false_iff.mp h)

theorem runCgi_of_returns (h : site.Returns requestStr) :
    site.runCgi (Cgier.parseCgier (site.path requestStr)) = some (site.cgiResult requestStr) := by
  obtain ⟨result, hresult⟩ := Option.isSome_iff_exists.mp h
  rw [Site.cgiResult, hresult]
  rfl

/-- All paths are absent or regular files that can be opened, and all programs come to their end. -/
theorem plain_of_forall (hdisk : ∀ path, (disk path).Plain ∧ ¬ (disk path).Sealed)
    (hcgi : ∀ path arguments, (site.cgi path arguments).isSome) (requestStr : Bytes) :
    site.Plain disk requestStr :=
  fun _ => ⟨(hdisk _).1, fun _ _ => (hdisk _).2,
    fun _ => (Option.isSome_map ..).trans (hcgi _ _)⟩

theorem begin_invalid (hvalid : (Request.parse requestStr).isValid = false) :
    beginRequest site disk requestStr = some (.ready .make400Response [] true) := by
  simp [beginRequest, hvalid]

theorem begin_absent (hvalid : (Request.parse requestStr).isValid = true)
    (hdisk : disk (site.target requestStr) = .absent) :
    beginRequest site disk requestStr = some (.ready .make404Response [] true) := by
  have hmissing := FileSystem.isFileExists_absent hdisk
  cases hcgi : isCgiRequest (site.path requestStr) with
  | true =>
    rw [target_of_cgi hcgi] at hmissing
    simp [beginRequest, hvalid, path_eq, hcgi, parseCgier_valid hcgi, program_eq, hmissing]
  | false =>
    rw [target_of_static hcgi] at hmissing
    simp [beginRequest, hvalid, path_eq, hcgi, hmissing]

theorem begin_inaccessible (hvalid : (Request.parse requestStr).isValid = true)
    (hdisk : disk (site.target requestStr) = .inaccessible) :
    beginRequest site disk requestStr = none := by
  have hthrows : disk.isFileExists (site.target requestStr) = none := by
    rw [FileSystem.isFileExists, hdisk]
  cases hcgi : isCgiRequest (site.path requestStr) with
  | true =>
    rw [target_of_cgi hcgi] at hthrows
    simp [beginRequest, hvalid, path_eq, hcgi, parseCgier_valid hcgi, program_eq, hthrows]
  | false =>
    rw [target_of_static hcgi] at hthrows
    simp [beginRequest, hvalid, path_eq, hcgi, hthrows]

theorem begin_cgi (hvalid : (Request.parse requestStr).isValid = true)
    (hcgi : isCgiRequest (site.path requestStr) = true)
    (hexists : disk.isFileExists (site.program requestStr) = some true) :
    beginRequest site disk requestStr =
      (site.runCgi (Cgier.parseCgier (site.path requestStr))).map fun cgiResult =>
        .ready ((Response.bare responseOk (Request.parse requestStr).shouldClose).changeHeader
          headerContentLength (toDecimal cgiResult.length)).2 cgiResult
          (Request.parse requestStr).shouldClose := by
  simp only [beginRequest, hvalid, path_eq, hcgi, parseCgier_valid hcgi, program_eq, hexists,
    Bool.not_true, Bool.false_eq_true, if_false, if_true, Option.bind_eq_bind, Option.bind_some]
  cases site.runCgi (Cgier.parseCgier (site.path requestStr)) <;> rfl

theorem begin_static (hvalid : (Request.parse requestStr).isValid = true)
    (hcgi : isCgiRequest (site.path requestStr) = false)
    (hexists : disk.isFileExists (site.path requestStr) = some true) :
    beginRequest site disk requestStr =
      (disk.checkFileSize (site.path requestStr)).map fun size =>
        if (Request.parse requestStr).method = .get then
          .resource (.ofResource responseOk (Request.parse requestStr).shouldClose
            (site.path requestStr) size) (Request.parse requestStr).shouldClose (site.path requestStr)
        else .ready (.ofResource responseOk (Request.parse requestStr).shouldClose
          (site.path requestStr) size) [] (Request.parse requestStr).shouldClose := by
  simp only [beginRequest, hvalid, path_eq, hcgi, hexists, Response.make200Response, Response.new,
    Bool.not_true, Bool.false_eq_true, if_false, if_true, Option.bind_eq_bind, Option.bind_some]
  cases disk.checkFileSize (site.path requestStr) with
  | none => rfl
  | some size =>
    simp only [Option.bind_some, Option.pure_def, Option.map_some]
    split <;> rfl

/-- The branches of the loop body. -/
theorem begin_cases (site : Site) (disk : FileSystem) (requestStr : Bytes) :
    Course site disk requestStr (beginRequest site disk requestStr) := by
  cases hvalid : (Request.parse requestStr).isValid with
  | false =>
    rw [begin_invalid hvalid]
    exact .badRequest hvalid
  | true =>
    by_cases hpresent : disk (site.target requestStr) = .absent
    · rw [begin_absent hvalid hpresent]
      exact .notFound hvalid hpresent
    by_cases htold : disk (site.target requestStr) = .inaccessible
    · rw [begin_inaccessible hvalid htold]
      exact .untold hvalid htold
    have hexists := FileSystem.isFileExists_of_ne hpresent htold
    cases hcgi : isCgiRequest (site.path requestStr) with
    | true =>
      rw [target_of_cgi hcgi] at hpresent htold hexists
      rw [begin_cgi hvalid hcgi hexists]
      exact .cgi hvalid hcgi hpresent htold
    | false =>
      rw [target_of_static hcgi] at hpresent htold hexists
      rw [begin_static hvalid hcgi hexists]
      exact .static hvalid hcgi hpresent htold

theorem begun_of_plain (h : site.Plain disk requestStr) :
    ∃ pending, beginRequest site disk requestStr = some pending ∧
      Begun site disk requestStr pending := by
  have hcourse := begin_cases site disk requestStr
  generalize beginRequest site disk requestStr = o at hcourse ⊢
  cases hcourse with
  | badRequest hvalid => exact ⟨_, rfl, .badRequest hvalid⟩
  | notFound hvalid hdisk => exact ⟨_, rfl, .notFound hvalid hdisk⟩
  | untold hvalid hdisk => exact absurd hdisk (FileSystem.told_of_plain (h hvalid).1)
  | cgi hvalid hcgi hpresent htold =>
    obtain ⟨-, -, hruns⟩ := h hvalid
    have hreturns : site.Returns requestStr := hruns ⟨hcgi, hpresent⟩
    rw [runCgi_of_returns hreturns]
    exact ⟨_, rfl, .cgi hvalid hcgi hpresent hreturns⟩
  | static hvalid hcgi hpresent htold =>
    obtain ⟨hplain, hopens, -⟩ := h hvalid
    rw [target_of_static hcgi] at hplain
    by_cases hmethod : (Request.parse requestStr).method = .get
    · obtain ⟨content, hdisk⟩ :=
        (hplain.absent_or_regular (hopens hcgi hmethod)).resolve_left hpresent
      rw [FileSystem.checkFileSize_regular hdisk, Option.map_some, if_pos hmethod]
      exact ⟨_, rfl, .resource content hvalid hcgi hdisk hmethod⟩
    · obtain ⟨size, hsize⟩ := FileSystem.checkFileSize_of_plain hplain hpresent
      rw [hsize, Option.map_some, if_neg hmethod]
      exact ⟨_, rfl, .noBody size hvalid hcgi hpresent hsize hmethod⟩

/-- Where the path requested is plain, and regular files can be fetched, the request is answered. -/
theorem answer_of_plain {σ : Type} {fetch : Fetch σ} {store : σ}
    (hfetch : ∀ path content, disk path = .regular content → ∃ r, fetch disk store path = some r)
    (h : site.Plain disk requestStr) :
    ∃ response body noMoreParse store',
      answer fetch site disk store requestStr = some (response, body, noMoreParse, store') := by
  obtain ⟨pending, hbegin, hbegun⟩ := begun_of_plain h
  rw [answer, hbegin]
  cases hbegun with
  | badRequest => exact ⟨_, _, _, _, rfl⟩
  | notFound => exact ⟨_, _, _, _, rfl⟩
  | cgi => exact ⟨_, _, _, _, rfl⟩
  | noBody => exact ⟨_, _, _, _, rfl⟩
  | resource content hvalid hcgi hdisk hmethod =>
    obtain ⟨⟨body, store'⟩, hr⟩ := hfetch _ content hdisk
    simp only [Option.bind_eq_bind, Option.bind_some, finishRequest, hr]
    exact ⟨_, _, _, _, rfl⟩

end StreamLemmas

open StreamLemmas

/-! ## 2. A list of requests -/

/-- The complete requests in a stream. -/
def requestsIn (stream : Bytes) : List Bytes := frames (crlf ++ crlf) stream

/-- What comes after the last complete request. -/
def leftOver (stream : Bytes) : Bytes := unfinished (crlf ++ crlf) stream

section serve

variable {σ : Type} (fetch : Fetch σ) (site : Site)

/-- The requests answered one after the other, up to the first after which the connection is closed:
the bytes to send, whether it is to be closed, and the shared state after. -/
def serveAll : List Bytes → Shared σ → Option (Bytes × Bool × Shared σ)
  | [], shared => some ([], false, shared)
  | requestStr :: requests, shared => do
    let (exchange, noMoreParse, shared) ← handleRequest fetch site requestStr shared
    if noMoreParse then return (exchange.responseBuf, true, shared)
    else
      let (sent, closed, shared) ← serveAll requests shared
      return (exchange.responseBuf ++ sent, closed, shared)

/-- What is seen of a connection: the bytes delivered, and the read buffer unless it was deleted. -/
def view : Connection × Bool × Shared σ → Bytes × Option Bytes × Shared σ
  | (conn, deleted, shared) =>
    (conn.socket.delivered, if deleted then none else some conn.readBuffer.buf, shared)

/-- What is to be seen of a connection that had delivered `delivered` before, when `rest` is left of
the stream. -/
def viewAll (delivered rest : Bytes) : Bytes × Bool × Shared σ → Bytes × Option Bytes × Shared σ
  | (sent, closed, shared) => (delivered ++ sent, if closed then none else some rest, shared)

namespace StreamLemmas

variable {fetch site} {conn : Connection} {shared : Shared σ}

theorem handleRequest_none {requestStr : Bytes}
    (h : answer fetch site (site.disk shared.log.length) shared.store requestStr = none) :
    handleRequest fetch site requestStr shared = none := by
  rw [handleRequest, h]
  rfl

theorem handleRequest_some {requestStr body : Bytes} {response : Response} {noMoreParse : Bool}
    {store : σ} (h : answer fetch site (site.disk shared.log.length) shared.store requestStr =
      some (response, body, noMoreParse, store)) :
    handleRequest fetch site requestStr shared =
      some (shared.exchange requestStr response body, noMoreParse,
        ⟨store, shared.log ++ [shared.exchange requestStr response body]⟩) := by
  rw [handleRequest, h]
  rfl

section cons

variable {requestStr body : Bytes} {requests : List Bytes} {response : Response} {store : σ}

theorem serveAll_cons_none
    (h : answer fetch site (site.disk shared.log.length) shared.store requestStr = none) :
    serveAll fetch site (requestStr :: requests) shared = none := by
  rw [serveAll, handleRequest_none h]
  rfl

theorem serveAll_cons_last
    (h : answer fetch site (site.disk shared.log.length) shared.store requestStr =
      some (response, body, true, store)) :
    serveAll fetch site (requestStr :: requests) shared =
      some ((shared.exchange requestStr response body).responseBuf, true,
        ⟨store, shared.log ++ [shared.exchange requestStr response body]⟩) := by
  rw [serveAll, handleRequest_some h]
  rfl

theorem serveAll_cons_more
    (h : answer fetch site (site.disk shared.log.length) shared.store requestStr =
      some (response, body, false, store)) :
    serveAll fetch site (requestStr :: requests) shared =
      (serveAll fetch site requests
        ⟨store, shared.log ++ [shared.exchange requestStr response body]⟩).map
        fun r => ((shared.exchange requestStr response body).responseBuf ++ r.1, r.2) := by
  rw [serveAll, handleRequest_some h]
  show (serveAll fetch site requests _).bind _ = _
  cases serveAll fetch site requests
    ⟨store, shared.log ++ [shared.exchange requestStr response body]⟩ <;> rfl

end cons

theorem serveAll_append (xs ys : List Bytes) (shared : Shared σ) :
    serveAll fetch site (xs ++ ys) shared = (serveAll fetch site xs shared).bind fun
      | (sent, true, shared) => some (sent, true, shared)
      | (sent, false, shared) =>
        (serveAll fetch site ys shared).map fun r => (sent ++ r.1, r.2) := by
  induction xs generalizing shared with
  | nil =>
    rw [List.nil_append, serveAll, Option.bind_some]
    show _ = (serveAll fetch site ys shared).map _
    cases serveAll fetch site ys shared <;> rfl
  | cons x xs ih =>
    rw [List.cons_append, serveAll, serveAll]
    cases hx : handleRequest fetch site x shared with
    | none => rfl
    | some r =>
      obtain ⟨exchange, noMoreParse, shared'⟩ := r
      cases noMoreParse with
      | true => rfl
      | false =>
        simp only [Option.bind_eq_bind, Option.bind_some, Bool.false_eq_true, if_false, ih]
        cases hxs : serveAll fetch site xs shared' with
        | none => rfl
        | some r' =>
          obtain ⟨sent, closed, shared''⟩ := r'
          cases closed with
          | true => rfl
          | false =>
            simp only [Option.bind_some, Option.pure_def]
            cases serveAll fetch site ys shared'' with
            | none => rfl
            | some r'' => simp [List.append_assoc]

/-- What `WriteToWriteBuffer` and `Send` do with a response, when all that was written before has been
sent and no `send` fails. -/
theorem respond_clean (conn : Connection) (hwrite : conn.writeBuffer.buf = [])
    (hsend : ∀ r ∈ conn.socket.outgoing, r.Clean) (responseBuf : Bytes) :
    ∃ conn', (conn.writeToWriteBuffer responseBuf).send = conn' ∧
      conn'.socket.delivered = conn.socket.delivered ++ responseBuf ∧
      conn'.readBuffer = conn.readBuffer ∧ conn'.writeBuffer.buf = [] ∧
      ∀ r ∈ conn'.socket.outgoing, r.Clean := by
  have hclean : ∀ r ∈ (conn.writeToWriteBuffer responseBuf).socket.outgoing, r.Clean := hsend
  obtain ⟨outgoing', hout, heq⟩ := Connection.send_clean hclean
  refine ⟨_, rfl, ?_, ?_, ?_, ?_⟩
  · rw [heq]
    show conn.socket.delivered ++ (conn.writeBuffer.buf ++ responseBuf) = _
    rw [hwrite, List.nil_append]
  · rw [heq]
    rfl
  · rw [heq]
  · rw [heq]
    exact hout

/-- What is popped is the first request in the read buffer. -/
theorem findAndPopTill_eq_some {requestStr : Bytes} {conn₁ : Connection}
    (h : conn.findAndPopTill (crlf ++ crlf) = some (requestStr, conn₁)) :
    requestsIn conn.readBuffer.buf = requestStr :: requestsIn conn₁.readBuffer.buf ∧
      leftOver conn.readBuffer.buf = leftOver conn₁.readBuffer.buf ∧
      conn₁.readBuffer.buf.length < conn.readBuffer.buf.length ∧
      conn₁.socket = conn.socket ∧ conn₁.writeBuffer = conn.writeBuffer := by
  obtain ⟨⟨found, readBuffer⟩, hfound, heq⟩ := Option.map_eq_some_iff.mp h
  obtain ⟨⟨before, after⟩, hcut, hbuf⟩ := Option.map_eq_some_iff.mp hfound
  cases hbuf
  cases heq
  have hlength := length_of_cut hcut
  have hpos : 0 < (crlf ++ crlf).length := by decide
  obtain ⟨hf, hu⟩ := frames_of_some (by decide) hcut
  exact ⟨hf, hu, by show after.length < _; omega, rfl, rfl⟩

theorem findAndPopTill_eq_none (h : conn.findAndPopTill (crlf ++ crlf) = none) :
    requestsIn conn.readBuffer.buf = [] ∧ leftOver conn.readBuffer.buf = conn.readBuffer.buf :=
  frames_of_none (Option.map_eq_none_iff.mp (Option.map_eq_none_iff.mp h))

theorem findAndPopTill_of_nil (h : conn.readBuffer.buf = []) :
    conn.findAndPopTill (crlf ++ crlf) = none := by
  rw [Connection.findAndPopTill, Buffer.findAndPopTill, h]
  rfl

section round

variable {bound : ℕ} {requestStr body : Bytes} {conn₁ : Connection} {response : Response}
  {noMoreParse : Bool} {store : σ}

theorem serveLoop_none (h : conn.findAndPopTill (crlf ++ crlf) = none) :
    serveLoop fetch site bound conn shared = some (conn, false, shared) := by
  cases bound with
  | zero => rfl
  | succ bound => simp only [serveLoop, h]

theorem serveLoop_stuck (h : conn.findAndPopTill (crlf ++ crlf) = some (requestStr, conn₁))
    (hanswer : answer fetch site (site.disk shared.log.length) shared.store requestStr = none) :
    serveLoop fetch site (bound + 1) conn shared = none := by
  simp only [serveLoop, h, handleRequest_none hanswer]
  rfl

/-- A round of the loop. -/
theorem serveLoop_some (h : conn.findAndPopTill (crlf ++ crlf) = some (requestStr, conn₁))
    (hanswer : answer fetch site (site.disk shared.log.length) shared.store requestStr =
      some (response, body, noMoreParse, store)) :
    serveLoop fetch site (bound + 1) conn shared =
      if noMoreParse then
        some ((conn₁.writeToWriteBuffer (response.serialize [] ++ body)).send, true,
          ⟨store, shared.log ++ [shared.exchange requestStr response body]⟩)
      else
        serveLoop fetch site bound (conn₁.writeToWriteBuffer (response.serialize [] ++ body)).send
          ⟨store, shared.log ++ [shared.exchange requestStr response body]⟩ := by
  simp only [serveLoop, h, handleRequest_some hanswer]
  rfl

end round

/-- The loop answers the requests that are complete in the read buffer. -/
theorem serveLoop_eq_serveAll {bound : ℕ} (hbound : conn.readBuffer.buf.length ≤ bound)
    (hwrite : conn.writeBuffer.buf = []) (hsend : ∀ r ∈ conn.socket.outgoing, r.Clean) :
    (serveLoop fetch site bound conn shared).map view =
      (serveAll fetch site (requestsIn conn.readBuffer.buf) shared).map
        (viewAll conn.socket.delivered (leftOver conn.readBuffer.buf)) := by
  induction bound generalizing conn shared with
  | zero =>
    have hbuf : conn.readBuffer.buf = [] := List.length_eq_zero_iff.mp (Nat.le_zero.mp hbound)
    obtain ⟨hrequests, hleft⟩ := findAndPopTill_eq_none (findAndPopTill_of_nil hbuf)
    rw [hrequests, hleft]
    simp [serveLoop, serveAll, view, viewAll]
  | succ bound ih =>
    cases hpop : conn.findAndPopTill (crlf ++ crlf) with
    | none =>
      obtain ⟨hrequests, hleft⟩ := findAndPopTill_eq_none hpop
      rw [hrequests, hleft, serveLoop_none hpop]
      simp [serveAll, view, viewAll]
    | some r =>
      obtain ⟨requestStr, conn₁⟩ := r
      obtain ⟨hrequests, hleft, hlength, hsocket, hwrite₁⟩ := findAndPopTill_eq_some hpop
      rw [hrequests, hleft]
      cases hanswer : answer fetch site (site.disk shared.log.length) shared.store requestStr with
      | none => rw [serveLoop_stuck hpop hanswer, serveAll_cons_none hanswer]; rfl
      | some r =>
        obtain ⟨response, body, noMoreParse, store⟩ := r
        obtain ⟨conn', hconn', hdelivered, hread, hwrite', hsend'⟩ :=
          respond_clean conn₁ (hwrite₁ ▸ hwrite) (hsocket ▸ hsend) (response.serialize [] ++ body)
        rw [serveLoop_some hpop hanswer, hconn']
        rw [hsocket] at hdelivered
        have hbuf : (shared.exchange requestStr response body).responseBuf =
            response.serialize [] ++ body := rfl
        cases noMoreParse with
        | true => simp [serveAll_cons_last hanswer, hbuf, view, viewAll, hdelivered]
        | false =>
          have hlt : conn'.readBuffer.buf.length ≤ bound := by
            rw [hread]
            omega
          rw [serveAll_cons_more hanswer, hbuf]
          simp only [Bool.false_eq_true, if_false, ih hlt hwrite' hsend', hread, hdelivered]
          cases serveAll fetch site (requestsIn conn₁.readBuffer.buf)
              ⟨store, shared.log ++ [shared.exchange requestStr response body]⟩ with
          | none => rfl
          | some r => simp [viewAll, List.append_assoc]

theorem serveLoop_writeBuffer {bound : ℕ} {conn' : Connection} {deleted : Bool} {shared' : Shared σ}
    (hwrite : conn.writeBuffer.buf = [])
    (h : serveLoop fetch site bound conn shared = some (conn', deleted, shared')) :
    conn'.writeBuffer.buf = [] := by
  induction bound generalizing conn shared with
  | zero =>
    cases h
    exact hwrite
  | succ bound ih =>
    rw [serveLoop] at h
    split at h
    · cases h
      exact hwrite
    · obtain ⟨⟨exchange, noMoreParse, shared''⟩, -, h⟩ := Option.bind_eq_some_iff.mp h
      cases noMoreParse with
      | true =>
        cases h
        rfl
      | false => exact ih rfl h

end StreamLemmas

/-! ## 3. A stream of bytes -/

/-- The bytes that arrive with the events. -/
def arriving (events : List Event) : Bytes := events.flatMap fun e => received e.incoming

/-- Neither the end of the file nor an error, and no `send` that fails for good. -/
def Event.Clean (event : Event) : Prop :=
  (∀ r ∈ event.incoming, r.Clean) ∧ ∀ r ∈ event.outgoing, r.Clean

instance (event : Event) : Decidable event.Clean := inferInstanceAs (Decidable (_ ∧ _))

namespace StreamLemmas

variable {fetch site} {conn : Connection} {shared : Shared σ}

theorem requestsIn_append (s t : Bytes) :
    requestsIn (s ++ t) = requestsIn s ++ requestsIn (leftOver s ++ t) ∧
      leftOver (s ++ t) = leftOver (leftOver s ++ t) :=
  frames_append (by decide) s t

theorem requestsIn_leftOver (s : Bytes) :
    requestsIn (leftOver s) = [] ∧ leftOver (leftOver s) = leftOver s :=
  frames_unfinished (by decide) s

/-- One event brings its bytes, and the requests complete then are answered. -/
theorem process_eq_serveAll {event : Event} (hclean : event.Clean)
    (hwrite : conn.writeBuffer.buf = []) :
    (processHttpRequest fetch site (event.arrive conn) shared).map view =
      (serveAll fetch site (requestsIn (conn.readBuffer.buf ++ received event.incoming)) shared).map
        (viewAll conn.socket.delivered
          (leftOver (conn.readBuffer.buf ++ received event.incoming))) := by
  have hrecv := Connection.recv_clean (c := event.arrive conn) hclean.1
  simp only [processHttpRequest, hrecv, Bool.false_eq_true, if_false]
  exact serveLoop_eq_serveAll (le_refl _) hwrite hclean.2

/-- When the process goes on, the requests were answered, and the rest of the stream is kept unless the
connection was deleted. -/
theorem process_eq_some {event : Event} {conn' : Connection} {deleted : Bool} {shared' : Shared σ}
    (hclean : event.Clean) (hwrite : conn.writeBuffer.buf = [])
    (h : processHttpRequest fetch site (event.arrive conn) shared = some (conn', deleted, shared')) :
    ∃ sent, serveAll fetch site (requestsIn (conn.readBuffer.buf ++ received event.incoming)) shared =
        some (sent, deleted, shared') ∧
      conn'.socket.delivered = conn.socket.delivered ++ sent ∧
      (deleted = false →
        conn'.readBuffer.buf = leftOver (conn.readBuffer.buf ++ received event.incoming)) := by
  have hview : (processHttpRequest fetch site (event.arrive conn) shared).map view = _ :=
    process_eq_serveAll hclean hwrite
  rw [h] at hview
  obtain ⟨⟨sent, closed, shared''⟩, hall, hview⟩ := Option.map_eq_some_iff.mp hview.symm
  simp only [view, viewAll, Prod.mk.injEq] at hview
  obtain ⟨hdelivered, hbuf, rfl⟩ := hview
  cases deleted with
  | true =>
    cases closed with
    | true => exact ⟨sent, hall, hdelivered.symm, nofun⟩
    | false => exact absurd hbuf (by simp)
  | false =>
    cases closed with
    | true => exact absurd hbuf (by simp)
    | false => exact ⟨sent, hall, hdelivered.symm, fun _ => (Option.some.inj hbuf).symm⟩

theorem process_writeBuffer {event : Event} {conn' : Connection} {deleted : Bool}
    {shared' : Shared σ} (hclean : event.Clean) (hwrite : conn.writeBuffer.buf = [])
    (h : processHttpRequest fetch site (event.arrive conn) shared = some (conn', deleted, shared')) :
    conn'.writeBuffer.buf = [] := by
  have hrecv := Connection.recv_clean (c := event.arrive conn) hclean.1
  simp only [processHttpRequest, hrecv, Bool.false_eq_true, if_false] at h
  refine serveLoop_writeBuffer ?_ h
  exact hwrite

theorem serveEvents_append (xs ys : List Event) (conn : Connection) (shared : Shared σ) :
    serveEvents fetch site (xs ++ ys) conn shared = (serveEvents fetch site xs conn shared).bind fun
      | (conn, true, shared) => some (conn, true, shared)
      | (conn, false, shared) => serveEvents fetch site ys conn shared := by
  induction xs generalizing conn shared with
  | nil => rfl
  | cons event xs ih =>
    rw [List.cons_append, serveEvents, serveEvents]
    cases processHttpRequest fetch site (event.arrive conn) shared with
    | none => rfl
    | some r =>
      obtain ⟨conn', deleted, shared'⟩ := r
      cases deleted with
      | true => rfl
      | false => exact ih conn' shared'

end StreamLemmas

/-- Over all events, the requests in the bytes that arrived are answered. -/
theorem serveEvents_eq_serveAll {fetch : Fetch σ} {site : Site} {events : List Event}
    {conn : Connection} {shared : Shared σ} (hclean : ∀ e ∈ events, e.Clean)
    (hwrite : conn.writeBuffer.buf = [])
    (hread : leftOver conn.readBuffer.buf = conn.readBuffer.buf) :
    (serveEvents fetch site events conn shared).map view =
      (serveAll fetch site (requestsIn (conn.readBuffer.buf ++ arriving events)) shared).map
        (viewAll conn.socket.delivered (leftOver (conn.readBuffer.buf ++ arriving events))) := by
  induction events generalizing conn shared with
  | nil =>
    have hnone : requestsIn conn.readBuffer.buf = [] := by
      rw [← hread]
      exact (requestsIn_leftOver _).1
    simp [serveEvents, arriving, hnone, hread, serveAll, view, viewAll]
  | cons event events ih =>
    obtain ⟨he, hrest⟩ := List.forall_mem_cons.mp hclean
    have hbytes : conn.readBuffer.buf ++ arriving (event :: events) =
        conn.readBuffer.buf ++ received event.incoming ++ arriving events := by
      simp [arriving]
    have hfirst : (processHttpRequest fetch site (event.arrive conn) shared).map view = _ :=
      process_eq_serveAll he hwrite
    obtain ⟨hsplit, hleft⟩ :=
      requestsIn_append (conn.readBuffer.buf ++ received event.incoming) (arriving events)
    rw [hbytes, hsplit, hleft, serveAll_append, serveEvents]
    cases hp : processHttpRequest fetch site (event.arrive conn) shared with
    | none =>
      rw [hp] at hfirst
      rw [Option.map_eq_none_iff.mp hfirst.symm]
      rfl
    | some r =>
      obtain ⟨conn', deleted, shared'⟩ := r
      obtain ⟨sent, hall, hdelivered, hbuf⟩ := process_eq_some he hwrite hp
      rw [hall]
      simp only [Option.bind_eq_bind, Option.bind_some, Option.pure_def]
      cases deleted with
      | true => simp [view, viewAll, hdelivered]
      | false =>
        have hread' : leftOver conn'.readBuffer.buf = conn'.readBuffer.buf := by
          rw [hbuf rfl]
          exact (requestsIn_leftOver _).2
        simp only [Bool.false_eq_true, if_false]
        rw [ih hrest (process_writeBuffer he hwrite hp) hread', hbuf rfl, hdelivered]
        cases serveAll fetch site (requestsIn (leftOver
            (conn.readBuffer.buf ++ received event.incoming) ++ arriving events)) shared' with
        | none => rfl
        | some r => simp [viewAll, List.append_assoc]

end serve

end TurtleServer.Http
