import TurtleServer.Core.Cache
import TurtleServer.Core.Connection
import TurtleServer.Http.Message

/-!
# The HTTP server (`http/cgier.cpp`, `http/http_server.cpp`)

`processHttpRequest` is the callback that the server runs for every readiness event of a client: read
what has arrived, and answer the complete requests in the read buffer one after the other.

The body of a static resource comes from the cache or from the disk. How it is got is a parameter
(`Fetch`), so that the same server can be run without its cache: `cachedFetch` is the code of the
source, `directFetch` always reads the file.

The file system that the `n`-th request finds is `site.disk n`: files may change between requests and
do not change while one is handled. `none` is the end of the process (see `Http.Utils`), a call of
`Run` that does not return, or undefined behaviour of the cache (see `Core.Cache`).
-/

namespace TurtleServer.Http

open Lib

/-! ## CGI programs -/

/-- How a run of a CGI program ends: it could not be started or awaited, or it has written its
output to the shared file. -/
inductive RunOutcome
  | openFailed
  | forkFailed
  | waitFailed
  | finished (output : Bytes)
deriving DecidableEq, Repr

/-- The class `Cgier`. -/
structure Cgier where
  cgiProgramPath : Bytes
  cgiArguments : List Bytes
  valid : Bool
deriving DecidableEq, Repr

namespace Cgier

/-- `MakeInvalidCgier`. -/
def makeInvalidCgier : Cgier := ⟨[], [], false⟩

/-- `ParseCgier`. When there is no separator, `cgi_separator + 1` wraps around to 0 and the arguments
are split from the whole url. -/
def parseCgier (resourceUrl : Bytes) : Cgier :=
  if resourceUrl.isEmpty then makeInvalidCgier
  else
    match cut cgiBin resourceUrl with
    | none => makeInvalidCgier
    | some (before, _) =>
      match cut parameterSeparator (resourceUrl.drop before.length) with
      | some (name, arguments) => ⟨before ++ name, split arguments parameterSeparator, true⟩
      | none => ⟨resourceUrl, split resourceUrl parameterSeparator, true⟩

/-- `BuildArgumentList`: the argument vector of the program, with the null at its end. `none` is the
failed assertion. -/
def buildArgumentList (cgier : Cgier) : Option (List (Option Bytes)) :=
  if cgier.cgiProgramPath.isEmpty then none
  else some ((cgier.cgiProgramPath :: cgier.cgiArguments).map some ++ [none])

/-- The file through which the program hands over its output. -/
def sharedFileName (threadId : Bytes) : Bytes :=
  cgiPrefix ++ underscore ++ threadId ++ bytes ".txt"

/-- `Run`, by how the run ends. -/
def run (threadId : Bytes) : RunOutcome → Bytes
  | .openFailed => bytes "fail to create/open the file " ++ sharedFileName threadId
  | .forkFailed => bytes "fail to fork()"
  | .waitFailed => bytes "fail to harvest child by waitpid()"
  | .finished output => output

end Cgier

/-- What the server serves: the directory, the CGI programs, and the file system as the `n`-th
request finds it. `none` is a `Run` that does not return. The program does not come to its end; or
`execve` has failed (there is a directory, or a file without the permission), and the child hangs in
`exit`, where the destructor of the logger it has inherited joins a thread it has not; or the shared
file has gone, and `LoadFile` ends the process. -/
structure Site where
  servingDirectory : Bytes
  threadId : Bytes
  cgi : Bytes → List Bytes → Option RunOutcome
  disk : ℕ → FileSystem

/-- `cgier.Run()`. `none` is a call that does not return. -/
def Site.runCgi (site : Site) (cgier : Cgier) : Option Bytes :=
  (site.cgi cgier.cgiProgramPath cgier.cgiArguments).map (Cgier.run site.threadId)

/-! ## One request -/

/-- How far a request is answered before the cache is asked: completely, or up to the body, which is
the content of a resource. -/
inductive Pending
  | ready (response : Response) (body : Bytes) (noMoreParse : Bool)
  | resource (response : Response) (noMoreParse : Bool) (resourceFullPath : Bytes)
deriving DecidableEq, Repr

/-- The loop body of `ProcessHttpRequest` up to the call of `TryLoad`. -/
def beginRequest (site : Site) (disk : FileSystem) (requestStr : Bytes) : Option Pending :=
  let request := Request.parse requestStr
  if !request.isValid then some (.ready .make400Response [] true)
  else
    let resourceFullPath := site.servingDirectory ++ request.resourceUrl
    if isCgiRequest resourceFullPath then
      -- dynamic CGI request
      let cgier := Cgier.parseCgier resourceFullPath
      if !cgier.valid then some (.ready .make400Response [] true)
      else do
        if !(← disk.isFileExists cgier.cgiProgramPath) then
          return .ready .make404Response [] true
        else
          let cgiResult ← site.runCgi cgier
          let response ← Response.make200Response disk request.shouldClose none
          let (_, response) :=
            response.changeHeader headerContentLength (toDecimal cgiResult.length)
          return .ready response cgiResult request.shouldClose
    else do
      -- static resource request
      if !(← disk.isFileExists resourceFullPath) then
        return .ready .make404Response [] true
      else
        let response ←
          Response.make200Response disk request.shouldClose (some resourceFullPath)
        -- only concern about carrying content when GET request
        if request.method = .get then return .resource response request.shouldClose resourceFullPath
        else return .ready response [] request.shouldClose

/-- A way to get the content of a resource, with a store of type `σ`. -/
abbrev Fetch (σ : Type) := FileSystem → σ → Bytes → Option (Bytes × σ)

/-- From the cache, or else from the disk and then into the cache. -/
def cachedFetch (clock : Clock) : Fetch Cache := fun disk cache resourceFullPath => do
  let (resourceCached, cacheBuf, cache) ← cache.tryLoad clock resourceFullPath []
  if resourceCached then return (cacheBuf, cache)
  else
    let cacheBuf ← disk.loadFile resourceFullPath cacheBuf
    let (_, cache) ← cache.tryInsert clock resourceFullPath cacheBuf
    return (cacheBuf, cache)

/-- Always from the disk. -/
def directFetch : Fetch Unit := fun disk _ resourceFullPath => do
  let cacheBuf ← disk.loadFile resourceFullPath []
  return (cacheBuf, ())

/-- What was answered to a request, the `number`-th one handled, with the store before it. -/
structure Exchange (σ : Type) where
  requestStr : Bytes
  number : ℕ
  store : σ
  response : Response
  body : Bytes

/-- `response_buf`. -/
def Exchange.responseBuf {σ : Type} (e : Exchange σ) : Bytes := e.response.serialize [] ++ e.body

/-- What the calls of `ProcessHttpRequest` share, and a record of the requests handled so far. -/
structure Shared (σ : Type) where
  store : σ
  log : List (Exchange σ)

section serve

variable {σ : Type} (fetch : Fetch σ) (site : Site)

/-- The rest of the answer: the response, its body, whether it is the last one, and the store after. -/
def finishRequest (disk : FileSystem) (store : σ) : Pending → Option (Response × Bytes × Bool × σ)
  | .ready response body noMoreParse => some (response, body, noMoreParse, store)
  | .resource response noMoreParse resourceFullPath => do
    let (body, store) ← fetch disk store resourceFullPath
    return (response, body, noMoreParse, store)

/-- The loop body of `ProcessHttpRequest` up to the sending. -/
def answer (disk : FileSystem) (store : σ) (requestStr : Bytes) :
    Option (Response × Bytes × Bool × σ) := do
  let pending ← beginRequest site disk requestStr
  finishRequest fetch disk store pending

/-- The record that an answer leaves. -/
def Shared.exchange (shared : Shared σ) (requestStr : Bytes) (response : Response) (body : Bytes) :
    Exchange σ :=
  ⟨requestStr, shared.log.length, shared.store, response, body⟩

/-- The answer to a request, with the file system of the moment, and its record. -/
def handleRequest (requestStr : Bytes) (shared : Shared σ) :
    Option (Exchange σ × Bool × Shared σ) := do
  let (response, body, noMoreParse, store) ←
    answer fetch site (site.disk shared.log.length) shared.store requestStr
  let exchange := shared.exchange requestStr response body
  return (exchange, noMoreParse, ⟨store, shared.log ++ [exchange]⟩)

/-- The loop of `ProcessHttpRequest`, and whether the connection has to be deleted. Every request
popped shortens the read buffer, so its length bounds the rounds. -/
def serveLoop : ℕ → Connection → Shared σ → Option (Connection × Bool × Shared σ)
  | 0, conn, shared => some (conn, false, shared)
  | bound + 1, conn, shared =>
    match conn.findAndPopTill (crlf ++ crlf) with
    | none => some (conn, false, shared)
    | some (requestStr, conn) => do
      let (exchange, noMoreParse, shared) ← handleRequest fetch site requestStr shared
      let conn := (conn.writeToWriteBuffer exchange.responseBuf).send
      if noMoreParse then return (conn, true, shared)
      else serveLoop bound conn shared

/-- `ProcessHttpRequest`: the connection, whether it was deleted, and the shared state after. -/
def processHttpRequest (conn : Connection) (shared : Shared σ) : Option (Connection × Bool × Shared σ) :=
  let (_, exit, conn) := conn.recv
  if exit then some (conn, true, shared)
  else serveLoop fetch site conn.readBuffer.buf.length conn shared

/-- A readiness event of a client: what its socket will answer to `recv` and to `send`. -/
structure Event where
  incoming : List RecvResult
  outgoing : List SendResult
deriving DecidableEq, Repr

/-- The connection when an event is reported. -/
def Event.arrive (event : Event) (conn : Connection) : Connection :=
  { conn with socket :=
    { conn.socket with incoming := event.incoming, outgoing := event.outgoing } }

/-- `ProcessHttpRequest` once per event, until the connection is deleted. -/
def serveEvents : List Event → Connection → Shared σ → Option (Connection × Bool × Shared σ)
  | [], conn, shared => some (conn, false, shared)
  | event :: events, conn, shared => do
    let (conn, deleted, shared) ← processHttpRequest fetch site (event.arrive conn) shared
    if deleted then return (conn, true, shared)
    else serveEvents events conn shared

end serve

end TurtleServer.Http
