import TurtleServer.Http.Exchanges
import TurtleServer.Lib.Runs

/-!
# Many connections at once

The loops of the server run in threads of their own and share the cache, whose `TryLoad` and
`TryInsert` are atomic. `World.step` lets any client make its next step at any time: a client that is
inside `ProcessHttpRequest` stands before the search for a request, before `TryLoad`, before
`LoadFile` or before `TryInsert`. Everything else it does concerns its own connection only.

`cache_transparent`: when no file changes, every client gets the bytes that it would get from the
server without its cache if it were the only client. Two facts carry it. An entry of the cache is the
content of the file of its name, through hits, evictions and two clients that insert the same file
(`Truthful`). And what a client will have got in the end, were it to go on alone and without the cache
(`Client.finish`), is not changed by any step.
-/

namespace TurtleServer.Http

open Lib

/-! ## 1. Steps -/

/-- Where a client stands: outside `ProcessHttpRequest`, before `FindAndPopTill`, before `TryLoad`,
before `LoadFile`, before `TryInsert`, or deleted. -/
inductive Phase
  | waiting
  | scanning
  | loading (response : Response) (noMoreParse : Bool) (resourceFullPath : Bytes)
  | reading (response : Response) (noMoreParse : Bool) (resourceFullPath : Bytes)
  | inserting (response : Response) (noMoreParse : Bool) (resourceFullPath cacheBuf : Bytes)
  | closed
deriving DecidableEq, Repr

/-- A client, with the events that were reported for it so far. -/
structure Client where
  conn : Connection
  phase : Phase
  events : List Event

namespace Client

/-- The end of the loop body: the response goes out, and the loop ends or goes on. -/
def respond (client : Client) (response : Response) (body : Bytes) (noMoreParse : Bool) : Client :=
  { client with
    conn := (client.conn.writeToWriteBuffer (response.serialize [] ++ body)).send
    phase := if noMoreParse then .closed else .scanning }

/-- An event is reported: `Recv`. -/
def arrive (client : Client) (event : Event) : Client :=
  match client.phase with
  | .waiting =>
    let (_, exit, conn) := (event.arrive client.conn).recv
    { conn, phase := if exit then .closed else .scanning, events := client.events ++ [event] }
  | _ => client

/-- The next step of the client. -/
def advance (clock : Clock) (site : Site) (disk : FileSystem) (client : Client) (cache : Cache) :
    Option (Client × Cache) :=
  match client.phase with
  | .waiting => some (client, cache)
  | .scanning =>
    match client.conn.findAndPopTill (crlf ++ crlf) with
    | none => some ({ client with phase := .waiting }, cache)
    | some (requestStr, conn) =>
      (beginRequest site disk requestStr).map fun
        | .ready response body noMoreParse =>
          ({ client with conn }.respond response body noMoreParse, cache)
        | .resource response noMoreParse resourceFullPath =>
          ({ client with conn, phase := .loading response noMoreParse resourceFullPath }, cache)
  | .loading response noMoreParse resourceFullPath => do
    let (resourceCached, cacheBuf, cache) ← cache.tryLoad clock resourceFullPath []
    if resourceCached then return (client.respond response cacheBuf noMoreParse, cache)
    else return ({ client with phase := .reading response noMoreParse resourceFullPath }, cache)
  | .reading response noMoreParse resourceFullPath => do
    let cacheBuf ← disk.loadFile resourceFullPath []
    return ({ client with phase := .inserting response noMoreParse resourceFullPath cacheBuf }, cache)
  | .inserting response noMoreParse resourceFullPath cacheBuf => do
    let (_, cache) ← cache.tryInsert clock resourceFullPath cacheBuf
    return (client.respond response cacheBuf noMoreParse, cache)
  | .closed => some (client, cache)

end Client

/-- The clients and the cache they share. -/
structure World where
  clients : ℕ → Client
  cache : Cache

/-- An event is reported for a client, or a client makes a step. -/
inductive Move
  | arrive (client : ℕ) (event : Event)
  | advance (client : ℕ)

namespace World

/-- Fresh connections and an empty cache. -/
def new (clock : Clock) (capacity : UInt64) : World :=
  ⟨fun _ => ⟨.fresh, .waiting, []⟩, Cache.new clock capacity⟩

/-- The machine whose state is `none` once the process has ended or a program that is run does not come
to its end. The file system is that of `site.disk 0`, at all times. -/
def step (clock : Clock) (site : Site) (o : Option World) (move : Move) : Option World := do
  let w ← o
  match move with
  | .arrive i event =>
    return { w with clients := Function.update w.clients i ((w.clients i).arrive event) }
  | .advance i =>
    let (client, cache) ← (w.clients i).advance clock site (site.disk 0) w.cache
    return { clients := Function.update w.clients i client, cache }

/-- Every path that a client asks for is absent or a regular file, and a program comes to its end. -/
def AsksPlain (site : Site) (o : Option World) : Move → Prop
  | .arrive i event => ∀ w ∈ o, (w.clients i).phase = .waiting →
      ∀ r ∈ pendingRequests (w.clients i).conn event, site.Plain (site.disk 0) r
  | .advance _ => True

end World

/-! ## 2. A client alone -/

section alone

variable (site : Site)

/-- The connection after the events, and whether it was deleted, when it is served alone and without
the cache. -/
def alone (events : List Event) : Option (Connection × Bool) :=
  (serveEvents directFetch site events .fresh ⟨(), []⟩).map fun r => (r.1, r.2.1)

/-- The loop of `ProcessHttpRequest` without the cache. -/
def loopAlone (conn : Connection) : Option (Connection × Bool) :=
  (serveLoop directFetch site conn.readBuffer.buf.length conn ⟨(), []⟩).map fun r => (r.1, r.2.1)

/-- A response goes out, and the loop ends or goes on without the cache. -/
def respondAlone (conn : Connection) (response : Response) (body : Bytes) (noMoreParse : Bool) :
    Option (Connection × Bool) :=
  let conn := (conn.writeToWriteBuffer (response.serialize [] ++ body)).send
  if noMoreParse then some (conn, true) else loopAlone site conn

/-- What becomes of a client that goes on alone and without the cache until it is back outside
`ProcessHttpRequest`. -/
def Client.finish (client : Client) : Option (Connection × Bool) :=
  match client.phase with
  | .waiting => some (client.conn, false)
  | .scanning => loopAlone site client.conn
  | .loading response noMoreParse resourceFullPath => do
    let body ← (site.disk 0).loadFile resourceFullPath []
    respondAlone site client.conn response body noMoreParse
  | .reading response noMoreParse resourceFullPath => do
    let body ← (site.disk 0).loadFile resourceFullPath []
    respondAlone site client.conn response body noMoreParse
  | .inserting response noMoreParse _ cacheBuf =>
    respondAlone site client.conn response cacheBuf noMoreParse
  | .closed => some (client.conn, true)

end alone

namespace InterleavingLemmas

open StreamLemmas FragmentationLemmas Cache.RefinementLemmas

variable {clock : Clock} {capacity : ℕ} {site : Site} {conn : Connection} {client : Client}

/-- Without the cache and with files that do not change, neither the bound nor the log matters. -/
theorem serveLoop_direct (hdisk : ∀ n, site.disk n = site.disk 0) {m n : ℕ}
    (hm : conn.readBuffer.buf.length ≤ m) (hn : conn.readBuffer.buf.length ≤ n)
    (shared shared' : Shared Unit) :
    (serveLoop directFetch site m conn shared).map (fun r => (r.1, r.2.1)) =
      (serveLoop directFetch site n conn shared').map fun r => (r.1, r.2.1) := by
  induction m generalizing n conn shared shared' with
  | zero =>
    have hbuf : conn.readBuffer.buf = [] := List.length_eq_zero_iff.mp (Nat.le_zero.mp hm)
    rw [serveLoop_none (findAndPopTill_of_nil hbuf), serveLoop_none (findAndPopTill_of_nil hbuf)]
    rfl
  | succ m ih =>
    cases hpop : conn.findAndPopTill (crlf ++ crlf) with
    | none =>
      rw [serveLoop_none hpop, serveLoop_none hpop]
      rfl
    | some r =>
      obtain ⟨requestStr, conn₁⟩ := r
      obtain ⟨-, -, hlength, -, -⟩ := findAndPopTill_eq_some hpop
      obtain ⟨n, rfl⟩ : ∃ k, n = k + 1 := ⟨n - 1, by omega⟩
      cases hanswer : answer directFetch site (site.disk 0) () requestStr with
      | none =>
        rw [serveLoop_stuck hpop (by rw [hdisk]; exact hanswer),
          serveLoop_stuck hpop (by rw [hdisk]; exact hanswer)]
      | some r =>
        obtain ⟨response, body, noMoreParse, store⟩ := r
        rw [serveLoop_some hpop (by rw [hdisk]; exact hanswer),
          serveLoop_some hpop (by rw [hdisk]; exact hanswer)]
        cases noMoreParse with
        | true => rfl
        | false =>
          have hlt : ∀ k, conn.readBuffer.buf.length ≤ k + 1 →
              (conn₁.writeToWriteBuffer (response.serialize [] ++ body)).send.readBuffer.buf.length ≤
                k := by
            intro k hk
            exact Nat.le_of_lt_succ (hlength.trans_le hk)
          exact ih (hlt m hm) (hlt n hn) _ _

theorem loopAlone_none (h : conn.findAndPopTill (crlf ++ crlf) = none) :
    loopAlone site conn = some (conn, false) := by
  rw [loopAlone, serveLoop_none h]
  rfl

theorem loopAlone_some (hdisk : ∀ n, site.disk n = site.disk 0) {requestStr body : Bytes}
    {conn₁ : Connection} {response : Response} {noMoreParse : Bool}
    (hpop : conn.findAndPopTill (crlf ++ crlf) = some (requestStr, conn₁))
    (hanswer : answer directFetch site (site.disk 0) () requestStr =
      some (response, body, noMoreParse, ())) :
    loopAlone site conn = respondAlone site conn₁ response body noMoreParse := by
  obtain ⟨-, -, hlength, -, -⟩ := findAndPopTill_eq_some hpop
  obtain ⟨k, hk⟩ : ∃ k, conn.readBuffer.buf.length = k + 1 :=
    ⟨conn.readBuffer.buf.length - 1, by omega⟩
  rw [loopAlone, hk, serveLoop_some hpop hanswer]
  cases noMoreParse with
  | true => rfl
  | false =>
    refine serveLoop_direct hdisk ?_ (le_refl _) _ _
    show conn₁.readBuffer.buf.length ≤ k
    omega

theorem answer_direct {disk : FileSystem} {requestStr : Bytes} (h : site.Plain disk requestStr) :
    ∃ response body noMoreParse,
      answer directFetch site disk () requestStr = some (response, body, noMoreParse, ()) := by
  have hfetch : ∀ path content, disk path = .regular content →
      ∃ r, directFetch disk () path = some r := by
    intro path content hdisk
    rw [directFetch, FileSystem.loadFile_regular hdisk]
    exact ⟨_, rfl⟩
  obtain ⟨response, body, noMoreParse, _, hanswer⟩ := answer_of_plain hfetch h
  exact ⟨response, body, noMoreParse, hanswer⟩

/-- What has been delivered stays delivered. -/
theorem loopAlone_spec (hdisk : ∀ n, site.disk n = site.disk 0) (conn : Connection)
    (hplain : ∀ r ∈ requestsIn conn.readBuffer.buf, site.Plain (site.disk 0) r) :
    ∃ conn' deleted, loopAlone site conn = some (conn', deleted) ∧
      conn.socket.delivered <+: conn'.socket.delivered := by
  induction hn : conn.readBuffer.buf.length using Nat.strong_induction_on generalizing conn with
  | _ n ih =>
    cases hpop : conn.findAndPopTill (crlf ++ crlf) with
    | none => exact ⟨conn, false, loopAlone_none hpop, List.prefix_refl _⟩
    | some r =>
      obtain ⟨requestStr, conn₁⟩ := r
      obtain ⟨hrequests, -, hlength, hsocket, -⟩ := findAndPopTill_eq_some hpop
      rw [hrequests] at hplain
      obtain ⟨hfirst, hlater⟩ := List.forall_mem_cons.mp hplain
      obtain ⟨response, body, noMoreParse, hanswer⟩ := answer_direct hfirst
      rw [loopAlone_some hdisk hpop hanswer, ← hsocket]
      cases noMoreParse with
      | true => exact ⟨_, true, rfl, List.prefix_append _ _⟩
      | false =>
        obtain ⟨conn', deleted, hloop, hdelivered⟩ := ih conn₁.readBuffer.buf.length (by omega)
          (conn₁.writeToWriteBuffer (response.serialize [] ++ body)).send hlater rfl
        exact ⟨conn', deleted, hloop, (List.prefix_append _ _).trans hdelivered⟩

theorem respondAlone_spec (hdisk : ∀ n, site.disk n = site.disk 0)
    (hplain : ∀ r ∈ requestsIn conn.readBuffer.buf, site.Plain (site.disk 0) r) (response : Response)
    (body : Bytes) (noMoreParse : Bool) :
    ∃ conn' deleted, respondAlone site conn response body noMoreParse = some (conn', deleted) ∧
      conn.socket.delivered <+: conn'.socket.delivered := by
  cases noMoreParse with
  | true => exact ⟨_, true, rfl, List.prefix_append _ _⟩
  | false =>
    obtain ⟨conn', deleted, hloop, hdelivered⟩ := loopAlone_spec hdisk
      (conn.writeToWriteBuffer (response.serialize [] ++ body)).send hplain
    exact ⟨conn', deleted, hloop, (List.prefix_append _ _).trans hdelivered⟩

end InterleavingLemmas

/-! ## 3. What every step keeps -/

/-- The file that a client is about to load, or has just loaded, is there. -/
def Phase.Backed (disk : FileSystem) : Phase → Prop
  | .loading _ _ path => ∃ content, disk path = .regular content
  | .reading _ _ path => ∃ content, disk path = .regular content
  | .inserting _ _ path cacheBuf => disk path = .regular cacheBuf
  | _ => True

/-- Outside `ProcessHttpRequest`. -/
def Phase.AtRest : Phase → Prop
  | .waiting => True
  | .closed => True
  | _ => False

/-- The requests still in the read buffer are for plain paths, and the client's file is there. -/
structure Client.Prepared (site : Site) (client : Client) : Prop where
  plain : ∀ r ∈ requestsIn client.conn.readBuffer.buf, site.Plain (site.disk 0) r
  backed : client.phase.Backed (site.disk 0)

/-- A bound for the steps to the end of the call: at most four for each request in the buffer. -/
def Client.stepsLeft (client : Client) : ℕ :=
  match client.phase with
  | .waiting => 0
  | .scanning => 5 * client.conn.readBuffer.buf.length + 1
  | .loading _ _ _ => 5 * client.conn.readBuffer.buf.length + 4
  | .reading _ _ _ => 5 * client.conn.readBuffer.buf.length + 3
  | .inserting _ _ _ _ => 5 * client.conn.readBuffer.buf.length + 2
  | .closed => 0

/-- Every entry of the cache is the content of the file of its name. -/
def Truthful (clock : Clock) (capacity : ℕ) (disk : FileSystem) (cache : Cache) : Prop :=
  ∃ l, Holds clock capacity cache l ∧ ∀ e ∈ l, disk e.1 = .regular e.2

namespace InterleavingLemmas

open StreamLemmas FragmentationLemmas Cache.RefinementLemmas

variable {clock : Clock} {capacity : ℕ} {site : Site} {conn : Connection} {client : Client}
  {disk : FileSystem} {cache : Cache} {path content : Bytes}

theorem tryLoad_truthful (h : Truthful clock capacity disk cache)
    (hdisk : disk path = .regular content) :
    ∃ found cache', cache.tryLoad clock path [] = some (found, if found then content else [], cache') ∧
      Truthful clock capacity disk cache' := by
  obtain ⟨-, ⟨hcap, es, hrep, rfl⟩, htrue⟩ := h
  obtain ⟨cache', es', hload, hcap', hrep', hes'⟩ := tryLoad_refines hrep path []
  refine ⟨(Lru.load (es.map Cache.pair) path).1.isSome, cache', ?_, _,
    ⟨hcap'.trans hcap, es', hrep', rfl⟩, ?_⟩
  · rw [hload]
    cases hfound : (Lru.load (es.map Cache.pair) path).1 with
    | none => rfl
    | some data =>
      have hdata := htrue _ (Lru.mem_of_load_eq_some hfound)
      rw [hdisk] at hdata
      cases hdata
      rfl
  · intro e he
    rw [hes'] at he
    exact htrue e (Lru.mem_of_mem_load he)

theorem tryInsert_truthful (h : Truthful clock capacity disk cache)
    (hdisk : disk path = .regular content) :
    ∃ success cache', cache.tryInsert clock path content = some (success, cache') ∧
      Truthful clock capacity disk cache' := by
  obtain ⟨-, ⟨hcap, es, hrep, rfl⟩, htrue⟩ := h
  obtain ⟨cache', es', hinsert, hcap', hrep', hes'⟩ := tryInsert_refines hrep path content
  refine ⟨_, cache', hinsert, _, ⟨hcap'.trans hcap, es', hrep', rfl⟩, ?_⟩
  intro e he
  rw [hes'] at he
  rcases Lru.mem_of_mem_insert he with he | rfl
  · exact htrue e he
  · exact hdisk

theorem finish_respond (client : Client) (response : Response) (body : Bytes) (noMoreParse : Bool) :
    (client.respond response body noMoreParse).finish site =
      respondAlone site client.conn response body noMoreParse := by
  cases noMoreParse <;> rfl

theorem prepared_respond {client : Client}
    (hplain : ∀ r ∈ requestsIn client.conn.readBuffer.buf, site.Plain (site.disk 0) r)
    (response : Response) (body : Bytes) (noMoreParse : Bool) :
    (client.respond response body noMoreParse).Prepared site := by
  refine ⟨hplain, ?_⟩
  cases noMoreParse <;> trivial

theorem stepsLeft_respond (client : Client) (response : Response) (body : Bytes)
    (noMoreParse : Bool) : (client.respond response body noMoreParse).stepsLeft ≤
      5 * client.conn.readBuffer.buf.length + 1 := by
  cases noMoreParse with
  | true => exact Nat.zero_le _
  | false => exact le_refl _

theorem finish_spec (hdisk : ∀ n, site.disk n = site.disk 0) (h : client.Prepared site) :
    ∃ conn deleted, client.finish site = some (conn, deleted) ∧
      client.conn.socket.delivered <+: conn.socket.delivered := by
  obtain ⟨hplain, hbacked⟩ := h
  unfold Client.finish
  cases hphase : client.phase with
  | waiting => exact ⟨_, _, rfl, List.prefix_refl _⟩
  | scanning => exact loopAlone_spec hdisk client.conn hplain
  | loading response noMoreParse path =>
    rw [hphase] at hbacked
    obtain ⟨content, hcontent⟩ := hbacked
    simp only [FileSystem.loadFile_regular hcontent, Option.bind_eq_bind, Option.bind_some]
    exact respondAlone_spec hdisk hplain _ _ _
  | reading response noMoreParse path =>
    rw [hphase] at hbacked
    obtain ⟨content, hcontent⟩ := hbacked
    simp only [FileSystem.loadFile_regular hcontent, Option.bind_eq_bind, Option.bind_some]
    exact respondAlone_spec hdisk hplain _ _ _
  | inserting response noMoreParse path cacheBuf => exact respondAlone_spec hdisk hplain _ _ _
  | closed => exact ⟨_, _, rfl, List.prefix_refl _⟩

/-- What a step of a client keeps: the cache stays truthful, and the client will finish as before. -/
structure Keeps (clock : Clock) (capacity : ℕ) (site : Site) (client client' : Client)
    (cache' : Cache) : Prop where
  truthful : Truthful clock capacity (site.disk 0) cache'
  prepared : client'.Prepared site
  events : client'.events = client.events
  finish : client'.finish site = client.finish site
  stepsLeft : ¬ client.phase.AtRest → client'.stepsLeft < client.stepsLeft

section advance

variable {events : List Event} {response : Response} {noMoreParse : Bool}
  (hcache : Truthful clock capacity (site.disk 0) cache)

include hcache

/-- The first request in the read buffer is begun. -/
theorem advance_scanning (hdisk : ∀ n, site.disk n = site.disk 0)
    (h : Client.Prepared site ⟨conn, .scanning, events⟩) :
    ∃ client' cache', Client.advance clock site (site.disk 0) ⟨conn, .scanning, events⟩ cache =
        some (client', cache') ∧
      Keeps clock capacity site ⟨conn, .scanning, events⟩ client' cache' := by
  cases hpop : conn.findAndPopTill (crlf ++ crlf) with
  | none =>
    refine ⟨⟨conn, .waiting, events⟩, cache, by simp [Client.advance, hpop], ?_⟩
    exact ⟨hcache, ⟨h.plain, True.intro⟩, rfl, (loopAlone_none hpop).symm, fun _ => Nat.succ_pos _⟩
  | some r =>
    obtain ⟨requestStr, conn₁⟩ := r
    obtain ⟨hrequests, -, hlength, -, -⟩ := findAndPopTill_eq_some hpop
    have hplain : ∀ r ∈ requestStr :: requestsIn conn₁.readBuffer.buf,
        site.Plain (site.disk 0) r := hrequests ▸ h.plain
    obtain ⟨hfirst, hlater⟩ := List.forall_mem_cons.mp hplain
    obtain ⟨pending, hbegin, hbegun⟩ := begun_of_plain hfirst
    cases pending with
    | ready response body noMoreParse =>
      have hanswer : answer directFetch site (site.disk 0) () requestStr =
          some (response, body, noMoreParse, ()) := by
        rw [answer, hbegin]
        rfl
      refine ⟨Client.respond ⟨conn₁, .scanning, events⟩ response body noMoreParse, cache,
        by simp [Client.advance, hpop, hbegin], ?_⟩
      refine ⟨hcache, prepared_respond hlater _ _ _, rfl, ?_, fun _ => ?_⟩
      · rw [finish_respond]
        exact (loopAlone_some hdisk hpop hanswer).symm
      · refine (stepsLeft_respond _ _ _ _).trans_lt ?_
        show 5 * conn₁.readBuffer.buf.length + 1 < 5 * conn.readBuffer.buf.length + 1
        omega
    | resource response noMoreParse path =>
      obtain ⟨content, hcontent⟩ : ∃ content, site.disk 0 path = .regular content := by
        cases hbegun with
        | resource content hvalid hcgi hdisk hmethod => exact ⟨content, hdisk⟩
      have hload : (site.disk 0).loadFile path [] = some content :=
        FileSystem.loadFile_regular hcontent []
      have hanswer : answer directFetch site (site.disk 0) () requestStr =
          some (response, content, noMoreParse, ()) := by
        rw [answer, hbegin]
        simp [finishRequest, directFetch, hload]
      refine ⟨⟨conn₁, .loading response noMoreParse path, events⟩, cache,
        by simp [Client.advance, hpop, hbegin], ?_⟩
      refine ⟨hcache, ⟨hlater, content, hcontent⟩, rfl, ?_, fun _ => ?_⟩
      · refine Eq.trans ?_ (loopAlone_some hdisk hpop hanswer).symm
        simp [Client.finish, hload]
      · show 5 * conn₁.readBuffer.buf.length + 4 < 5 * conn.readBuffer.buf.length + 1
        omega

/-- The cache is asked: it has the content of the file, or nothing. -/
theorem advance_loading (h : Client.Prepared site ⟨conn, .loading response noMoreParse path, events⟩) :
    ∃ client' cache', Client.advance clock site (site.disk 0)
        ⟨conn, .loading response noMoreParse path, events⟩ cache = some (client', cache') ∧
      Keeps clock capacity site ⟨conn, .loading response noMoreParse path, events⟩ client' cache' := by
  obtain ⟨hplain, content, hcontent⟩ := h
  have hload : (site.disk 0).loadFile path [] = some content :=
    FileSystem.loadFile_regular hcontent []
  obtain ⟨found, cache', htry, htruthful⟩ := tryLoad_truthful hcache hcontent
  cases found with
  | true =>
    refine ⟨Client.respond ⟨conn, .loading response noMoreParse path, events⟩ response content
      noMoreParse, cache', by simp [Client.advance, htry], ?_⟩
    refine ⟨htruthful, prepared_respond hplain _ _ _, rfl, ?_, fun _ => ?_⟩
    · rw [finish_respond]
      simp [Client.finish, hload]
    · refine (stepsLeft_respond _ _ _ _).trans_lt ?_
      exact Nat.add_lt_add_left (by decide) _
  | false =>
    refine ⟨⟨conn, .reading response noMoreParse path, events⟩, cache',
      by simp [Client.advance, htry], ?_⟩
    exact ⟨htruthful, ⟨hplain, content, hcontent⟩, rfl, rfl,
      fun _ => Nat.add_lt_add_left (by decide) _⟩

theorem advance_spec (hdisk : ∀ n, site.disk n = site.disk 0) (h : client.Prepared site) :
    ∃ client' cache', client.advance clock site (site.disk 0) cache = some (client', cache') ∧
      Keeps clock capacity site client client' cache' := by
  have hsame : client.phase.AtRest → Keeps clock capacity site client client cache := fun hrest =>
    ⟨hcache, h, rfl, rfl, fun hnot => absurd hrest hnot⟩
  obtain ⟨conn, phase, events⟩ := client
  cases phase with
  | waiting => exact ⟨_, cache, rfl, hsame True.intro⟩
  | closed => exact ⟨_, cache, rfl, hsame True.intro⟩
  | scanning => exact advance_scanning hcache hdisk h
  | loading response noMoreParse path => exact advance_loading hcache h
  | reading response noMoreParse path =>
    obtain ⟨hplain, content, hcontent⟩ := h
    have hload : (site.disk 0).loadFile path [] = some content :=
      FileSystem.loadFile_regular hcontent []
    refine ⟨⟨conn, .inserting response noMoreParse path content, events⟩, cache,
      by simp [Client.advance, hload], ?_⟩
    refine ⟨hcache, ⟨hplain, hcontent⟩, rfl, ?_, fun _ => Nat.add_lt_add_left (by decide) _⟩
    simp [Client.finish, hload]
  | inserting response noMoreParse path cacheBuf =>
    obtain ⟨hplain, hbacked⟩ := h
    obtain ⟨success, cache', htry, htruthful⟩ := tryInsert_truthful hcache hbacked
    refine ⟨Client.respond ⟨conn, .inserting response noMoreParse path cacheBuf, events⟩ response
      cacheBuf noMoreParse, cache', by simp [Client.advance, htry], ?_⟩
    refine ⟨htruthful, prepared_respond hplain _ _ _, rfl, finish_respond _ _ _ _, fun _ => ?_⟩
    refine (stepsLeft_respond _ _ _ _).trans_lt ?_
    exact Nat.add_lt_add_left (by decide) _

end advance

end InterleavingLemmas

/-! ## 4. Runs -/

/-- `ProcessHttpRequest` without the cache. -/
def processAlone (site : Site) (conn : Connection) : Option (Connection × Bool) :=
  let (_, exit, conn) := conn.recv
  if exit then some (conn, true) else loopAlone site conn

/-- The client is prepared, and will have got in the end what it gets alone. -/
structure Client.OnTrack (site : Site) (client : Client) : Prop where
  prepared : client.Prepared site
  finish : client.finish site = alone site client.events

/-- The process has not ended, the cache is truthful and every client is on track. -/
def World.Sound (clock : Clock) (capacity : ℕ) (site : Site) (o : Option World) : Prop :=
  ∃ w, o = some w ∧ Truthful clock capacity (site.disk 0) w.cache ∧
    ∀ i, (w.clients i).OnTrack site

namespace InterleavingLemmas

variable {clock : Clock} {capacity : ℕ} {site : Site} {client : Client} {w : World} {i : ℕ}

theorem processHttpRequest_direct (hdisk : ∀ n, site.disk n = site.disk 0) (conn : Connection)
    (shared : Shared Unit) :
    (processHttpRequest directFetch site conn shared).map (fun r => (r.1, r.2.1)) =
      processAlone site conn := by
  unfold processHttpRequest processAlone
  obtain ⟨read, exit, conn'⟩ := conn.recv
  cases exit with
  | true => rfl
  | false => exact serveLoop_direct hdisk (le_refl _) (le_refl _) _ _

/-- One more event, after the others. -/
theorem serveEvents_snoc (hdisk : ∀ n, site.disk n = site.disk 0) (events : List Event)
    (event : Event) (conn : Connection) (shared : Shared Unit) :
    (serveEvents directFetch site (events ++ [event]) conn shared).map (fun r => (r.1, r.2.1)) =
      ((serveEvents directFetch site events conn shared).map fun r => (r.1, r.2.1)).bind fun r =>
        if r.2 then some r else processAlone site (event.arrive r.1) := by
  rw [StreamLemmas.serveEvents_append]
  cases serveEvents directFetch site events conn shared with
  | none => rfl
  | some r =>
    obtain ⟨conn', deleted, shared'⟩ := r
    cases deleted with
    | true => rfl
    | false =>
      show (serveEvents directFetch site [event] conn' shared').map _ =
        processAlone site (event.arrive conn')
      rw [← processHttpRequest_direct hdisk (event.arrive conn') shared', serveEvents]
      cases processHttpRequest directFetch site (event.arrive conn') shared' with
      | none => rfl
      | some r =>
        obtain ⟨conn'', deleted, shared''⟩ := r
        cases deleted <;> rfl

theorem alone_snoc (hdisk : ∀ n, site.disk n = site.disk 0) {events : List Event}
    {conn : Connection} (h : alone site events = some (conn, false)) (event : Event) :
    alone site (events ++ [event]) = processAlone site (event.arrive conn) := by
  rw [alone, serveEvents_snoc hdisk]
  show (alone site events).bind _ = _
  rw [h]
  rfl

theorem arrive_onTrack (hdisk : ∀ n, site.disk n = site.disk 0) (h : client.OnTrack site)
    (event : Event) (hplain : client.phase = .waiting →
      ∀ r ∈ pendingRequests client.conn event, site.Plain (site.disk 0) r) :
    (client.arrive event).OnTrack site := by
  obtain ⟨conn, phase, events⟩ := client
  cases phase with
  | waiting =>
    have halone : alone site (events ++ [event]) = processAlone site (event.arrive conn) :=
      alone_snoc hdisk h.finish.symm event
    have hrequests := hplain rfl
    unfold pendingRequests at hrequests
    unfold processAlone at halone
    unfold Client.arrive
    generalize (event.arrive conn).recv = r at hrequests halone ⊢
    obtain ⟨read, exit, conn'⟩ := r
    cases exit with
    | true => exact ⟨⟨hrequests, True.intro⟩, halone.symm⟩
    | false => exact ⟨⟨hrequests, True.intro⟩, halone.symm⟩
  | scanning => exact h
  | loading response noMoreParse path => exact h
  | reading response noMoreParse path => exact h
  | inserting response noMoreParse path cacheBuf => exact h
  | closed => exact h

/-- A step of one client leaves the others on track. -/
theorem onTrack_update {clients : ℕ → Client} (h : ∀ i, (clients i).OnTrack site)
    (hclient : client.OnTrack site) (i : ℕ) :
    ∀ j, (Function.update clients i client j).OnTrack site :=
  (Function.forall_update_iff clients fun _ client => client.OnTrack site).mpr
    ⟨hclient, fun j _ => h j⟩

theorem advance_sound (hdisk : ∀ n, site.disk n = site.disk 0)
    (hcache : Truthful clock capacity (site.disk 0) w.cache)
    (hclients : ∀ i, (w.clients i).OnTrack site) (i : ℕ) :
    ∃ w', World.step clock site (some w) (.advance i) = some w' ∧
      Truthful clock capacity (site.disk 0) w'.cache ∧ (∀ j, (w'.clients j).OnTrack site) ∧
      (w'.clients i).events = (w.clients i).events ∧
      (¬ (w.clients i).phase.AtRest → (w'.clients i).stepsLeft < (w.clients i).stepsLeft) := by
  obtain ⟨client', cache', hadvance, hkeeps⟩ := advance_spec hcache hdisk (hclients i).prepared
  have htrack : client'.OnTrack site := by
    refine ⟨hkeeps.prepared, ?_⟩
    rw [hkeeps.finish, (hclients i).finish, hkeeps.events]
  refine ⟨⟨Function.update w.clients i client', cache'⟩, ?_, hkeeps.truthful,
    onTrack_update hclients htrack i, ?_, ?_⟩
  · simp [World.step, hadvance]
  · simpa using hkeeps.events
  · simpa using hkeeps.stepsLeft

theorem step_sound (hdisk : ∀ n, site.disk n = site.disk 0) {o : Option World} {move : Move}
    (h : World.Sound clock capacity site o) (hplain : World.AsksPlain site o move) :
    World.Sound clock capacity site (World.step clock site o move) := by
  obtain ⟨w, rfl, hcache, hclients⟩ := h
  cases move with
  | arrive i event =>
    have htrack := arrive_onTrack hdisk (hclients i) event (hplain w rfl)
    exact ⟨_, rfl, hcache, onTrack_update hclients htrack i⟩
  | advance i =>
    obtain ⟨w', hstep, hcache', hclients', -, -⟩ := advance_sound hdisk hcache hclients i
    exact ⟨w', hstep, hcache', hclients'⟩

theorem finish_atRest (site : Site) (h : client.phase.AtRest) :
    ∃ deleted, client.finish site = some (client.conn, deleted) := by
  obtain ⟨conn, phase, events⟩ := client
  cases phase with
  | waiting => exact ⟨false, rfl⟩
  | closed => exact ⟨true, rfl⟩
  | scanning => exact False.elim h
  | loading response noMoreParse path => exact False.elim h
  | reading response noMoreParse path => exact False.elim h
  | inserting response noMoreParse path cacheBuf => exact False.elim h

/-- A client that is let go on comes to rest. The induction is on the steps left. -/
theorem comes_to_rest (hdisk : ∀ n, site.disk n = site.disk 0) (w : World)
    (hcache : Truthful clock capacity (site.disk 0) w.cache)
    (hclients : ∀ i, (w.clients i).OnTrack site) (i : ℕ) :
    ∃ n w', run (World.step clock site) (some w) (List.replicate n (.advance i)) = some w' ∧
      (w'.clients i).OnTrack site ∧ (w'.clients i).events = (w.clients i).events ∧
      (w'.clients i).phase.AtRest := by
  induction hn : (w.clients i).stepsLeft using Nat.strong_induction_on generalizing w with
  | _ n ih =>
    by_cases hrest : (w.clients i).phase.AtRest
    · exact ⟨0, w, rfl, hclients i, rfl, hrest⟩
    · obtain ⟨w', hstep, hcache', hclients', hevents, hless⟩ :=
        advance_sound hdisk hcache hclients i
      obtain ⟨m, w'', hrun, htrack, hevents', hrest'⟩ :=
        ih _ (hn ▸ hless hrest) w' hcache' hclients' rfl
      refine ⟨m + 1, w'', ?_, htrack, hevents'.trans hevents, hrest'⟩
      rw [List.replicate_succ, run_cons, hstep]
      exact hrun

theorem conn_eq_of_atRest {events : List Event} {conn : Connection} {deleted : Bool}
    (h : client.OnTrack site) (hevents : client.events = events)
    (halone : alone site events = some (conn, deleted)) (hrest : client.phase.AtRest) :
    client.conn = conn := by
  obtain ⟨deleted', hfinish⟩ := finish_atRest site hrest
  rw [h.finish, hevents, halone] at hfinish
  exact (congrArg Prod.fst (Option.some.inj hfinish)).symm

end InterleavingLemmas

open InterleavingLemmas

/-- The process never ends, and what a client has got at any time is the beginning of what it gets
from the server alone and without the cache for the same events. It is all of it whenever the client
is outside `ProcessHttpRequest`, where it comes if it is let go on. -/
theorem cache_transparent (clock : Clock) (capacity : UInt64) (site : Site)
    (hdisk : ∀ n, site.disk n = site.disk 0) (moves : List Move)
    (hplain : Along (World.step clock site) (World.AsksPlain site)
      (some (World.new clock capacity)) moves) :
    Always (World.step clock site)
      (fun o => ∃ w, o = some w ∧ ∀ i, ∃ conn deleted,
        alone site (w.clients i).events = some (conn, deleted) ∧
        (w.clients i).conn.socket.delivered <+: conn.socket.delivered ∧
        ((w.clients i).phase.AtRest → (w.clients i).conn = conn) ∧
        ∃ n w', run (World.step clock site) (some w) (List.replicate n (.advance i)) = some w' ∧
          (w'.clients i).phase.AtRest ∧ (w'.clients i).conn = conn)
      (some (World.new clock capacity)) moves := by
  have hnew : World.Sound clock capacity.toNat site (some (World.new clock capacity)) := by
    refine ⟨_, rfl, ⟨[], FragmentationLemmas.holds_of_reachable ⟨[], rfl⟩, ?_⟩, ?_⟩
    · exact fun _ he => absurd he List.not_mem_nil
    · exact fun _ => ⟨⟨fun _ hr => absurd hr List.not_mem_nil, True.intro⟩, rfl⟩
  have hall : Always (World.step clock site) (World.Sound clock capacity.toNat site)
      (some (World.new clock capacity)) moves :=
    always_of_along (fun _ _ ho hmove => step_sound hdisk ho hmove) hnew hplain
  refine hall.mono ?_
  rintro - ⟨w, rfl, hcache, hclients⟩
  refine ⟨w, rfl, fun i => ?_⟩
  obtain ⟨conn, deleted, hfinish, hdelivered⟩ := finish_spec hdisk (hclients i).prepared
  have halone : alone site (w.clients i).events = some (conn, deleted) :=
    (hclients i).finish.symm.trans hfinish
  obtain ⟨n, w', hrun, htrack, hevents, hrest⟩ := comes_to_rest hdisk w hcache hclients i
  refine ⟨conn, deleted, halone, hdelivered, conn_eq_of_atRest (hclients i) rfl halone, n, w', hrun,
    hrest, conn_eq_of_atRest htrack hevents halone hrest⟩

/-- Two clients ask for the same page; both miss it, and both load and insert it. -/
def racingVisits : List Move :=
  [.arrive 0 ⟨[.received (bytes "GET / HTTP/1.1\r\n\r\n")], []⟩,
    .arrive 1 ⟨[.received (bytes "GET / HTTP/1.1\r\n\r\n")], []⟩,
    .advance 0, .advance 1, .advance 0, .advance 1, .advance 0, .advance 1, .advance 1, .advance 0]

theorem World.asksPlain_of_plain {site : Site} (h : ∀ r, site.Plain (site.disk 0) r)
    (o : Option World) (move : Move) : World.AsksPlain site o move := by
  cases move with
  | arrive i event => exact fun _ _ _ r _ => h r
  | advance i => exact True.intro

theorem smallSite_cache_transparent :
    (run (World.step (Clock.upTo 1000 (by decide)) smallSite)
      (some (World.new (Clock.upTo 1000 (by decide)) 64)) racingVisits).map
        (fun w => (w.cache.entries, (w.clients 0).conn.socket.delivered ==
          (w.clients 1).conn.socket.delivered)) =
      some ([(bytes "/srv/index.html", bytes "<p>")], true) ∧
    Always (World.step (Clock.upTo 1000 (by decide)) smallSite)
      (fun o => ∃ w, o = some w ∧ ∀ i, ∃ conn deleted,
        alone smallSite (w.clients i).events = some (conn, deleted) ∧
        (w.clients i).conn.socket.delivered <+: conn.socket.delivered ∧
        ((w.clients i).phase.AtRest → (w.clients i).conn = conn) ∧
        ∃ n w', run (World.step (Clock.upTo 1000 (by decide)) smallSite) (some w)
            (List.replicate n (.advance i)) = some w' ∧
          (w'.clients i).phase.AtRest ∧ (w'.clients i).conn = conn)
      (some (World.new (Clock.upTo 1000 (by decide)) 64)) racingVisits :=
  ⟨by decide, cache_transparent _ 64 smallSite (fun _ => rfl) racingVisits
    (Along.of_forall (World.asksPlain_of_plain (smallSite_plain 0)) _ _)⟩

end TurtleServer.Http
