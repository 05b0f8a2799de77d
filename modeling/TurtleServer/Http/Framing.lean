import TurtleServer.Http.Exchanges
import TurtleServer.Lib.Runs

/-!
# Content-Length and the length of the body

The `Content-Length` of a static resource is the size of the file on disk, while its body may come
from the cache. `framed_iff_fresh` is the exact condition under which the two agree, over all runs of
any number of clients that share the cache: whenever a GET finds an entry in the cache, it has the
length of the file on disk. A file that changes its length while its old content is cached breaks it
(`stale_content_length`): nothing ever removes an entry because the file has changed.

For CGI programs the length is taken from the output that is sent, so that it always agrees.
-/

namespace TurtleServer.Http

open Lib

/-! ## 1. Many clients -/

/-- The connections of a server, those that were deleted, and what they share. -/
structure Hub where
  conns : ℕ → Connection
  deleted : ℕ → Bool
  shared : Shared Cache

/-- A readiness event of one of the clients. -/
structure Call where
  client : ℕ
  event : Event

namespace Hub

/-- A server with an empty cache and fresh connections. -/
def new (clock : Clock) (capacity : UInt64) : Hub :=
  ⟨fun _ => .fresh, fun _ => false, ⟨Cache.new clock capacity, []⟩⟩

/-- `ProcessHttpRequest` for an event. A connection that was deleted has no events. -/
def call (clock : Clock) (site : Site) (hub : Hub) (call : Call) : Option Hub :=
  if hub.deleted call.client then some hub
  else do
    let (conn, deleted, shared) ← processHttpRequest (cachedFetch clock) site
      (call.event.arrive (hub.conns call.client)) hub.shared
    return ⟨Function.update hub.conns call.client conn,
      Function.update hub.deleted call.client deleted, shared⟩

/-- The machine whose state is `none` once the process has ended. -/
def next (clock : Clock) (site : Site) (o : Option Hub) (c : Call) : Option Hub :=
  o.bind fun hub => hub.call clock site c

/-- Every path that the requests of an event ask for is absent or a regular file, at any time. -/
def AsksPlain (site : Site) (o : Option Hub) (c : Call) : Prop :=
  ∀ hub ∈ o, ∀ r ∈ pendingRequests (hub.conns c.client) c.event, ∀ n, site.Plain (site.disk n) r

end Hub

/-! ## 2. Framing -/

/-- The value of the header `Content-Length`. -/
def Response.contentLength (response : Response) : Option Bytes :=
  (response.headers.find? fun h => h.key = headerContentLength).map Header.value

namespace Exchange

variable (site : Site) (e : Exchange Cache)

/-- A GET request answered with the status 200. -/
def GetOk : Prop :=
  (Request.parse e.requestStr).isValid = true ∧ (Request.parse e.requestStr).method = .get ∧
    e.response.statusLine = Response.makeStatusLine responseOk

instance : Decidable e.GetOk := inferInstanceAs (Decidable (_ ∧ _))

/-- The value of `Content-Length` is the number of bytes in the body. -/
def Framed : Prop := e.response.contentLength = some (toDecimal e.body.length)

instance : Decidable e.Framed := inferInstanceAs (Decidable (_ = _))

/-- When the request is a GET for a static file, an entry of the cache under its path has the length
of the file. -/
def Fresh : Prop :=
  (Request.parse e.requestStr).isValid = true → (Request.parse e.requestStr).method = .get →
    isCgiRequest (site.path e.requestStr) = false → ∀ content cached,
      site.disk e.number (site.path e.requestStr) = .regular content →
      (site.path e.requestStr, cached) ∈ e.store.entries → cached.length = content.length

end Exchange

namespace FramingLemmas

open StreamLemmas FragmentationLemmas ExchangeLemmas Cache.RefinementLemmas

variable {clock : Clock} {capacity : ℕ} {site : Site} {e : Exchange Cache} {disk : FileSystem}

theorem contentLength_ofResource (shouldClose : Bool) (url : Bytes) (n : ℕ) :
    (Response.ofResource responseOk shouldClose url n).contentLength = some (toDecimal n) := by
  have hserver : headerServer ≠ headerContentLength := by decide
  have hconnection : headerConnection ≠ headerContentLength := by decide
  simp [Response.contentLength, Response.ofResource, Response.commonHeaders, hserver, hconnection]

theorem contentLength_changeHeader (shouldClose : Bool) (value : Bytes) :
    ((Response.bare responseOk shouldClose).changeHeader headerContentLength value).2.contentLength =
      some value := by
  have hserver : headerServer ≠ headerContentLength := by decide
  have hconnection : headerConnection ≠ headerContentLength := by decide
  simp [Response.contentLength, Response.changeHeader, Response.bare, Response.commonHeaders,
    Response.changeFirst, hserver, hconnection]

/-- The body of a GET is the cached content if there is one, and else that of the file. -/
theorem cachedFetch_body {cache cache' : Cache} {l : List (Bytes × Bytes)} {path content body : Bytes}
    (hstore : Holds clock capacity cache l) (hdisk : disk path = .regular content)
    (h : cachedFetch clock disk cache path = some (body, cache')) :
    body = (Lru.load l path).1.getD content := by
  rcases cachedFetch_simulates disk cache l path hstore with ⟨hn, -⟩ | ⟨body', s', t', hs, ht, -⟩
  · rw [h] at hn
    exact absurd hn (Option.some_ne_none _)
  · rw [h] at hs
    cases hs
    unfold lruFetch at ht
    cases hload : Lru.load l path with
    | mk data l' =>
      rw [hload] at ht
      cases data with
      | some data =>
        cases ht
        rfl
      | none =>
        rw [FileSystem.loadFile_regular hdisk] at ht
        cases ht
        rfl

theorem genuine_begun (h : Genuine clock capacity site e) :
    ∃ pending noMoreParse store, Begun site (site.disk e.number) e.requestStr pending ∧
      finishRequest (cachedFetch clock) (site.disk e.number) e.store pending =
        some (e.response, e.body, noMoreParse, store) := by
  obtain ⟨pending, hbegin, hbegun⟩ := begun_of_plain h.plain
  obtain ⟨noMoreParse, store, hanswer⟩ := h.answered
  rw [answer, hbegin] at hanswer
  exact ⟨pending, noMoreParse, store, hbegun, hanswer⟩

/-- The answer to a GET for a static file, whose body is the cached content if there is one. -/
theorem framed_iff_of_resource (h : Genuine clock capacity site e) {content : Bytes}
    {store : Cache} (hvalid : (Request.parse e.requestStr).isValid = true)
    (hcgi : isCgiRequest (site.path e.requestStr) = false)
    (hdisk : site.disk e.number (site.path e.requestStr) = .regular content)
    (hmethod : (Request.parse e.requestStr).method = .get)
    (hresponse : e.response = .ofResource responseOk (Request.parse e.requestStr).shouldClose
      (site.path e.requestStr) content.length)
    (hfetch : cachedFetch clock (site.disk e.number) e.store (site.path e.requestStr) =
      some (e.body, store)) : (e.GetOk → e.Framed) ↔ e.Fresh site := by
  obtain ⟨l, hstore⟩ := h.store
  have hnodup : (l.map Prod.fst).Nodup := by
    obtain ⟨-, es, hrep, rfl⟩ := hstore
    exact keys_nodup hrep
  have hok : e.GetOk := ⟨hvalid, hmethod, by rw [hresponse]; rfl⟩
  have hlength : e.Framed ↔ ((Lru.load l (site.path e.requestStr)).1.getD content).length =
      content.length := by
    rw [Exchange.Framed, hresponse, contentLength_ofResource, Option.some_inj,
      toDecimal_injective.eq_iff, cachedFetch_body hstore hdisk hfetch]
    exact eq_comm
  constructor
  · intro hframed _ _ _ content' cached hcontent' hcached
    rw [hdisk] at hcontent'
    cases hcontent'
    rw [entries_of_holds hstore] at hcached
    have hfound := hlength.mp (hframed hok)
    rwa [(Lru.load_eq_some_iff hnodup).mpr hcached] at hfound
  · intro hfresh _
    refine hlength.mpr ?_
    cases hfound : (Lru.load l (site.path e.requestStr)).1 with
    | none => rfl
    | some cached =>
      refine hfresh hvalid hmethod hcgi content cached hdisk ?_
      rw [entries_of_holds hstore]
      exact (Lru.load_eq_some_iff hnodup).mp hfound

/-- One answer is framed exactly when the entry it found, if any, has the length of the file. -/
theorem framed_iff (h : Genuine clock capacity site e) : (e.GetOk → e.Framed) ↔ e.Fresh site := by
  obtain ⟨pending, noMoreParse, store, hbegun, hfinish⟩ := genuine_begun h
  cases hbegun with
  | badRequest hinvalid =>
    constructor
    · intro _ hvalid
      exact absurd (hinvalid.symm.trans hvalid) Bool.false_ne_true
    · rintro - ⟨hvalid, -⟩
      exact absurd (hinvalid.symm.trans hvalid) Bool.false_ne_true
  | notFound hvalid hdisk =>
    obtain ⟨hresponse, -⟩ := Prod.mk.inj (Option.some.inj hfinish)
    constructor
    · intro _ _ _ hcgi content _ hcontent
      rw [Site.target, hcgi, if_neg Bool.false_ne_true, hcontent] at hdisk
      exact absurd hdisk (by simp)
    · rintro - ⟨-, -, hstatus⟩
      rw [← hresponse] at hstatus
      exact absurd hstatus (by decide)
  | cgi hvalid hcgi hpresent hreturns =>
    obtain ⟨hresponse, hrest⟩ := Prod.mk.inj (Option.some.inj hfinish)
    obtain ⟨hbody, -⟩ := Prod.mk.inj hrest
    constructor
    · intro _ _ _ hstatic
      exact absurd (hstatic.symm.trans hcgi) Bool.false_ne_true
    · intro _ _
      rw [Exchange.Framed, ← hbody, ← hresponse]
      exact contentLength_changeHeader _ _
  | noBody size hvalid hcgi hpresent hsize hmethod =>
    constructor
    · intro _ _ hget
      exact absurd hget hmethod
    · rintro - ⟨-, hget, -⟩
      exact absurd hget hmethod
  | resource content hvalid hcgi hdisk hmethod =>
    obtain ⟨⟨body, store'⟩, hfetch, hrest⟩ := Option.bind_eq_some_iff.mp hfinish
    obtain ⟨hresponse, hrest⟩ := Prod.mk.inj (Option.some.inj hrest)
    obtain ⟨hbody, -⟩ := Prod.mk.inj hrest
    exact framed_iff_of_resource h hvalid hcgi hdisk hmethod hresponse.symm (hbody ▸ hfetch)

/-- The log of a server holds genuine records. -/
def Recorded (clock : Clock) (capacity : ℕ) (site : Site) (o : Option Hub) : Prop :=
  ∃ hub, o = some hub ∧ (∃ l, Holds clock capacity hub.shared.store l) ∧
    ∀ e ∈ hub.shared.log, Genuine clock capacity site e

theorem next_recorded {o : Option Hub} {c : Call} (h : Recorded clock capacity site o)
    (hplain : Hub.AsksPlain site o c) : Recorded clock capacity site (Hub.next clock site o c) := by
  obtain ⟨hub, rfl, ⟨l, hstore⟩, hlog⟩ := h
  cases hdeleted : hub.deleted c.client with
  | true => exact ⟨hub, by simp [Hub.next, Hub.call, hdeleted], ⟨l, hstore⟩, hlog⟩
  | false =>
    obtain ⟨conn', deleted, shared', new, hprocess, hadds⟩ :=
      processHttpRequest_spec hstore (hplain hub rfl)
    refine ⟨⟨Function.update hub.conns c.client conn', Function.update hub.deleted c.client deleted,
      shared'⟩, by simp [Hub.next, Hub.call, hdeleted, hprocess], hadds.store, ?_⟩
    intro e he
    rw [hadds.log] at he
    rcases List.mem_append.mp he with he | he
    · exact hlog e he
    · exact hadds.genuine e he

end FramingLemmas

open FramingLemmas

theorem framed_iff_fresh (clock : Clock) (capacity : UInt64) (site : Site) (calls : List Call)
    (hplain : Along (Hub.next clock site) (Hub.AsksPlain site) (some (Hub.new clock capacity)) calls) :
    Always (Hub.next clock site)
      (fun o => ∃ hub, o = some hub ∧
        ((∀ e ∈ hub.shared.log, e.GetOk → e.Framed) ↔ ∀ e ∈ hub.shared.log, e.Fresh site))
      (some (Hub.new clock capacity)) calls := by
  have hnew : Recorded clock capacity.toNat site (some (Hub.new clock capacity)) :=
    ⟨_, rfl, ⟨_, FragmentationLemmas.holds_of_reachable ⟨[], rfl⟩⟩,
      fun _ he => absurd he List.not_mem_nil⟩
  have hall : Always (Hub.next clock site) (Recorded clock capacity.toNat site)
      (some (Hub.new clock capacity)) calls :=
    always_of_along (fun _ _ ho hc => next_recorded ho hc) hnew hplain
  refine hall.mono ?_
  rintro - ⟨hub, rfl, -, hlog⟩
  exact ⟨hub, rfl, forall₂_congr fun e he => framed_iff (hlog e he)⟩

theorem asksPlain_of_plain {site : Site} (h : ∀ n r, site.Plain (site.disk n) r) (o : Option Hub)
    (c : Call) : Hub.AsksPlain site o c :=
  fun _ _ r _ n => h n r

/-- A page that is longer when it is asked for the second time. -/
def growingSite : Site where
  servingDirectory := bytes "/srv"
  threadId := bytes "1"
  cgi _ _ := some .forkFailed
  disk n path :=
    if path = bytes "/srv/index.html" then .regular (if n = 0 then bytes "aa" else bytes "bbb")
    else .absent

/-- Two clients ask for the page, one after the other. -/
def twoVisits : List Call :=
  [⟨0, [.received (bytes "GET / HTTP/1.1\r\n\r\n")], []⟩,
    ⟨1, [.received (bytes "GET / HTTP/1.1\r\n\r\n")], []⟩]

theorem growingSite_plain (n : ℕ) (requestStr : Bytes) :
    growingSite.Plain (growingSite.disk n) requestStr := by
  refine StreamLemmas.plain_of_forall (fun path => ?_) (fun _ _ => rfl) requestStr
  unfold growingSite
  dsimp only
  split <;> exact ⟨True.intro, id⟩

/-- The second client is told to read three bytes and gets the two that were cached. -/
theorem stale_content_length :
    Along (Hub.next (Clock.upTo 1000 (by decide)) growingSite) (Hub.AsksPlain growingSite)
      (some (Hub.new (Clock.upTo 1000 (by decide)) 64)) twoVisits ∧
    (run (Hub.next (Clock.upTo 1000 (by decide)) growingSite)
      (some (Hub.new (Clock.upTo 1000 (by decide)) 64)) twoVisits).map
        (fun hub => hub.shared.log.map fun e => (e.response.contentLength, e.body)) =
      some [(some (bytes "2"), bytes "aa"), (some (bytes "3"), bytes "aa")] ∧
    ¬ Always (Hub.next (Clock.upTo 1000 (by decide)) growingSite)
      (fun o => ∀ hub ∈ o, ∀ e ∈ hub.shared.log, e.GetOk → e.Framed)
      (some (Hub.new (Clock.upTo 1000 (by decide)) 64)) twoVisits := by
  refine ⟨Along.of_forall (asksPlain_of_plain growingSite_plain) _ _, by decide, by decide⟩

theorem smallSite_framed_iff_fresh :
    Always (Hub.next (Clock.upTo 1000 (by decide)) smallSite)
      (fun o => ∃ hub, o = some hub ∧
        ((∀ e ∈ hub.shared.log, e.GetOk → e.Framed) ↔ ∀ e ∈ hub.shared.log, e.Fresh smallSite))
      (some (Hub.new (Clock.upTo 1000 (by decide)) 64)) twoVisits :=
  framed_iff_fresh _ 64 smallSite twoVisits
    (Along.of_forall (asksPlain_of_plain smallSite_plain) _ _)

end TurtleServer.Http
