import TurtleServer.Core.CacheRefinement
import TurtleServer.Http.Stream

/-!
# Answers do not depend on how the bytes arrive

TCP cuts the bytes that a client sends in any way it likes: the cuts may fall inside the terminator of
a request, several requests may come with one event, and `recv` may be interrupted. By
`serveEvents_eq_serveAll` the server answers the requests in the stream, however it is cut. What is
left is the cache, whose nodes carry time stamps: `lruFetch` is the cache as the list it stands for
(`cachedFetch_simulates`), and lists can be compared.

* `fragmentation_irrelevant`: two ways of cutting a stream lead to the same outcome.
-/

namespace TurtleServer.Http

open Lib

/-! ## 1. The cache as a list -/

/-- The content of a resource by way of a least-recently-used list of contents. -/
def lruFetch (capacity : ℕ) : Fetch (List (Bytes × Bytes)) := fun disk l resourceFullPath =>
  match Lru.load l resourceFullPath with
  | (some content, l) => some (content, l)
  | (none, _) => do
    let cacheBuf ← disk.loadFile resourceFullPath []
    return (cacheBuf, (Lru.insert List.length capacity l resourceFullPath cacheBuf).2)

/-- Whatever one way of fetching gives, the other gives too, and the stores stay related. -/
def Simulates {σ τ : Type} (R : σ → τ → Prop) (fetch : Fetch σ) (fetch' : Fetch τ) : Prop :=
  ∀ disk s t path, R s t →
    (fetch disk s path = none ∧ fetch' disk t path = none) ∨
    ∃ body s' t', fetch disk s path = some (body, s') ∧ fetch' disk t path = some (body, t') ∧ R s' t'

/-- A cache and the list of its entries. -/
def Holds (clock : Clock) (capacity : ℕ) (c : Cache) (l : List (Bytes × Bytes)) : Prop :=
  c.capacity = capacity ∧ ∃ es, Cache.Rep clock c es ∧ es.map Cache.pair = l

namespace FragmentationLemmas

open StreamLemmas Cache.RefinementLemmas

variable {clock : Clock} {capacity : ℕ} {site : Site}

theorem entries_of_holds {c : Cache} {l : List (Bytes × Bytes)} (h : Holds clock capacity c l) :
    c.entries = l := by
  obtain ⟨-, es, hrep, rfl⟩ := h
  exact Cache.entries_of_rep hrep

theorem cachedFetch_simulates :
    Simulates (Holds clock capacity) (cachedFetch clock) (lruFetch capacity) := by
  rintro disk c - path ⟨hcap, es, hrep, rfl⟩
  obtain ⟨c', es', hc', hcap', hrep', hes'⟩ := tryLoad_refines hrep path []
  unfold lruFetch
  cases hload : Lru.load (es.map Cache.pair) path with
  | mk data l =>
    rw [hload] at hc' hes'
    cases data with
    | some content =>
      refine .inr ⟨content, c', l, ?_, rfl, hcap'.trans hcap, es', hrep', hes'⟩
      simp [cachedFetch, hc']
    | none =>
      have hsame : l = es.map Cache.pair :=
        congrArg Prod.snd (hload.symm.trans (Lru.load_of_eq_none (congrArg Prod.fst hload)))
      subst hsame
      cases hfile : disk.loadFile path [] with
      | none => exact .inl ⟨by simp [cachedFetch, hc', hfile], rfl⟩
      | some content =>
        obtain ⟨c'', es'', hc'', hcap'', hrep'', hes''⟩ := tryInsert_refines hrep' path content
        refine .inr ⟨content, c'', _, ?_, rfl, hcap''.trans (hcap'.trans hcap), es'', hrep'', ?_⟩
        · simp [cachedFetch, hc', hfile, hc'']
        · rw [hes'', hes', hcap', hcap]

variable {σ τ : Type} {R : σ → τ → Prop} {fetch : Fetch σ} {fetch' : Fetch τ}

theorem answer_simulates (hsim : Simulates R fetch fetch') (site : Site) (disk : FileSystem) {s : σ}
    {t : τ} (hR : R s t) (requestStr : Bytes) :
    (answer fetch site disk s requestStr = none ∧ answer fetch' site disk t requestStr = none) ∨
    ∃ response body noMoreParse s' t',
      answer fetch site disk s requestStr = some (response, body, noMoreParse, s') ∧
      answer fetch' site disk t requestStr = some (response, body, noMoreParse, t') ∧ R s' t' := by
  simp only [answer]
  cases beginRequest site disk requestStr with
  | none => exact .inl ⟨rfl, rfl⟩
  | some pending =>
    cases pending with
    | ready response body noMoreParse =>
      exact .inr ⟨response, body, noMoreParse, s, t, rfl, rfl, hR⟩
    | resource response noMoreParse path =>
      rcases hsim disk s t path hR with ⟨h, h'⟩ | ⟨body, s', t', h, h', hR'⟩
      · exact .inl ⟨by simp [finishRequest, h], by simp [finishRequest, h']⟩
      · exact .inr ⟨response, body, noMoreParse, s', t', by simp [finishRequest, h],
          by simp [finishRequest, h'], hR'⟩

theorem serveAll_simulates (hsim : Simulates R fetch fetch') (requests : List Bytes)
    (shared : Shared σ) (shared' : Shared τ) (hR : R shared.store shared'.store)
    (hlog : shared.log.length = shared'.log.length) :
    (serveAll fetch site requests shared = none ∧ serveAll fetch' site requests shared' = none) ∨
    ∃ sent closed s s', serveAll fetch site requests shared = some (sent, closed, s) ∧
      serveAll fetch' site requests shared' = some (sent, closed, s') ∧ R s.store s'.store := by
  induction requests generalizing shared shared' with
  | nil => exact .inr ⟨[], false, shared, shared', rfl, rfl, hR⟩
  | cons requestStr requests ih =>
    rcases answer_simulates hsim site (site.disk shared.log.length) hR requestStr with
      ⟨h, h'⟩ | ⟨response, body, noMoreParse, s, s', h, h', hR'⟩
    · rw [hlog] at h'
      exact .inl ⟨serveAll_cons_none h, serveAll_cons_none h'⟩
    · rw [hlog] at h'
      cases noMoreParse with
      | true => exact .inr ⟨_, true, _, _, serveAll_cons_last h, serveAll_cons_last h', hR'⟩
      | false =>
        rw [serveAll_cons_more h, serveAll_cons_more h']
        have hlog' : (shared.log ++ [shared.exchange requestStr response body]).length =
            (shared'.log ++ [shared'.exchange requestStr response body]).length := by
          simp [hlog]
        rcases ih ⟨s, _⟩ ⟨s', _⟩ hR' hlog' with ⟨hn, hn'⟩ | ⟨sent, closed, u, u', hs, hs', hu⟩
        · rw [hn, hn']
          exact .inl ⟨rfl, rfl⟩
        · rw [hs, hs']
          exact .inr ⟨_, closed, u, u', rfl, rfl, hu⟩

theorem lruFetch_regular {disk : FileSystem} {path content : Bytes}
    (h : disk path = .regular content) (l : List (Bytes × Bytes)) :
    ∃ r, lruFetch capacity disk l path = some r := by
  unfold lruFetch
  rw [FileSystem.loadFile_regular h]
  cases Lru.load l path with
  | mk data l' =>
    cases data with
    | none => exact ⟨_, rfl⟩
    | some data => exact ⟨_, rfl⟩

theorem answer_total (capacity : ℕ) {disk : FileSystem} {requestStr : Bytes}
    (h : site.Plain disk requestStr) (l : List (Bytes × Bytes)) :
    ∃ response body noMoreParse l', answer (lruFetch capacity) site disk l requestStr =
      some (response, body, noMoreParse, l') :=
  answer_of_plain (fun _ _ hdisk => lruFetch_regular hdisk l) h

theorem serveAll_total {requests : List Bytes}
    (h : ∀ r ∈ requests, ∀ n, site.Plain (site.disk n) r)
    (shared : Shared (List (Bytes × Bytes))) :
    ∃ r, serveAll (lruFetch capacity) site requests shared = some r := by
  induction requests generalizing shared with
  | nil => exact ⟨_, rfl⟩
  | cons requestStr requests ih =>
    obtain ⟨hr, hrest⟩ := List.forall_mem_cons.mp h
    obtain ⟨response, body, noMoreParse, l, hanswer⟩ :=
      answer_total capacity (hr shared.log.length) shared.store
    cases noMoreParse with
    | true => exact ⟨_, serveAll_cons_last hanswer⟩
    | false =>
      obtain ⟨r, hr⟩ := ih hrest ⟨l, shared.log ++ [shared.exchange requestStr response body]⟩
      rw [serveAll_cons_more hanswer, hr]
      exact ⟨_, rfl⟩

end FragmentationLemmas

open FragmentationLemmas

/-! ## 2. The outcome of a connection -/

/-- What a connection leaves behind: the bytes sent, the entries of the cache, whether it was deleted,
and the read buffer if it was not. -/
structure Outcome where
  delivered : Bytes
  entries : List (Bytes × Bytes)
  deleted : Bool
  remaining : Option Bytes
deriving DecidableEq, Repr

/-- `ProcessHttpRequest` for each event on a fresh connection. -/
def outcome (clock : Clock) (site : Site) (cache : Cache) (events : List Event) : Option Outcome :=
  (serveEvents (cachedFetch clock) site events .fresh ⟨cache, []⟩).map fun (conn, deleted, shared) =>
    { delivered := conn.socket.delivered
      entries := shared.store.entries
      deleted
      remaining := if deleted then none else some conn.readBuffer.buf }

namespace FragmentationLemmas

/-- The outcome in terms of the stream and the cached entries alone. -/
theorem outcome_eq_serveAll {clock : Clock} {capacity : ℕ} {site : Site} {cache : Cache}
    {l : List (Bytes × Bytes)} {events : List Event} (hcache : Holds clock capacity cache l)
    (hclean : ∀ e ∈ events, e.Clean) :
    outcome clock site cache events =
      (serveAll (lruFetch capacity) site (requestsIn (arriving events)) ⟨l, []⟩).map
        fun (sent, closed, shared) =>
          { delivered := sent
            entries := shared.store
            deleted := closed
            remaining := if closed then none else some (leftOver (arriving events)) } := by
  have hview : (serveEvents (cachedFetch clock) site events .fresh ⟨cache, []⟩).map view =
      (serveAll (cachedFetch clock) site (requestsIn (arriving events)) ⟨cache, []⟩).map
        (viewAll [] (leftOver (arriving events))) :=
    serveEvents_eq_serveAll hclean rfl rfl
  have houtcome : outcome clock site cache events =
      ((serveEvents (cachedFetch clock) site events .fresh ⟨cache, []⟩).map view).map
        fun (delivered, remaining, shared) =>
          ⟨delivered, shared.store.entries, remaining.isNone, remaining⟩ := by
    rw [outcome, Option.map_map]
    congr 1
    funext ⟨conn, deleted, shared⟩
    cases deleted <;> rfl
  rw [houtcome, hview, Option.map_map]
  rcases serveAll_simulates cachedFetch_simulates (requestsIn (arriving events)) ⟨cache, []⟩ ⟨l, []⟩
    hcache rfl with ⟨hn, hn'⟩ | ⟨sent, closed, s, s', hs, hs', hholds⟩
  · rw [hn, hn']
    rfl
  · have hstore : s.store.entries = s'.store := entries_of_holds hholds
    rw [hs, hs']
    cases closed <;> simp [viewAll, hstore]

theorem holds_of_reachable {clock : Clock} {capacity : UInt64} {cache : Cache}
    (h : cache.Reachable clock capacity) : Holds clock capacity.toNat cache cache.entries := by
  obtain ⟨hcap, es, hrep⟩ := Cache.rep_of_reachable h
  exact ⟨hcap, es, hrep, (Cache.entries_of_rep hrep).symm⟩

end FragmentationLemmas

/-- The requests of a stream, cut in two ways into events and chunks, have the same outcome. The caches
may be stamped by different clocks, as long as they hold the same entries in the same order. -/
theorem fragmentation_irrelevant (clock₁ clock₂ : Clock) (capacity : UInt64) (site : Site)
    (cache₁ cache₂ : Cache) (hcache₁ : cache₁.Reachable clock₁ capacity)
    (hcache₂ : cache₂.Reachable clock₂ capacity) (hentries : cache₁.entries = cache₂.entries)
    (events₁ events₂ : List Event) (hclean₁ : ∀ e ∈ events₁, e.Clean)
    (hclean₂ : ∀ e ∈ events₂, e.Clean) (hbytes : arriving events₁ = arriving events₂)
    (hplain : ∀ r ∈ requestsIn (arriving events₁), ∀ n, site.Plain (site.disk n) r) :
    ∃ o, outcome clock₁ site cache₁ events₁ = some o ∧
      outcome clock₂ site cache₂ events₂ = some o := by
  rw [outcome_eq_serveAll (holds_of_reachable hcache₁) hclean₁,
    outcome_eq_serveAll (holds_of_reachable hcache₂) hclean₂, ← hbytes, ← hentries]
  obtain ⟨r, hr⟩ := serveAll_total hplain ⟨cache₁.entries, []⟩
  rw [hr]
  exact ⟨_, rfl, rfl⟩

/-- A directory with one page and a CGI program that answers with its arguments. -/
def smallSite : Site where
  servingDirectory := bytes "/srv"
  threadId := bytes "1"
  cgi _ arguments := some (.finished arguments.flatten)
  disk _ path :=
    if path = bytes "/srv/index.html" then .regular (bytes "<p>")
    else if path = bytes "/srv/cgi-bin/echo" then .regular (bytes "#!")
    else .absent

/-- A stream with two requests, at once and in pieces that cut a terminator. -/
def atOnce : List Event :=
  [⟨[.received (bytes "GET / HTTP/1.1\r\nConnection:Keep-Alive\r\n\r\nGET /x HTTP/1.1\r\n\r\n")], []⟩]

def inPieces : List Event :=
  [⟨[.received (bytes "GET / HTTP/1.1\r\nConnection:Keep-Alive\r\n"), .failed .eintr,
      .received (bytes "\r")], [.accepted 5]⟩,
    ⟨[.received (bytes "\nGET /x HTTP/1.1\r\n\r\n")], [.failed .eagain]⟩]

theorem smallSite_plain (n : ℕ) (requestStr : Bytes) :
    smallSite.Plain (smallSite.disk n) requestStr := by
  refine StreamLemmas.plain_of_forall (fun path => ?_) (fun _ _ => rfl) requestStr
  unfold smallSite
  dsimp only
  split
  · exact ⟨True.intro, id⟩
  · split <;> exact ⟨True.intro, id⟩

theorem pieces_at_once : ∃ o,
    outcome (Clock.upTo 1000 (by decide)) smallSite (Cache.new (Clock.upTo 1000 (by decide)) 8) atOnce =
      some o ∧
    outcome (Clock.upTo 9 (by decide)) smallSite (Cache.new (Clock.upTo 9 (by decide)) 8) inPieces =
      some o :=
  fragmentation_irrelevant _ _ 8 smallSite _ _ ⟨[], rfl⟩ ⟨[], rfl⟩ (by decide) _ _ (by decide)
    (by decide) (by decide) fun r _ n => smallSite_plain n r

end TurtleServer.Http
