import TurtleServer.Http.Closing
import TurtleServer.Http.Survival

/-!
# Requests at the end of the stream

A client may close its sending side right after its last request, and the server may see the bytes and
the end of the file in one call of `Recv`. `Recv` puts the bytes into the read buffer and reports the
exit, and `ProcessHttpRequest` looks at the exit first: the requests among these bytes are never
answered (`last_request_dropped`).

* `AnswersAll`: the requests of the stream are answered, up to the first that closes.
* `end_of_stream_iff`: over all schedules, this is so exactly when the requests before that call of
  `Recv` are answerable, and the bytes that come together with the end of the file complete no request
  or come too late anyway.
-/

namespace TurtleServer.Http

open Lib

/-- The event at which the end of the file is seen, after `chunks` in the same call of `Recv`. -/
def Event.last (chunks rest : List RecvResult) (outgoing : List SendResult) : Event :=
  ⟨chunks ++ .received [] :: rest, outgoing⟩

/-- The requests up to and including the first that closes the connection. -/
def Site.due (site : Site) (disk : FileSystem) : List Bytes → List Bytes
  | [] => []
  | requestStr :: requests =>
    if site.closes disk requestStr then [requestStr] else requestStr :: due site disk requests

/-- The cache that a request leaves. -/
def Site.cacheAfter (clock : Clock) (site : Site) (disk : FileSystem) (cache : Cache)
    (requestStr : Bytes) : Cache :=
  match answer (cachedFetch clock) site disk cache requestStr with
  | some (_, _, _, cache) => cache
  | none => cache

/-- The valid ones among the requests due are answerable, each with the cache that it finds. -/
def Site.DueAnswerable (clock : Clock) (site : Site) (disk : FileSystem) (cache : Cache)
    (requests : List Bytes) : Prop :=
  Along (site.cacheAfter clock disk)
    (fun cache r => (Request.parse r).isValid = true → site.Answerable disk cache r) cache
    (site.due disk requests)

/-- The bytes sent to a fresh connection are the answers to the requests of `stream`, up to and
including the first one that closes the connection. -/
def AnswersAll (clock : Clock) (site : Site) (cache : Cache) (events : List Event) (stream : Bytes) :
    Prop :=
  ∃ o closed shared, outcome clock site cache events = some o ∧
    serveAll (cachedFetch clock) site (requestsIn stream) ⟨cache, []⟩ =
      some (o.delivered, closed, shared)

namespace EndOfStreamLemmas

open StreamLemmas FragmentationLemmas ExchangeLemmas SurvivalLemmas ClosingLemmas

variable {clock : Clock} {capacity : ℕ} {site : Site} {disk : FileSystem} {requestStr : Bytes}
  {l : List (Bytes × Bytes)} {cache : Cache} {requests : List Bytes}

theorem responseBuf_ne_nil {σ : Type} (e : Exchange σ) : e.responseBuf ≠ [] := by
  have hcrlf : crlf ≠ [] := by decide
  simp [Exchange.responseBuf, Response.serialize, hcrlf]

/-! ### One request, whatever it names -/

theorem answer_holds (hstore : Holds clock capacity cache l) {response : Response} {body : Bytes}
    {noMoreParse : Bool} {cache' : Cache}
    (hanswer : answer (cachedFetch clock) site disk cache requestStr =
      some (response, body, noMoreParse, cache')) :
    ∃ l', Holds clock capacity cache' l' := by
  rcases answer_simulates cachedFetch_simulates site disk hstore requestStr with
    ⟨hnone, -⟩ | ⟨_, _, _, _, l', hsome, -, hholds⟩
  · exact absurd (hnone.symm.trans hanswer) nofun
  · cases hsome.symm.trans hanswer
    exact ⟨l', hholds⟩

theorem answer_ends_iff (site : Site) (disk : FileSystem) (requestStr : Bytes)
    (hstore : Holds clock capacity cache l) :
    answer (cachedFetch clock) site disk cache requestStr = none ↔
      ¬ ((Request.parse requestStr).isValid = true → site.Answerable disk cache requestStr) := by
  cases hvalid : (Request.parse requestStr).isValid with
  | true => simpa using answer_eq_none_iff site disk hstore hvalid
  | false => simp [answer, begin_invalid hvalid, finishRequest]

/-! ### The requests of a stream -/

/-- The server goes on exactly when the requests that are due are answerable. -/
theorem serveAll_ends_iff (hdisk : ∀ n, site.disk n = site.disk 0) (requests : List Bytes)
    (shared : Shared Cache) (hstore : Holds clock capacity shared.store l) :
    serveAll (cachedFetch clock) site requests shared = none ↔
      ¬ site.DueAnswerable clock (site.disk 0) shared.store requests := by
  induction requests generalizing shared l with
  | nil => simp [serveAll, Site.DueAnswerable, Site.due, Along]
  | cons requestStr requests ih =>
    have hends := answer_ends_iff site (site.disk shared.log.length) requestStr hstore
    unfold Site.DueAnswerable Site.due
    cases hanswer : answer (cachedFetch clock) site (site.disk shared.log.length) shared.store
        requestStr with
    | none =>
      have hnot := hends.mp hanswer
      rw [hdisk] at hnot
      refine iff_of_true (serveAll_cons_none hanswer) fun hall => hnot ?_
      split at hall
      · exact hall.1
      · exact hall.1
    | some r =>
      obtain ⟨response, body, noMoreParse, cache'⟩ := r
      have hfirst := not_not.mp fun h =>
        Option.some_ne_none _ (hanswer.symm.trans (hends.mpr h))
      have hcloses := (answer_made hanswer).1
      rw [hdisk] at hfirst hcloses
      obtain ⟨l', hholds⟩ := answer_holds hstore hanswer
      have hcache : site.cacheAfter clock (site.disk 0) shared.store requestStr = cache' := by
        rw [Site.cacheAfter, ← hdisk shared.log.length, hanswer]
      rw [← hcloses]
      cases noMoreParse with
      | true =>
        rw [serveAll_cons_last hanswer]
        exact iff_of_false (Option.some_ne_none _) (not_not_intro ⟨hfirst, True.intro⟩)
      | false =>
        rw [serveAll_cons_more hanswer, Option.map_eq_none_iff, ih _ hholds, not_iff_not]
        constructor
        · exact fun h => ⟨hfirst, hcache.symm ▸ h⟩
        · exact fun h => hcache ▸ h.2

/-- What is known once the requests have been answered. -/
theorem serveAll_spec (hdisk : ∀ n, site.disk n = site.disk 0) {shared shared' : Shared Cache}
    {sent : Bytes} {closed : Bool}
    (hserve : serveAll (cachedFetch clock) site requests shared = some (sent, closed, shared')) :
    (sent = [] ↔ requests = []) ∧
      (closed = true ↔ ∃ r ∈ requests, site.closes (site.disk 0) r = true) := by
  induction requests generalizing shared sent with
  | nil =>
    cases hserve
    simp
  | cons requestStr requests ih =>
    cases hanswer : answer (cachedFetch clock) site (site.disk shared.log.length) shared.store
        requestStr with
    | none => exact absurd ((serveAll_cons_none hanswer).symm.trans hserve) nofun
    | some r =>
      obtain ⟨response, body, noMoreParse, cache'⟩ := r
      have hcloses := (answer_made hanswer).1
      rw [hdisk] at hcloses
      have hne := responseBuf_ne_nil (shared.exchange requestStr response body)
      cases noMoreParse with
      | true =>
        cases (serveAll_cons_last hanswer).symm.trans hserve
        exact ⟨by simp [hne], iff_of_true rfl ⟨requestStr, List.mem_cons_self, hcloses.symm⟩⟩
      | false =>
        rw [serveAll_cons_more hanswer] at hserve
        obtain ⟨⟨sent', closed', shared''⟩, hrest, heq⟩ := Option.map_eq_some_iff.mp hserve
        cases heq
        refine ⟨by simp [hne], ?_⟩
        rw [(ih hrest).2]
        simp [← hcloses]

/-! ### The end of the file -/

/-- What comes in the same call as the end of the file is not answered. -/
theorem outcome_last (clock : Clock) (site : Site) (cache : Cache) {earlier : List Event}
    {chunks : List RecvResult} (hearlier : ∀ e ∈ earlier, e.Clean) (hchunks : ∀ r ∈ chunks, r.Clean)
    (rest : List RecvResult) (outgoing : List SendResult) :
    (outcome clock site cache (earlier ++ [.last chunks rest outgoing])).map Outcome.delivered =
      (serveAll (cachedFetch clock) site (requestsIn (arriving earlier)) ⟨cache, []⟩).map Prod.fst := by
  have hview : (serveEvents (cachedFetch clock) site earlier .fresh ⟨cache, []⟩).map view =
      (serveAll (cachedFetch clock) site (requestsIn (arriving earlier)) ⟨cache, []⟩).map
        (viewAll [] (leftOver (arriving earlier))) :=
    serveEvents_eq_serveAll hearlier rfl rfl
  have hfst : (serveEvents (cachedFetch clock) site earlier .fresh ⟨cache, []⟩).map
        (fun r => r.1.socket.delivered) =
      (serveAll (cachedFetch clock) site (requestsIn (arriving earlier)) ⟨cache, []⟩).map Prod.fst := by
    simpa [Option.map_map, Function.comp_def, view, viewAll] using congrArg (Option.map Prod.fst) hview
  rw [← hfst]
  unfold outcome
  rw [serveEvents_append, Option.map_map]
  cases serveEvents (cachedFetch clock) site earlier .fresh ⟨cache, []⟩ with
  | none => rfl
  | some r =>
    obtain ⟨conn, deleted, shared⟩ := r
    cases deleted with
    | true => rfl
    | false =>
      have hexit : ((Event.last chunks rest outgoing).arrive conn).recv.2.1 = true :=
        Connection.recvLoop_eof hchunks rest 0 _
      obtain ⟨conn₁, hprocess, -, -, hdelivered⟩ := process_of_exit hexit
      simp only [Option.bind_some, serveEvents]
      rw [hprocess]
      exact congrArg some hdelivered

end EndOfStreamLemmas

open EndOfStreamLemmas StreamLemmas FragmentationLemmas

/-- A stream comes in any way, and then the end of the file, with `chunks` of the stream in the same
call of `Recv`. All requests are answered exactly when those before the chunks are answerable and the
chunks complete none, or an earlier one has closed the connection. -/
theorem end_of_stream_iff (clock : Clock) (capacity : UInt64) (site : Site) (cache : Cache)
    (hcache : cache.Reachable clock capacity) (hdisk : ∀ n, site.disk n = site.disk 0)
    (earlier : List Event) (hearlier : ∀ e ∈ earlier, e.Clean) (chunks rest : List RecvResult)
    (hchunks : ∀ r ∈ chunks, r.Clean) (outgoing : List SendResult) :
    AnswersAll clock site cache (earlier ++ [.last chunks rest outgoing])
        (arriving earlier ++ received chunks) ↔
      site.DueAnswerable clock (site.disk 0) cache (requestsIn (arriving earlier)) ∧
      (requestsIn (leftOver (arriving earlier) ++ received chunks) = [] ∨
        ∃ r ∈ requestsIn (arriving earlier), site.closes (site.disk 0) r = true) := by
  have hstore := holds_of_reachable hcache
  have hdelivered := outcome_last clock site cache hearlier hchunks rest outgoing
  have hends := serveAll_ends_iff hdisk (requestsIn (arriving earlier)) ⟨cache, []⟩ hstore
  unfold AnswersAll
  rw [(requestsIn_append (arriving earlier) (received chunks)).1, serveAll_append]
  cases hserve : serveAll (cachedFetch clock) site (requestsIn (arriving earlier)) ⟨cache, []⟩ with
  | none =>
    refine iff_of_false ?_ fun h => hends.mp hserve h.1
    rintro ⟨o, closed, shared, houtcome, -⟩
    rw [hserve, houtcome] at hdelivered
    cases hdelivered
  | some r =>
    obtain ⟨sent, closed, shared⟩ := r
    obtain ⟨-, hclosed⟩ := serveAll_spec hdisk hserve
    have hgoes := not_not.mp fun h =>
      Option.some_ne_none _ (hserve.symm.trans (hends.mpr h))
    rw [hserve, Option.map_some] at hdelivered
    obtain ⟨o, houtcome, rfl⟩ := Option.map_eq_some_iff.mp hdelivered
    rw [← hclosed, Option.bind_some]
    cases closed with
    | true => exact iff_of_true ⟨o, true, shared, houtcome, rfl⟩ ⟨hgoes, .inr rfl⟩
    | false =>
      refine ⟨?_, ?_⟩
      · -- what `serveAll` gives for the rest of the stream is empty
        rintro ⟨o', closed', shared', houtcome', hrest⟩
        obtain rfl : o = o' := Option.some.inj (houtcome.symm.trans houtcome')
        obtain ⟨⟨sent', closed'', shared''⟩, hsecond, heq⟩ := Option.map_eq_some_iff.mp hrest
        have hsent' : sent' = [] := List.append_right_eq_self.mp (congrArg Prod.fst heq)
        exact ⟨hgoes, .inl ((serveAll_spec hdisk hsecond).1.mp hsent')⟩
      · rintro ⟨-, hnil | hclose⟩
        · rw [hnil]
          exact ⟨o, false, shared, houtcome, by simp [serveAll]⟩
        · cases hclose

/-- The end of the file comes with an event of its own. -/
theorem page_then_eof :
    AnswersAll (.upTo 9 (by decide)) smallSite (.new (.upTo 9 (by decide)) 8)
        ([asksPage] ++ [.last [] [] []]) (arriving [asksPage] ++ received []) ↔
      smallSite.DueAnswerable (.upTo 9 (by decide)) (smallSite.disk 0) (.new (.upTo 9 (by decide)) 8)
        (requestsIn (arriving [asksPage])) ∧
      (requestsIn (leftOver (arriving [asksPage]) ++ received []) = [] ∨
        ∃ r ∈ requestsIn (arriving [asksPage]), smallSite.closes (smallSite.disk 0) r = true) :=
  end_of_stream_iff _ 8 smallSite _ ⟨[], rfl⟩ (fun _ => rfl) [asksPage] (by decide) [] [] (by decide) []

/-- The end of the file comes together with the request: nothing is sent, and the stream has an
answer. -/
theorem last_request_dropped :
    outcome (.upTo 9 (by decide)) smallSite (.new (.upTo 9 (by decide)) 8)
        [.last asksPage.incoming [] []] = some ⟨[], [], true, none⟩ ∧
      (smallSite.Plain (smallSite.disk 0) (bytes "GET / HTTP/1.1\r\n\r\n") ∧
        requestsIn (received asksPage.incoming) = [bytes "GET / HTTP/1.1\r\n\r\n"]) ∧
      ¬ AnswersAll (.upTo 9 (by decide)) smallSite (.new (.upTo 9 (by decide)) 8)
        [.last asksPage.incoming [] []] (received asksPage.incoming) := by
  have houtcome : outcome (.upTo 9 (by decide)) smallSite (.new (.upTo 9 (by decide)) 8)
      [.last asksPage.incoming [] []] = some ⟨[], [], true, none⟩ := by decide
  have hrequests : requestsIn (received asksPage.incoming) =
      [bytes "GET / HTTP/1.1\r\n\r\n"] := by decide
  refine ⟨houtcome, ⟨smallSite_plain 0 _, hrequests⟩, ?_⟩
  rintro ⟨o, closed, shared, ho, hserve⟩
  obtain rfl := Option.some.inj (houtcome.symm.trans ho)
  obtain ⟨hnil, -⟩ := serveAll_spec (fun _ => rfl) hserve
  rw [hrequests] at hnil
  cases hnil.mp rfl

end TurtleServer.Http
