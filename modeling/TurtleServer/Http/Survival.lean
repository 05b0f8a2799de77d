import TurtleServer.Http.Exchanges

/-!
# Requests that bring the server down

`IsFileExists`, `CheckFileSize` and `LoadFile` are `noexcept` and call functions of `std::filesystem`
that throw. `exists` throws where the status of a path cannot be told, and `file_size` throws where
the path is not a regular file; `IsFileExists` lets a directory pass. `LoadFile` asserts that the file
could be opened, which nobody has looked at before. And a program that cannot be executed is not
noticed either: its `Run` never returns.

* `Site.Answerable`: nothing of this happens.
* `answer_eq_none_iff`: one request.
* `request_survives_iff`: `ProcessHttpRequest` sends one response to a valid request exactly when the
  request is answerable.
-/

namespace TurtleServer.Http

open Lib

/-- What the request meets on the disk, in the cache and in a program lets the server answer it.

* `told`: the status of the path looked up can be told.
* `returns`: a program that is run comes to its end.
* `sized`: a static resource is not a directory or a device.
* `opens`: it can be opened when its content is asked for, unless that is in the cache. -/
structure Site.Answerable (site : Site) (disk : FileSystem) (cache : Cache) (requestStr : Bytes) :
    Prop where
  told : disk (site.target requestStr) ≠ .inaccessible
  returns : site.Runs disk requestStr → site.Returns requestStr
  sized : isCgiRequest (site.path requestStr) = false → disk (site.path requestStr) ≠ .other
  opens : isCgiRequest (site.path requestStr) = false → (Request.parse requestStr).method = .get →
    (disk (site.path requestStr)).Sealed →
    site.path requestStr ∈ cache.entries.map Prod.fst

instance (site : Site) (disk : FileSystem) (cache : Cache) (requestStr : Bytes) :
    Decidable (site.Answerable disk cache requestStr) :=
  decidable_of_iff (_ ∧ _ ∧ _ ∧ _) ⟨fun h => ⟨h.1, h.2.1, h.2.2.1, h.2.2.2⟩,
    fun h => ⟨h.told, h.returns, h.sized, h.opens⟩⟩

namespace SurvivalLemmas

open StreamLemmas FragmentationLemmas ExchangeLemmas

variable {clock : Clock} {capacity : ℕ} {site : Site} {disk : FileSystem} {requestStr : Bytes}
  {l : List (Bytes × Bytes)} {cache : Cache}

/-! ### The body of a static resource -/

/-- A file that cannot be opened is sent only from the cache. -/
theorem cachedFetch_sealed {path : Bytes} {size : ℕ} (hstore : Holds clock capacity cache l)
    (hdisk : disk path = .unreadable size) :
    cachedFetch clock disk cache path = none ↔ path ∉ cache.entries.map Prod.fst := by
  have hlru : lruFetch capacity disk l path = none ↔ path ∉ l.map Prod.fst := by
    rw [← Lru.load_isSome_iff, lruFetch]
    cases Lru.load l path with
    | mk data l' =>
      cases data with
      | none => simp [FileSystem.loadFile_unreadable hdisk]
      | some content => simp
  rw [entries_of_holds hstore, ← hlru]
  rcases cachedFetch_simulates disk cache l path hstore with
    ⟨hnone, hnone'⟩ | ⟨body, cache', l', hsome, hsome', -⟩
  · exact iff_of_true hnone hnone'
  · exact iff_of_false (by simp [hsome]) (by simp [hsome'])

theorem cachedFetch_regular {path content : Bytes} (hstore : Holds clock capacity cache l)
    (hdisk : disk path = .regular content) : cachedFetch clock disk cache path ≠ none := by
  intro hnone
  obtain ⟨r, hr⟩ : ∃ r, lruFetch capacity disk l path = some r := lruFetch_regular hdisk l
  rcases cachedFetch_simulates disk cache l path hstore with ⟨-, hnone'⟩ | ⟨_, _, _, hsome, -⟩
  · cases hnone'.symm.trans hr
  · cases hnone.symm.trans hsome

/-- The body of a static resource, when the size of the file can be told. -/
theorem fetch_eq_none_iff {path : Bytes} (hstore : Holds clock capacity cache l) {size : ℕ}
    (hsize : disk.checkFileSize path = some size) :
    cachedFetch clock disk cache path = none ↔
      (disk path).Sealed ∧ path ∉ cache.entries.map Prod.fst := by
  cases hdisk : disk path with
  | regular content => exact iff_of_false (cachedFetch_regular hstore hdisk) And.left
  | unreadable size =>
    rw [cachedFetch_sealed hstore hdisk]
    exact (and_iff_right True.intro).symm
  | _ => simp [FileSystem.checkFileSize, hdisk] at hsize

/-! ### What is answerable -/

theorem answerable_of_absent (hdisk : disk (site.target requestStr) = .absent) :
    site.Answerable disk cache requestStr where
  told := by
    rw [hdisk]
    exact FileStatus.noConfusion
  returns := by
    rintro ⟨hcgi, hpresent⟩
    exact absurd (target_of_cgi hcgi ▸ hdisk) hpresent
  sized := by
    intro hcgi
    rw [← target_of_static hcgi, hdisk]
    exact FileStatus.noConfusion
  opens := by
    intro hcgi _
    rw [← target_of_static hcgi, hdisk]
    exact False.elim

theorem answerable_cgi_iff (hcgi : isCgiRequest (site.path requestStr) = true)
    (hpresent : disk (site.program requestStr) ≠ .absent)
    (htold : disk (site.program requestStr) ≠ .inaccessible) :
    site.Answerable disk cache requestStr ↔ site.Returns requestStr := by
  constructor
  · exact fun h => h.returns ⟨hcgi, hpresent⟩
  · intro hreturns
    refine ⟨target_of_cgi hcgi ▸ htold, fun _ => hreturns, fun hstatic => ?_, fun hstatic => ?_⟩
    all_goals exact absurd (hcgi.symm.trans hstatic) Bool.noConfusion

theorem answerable_static_iff (hcgi : isCgiRequest (site.path requestStr) = false)
    (htold : disk (site.path requestStr) ≠ .inaccessible) :
    site.Answerable disk cache requestStr ↔
      disk (site.path requestStr) ≠ .other ∧
        ((Request.parse requestStr).method = .get → (disk (site.path requestStr)).Sealed →
          site.path requestStr ∈ cache.entries.map Prod.fst) := by
  constructor
  · exact fun h => ⟨h.sized hcgi, h.opens hcgi⟩
  · rintro ⟨hsized, hopens⟩
    refine ⟨target_of_static hcgi ▸ htold, fun hruns => ?_, fun _ => hsized, fun _ => hopens⟩
    exact absurd (hruns.1.symm.trans hcgi) Bool.noConfusion

/-! ### One request, whatever it names -/

theorem answer_eq_none_iff (site : Site) (disk : FileSystem) (hstore : Holds clock capacity cache l)
    (hvalid : (Request.parse requestStr).isValid = true) :
    answer (cachedFetch clock) site disk cache requestStr = none ↔
      ¬ site.Answerable disk cache requestStr := by
  have hcourse := begin_cases site disk requestStr
  rw [answer]
  generalize beginRequest site disk requestStr = o at hcourse ⊢
  cases hcourse with
  | badRequest hinvalid => cases hvalid.symm.trans hinvalid
  | notFound _ hdisk =>
    exact iff_of_false (Option.some_ne_none _) (not_not_intro (answerable_of_absent hdisk))
  | untold _ hdisk => exact iff_of_true rfl fun h => h.told hdisk
  | cgi _ hcgi hpresent htold =>
    rw [answerable_cgi_iff hcgi hpresent htold, Site.Returns]
    cases site.runCgi (Cgier.parseCgier (site.path requestStr)) with
    | none => simp
    | some cgiResult => simp [finishRequest]
  | static _ hcgi hpresent htold =>
    rw [answerable_static_iff hcgi htold]
    cases hsize : disk.checkFileSize (site.path requestStr) with
    | none =>
      have hother : disk (site.path requestStr) = .other := by
        cases hdisk : disk (site.path requestStr) with
        | other => rfl
        | absent => exact absurd hdisk hpresent
        | inaccessible => exact absurd hdisk htold
        | _ => simp [FileSystem.checkFileSize, hdisk] at hsize
      exact iff_of_true rfl fun h => h.1 hother
    | some size =>
      have hsized : disk (site.path requestStr) ≠ .other := by
        intro hother
        simp [FileSystem.checkFileSize, hother] at hsize
      have hfetch := fetch_eq_none_iff hstore hsize
      by_cases hmethod : (Request.parse requestStr).method = .get
      · cases hbody : cachedFetch clock disk cache (site.path requestStr) with
        | none =>
          obtain ⟨hsealed, hmissing⟩ := hfetch.mp hbody
          refine iff_of_true ?_ fun h => hmissing (h.2 hmethod hsealed)
          simp [finishRequest, hmethod, hbody]
        | some r =>
          refine iff_of_false (by simp [finishRequest, hmethod, hbody]) (not_not_intro ⟨hsized, ?_⟩)
          intro _ hsealed
          by_contra hmissing
          exact Option.some_ne_none r (hbody.symm.trans (hfetch.mpr ⟨hsealed, hmissing⟩))
      · simp [finishRequest, hmethod, hsized]

/-! ### The loop -/

/-- Nothing more is found in a read buffer without a complete request. -/
theorem findAndPopTill_of_requestsIn {conn : Connection} (h : requestsIn conn.readBuffer.buf = []) :
    conn.findAndPopTill (crlf ++ crlf) = none := by
  cases hpop : conn.findAndPopTill (crlf ++ crlf) with
  | none => rfl
  | some r =>
    obtain ⟨hrequests, -⟩ := findAndPopTill_eq_some hpop
    rw [h] at hrequests
    cases hrequests

/-- The loop over a read buffer that holds one complete request. -/
theorem serveLoop_single (clock : Clock) (site : Site) {conn : Connection} (shared : Shared Cache)
    {bound : ℕ} (hbound : conn.readBuffer.buf.length ≤ bound)
    (hrequest : requestsIn conn.readBuffer.buf = [requestStr]) :
    ∃ conn₁ : Connection, conn₁.socket = conn.socket ∧ conn₁.writeBuffer = conn.writeBuffer ∧
      serveLoop (cachedFetch clock) site bound conn shared =
        (answer (cachedFetch clock) site (site.disk shared.log.length) shared.store requestStr).map
          fun r =>
            ((conn₁.writeToWriteBuffer (shared.exchange requestStr r.1 r.2.1).responseBuf).send,
              r.2.2.1, ⟨r.2.2.2, shared.log ++ [shared.exchange requestStr r.1 r.2.1]⟩) := by
  cases hpop : conn.findAndPopTill (crlf ++ crlf) with
  | none =>
    rw [(findAndPopTill_eq_none hpop).1] at hrequest
    cases hrequest
  | some popped =>
    obtain ⟨found, conn₁⟩ := popped
    obtain ⟨hrequests, -, hlength, hsocket, hwrite⟩ := findAndPopTill_eq_some hpop
    obtain ⟨bound, rfl⟩ : ∃ n, bound = n + 1 := ⟨bound - 1, by omega⟩
    rw [hrequest] at hrequests
    obtain ⟨rfl, hnil⟩ := List.cons_eq_cons.mp hrequests
    refine ⟨conn₁, hsocket, hwrite, ?_⟩
    cases hanswer : answer (cachedFetch clock) site (site.disk shared.log.length) shared.store
        requestStr with
    | none =>
      rw [serveLoop_stuck hpop hanswer]
      rfl
    | some r =>
      obtain ⟨response, body, noMoreParse, cache⟩ := r
      rw [serveLoop_some hpop hanswer]
      cases noMoreParse with
      | true => rfl
      | false => exact serveLoop_none (findAndPopTill_of_requestsIn hnil.symm)

end SurvivalLemmas

open SurvivalLemmas FragmentationLemmas ExchangeLemmas

/-- `ProcessHttpRequest` comes to its end, and has handed one response to `Send`, the one to
`requestStr`. -/
def RespondsOnce (clock : Clock) (site : Site) (conn : Connection) (event : Event)
    (shared : Shared Cache) (requestStr : Bytes) : Prop :=
  ∃ conn' deleted shared' e,
    processHttpRequest (cachedFetch clock) site (event.arrive conn) shared =
      some (conn', deleted, shared') ∧
    shared'.log = shared.log ++ [e] ∧ e.requestStr = requestStr ∧
    conn'.socket.delivered = conn.socket.delivered ++
      (Connection.sendLoop event.outgoing (conn.writeBuffer.buf ++ e.responseBuf)).1

/-- A valid request gets its one response exactly when it is answerable. -/
theorem request_survives_iff (clock : Clock) (capacity : UInt64) (site : Site) (conn : Connection)
    (event : Event) (shared : Shared Cache) (requestStr : Bytes)
    (hcache : shared.store.Reachable clock capacity)
    (hopen : (event.arrive conn).recv.2.1 = false)
    (hrequest : pendingRequests conn event = [requestStr])
    (hvalid : (Request.parse requestStr).isValid = true) :
    RespondsOnce clock site conn event shared requestStr ↔
      site.Answerable (site.disk shared.log.length) shared.store requestStr := by
  have hnone := answer_eq_none_iff site (site.disk shared.log.length) (holds_of_reachable hcache) hvalid
  obtain ⟨conn₁, hprocess, hpending, hwrite, houtgoing, hdelivered⟩ := process_of_open hopen
  obtain ⟨conn₂, hsocket₂, hwrite₂, hloop⟩ :=
    serveLoop_single clock site shared (le_refl _) (hpending.symm.trans hrequest)
  unfold RespondsOnce
  rw [hprocess, hloop]
  cases hanswer : answer (cachedFetch clock) site (site.disk shared.log.length) shared.store
      requestStr with
  | none =>
    refine iff_of_false ?_ (hnone.mp hanswer)
    rintro ⟨conn', deleted, shared', e, hsome, -⟩
    cases hsome
  | some r =>
    refine iff_of_true ⟨_, _, _, _, rfl, rfl, rfl, ?_⟩ ?_
    · show conn₂.socket.delivered ++ (Connection.sendLoop conn₂.socket.outgoing
        (conn₂.writeBuffer.buf ++ _)).1 = _
      rw [hsocket₂, hwrite₂, hdelivered, houtgoing, hwrite]
    · by_contra hnot
      rw [hnone.mpr hnot] at hanswer
      cases hanswer

/-- A directory `/srv/docs` beside the files of `smallSite`. -/
def directorySite : Site :=
  { smallSite with
    disk := fun n path => if path = bytes "/srv/docs" then .other else smallSite.disk n path }

/-- A client asks for the directory. -/
def asksDirectory : Event := ⟨[.received (bytes "GET /docs HTTP/1.1\r\n\r\n")], []⟩

/-- A client asks for a page. -/
def asksPage : Event := ⟨[.received (bytes "GET / HTTP/1.1\r\n\r\n")], []⟩

theorem asksPage_survives_iff :
    RespondsOnce (.upTo 9 (by decide)) directorySite .fresh asksPage
        ⟨.new (.upTo 9 (by decide)) 8, []⟩ (bytes "GET / HTTP/1.1\r\n\r\n") ↔
      directorySite.Answerable (directorySite.disk 0) (.new (.upTo 9 (by decide)) 8)
        (bytes "GET / HTTP/1.1\r\n\r\n") :=
  request_survives_iff _ 8 directorySite .fresh asksPage ⟨_, []⟩ _ ⟨[], rfl⟩ (by decide) (by decide)
    (by decide)

/-- `file_size` throws inside a `noexcept` function, and no response is sent. -/
theorem directory_ends_process :
    pendingRequests .fresh asksDirectory = [bytes "GET /docs HTTP/1.1\r\n\r\n"] ∧
      (Request.parse (bytes "GET /docs HTTP/1.1\r\n\r\n")).isValid = true ∧
      processHttpRequest (cachedFetch (.upTo 9 (by decide))) directorySite
        (asksDirectory.arrive .fresh) ⟨.new (.upTo 9 (by decide)) 8, []⟩ = none ∧
      ¬ RespondsOnce (.upTo 9 (by decide)) directorySite .fresh asksDirectory
        ⟨.new (.upTo 9 (by decide)) 8, []⟩ (bytes "GET /docs HTTP/1.1\r\n\r\n") := by
  have hends : processHttpRequest (cachedFetch (.upTo 9 (by decide))) directorySite
      (asksDirectory.arrive .fresh) ⟨.new (.upTo 9 (by decide)) 8, []⟩ = none := by rfl
  refine ⟨by decide, by decide, hends, ?_⟩
  rintro ⟨conn', deleted, shared', e, hsome, -⟩
  rw [hends] at hsome
  cases hsome

end TurtleServer.Http
