import TurtleServer.Http.Framing

/-!
# HEAD requests

The answer to a HEAD request has to be a header block and nothing else, or the client takes what comes
after it for the next answer. `ProcessHttpRequest` looks at the method for static resources only, so
that a CGI program asked for by HEAD sends its output along:

* `head_block_iff`: the answer to a HEAD request is one header block exactly when the request does not
  run a CGI program that has output.
* `head_cgi_sends_body`: a pipelined run in which the client gets out of step.
-/

namespace TurtleServer.Http

open Lib Response

namespace Exchange

variable (site : Site) (e : Exchange Cache)

/-- A valid request with the method HEAD. -/
def IsHead : Prop :=
  (Request.parse e.requestStr).isValid = true ∧ (Request.parse e.requestStr).method = .head

instance : Decidable e.IsHead := inferInstanceAs (Decidable (_ ∧ _))

/-- The request names a CGI program that is there and has output. -/
def RunsCgi : Prop :=
  isCgiRequest (site.path e.requestStr) = true ∧
    site.disk e.number (site.program e.requestStr) ≠ .absent ∧ site.cgiResult e.requestStr ≠ []

/-- What is sent is one header block, whatever comes after it. -/
def IsBlock : Prop := ∀ next, headerBlock (e.responseBuf ++ next) = some (e.responseBuf, next)

end Exchange

namespace HeadLemmas

open FramingLemmas Response.BlockLemmas

variable {clock : Clock} {capacity : ℕ} {site : Site} {e : Exchange Cache}

/-- An answer with a tidy response is a header block when it has no body. -/
theorem isBlock_iff (h : e.response.Tidy) : e.IsBlock ↔ e.body = [] := by
  constructor
  · intro hblock
    have hnil := hblock []
    rw [List.append_nil, Exchange.responseBuf, headerBlock_serialize h] at hnil
    exact (Prod.mk.inj (Option.some.inj hnil)).2
  · intro hbody next
    rw [Exchange.responseBuf, hbody, List.append_nil]
    exact headerBlock_serialize h next

theorem isBlock_iff_of_head (h : Genuine clock capacity site e) (hhead : e.IsHead) :
    e.IsBlock ↔ ¬ e.RunsCgi site := by
  obtain ⟨pending, noMoreParse, store, hbegun, hfinish⟩ := genuine_begun h
  cases hbegun with
  | badRequest hinvalid => exact absurd (hinvalid.symm.trans hhead.1) Bool.false_ne_true
  | notFound hvalid hdisk =>
    obtain ⟨hresponse, hrest⟩ := Prod.mk.inj (Option.some.inj hfinish)
    obtain ⟨hbody, -⟩ := Prod.mk.inj hrest
    have htidy : e.response.Tidy := hresponse ▸ tidy_bare (by decide)
    refine iff_of_true ((isBlock_iff htidy).mpr hbody.symm) ?_
    rintro ⟨hcgi, hexists, -⟩
    rw [Site.target, hcgi, if_pos rfl] at hdisk
    exact hexists hdisk
  | cgi hvalid hcgi hpresent hreturns =>
    obtain ⟨hresponse, hrest⟩ := Prod.mk.inj (Option.some.inj hfinish)
    obtain ⟨hbody, -⟩ := Prod.mk.inj hrest
    have htidy : e.response.Tidy :=
      hresponse ▸ tidy_changeHeader (tidy_bare (by decide)) (not_mem_toDecimal _)
    rw [isBlock_iff htidy, ← hbody]
    constructor
    · intro hnil hruns
      exact hruns.2.2 hnil
    · intro hnot
      by_contra hne
      exact hnot ⟨hcgi, hpresent, hne⟩
  | noBody size hvalid hcgi hpresent hsize hmethod =>
    obtain ⟨hresponse, hrest⟩ := Prod.mk.inj (Option.some.inj hfinish)
    obtain ⟨hbody, -⟩ := Prod.mk.inj hrest
    have htidy : e.response.Tidy := hresponse ▸ tidy_ofResource (by decide) _ _
    refine iff_of_true ((isBlock_iff htidy).mpr hbody.symm) ?_
    rintro ⟨hcgi', -, -⟩
    exact absurd (hcgi.symm.trans hcgi') Bool.false_ne_true
  | resource content hvalid hcgi hdisk hmethod =>
    exact absurd (hhead.2.symm.trans hmethod) (by decide)

theorem statusLine_prefix_responseBuf (e : Exchange Cache) :
    e.response.statusLine ++ crlf <+: e.responseBuf := by
  rw [Exchange.responseBuf, serialize, List.nil_append, List.append_assoc, List.append_assoc]
  exact List.prefix_append _ _

end HeadLemmas

open HeadLemmas

theorem head_block_iff (clock : Clock) (capacity : UInt64) (site : Site) (shared : Shared Cache)
    (hcache : shared.store.Reachable clock capacity) (conn : Connection) (event : Event)
    (hplain : ∀ r ∈ pendingRequests conn event, ∀ n, site.Plain (site.disk n) r) :
    ∃ conn' deleted shared' new,
      processHttpRequest (cachedFetch clock) site (event.arrive conn) shared =
        some (conn', deleted, shared') ∧
      shared'.log = shared.log ++ new ∧
      new.map Exchange.requestStr <+: pendingRequests conn event ∧
      (conn.writeBuffer.buf = [] → (∀ r ∈ event.outgoing, r.Clean) →
        conn'.writeBuffer.buf = [] ∧
        conn'.socket.delivered = conn.socket.delivered ++ new.flatMap Exchange.responseBuf) ∧
      (∀ e ∈ new, e.response.statusLine ++ crlf <+: e.responseBuf) ∧
      ∀ e ∈ new, e.IsHead → (e.IsBlock ↔ ¬ e.RunsCgi site) := by
  obtain ⟨conn', deleted, shared', new, hprocess, hadds⟩ :=
    processHttpRequest_spec (FragmentationLemmas.holds_of_reachable hcache) hplain
  refine ⟨conn', deleted, shared', new, hprocess, hadds.log, hadds.requests, hadds.sent,
    fun e _ => statusLine_prefix_responseBuf e, ?_⟩
  exact fun e he hhead => isBlock_iff_of_head (hadds.genuine e he) hhead

/-- A HEAD request for a CGI program, and a GET request behind it. -/
def headThenGet : Event :=
  ⟨[.received (bytes "HEAD /cgi-bin/echo&hi HTTP/1.1\r\nConnection:Keep-Alive\r\n\r\n"),
    .received (bytes "GET / HTTP/1.1\r\n\r\n")], []⟩

/-- After the header block of the first answer, the client finds the output of the program where it
expects the status line of the second. -/
theorem head_cgi_sends_body :
    (processHttpRequest (cachedFetch (Clock.upTo 1000 (by decide))) smallSite
        (headThenGet.arrive .fresh) ⟨Cache.new (Clock.upTo 1000 (by decide)) 64, []⟩).map
        (fun r => (headerBlock r.1.socket.delivered).map fun b => b.2.take 10) =
      some (some (bytes "hiHTTP/1.1")) ∧
    ¬ ∀ r ∈ processHttpRequest (cachedFetch (Clock.upTo 1000 (by decide))) smallSite
        (headThenGet.arrive .fresh) ⟨Cache.new (Clock.upTo 1000 (by decide)) 64, []⟩,
      ∀ e ∈ r.2.2.log, e.IsHead → headerBlock e.responseBuf = some (e.responseBuf, []) := by
  decide

/-- The answers of `smallSite` to a HEAD request for a page. -/
theorem smallSite_head_block :
    ∃ conn' deleted shared' new,
      processHttpRequest (cachedFetch (Clock.upTo 1000 (by decide))) smallSite
        (Event.arrive ⟨[.received (bytes "HEAD / HTTP/1.1\r\n\r\n")], []⟩ .fresh)
        ⟨Cache.new (Clock.upTo 1000 (by decide)) 64, []⟩ = some (conn', deleted, shared') ∧
      shared'.log = [] ++ new ∧
      new.map Exchange.requestStr <+: [bytes "HEAD / HTTP/1.1\r\n\r\n"] ∧
      (Connection.fresh.writeBuffer.buf = [] → (∀ r ∈ ([] : List SendResult), r.Clean) →
        conn'.writeBuffer.buf = [] ∧
        conn'.socket.delivered = [] ++ new.flatMap Exchange.responseBuf) ∧
      (∀ e ∈ new, e.response.statusLine ++ crlf <+: e.responseBuf) ∧
      ∀ e ∈ new, e.IsHead → (e.IsBlock ↔ ¬ e.RunsCgi smallSite) :=
  head_block_iff _ 64 smallSite _ ⟨[], rfl⟩ .fresh _ fun r _ n => smallSite_plain n r

end TurtleServer.Http
