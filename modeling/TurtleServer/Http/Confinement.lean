import TurtleServer.Http.Splitting
import TurtleServer.Http.Stream
import TurtleServer.Lib.Paths

/-!
# Where the files lie that a request reaches

The server puts the url of a request behind the serving directory, as it is: neither a `..` in it nor a
null byte, where the system takes the path to end, is looked for or refused. Whether the path is that of
a program is decided by a search for `cgi-bin` in the whole of it. So a request can get at files outside
of the serving directory, and have programs run that are not in its `cgi-bin` folder (`passwd_sent`).

1. `LiesIn`: a path leads into a folder, by its text up to the first null byte.
2. `Confined`: what a request may get at.
3. `Stays`: what has to be seen in the text of a path for that, `confined_iff`.
-/

namespace TurtleServer.Http

open Lib

/-! ## 1. Paths as text -/

/-- What a system call reads of a path: not the first null byte, nor what comes after it. -/
def systemPath (path : Bytes) : Bytes := path.takeWhile (· ≠ 0)

/-- What stands between two slashes. -/
def toSegment (name : Bytes) : Segment Bytes :=
  if name = [] ∨ name = bytes "." then .here
  else if name = bytes ".." then .up
  else .name name

def segments (path : Bytes) : List (Segment Bytes) := ((systemPath path).splitOn 47).map toSegment

/-- A path from the root starts with a slash. -/
def rooted (path : Bytes) : Bool := (systemPath path).head? == some 47

/-- Where a path leads to when its `.` and `..` are resolved. -/
def resolve (path : Bytes) : Place Bytes := Place.start.walk (rooted path) (segments path)

/-- The path leads into the folder `extra` of the directory, or into the directory itself where `extra`
is empty. -/
def LiesIn (path dir : Bytes) (extra : List Bytes) : Prop :=
  rooted path = rooted dir ∧ (resolve path).Inside ((resolve dir).down extra)

instance (path dir : Bytes) (extra : List Bytes) : Decidable (LiesIn path dir extra) :=
  inferInstanceAs (Decidable (_ ∧ _))

/-! ## 2. What a request gets at -/

section request

variable (site : Site) (disk : FileSystem) (requestStr : Bytes)

/-- The content of a file is sent as a static resource. -/
def Sends (path : Bytes) : Prop :=
  ∃ response noMoreParse, beginRequest site disk requestStr = some (.resource response noMoreParse path)

/-- A program is run: another program under its path would give another answer. -/
def Executes (program : Bytes) : Prop :=
  ∃ cgi : Bytes → List Bytes → Option RunOutcome, (∀ path, path ≠ program → cgi path = site.cgi path) ∧
    beginRequest { site with cgi := cgi } disk requestStr ≠ beginRequest site disk requestStr

end request

/-- Whatever there is on the disk and whatever the programs do: what is sent lies in the serving
directory, and what is run lies in its `cgi-bin` folder. -/
def Confined (dir requestStr : Bytes) : Prop :=
  ∀ (site : Site) (disk : FileSystem), site.servingDirectory = dir →
    (∀ path, Sends site disk requestStr path → LiesIn path dir []) ∧
      ∀ program, Executes site disk requestStr program → LiesIn program dir [cgiBin]

/-! ## 3. What has to be seen in the text -/

/-- The text up to the first `&` after the first `cgi-bin`. -/
def programText (path : Bytes) : Bytes :=
  match cut cgiBin path with
  | none => path
  | some (before, _) => before ++ (path.drop before.length).takeWhile (· ≠ 38)

/-- From where its segments and those of the directory part, the path comes down again through the names
that it climbs over, and through what there is below. -/
def Stays (path dir : Bytes) (extra : List Bytes) : Prop :=
  let way := Place.parting (segments path) (segments dir)
  rooted path = rooted dir ∧
    Place.Returns (rooted dir) (Place.start.walk (rooted dir) way.1) (Place.start.walk false way.2.1)
      (Place.start.walk false way.2.2) extra

/-- A valid request for a program stays within `cgi-bin`, and one for the content of a file within the
directory. -/
def StaysWithin (dir requestStr : Bytes) : Prop :=
  (Request.parse requestStr).isValid = true →
    let path := dir ++ (Request.parse requestStr).resourceUrl
    (isCgiRequest path = true → Stays (programText path) dir [cgiBin]) ∧
      (isCgiRequest path = false → (Request.parse requestStr).method = .get → Stays path dir [])

instance (path dir : Bytes) (extra : List Bytes) : Decidable (Stays path dir extra) :=
  inferInstanceAs (Decidable (_ ∧ _))

instance (dir requestStr : Bytes) : Decidable (StaysWithin dir requestStr) :=
  inferInstanceAs (Decidable (_ → _ ∧ _))

theorem liesIn_iff_stays {path dir : Bytes} {extra : List Bytes} :
    LiesIn path dir extra ↔ Stays path dir extra := by
  unfold LiesIn Stays resolve
  refine and_congr_right fun hrooted => ?_
  rw [hrooted]
  exact Place.inside_walk_iff _ _ _ _

theorem systemPath_append {dir : Bytes} (hdir : 0 ∉ dir) (url : Bytes) :
    systemPath (dir ++ url) = dir ++ systemPath url := by
  refine List.takeWhile_append_of_pos fun b hb => decide_eq_true ?_
  rintro rfl
  exact hdir hb

theorem systemPath_of_not_mem {dir : Bytes} (hdir : 0 ∉ dir) : systemPath dir = dir := by
  rw [← List.append_nil dir, systemPath_append hdir]
  rfl

/-- A path that goes on with a slash after the directory: the last names of the directory that it climbs
over have to be the first ones that it then goes down through. -/
theorem stays_slash_iff {dir : Bytes} (hdir : 0 ∉ dir) (url : Bytes) (extra : List Bytes) :
    let way := Place.start.walk false (segments url)
    Stays (dir ++ 47 :: url) dir extra ↔
      dir ≠ [] ∧ (rooted dir = true ∨ way.ups ≤ (resolve dir).names.length) ∧
        (resolve dir).names.drop ((resolve dir).names.length - way.ups) ++ extra <+: way.names := by
  intro way
  have hsystem : systemPath (dir ++ 47 :: url) = dir ++ 47 :: systemPath url := systemPath_append hdir _
  have hsegments : segments (dir ++ 47 :: url) = segments dir ++ segments url := by
    unfold segments
    rw [hsystem, systemPath_of_not_mem hdir, List.splitOn_append_cons_self, List.map_append]
  have hrooted : rooted (dir ++ 47 :: url) = rooted dir ↔ dir ≠ [] := by
    unfold rooted
    rw [hsystem, systemPath_of_not_mem hdir]
    cases dir with
    | nil => simp
    | cons b dir => simp
  unfold Stays
  rw [hsegments, Place.parting_append]
  exact and_congr hrooted Place.returns_start_iff

namespace ConfinementLemmas

open StreamLemmas

variable {site : Site} {disk : FileSystem} {requestStr path program : Bytes}

theorem takeWhile_of_not_mem {l : Bytes} (h : 38 ∉ l) : l.takeWhile (· ≠ 38) = l := by
  rw [List.takeWhile_eq_self_iff]
  intro b hb
  exact decide_eq_true (ne_of_mem_of_not_mem hb h)

theorem cgiProgramPath_eq (h : isCgiRequest path = true) :
    (Cgier.parseCgier path).cgiProgramPath = programText path := by
  obtain ⟨⟨before, after⟩, hcut⟩ := Option.isSome_iff_exists.mp h
  have hne : path.isEmpty = false := by
    rw [cut_eq hcut]
    simp [cgiBin, bytes]
  have hpath : before ++ path.drop before.length = path := by
    rw [cut_eq hcut, List.append_assoc, List.drop_left]
  unfold Cgier.parseCgier programText
  rw [hne, hcut]
  simp only [Bool.false_eq_true, if_false]
  cases hname : cut parameterSeparator (path.drop before.length) with
  | none =>
    have hfree : 38 ∉ path.drop before.length := fun hmem =>
      cut_eq_none_iff.mp hname ((List.singleton_infix_iff 38 _).mpr hmem)
    rw [takeWhile_of_not_mem hfree, hpath]
  | some r =>
    obtain ⟨name, arguments⟩ := r
    have hfree : 38 ∉ name := fun hmem =>
      cut_before proper_parameterSeparator.ne_nil hname ((List.singleton_infix_iff 38 _).mpr hmem)
    have hdrop : path.drop before.length = name ++ 38 :: arguments := by
      rw [cut_eq hname, List.append_assoc]
      rfl
    have htake : (path.drop before.length).takeWhile (· ≠ 38) = name := by
      rw [hdrop, List.takeWhile_append, takeWhile_of_not_mem hfree]
      simp
    rw [htake]

/-- Only the program that the request names makes a difference. -/
theorem beginRequest_congr {cgi : Bytes → List Bytes → Option RunOutcome}
    (h : (Request.parse requestStr).isValid = true → isCgiRequest (site.path requestStr) = true →
      cgi (site.program requestStr) = site.cgi (site.program requestStr)) :
    beginRequest { site with cgi := cgi } disk requestStr = beginRequest site disk requestStr := by
  cases hvalid : (Request.parse requestStr).isValid with
  | false => simp [beginRequest, hvalid]
  | true =>
    cases hcgi : isCgiRequest (site.path requestStr) with
    | false => simp [beginRequest, hvalid, path_eq, hcgi]
    | true =>
      have hrun : Site.runCgi { site with cgi := cgi } (Cgier.parseCgier (site.path requestStr)) =
          site.runCgi (Cgier.parseCgier (site.path requestStr)) := by
        simp only [Site.runCgi, program_eq, h hvalid hcgi]
      simp only [beginRequest, path_eq, hrun]
      rfl

theorem executes_cases (h : Executes site disk requestStr program) :
    (Request.parse requestStr).isValid = true ∧ isCgiRequest (site.path requestStr) = true ∧
      program = programText (site.path requestStr) := by
  obtain ⟨cgi, hcgi, hne⟩ := h
  by_contra hnot
  refine hne (beginRequest_congr fun hvalid hrequest => hcgi _ fun heq => hnot ⟨hvalid, hrequest, ?_⟩)
  rw [← heq]
  exact cgiProgramPath_eq hrequest

theorem sends_cases (h : Sends site disk requestStr path) :
    (Request.parse requestStr).isValid = true ∧ isCgiRequest (site.path requestStr) = false ∧
      (Request.parse requestStr).method = .get ∧ path = site.path requestStr := by
  obtain ⟨response, noMoreParse, h⟩ := h
  have hcourse := begin_cases site disk requestStr
  generalize beginRequest site disk requestStr = o at h hcourse
  cases hcourse with
  | badRequest hvalid => cases h
  | notFound hvalid hdisk => cases h
  | untold hvalid hdisk => cases h
  | cgi hvalid hcgi hpresent htold =>
    obtain ⟨cgiResult, -, heq⟩ := Option.map_eq_some_iff.mp h
    cases heq
  | static hvalid hcgi hpresent htold =>
    obtain ⟨size, -, heq⟩ := Option.map_eq_some_iff.mp h
    split at heq
    · next hget =>
      cases heq
      exact ⟨hvalid, hcgi, hget, rfl⟩
    · cases heq

/-- The program prints something, and all others nothing. -/
def printing (dir program output : Bytes) : Site :=
  ⟨dir, [], fun path _ => some (.finished (if path = program then output else [])),
    fun _ _ => .regular []⟩

theorem begun_printing (dir program output requestStr : Bytes) :
    ∃ pending, beginRequest (printing dir program output) (fun _ => .regular []) requestStr =
        some pending ∧
      Begun (printing dir program output) (fun _ => .regular []) requestStr pending :=
  begun_of_plain fun _ => ⟨True.intro, fun _ _ => id, fun _ => rfl⟩

theorem sends_printing {dir : Bytes} (hvalid : (Request.parse requestStr).isValid = true)
    (hcgi : isCgiRequest (dir ++ (Request.parse requestStr).resourceUrl) = false)
    (hget : (Request.parse requestStr).method = .get) :
    Sends (printing dir [] []) (fun _ => .regular []) requestStr
      (dir ++ (Request.parse requestStr).resourceUrl) := by
  obtain ⟨pending, hbegin, hbegun⟩ := begun_printing dir [] [] requestStr
  cases hbegun with
  | badRequest h => cases hvalid.symm.trans h
  | notFound h hdisk => cases hdisk
  | cgi h hrequest hpresent hreturns => cases hrequest.symm.trans hcgi
  | noBody size h hrequest hpresent hsize hmethod => exact absurd hget hmethod
  | resource content h hrequest hdisk hmethod => exact ⟨_, _, hbegin⟩

theorem beginRequest_cgi (dir program output : Bytes)
    (hvalid : (Request.parse requestStr).isValid = true)
    (hcgi : isCgiRequest (dir ++ (Request.parse requestStr).resourceUrl) = true) :
    ∃ response noMoreParse,
      beginRequest (printing dir program output) (fun _ => .regular []) requestStr =
        some (.ready response ((printing dir program output).cgiResult requestStr) noMoreParse) := by
  obtain ⟨pending, hbegin, hbegun⟩ := begun_printing dir program output requestStr
  cases hbegun with
  | badRequest h => cases hvalid.symm.trans h
  | notFound h hdisk => cases hdisk
  | cgi h hrequest hpresent hreturns => exact ⟨_, _, hbegin⟩
  | noBody size h hrequest hpresent hsize hmethod => cases hcgi.symm.trans hrequest
  | resource content h hrequest hdisk hmethod => cases hcgi.symm.trans hrequest

theorem cgiResult_printing {dir output : Bytes}
    (hcgi : isCgiRequest (dir ++ (Request.parse requestStr).resourceUrl) = true) :
    (printing dir (programText (dir ++ (Request.parse requestStr).resourceUrl)) output).cgiResult
      requestStr = output := by
  have hprogram := cgiProgramPath_eq hcgi
  simp only [Site.cgiResult, Site.runCgi, Site.path, printing, Cgier.run, hprogram, if_true,
    Option.map_some, Option.getD_some]

theorem executes_printing {dir : Bytes} (hvalid : (Request.parse requestStr).isValid = true)
    (hcgi : isCgiRequest (dir ++ (Request.parse requestStr).resourceUrl) = true) :
    Executes (printing dir (programText (dir ++ (Request.parse requestStr).resourceUrl)) [])
      (fun _ => .regular []) requestStr
      (programText (dir ++ (Request.parse requestStr).resourceUrl)) := by
  refine ⟨(printing dir (programText (dir ++ (Request.parse requestStr).resourceUrl)) [1]).cgi,
    fun path hpath => ?_, fun heq => ?_⟩
  · funext arguments
    simp only [printing, if_neg hpath, ite_self]
  · obtain ⟨response, noMoreParse, hbegin⟩ := beginRequest_cgi dir
      (programText (dir ++ (Request.parse requestStr).resourceUrl)) [] hvalid hcgi
    obtain ⟨response', noMoreParse', hbegin'⟩ := beginRequest_cgi dir
      (programText (dir ++ (Request.parse requestStr).resourceUrl)) [1] hvalid hcgi
    rw [cgiResult_printing hcgi] at hbegin hbegin'
    have hne := hbegin'.symm.trans (heq.trans hbegin)
    simp at hne

end ConfinementLemmas

open ConfinementLemmas

/-- A request gets at nothing else exactly when the path it names stays within. -/
theorem confined_iff (dir requestStr : Bytes) : Confined dir requestStr ↔ StaysWithin dir requestStr := by
  constructor
  · intro hconfined hvalid
    constructor
    · intro hcgi
      exact liesIn_iff_stays.mp ((hconfined _ _ rfl).2 _ (executes_printing hvalid hcgi))
    · intro hcgi hget
      exact liesIn_iff_stays.mp ((hconfined _ _ rfl).1 _ (sends_printing hvalid hcgi hget))
  · rintro hstays site disk rfl
    constructor
    · intro path hsends
      obtain ⟨hvalid, hcgi, hget, rfl⟩ := sends_cases hsends
      exact liesIn_iff_stays.mpr ((hstays hvalid).2 hcgi hget)
    · intro program hexecutes
      obtain ⟨hvalid, hcgi, rfl⟩ := executes_cases hexecutes
      exact liesIn_iff_stays.mpr ((hstays hvalid).1 hcgi)

-- the system reads no further than `/srv/../etc/passwd`
example : ¬ StaysWithin (bytes "/srv")
    (bytes "GET /../etc/passwd\x00/../../srv/x HTTP/1.1\r\n\r\n") := by decide

-- climbing over a name and coming back by it
example : StaysWithin (bytes "/srv/") (bytes "GET /a/../../srv/b HTTP/1.1\r\n\r\n") := by decide

/-- A file outside of `/srv` is sent, and a file of `/srv` itself is run as a program. -/
theorem passwd_sent :
    resolve (bytes "/srv/../etc/passwd") = ⟨0, [bytes "etc", bytes "passwd"]⟩ ∧
      Sends (printing (bytes "/srv") [] []) (fun _ => .regular [])
        (bytes "GET /../etc/passwd HTTP/1.1\r\n\r\n") (bytes "/srv/../etc/passwd") ∧
      ¬ Confined (bytes "/srv") (bytes "GET /../etc/passwd HTTP/1.1\r\n\r\n") ∧
      ¬ Confined (bytes "/srv") (bytes "GET /old-cgi-bin.txt HTTP/1.1\r\n\r\n") := by
  have hsends : Sends (printing (bytes "/srv") [] []) (fun _ => .regular [])
      (bytes "GET /../etc/passwd HTTP/1.1\r\n\r\n") (bytes "/srv/../etc/passwd") :=
    sends_printing (by decide) (by decide) (by decide)
  refine ⟨by decide, hsends, fun hconfined => ?_, fun hconfined => ?_⟩
  · exact absurd ((hconfined _ _ rfl).1 _ hsends) (by decide)
  · exact absurd ((hconfined _ _ rfl).2 _ (executes_printing (by decide) (by decide))) (by decide)

end TurtleServer.Http
