import TurtleServer.Http.Headers

/-!
# The requests that `Request` accepts

`Request(request_str)` splits three times: the text at its line ends, the first line at its spaces and
every other line at its colons. `RequestText` is a request in its parts and `text` what it looks like;
the theorem compares the parser with it, in both directions.

1. `RequestText`, `WellFormed` and `Reads`: the language, and what is made of a request.
2. Words: trimming and upper case.
3. The request line, the header lines and the whole text.
4. `request_language`.
-/

namespace TurtleServer.Http

open Lib

/-! ## 1. The language -/

/-- A request in its parts. `trailing` says that the request line ends in a space. -/
structure RequestText where
  method : Bytes
  url : Bytes
  version : Bytes
  trailing : Bool
  headerLines : List Bytes
deriving DecidableEq, Repr

namespace RequestText

def requestLine (t : RequestText) : Bytes :=
  t.method ++ space ++ t.url ++ space ++ t.version ++ if t.trailing then space else []

def lines (t : RequestText) : List Bytes := t.requestLine :: t.headerLines

/-- The lines with their ends, and an empty line. -/
def text (t : RequestText) : Bytes := t.lines.flatMap (· ++ crlf) ++ crlf

/-- The parts of a request that is accepted. -/
structure WellFormed (t : RequestText) : Prop where
  lines : ∀ line ∈ t.lines, line ≠ [] ∧ ¬ crlf <:+: line
  words : 32 ∉ t.method ∧ 32 ∉ t.url ∧ 32 ∉ t.version
  method : toUpper t.method = bytes "GET" ∨ toUpper t.method = bytes "HEAD"
  version : toUpper t.version = bytes "HTTP/1.1"
  headers : ∀ line ∈ t.headerLines, 58 ∈ line.dropLast

end RequestText

/-- `str` is `word` up to case and surrounding spaces. -/
def Spells (word str : Bytes) : Prop :=
  ∃ m n core, str = List.replicate m 32 ++ core ++ List.replicate n 32 ∧ toUpper core = toUpper word

/-- The header asks for the connection to be kept. -/
def Header.KeepsAlive (h : Header) : Prop :=
  Spells (bytes "Connection") h.key ∧ Spells (bytes "Keep-Alive") h.value

/-- What is made of a request that is accepted. -/
structure RequestText.Reads (t : RequestText) (request : Request) : Prop where
  method : request.method = if toUpper t.method = bytes "GET" then .get else .head
  resourceUrl : request.resourceUrl =
    if t.url = [] ∨ t.url.getLast? = some 47 then t.url ++ bytes "index.html" else t.url
  headers : request.headers = t.headerLines.map Header.parse
  shouldClose : request.shouldClose = false ↔ ∃ h ∈ request.headers, h.KeepsAlive

namespace LanguageLemmas

/-! ## 2. Words -/

variable {str word core : Bytes}

theorem mem_space {c : UInt8} : c ∈ space ↔ c = 32 := List.mem_singleton

theorem trim_of_not_mem (h : 32 ∉ str) : trim str space = str := by
  have hnot : ∀ c ∈ str, ¬ (decide (c ∈ space)) = true := by
    intro c hc hspace
    exact h (mem_space.mp (of_decide_eq_true hspace) ▸ hc)
  unfold trim
  have hfirst : str.dropWhile (fun c => c ∈ space) = str := by
    cases str with
    | nil => rfl
    | cons c str => exact List.dropWhile_cons_of_neg (hnot c List.mem_cons_self)
  rw [hfirst]
  exact List.rdropWhile_eq_self_iff.mpr fun hne => hnot _ (List.getLast_mem hne)

theorem format_of_not_mem (h : 32 ∉ str) : format str = toUpper str := by
  rw [format, trim_of_not_mem h]

theorem dropWhile_replicate (m : ℕ) (str : Bytes) :
    (List.replicate m 32 ++ str).dropWhile (fun c => c ∈ space) = str.dropWhile (fun c => c ∈ space) :=
  List.dropWhile_append_of_pos fun _ hc => decide_eq_true (mem_space.mpr (List.eq_of_mem_replicate hc))

theorem rdropWhile_replicate (n : ℕ) (str : Bytes) :
    (str ++ List.replicate n 32).rdropWhile (fun c => c ∈ space) =
      str.rdropWhile (fun c => c ∈ space) := by
  induction n with
  | zero => rw [List.replicate_zero, List.append_nil]
  | succ n ih =>
    rw [List.replicate_succ', ← List.append_assoc, List.rdropWhile_concat_pos _ _ _ (by decide), ih]

/-- Spaces at both ends are trimmed. -/
theorem trim_spaces (m n : ℕ) (hcore : 32 ∉ core) (hne : core ≠ []) :
    trim (List.replicate m 32 ++ core ++ List.replicate n 32) space = core := by
  obtain ⟨c, core, rfl⟩ := List.exists_cons_of_ne_nil hne
  have hc : ¬ (decide (c ∈ space)) = true := by
    intro hspace
    exact hcore (mem_space.mp (of_decide_eq_true hspace) ▸ List.mem_cons_self)
  have hfirst : ∀ l, (c :: l).dropWhile (fun c => c ∈ space) = c :: l :=
    fun l => List.dropWhile_cons_of_neg (p := fun c => c ∈ space) hc
  have htrim := trim_of_not_mem hcore
  unfold trim at htrim ⊢
  rw [hfirst] at htrim
  rw [List.append_assoc, dropWhile_replicate, List.cons_append, hfirst, ← List.cons_append,
    rdropWhile_replicate, htrim]

/-- What is trimmed are spaces. -/
theorem exists_spaces (str : Bytes) :
    ∃ m n, str = List.replicate m 32 ++ trim str space ++ List.replicate n 32 := by
  have hspaces : ∀ l : Bytes, (∀ c ∈ l, c ∈ space) → ∃ m, l = List.replicate m 32 :=
    fun l hl => ⟨l.length, List.eq_replicate_iff.mpr ⟨rfl, fun c hc => mem_space.mp (hl c hc)⟩⟩
  obtain ⟨m, hfirst⟩ := hspaces (str.takeWhile fun c => c ∈ space)
    fun c hc => of_decide_eq_true (List.mem_takeWhile_imp (p := fun c => c ∈ space) hc)
  obtain ⟨n, hlast⟩ := hspaces ((str.dropWhile fun c => c ∈ space).rtakeWhile fun c => c ∈ space)
    fun c hc => of_decide_eq_true (List.mem_rtakeWhile_imp (p := fun c => c ∈ space) hc)
  refine ⟨m, n, ?_⟩
  rw [← hfirst, ← hlast, trim, List.append_assoc, List.rdropWhile_append_rtakeWhile,
    List.takeWhile_append_dropWhile]

theorem not_mem_of_toUpper (h : toUpper core = toUpper word) (hword : 32 ∉ toUpper word) :
    32 ∉ core := by
  intro hmem
  refine hword (h ▸ ?_)
  exact List.mem_map.mpr ⟨32, hmem, by decide⟩

/-- The comparison of the source is the one up to case and surrounding spaces. -/
theorem format_eq_iff (hword : 32 ∉ toUpper word) (hne : toUpper word ≠ []) :
    format str = toUpper word ↔ Spells word str := by
  constructor
  · intro h
    obtain ⟨m, n, hstr⟩ := exists_spaces str
    exact ⟨m, n, trim str space, hstr, h⟩
  · rintro ⟨m, n, core, rfl, hcore⟩
    have hnil : core ≠ [] := by
      rintro rfl
      exact hne hcore.symm
    rw [format, trim_spaces m n (not_mem_of_toUpper hcore hword) hnil, hcore]

/-! ## 3. The request line -/

variable {line m u v : Bytes} {request : Request}

theorem not_infix_space (h : 32 ∉ str) : ¬ space <:+: str :=
  fun hinfix => h ((List.singleton_infix_iff 32 str).mp hinfix)

theorem not_mem_of_not_infix (h : ¬ space <:+: str) : 32 ∉ str :=
  fun hmem => h ((List.singleton_infix_iff 32 str).mpr hmem)

/-- A line that is split into three words. -/
theorem split_line_iff : split line space = [m, u, v] ∧ v ≠ [] ↔
    (32 ∉ m ∧ 32 ∉ u ∧ 32 ∉ v) ∧ v ≠ [] ∧
      ∃ trailing : Bool, line = m ++ space ++ u ++ space ++ v ++ if trailing then space else [] := by
  constructor
  · rintro ⟨hsplit, hv⟩
    obtain ⟨fields, last, rfl, hfields, hlast⟩ := fields_exist proper_space.ne_nil line
    rw [split_ofFields proper_space.unbordered hfields hlast] at hsplit
    have hfree : ∀ field ∈ fields, 32 ∉ field := fun f hf => not_mem_of_not_infix (hfields f hf)
    cases last with
    | nil =>
      rw [List.isEmpty_nil, if_pos rfl, List.append_nil] at hsplit
      subst hsplit
      refine ⟨⟨hfree m (by simp), hfree u (by simp), hfree v (by simp)⟩, hv, true, ?_⟩
      simp [ofFields]
    | cons c last =>
      rw [List.isEmpty_cons, if_neg Bool.false_ne_true] at hsplit
      obtain ⟨rfl, hend⟩ : fields = [m, u] ∧ c :: last = v := by
        have hthree : [m, u, v] = [m, u] ++ [v] := rfl
        obtain ⟨hfields, hlast⟩ := List.append_inj' (hsplit.trans hthree) rfl
        exact ⟨hfields, List.singleton_inj.mp hlast⟩
      subst hend
      refine ⟨⟨hfree m (by simp), hfree u (by simp), not_mem_of_not_infix hlast⟩, hv, false, ?_⟩
      simp [ofFields]
  · rintro ⟨⟨hm, hu, hvs⟩, hv, trailing, rfl⟩
    refine ⟨?_, hv⟩
    cases trailing with
    | true =>
      have hline : m ++ space ++ u ++ space ++ v ++ (if true then space else []) =
          ofFields space [m, u, v] [] := by simp [ofFields]
      rw [hline, split_ofFields proper_space.unbordered ?_ (not_infix_space List.not_mem_nil)]
      · rfl
      · simp [not_infix_space hm, not_infix_space hu, not_infix_space hvs]
    | false =>
      have hline : m ++ space ++ u ++ space ++ v ++ (if false then space else []) =
          ofFields space [m, u] v := by simp [ofFields]
      rw [hline, split_ofFields proper_space.unbordered ?_ (not_infix_space hvs), if_neg (by simpa using hv)]
      · rfl
      · simp [not_infix_space hm, not_infix_space hu]

/-- `ToMethod` of a word. -/
theorem toMethod_of_word (h : 32 ∉ m) :
    toMethod m = if toUpper m = bytes "GET" then .get
      else if toUpper m = bytes "HEAD" then .head else .unsupported := by
  rw [toMethod, format_of_not_mem h]
  rfl

/-- `ToVersion` of a word. -/
theorem toVersion_of_word (h : 32 ∉ v) :
    toVersion v = if toUpper v = bytes "HTTP/1.1" then .http11 else .unsupported := by
  rw [toVersion, format_of_not_mem h]
  rfl

/-- What a request line leaves in the request. -/
def withLine (request : Request) (m u : Bytes) : Request :=
  { request with
    method := if toUpper m = bytes "GET" then .get else .head
    version := .http11
    resourceUrl := if u = [] ∨ u.getLast? = some 47 then u ++ bytes "index.html" else u }

theorem parseRequestLine_of_words (hsplit : split line space = [m, u, v]) (hm : 32 ∉ m) (hv : 32 ∉ v)
    (hmethod : toUpper m = bytes "GET" ∨ toUpper m = bytes "HEAD")
    (hversion : toUpper v = bytes "HTTP/1.1") :
    request.parseRequestLine line = (true, withLine request m u) := by
  have hmethod' : toMethod m = if toUpper m = bytes "GET" then .get else .head := by
    rw [toMethod_of_word hm]
    rcases hmethod with h | h
    · rw [if_pos h, if_pos h]
    · rw [h]
      decide
  have hsupported : ¬ (if toUpper m = bytes "GET" then Method.get else .head) = .unsupported := by
    split <;> nofun
  have hversion' : toVersion v = .http11 := by
    rw [toVersion_of_word hv, if_pos hversion]
  unfold Request.parseRequestLine
  rw [hsplit]
  simp only [hmethod', hversion', if_neg hsupported, withLine, List.isEmpty_iff]
  rfl

theorem words_of_parseRequestLine (h : (request.parseRequestLine line).1 = true) :
    ∃ m u v, split line space = [m, u, v] ∧ toMethod m ≠ .unsupported ∧ toVersion v ≠ .unsupported := by
  unfold Request.parseRequestLine at h
  split at h
  · next m u v hsplit =>
    refine ⟨m, u, v, hsplit, fun hm => ?_, fun hv => ?_⟩
    · simp [hm] at h
    · simp only [hv, if_true] at h
      split at h <;> cases h
  · cases h

/-! ### The header lines -/

/-- `ScanHeader` looks for this. -/
def asksKeepAlive (h : Header) : Bool :=
  decide (format h.key = format headerConnection ∧ format h.value = format connectionKeepAlive)

theorem scanHeader_eq (request : Request) (h : Header) :
    request.scanHeader h = { request with shouldClose := request.shouldClose && !asksKeepAlive h } := by
  unfold Request.scanHeader asksKeepAlive
  by_cases hkey : format h.key = format headerConnection
  · by_cases hvalue : format h.value = format connectionKeepAlive
    · simp [hkey, hvalue]
    · simp [hkey, hvalue]
  · simp [hkey]

theorem parseHeaders_of_valid {lines : List Bytes}
    (h : ∀ line ∈ lines, (Header.parse line).valid = true) :
    request.parseHeaders lines =
      { request with
        headers := request.headers ++ lines.map Header.parse
        shouldClose := request.shouldClose && !(lines.map Header.parse).any asksKeepAlive
        isValid := true } := by
  induction lines generalizing request with
  | nil => simp [Request.parseHeaders]
  | cons line lines ih =>
    obtain ⟨hline, hlines⟩ := List.forall_mem_cons.mp h
    rw [Request.parseHeaders, if_pos hline, scanHeader_eq, ih hlines]
    simp [Bool.and_assoc]

theorem valid_of_parseHeaders {lines : List Bytes} (hrequest : request.isValid = false)
    (h : (request.parseHeaders lines).isValid = true) :
    ∀ line ∈ lines, (Header.parse line).valid = true := by
  induction lines generalizing request with
  | nil => exact fun _ hmem => absurd hmem List.not_mem_nil
  | cons line lines ih =>
    rw [Request.parseHeaders, scanHeader_eq] at h
    split at h
    · next hline => exact List.forall_mem_cons.mpr ⟨hline, ih (by exact hrequest) h⟩
    · exact absurd (hrequest.symm.trans h) Bool.false_ne_true

theorem header_valid_iff (line : Bytes) : (Header.parse line).valid = true ↔ 58 ∈ line.dropLast := by
  by_cases hmem : 58 ∈ line
  · obtain ⟨k, v, rfl, hk, -, -⟩ := Header.ParseLemmas.exists_colon hmem
    rw [Header.ParseLemmas.parse_of_colon hk]
    rcases eq_or_ne v [] with rfl | hv
    · exact iff_of_false Bool.false_ne_true (by simpa [colon, bytes] using hk)
    · rw [if_neg (by simpa using hv), List.dropLast_append_of_ne_nil (by simp [colon, bytes]),
        List.dropLast_append_of_ne_nil hv]
      exact iff_of_true rfl (List.mem_append_right _ List.mem_cons_self)
  · rw [Header.ParseLemmas.parse_of_no_colon hmem]
    exact iff_of_false Bool.false_ne_true fun h => hmem (List.mem_of_mem_dropLast h)

/-! ### The whole text -/

variable {s : Bytes} {lines : List Bytes} {t : RequestText}

theorem text_eq_ofFields (t : RequestText) : t.text = ofFields crlf (t.lines ++ [[]]) [] := by
  simp [RequestText.text, ofFields]

theorem parse_of_lines (hsplit : split s crlf = (line :: lines) ++ [[]]) :
    Request.parse s =
      if (Request.parseRequestLine {} line).1 then
        (Request.parseRequestLine {} line).2.parseHeaders lines
      else (Request.parseRequestLine {} line).2 := by
  have hlength : ¬ (((line :: lines) ++ [[]]).length < 2 ∨
      ((line :: lines) ++ [[]]).getLast? ≠ some []) := by
    rw [List.getLast?_concat]
    simp
  unfold Request.parse
  rw [hsplit]
  simp only [if_neg hlength, List.dropLast_concat]

theorem shape_of_valid (h : (Request.parse s).isValid = true) :
    ¬ (split s crlf).length < 2 ∧ (split s crlf).getLast? = some [] := by
  unfold Request.parse at h
  by_contra hshape
  have hwrong : (split s crlf).length < 2 ∨ (split s crlf).getLast? ≠ some [] :=
    (Decidable.not_and_iff_or_not.mp hshape).imp_left not_not.mp
  simp only [if_pos hwrong, Bool.false_eq_true] at h

/-- A text that is accepted ends in an empty line. -/
theorem lines_of_valid (h : (Request.parse s).isValid = true) :
    ∃ line lines, s = ofFields crlf ((line :: lines) ++ [[]]) [] ∧
      ∀ l ∈ line :: lines, ¬ crlf <:+: l := by
  obtain ⟨hlength, hend⟩ := shape_of_valid h
  obtain ⟨fields, last, rfl, hfields, hlast⟩ := fields_exist proper_crlf.ne_nil s
  rw [split_ofFields proper_crlf.unbordered hfields hlast] at hlength hend
  cases last with
  | cons c last =>
    rw [List.isEmpty_cons, if_neg Bool.false_ne_true, List.getLast?_concat] at hend
    cases hend
  | nil =>
    rw [List.isEmpty_nil, if_pos rfl, List.append_nil] at hlength hend
    obtain ⟨front, rfl⟩ := List.getLast?_eq_some_iff.mp hend
    cases front with
    | nil => exact absurd (Nat.lt_succ_self 1) hlength
    | cons line lines =>
      exact ⟨line, lines, rfl, fun l hl => hfields l (List.mem_append_left _ hl)⟩

theorem split_lines (h : ∀ l ∈ line :: lines, ¬ crlf <:+: l) :
    split (ofFields crlf ((line :: lines) ++ [[]]) []) crlf = (line :: lines) ++ [[]] := by
  have hnil : ¬ crlf <:+: [] := fun hinfix => proper_crlf.ne_nil (List.infix_nil.mp hinfix)
  rw [split_ofFields proper_crlf.unbordered ?_ hnil]
  · exact List.append_nil _
  · intro l hl
    rcases List.mem_append.mp hl with hl | hl
    · exact h l hl
    · rw [List.mem_singleton.mp hl]
      exact hnil

/-- A well-formed request is read as it is written. -/
theorem parse_of_wellFormed (h : t.WellFormed) :
    Request.parse t.text =
      { withLine {} t.method t.url with
        headers := t.headerLines.map Header.parse
        shouldClose := !(t.headerLines.map Header.parse).any asksKeepAlive
        isValid := true } := by
  obtain ⟨hm, hu, hv⟩ := h.words
  have hne : t.version ≠ [] := by
    intro hnil
    have hversion := h.version
    rw [hnil] at hversion
    exact absurd hversion (by decide)
  have hwords : split t.requestLine space = [t.method, t.url, t.version] :=
    (split_line_iff.mpr ⟨⟨hm, hu, hv⟩, hne, t.trailing, rfl⟩).1
  have hlines : split (ofFields crlf (t.lines ++ [[]]) []) crlf =
      (t.requestLine :: t.headerLines) ++ [[]] := split_lines fun l hl => (h.lines l hl).2
  rw [text_eq_ofFields, parse_of_lines hlines,
    parseRequestLine_of_words hwords hm hv h.method h.version, if_pos rfl,
    parseHeaders_of_valid fun l hl => (header_valid_iff l).mpr (h.headers l hl)]
  simp [withLine]

/-- A text that is accepted is a well-formed request. -/
theorem wellFormed_of_valid (h : (Request.parse s).isValid = true) :
    ∃ t : RequestText, t.WellFormed ∧ t.text = s := by
  obtain ⟨line, lines, rfl, hfree⟩ := lines_of_valid h
  rw [parse_of_lines (split_lines hfree)] at h
  have hunset : ∀ line, (Request.parseRequestLine {} line).2.isValid = false := by
    intro line
    unfold Request.parseRequestLine
    split
    · simp only []
      split
      · rfl
      · split <;> rfl
    · rfl
  split at h
  · next hline =>
    obtain ⟨m, u, v, hsplit, hmethod, hversion⟩ := words_of_parseRequestLine hline
    have hne : v ≠ [] := by
      rintro rfl
      exact hversion rfl
    obtain ⟨⟨hm, hu, hv⟩, -, trailing, hrequestLine⟩ := split_line_iff.mp ⟨hsplit, hne⟩
    have hheaders := valid_of_parseHeaders (hunset line) h
    rw [toMethod_of_word hm] at hmethod
    rw [toVersion_of_word hv] at hversion
    have hcolons : ∀ l ∈ lines, 58 ∈ l.dropLast := fun l hl => (header_valid_iff l).mp (hheaders l hl)
    refine ⟨⟨m, u, v, trailing, lines⟩, ⟨?_, ⟨hm, hu, hv⟩, ?_, ?_, hcolons⟩, ?_⟩
    · intro l hl
      have hl' : l ∈ line :: lines := by
        rw [hrequestLine]
        exact hl
      refine ⟨?_, hfree l hl'⟩
      rintro rfl
      rcases List.mem_cons.mp hl' with hnil | hmem
      · rw [← hnil] at hsplit
        cases hsplit
      · exact absurd (hcolons [] hmem) List.not_mem_nil
    · by_contra hneither
      obtain ⟨hget, hhead⟩ := not_or.mp hneither
      rw [if_neg hget, if_neg hhead] at hmethod
      exact hmethod rfl
    · by_contra hnot
      rw [if_neg hnot] at hversion
      exact hversion rfl
    · rw [text_eq_ofFields, hrequestLine]
      rfl
  · exact absurd ((hunset line).symm.trans h) Bool.false_ne_true

theorem asksKeepAlive_iff (h : Header) : asksKeepAlive h = true ↔ h.KeepsAlive := by
  unfold asksKeepAlive Header.KeepsAlive
  rw [decide_eq_true_iff, ← format_eq_iff (by decide) (by decide),
    ← format_eq_iff (by decide) (by decide)]
  exact Iff.rfl

theorem reads_of_wellFormed (h : t.WellFormed) : t.Reads (Request.parse t.text) := by
  rw [parse_of_wellFormed h]
  refine ⟨rfl, rfl, rfl, ?_⟩
  simp only [Bool.not_eq_false', List.any_eq_true, asksKeepAlive_iff]

end LanguageLemmas

open LanguageLemmas

/-! ## 4. The parser and the language -/

/-- `Request` accepts exactly the well-formed requests and reads them as they are written; whether the
connection is kept does not depend on the order of the headers. -/
theorem request_language (s : Bytes) :
    ((Request.parse s).isValid = true ↔ ∃ t : RequestText, t.WellFormed ∧ t.text = s) ∧
    (∀ t : RequestText, t.WellFormed → t.text = s → t.Reads (Request.parse s)) ∧
    ∀ s', (Request.parse s).isValid = true → (Request.parse s').isValid = true →
      (Request.parse s).headers.Perm (Request.parse s').headers →
      (Request.parse s).shouldClose = (Request.parse s').shouldClose := by
  refine ⟨⟨wellFormed_of_valid, ?_⟩, ?_, ?_⟩
  · rintro ⟨t, ht, rfl⟩
    rw [parse_of_wellFormed ht]
  · rintro t ht rfl
    exact reads_of_wellFormed ht
  · intro s' hs hs' hperm
    obtain ⟨t, ht, rfl⟩ := wellFormed_of_valid hs
    obtain ⟨t', ht', rfl⟩ := wellFormed_of_valid hs'
    have hiff := (reads_of_wellFormed ht).shouldClose
    have hiff' := (reads_of_wellFormed ht').shouldClose
    simp only [hperm.mem_iff] at hiff
    exact Bool.eq_iff_iff.mpr (not_iff_not.mp (by simpa using hiff.trans hiff'.symm))

end TurtleServer.Http
