import TurtleServer.Http.Splitting

/-!
# Requests and responses (`http/header.cpp`, `http/request.cpp`, `http/response.cpp`)

`Request.parse` is the constructor of `Request` that takes the text of a request, `Response.new` the
constructor of `Response`. What `Response` serialises is one header block:

* `headerBlock_serialize`: its first empty line is its end, whatever comes after it.
-/

namespace TurtleServer.Http

open Lib

/-! ## Headers -/

/-- The class `Header`. -/
structure Header where
  key : Bytes
  value : Bytes
  valid : Bool := true
deriving DecidableEq, Repr

namespace Header

/-- `Header(line)`. The value may hold further colons. -/
def parse (line : Bytes) : Header :=
  match split line colon with
  | key :: token :: tokens =>
    { key, value := if tokens.isEmpty then token else join (token :: tokens) colon }
  | _ => { key := [], value := [], valid := false }

/-- `Serialize`. -/
def serialize (h : Header) : Bytes := h.key ++ colon ++ h.value ++ crlf

end Header

/-! ## Requests -/

/-- The class `Request`. The members that a failed parse leaves unset hold `unsupported` here; they
are read in a valid request only. -/
structure Request where
  method : Method := .unsupported
  version : Version := .unsupported
  resourceUrl : Bytes := []
  headers : List Header := []
  shouldClose : Bool := true
  isValid : Bool := false
  invalidReason : Bytes := []
deriving DecidableEq, Repr

namespace Request

/-- `ParseRequestLine`. -/
def parseRequestLine (request : Request) (requestLine : Bytes) : Bool × Request :=
  match split requestLine space with
  | [methodStr, url, versionStr] =>
    let request := { request with method := toMethod methodStr }
    if request.method = .unsupported then
      (false, { request with invalidReason := bytes "Unsupported method: " ++ methodStr })
    else
      let request := { request with version := toVersion versionStr }
      if request.version = .unsupported then
        (false, { request with invalidReason := bytes "Unsupported version: " ++ versionStr })
      else
        -- default route to index.html
        (true, { request with
          resourceUrl :=
            if url.isEmpty ∨ url.getLast? = some 47 then url ++ defaultRoute else url })
  | _ =>
    (false, { request with invalidReason := bytes "Invalid first request headline: " ++ requestLine })

/-- `ScanHeader`. -/
def scanHeader (request : Request) (header : Header) : Request :=
  if format header.key = format headerConnection then
    if format header.value = format connectionKeepAlive then { request with shouldClose := false }
    else request
  else request

/-- The loop over the header lines. -/
def parseHeaders : Request → List Bytes → Request
  | request, [] => { request with isValid := true }
  | request, line :: lines =>
    let header := Header.parse line
    if header.valid then
      let request := request.scanHeader header
      parseHeaders { request with headers := request.headers ++ [header] } lines
    else { request with invalidReason := bytes "Fail to parse header line: " ++ line }

/-- `Request(request_str)`. -/
def parse (requestStr : Bytes) : Request :=
  let lines := split requestStr crlf
  if lines.length < 2 ∨ lines.getLast? ≠ some [] then
    { invalidReason := bytes "Request format is wrong." }
  else
    match lines.dropLast with
    | [] => {}
    | requestLine :: lines =>
      let (success, request) := parseRequestLine {} requestLine
      if success then parseHeaders request lines else request

end Request

/-! ## Responses -/

/-- The class `Response`. -/
structure Response where
  statusLine : Bytes
  shouldClose : Bool
  headers : List Header
  resourceUrl : Option Bytes
deriving DecidableEq, Repr

namespace Response

/-- The status line of the constructor. -/
def makeStatusLine (statusCode : Bytes) : Bytes := httpVersionTurtle ++ space ++ statusCode

/-- The headers that every response starts with. -/
def commonHeaders (shouldClose : Bool) : List Header :=
  [{ key := headerServer, value := serverTurtle },
    { key := headerConnection,
      value := if shouldClose then connectionClose else connectionKeepAlive }]

/-- The constructor, without a resource. -/
def bare (statusCode : Bytes) (shouldClose : Bool) : Response where
  statusLine := makeStatusLine statusCode
  shouldClose := shouldClose
  headers := commonHeaders shouldClose ++
    [{ key := headerContentLength, value := contentLengthZero }]
  resourceUrl := none

/-- The header that tells the type of a resource whose name has an extension. -/
def contentType (resourceUrl : Bytes) : List Header :=
  if resourceUrl.any (· ∈ dot) then
    let extensionRawStr := resourceUrl.rtakeWhile (· ∉ dot)
    [{ key := headerContentType, value := extensionToMime (toExtension extensionRawStr) }]
  else []

/-- The constructor, with a resource of a known length. -/
def ofResource (statusCode : Bytes) (shouldClose : Bool) (resourceUrl : Bytes)
    (contentLength : ℕ) : Response where
  statusLine := makeStatusLine statusCode
  shouldClose := shouldClose
  headers := commonHeaders shouldClose ++
    { key := headerContentLength, value := toDecimal contentLength } :: contentType resourceUrl
  resourceUrl := some resourceUrl

/-- `Response(status_code, should_close, resource_url)`. -/
def new (disk : FileSystem) (statusCode : Bytes) (shouldClose : Bool) (resourceUrl : Option Bytes) :
    Option Response :=
  match resourceUrl with
  | none => some (bare statusCode shouldClose)
  | some url => do
    if ← disk.isFileExists url then
      let contentLength ← disk.checkFileSize url
      return ofResource statusCode shouldClose url contentLength
    else return bare statusCode shouldClose

/-- `Make200Response`. -/
def make200Response (disk : FileSystem) (shouldClose : Bool) (resourceUrl : Option Bytes) :
    Option Response :=
  new disk responseOk shouldClose resourceUrl

/-- `Make400Response`. -/
def make400Response : Response := bare responseBadRequest true

/-- `Make404Response`. -/
def make404Response : Response := bare responseNotFound true

/-- `Make503Response`. -/
def make503Response : Response := bare responseServiceUnavailable true

/-- `Serialize`. -/
def serialize (response : Response) (buffer : Bytes) : Bytes :=
  buffer ++ (response.statusLine ++ crlf ++ response.headers.flatMap Header.serialize ++ crlf)

/-- The loop of `ChangeHeader`. -/
def changeFirst (key newValue : Bytes) : List Header → Bool × List Header
  | [] => (false, [])
  | h :: hs =>
    if h.key = key then (true, { h with value := newValue } :: hs)
    else
      let (changed, hs) := changeFirst key newValue hs
      (changed, h :: hs)

/-- `ChangeHeader`. -/
def changeHeader (response : Response) (key newValue : Bytes) : Bool × Response :=
  let (changed, headers) := changeFirst key newValue response.headers
  (changed, { response with headers })

/-! ## Header blocks -/

/-- A line that is not empty and holds no carriage return. -/
def Line (l : Bytes) : Prop := l ≠ [] ∧ 13 ∉ l

/-- The lines of the response before the empty one. -/
def lines (response : Response) : List Bytes :=
  response.statusLine :: response.headers.map fun h => h.key ++ colon ++ h.value

/-- What a client takes for the header block of what it receives, up to and including the first empty
line, and what comes after it. -/
def headerBlock (received : Bytes) : Option (Bytes × Bytes) :=
  (cut (crlf ++ crlf) received).map fun r => (r.1 ++ (crlf ++ crlf), r.2)

/-- No text that went into the response has a carriage return in it. -/
structure Tidy (response : Response) : Prop where
  statusLine : Line response.statusLine
  headers : ∀ h ∈ response.headers, 13 ∉ h.key ∧ 13 ∉ h.value

namespace BlockLemmas

variable {response : Response} {statusCode : Bytes} {shouldClose : Bool}

theorem serialize_eq (response : Response) (buffer : Bytes) :
    response.serialize buffer = buffer ++ (response.lines.flatMap (· ++ crlf) ++ crlf) := by
  have hheaders : (response.headers.map fun h => h.key ++ colon ++ h.value).flatMap (· ++ crlf) =
      response.headers.flatMap Header.serialize := by
    rw [List.flatMap_map]
    rfl
  rw [serialize, lines, List.flatMap_cons, hheaders]

/-- Lines are not empty and hold no line end when the texts that go into them hold none. -/
theorem lines_free (hstatus : response.statusLine ≠ [] ∧ ¬ crlf <:+: response.statusLine)
    (hheaders : ∀ h ∈ response.headers, 13 ∉ h.key ∧ ¬ crlf <:+: h.value) :
    ∀ line ∈ response.lines, line ≠ [] ∧ ¬ crlf <:+: line := by
  intro line hline
  rcases List.mem_cons.mp hline with rfl | hline
  · exact hstatus
  · obtain ⟨h, hmem, rfl⟩ := List.mem_map.mp hline
    obtain ⟨hkey, hvalue⟩ := hheaders h hmem
    have hcolon : 13 ∉ h.key ++ colon := by
      rw [List.mem_append, not_or]
      exact ⟨hkey, by decide⟩
    exact ⟨by simp [colon, bytes], not_infix_crlf_append hcolon hvalue⟩

theorem emptyLine_lines (l : Bytes) (ls : List Bytes) :
    crlf ++ crlf <:+ (l :: ls).flatMap (· ++ crlf) ++ crlf := by
  obtain ⟨ls', l', hl'⟩ := (List.eq_nil_or_concat (l :: ls)).resolve_left (List.cons_ne_nil l ls)
  rw [hl']
  exact ⟨ls'.flatMap (· ++ crlf) ++ l', by simp⟩

/-- Nothing comes after an empty line. -/
theorem emptyLine_last_lines {ls : List Bytes} (h : ∀ x ∈ ls, x ≠ [] ∧ ¬ crlf <:+: x)
    {before after : Bytes}
    (hparts : ls.flatMap (· ++ crlf) ++ crlf = before ++ (crlf ++ crlf) ++ after) : after = [] := by
  have hsuffix : after <:+ [] := by
    refine suffix_of_double_separator (s := before) proper_crlf.unbordered h ?_
    rw [ofFields, List.append_nil, hparts]
    simp
  exact List.suffix_nil.mp hsuffix

/-- The first empty line comes after the last of the lines. -/
theorem headerBlock_lines (l : Bytes) (ls : List Bytes)
    (h : ∀ x ∈ l :: ls, x ≠ [] ∧ ¬ crlf <:+: x) (rest : Bytes) :
    headerBlock ((l :: ls).flatMap (· ++ crlf) ++ crlf ++ rest) =
      some ((l :: ls).flatMap (· ++ crlf) ++ crlf, rest) := by
  have hend := emptyLine_lines l ls
  cases hc : cut (crlf ++ crlf) ((l :: ls).flatMap (· ++ crlf) ++ crlf) with
  | none => exact absurd hend.isInfix (cut_eq_none_iff.mp hc)
  | some r =>
    have hparts := cut_eq hc
    have hafter : r.2 = [] := emptyLine_last_lines h hparts
    rw [hafter, List.append_nil] at hparts
    rw [headerBlock, cut_append hc rest, hafter, hparts]
    rfl

theorem line_makeStatusLine (h : 13 ∉ statusCode) : Line (makeStatusLine statusCode) := by
  refine ⟨by simp [makeStatusLine, space, bytes], fun hmem => ?_⟩
  rcases List.mem_append.mp hmem with hmem | hmem
  · exact absurd hmem (by decide)
  · exact h hmem

theorem tidy_commonHeaders (shouldClose : Bool) :
    ∀ h ∈ commonHeaders shouldClose, 13 ∉ h.key ∧ 13 ∉ h.value := by
  cases shouldClose <;> decide

theorem not_mem_toDecimal (n : ℕ) : 13 ∉ toDecimal n := by
  intro hmem
  obtain ⟨d, hd, heq⟩ := mem_toDecimal hmem
  have hdigit : ∀ d < 10, (13 : UInt8) ≠ UInt8.ofNat (48 + d) := by decide
  exact hdigit d hd heq

theorem tidy_contentType (url : Bytes) : ∀ h ∈ contentType url, 13 ∉ h.key ∧ 13 ∉ h.value := by
  intro h hmem
  unfold contentType at hmem
  split at hmem
  · have hmime : ∀ e : Extension, 13 ∉ extensionToMime e := by
      intro e
      cases e <;> decide
    have hkey : 13 ∉ headerContentType := by decide
    rw [List.mem_singleton.mp hmem]
    exact ⟨hkey, hmime _⟩
  · exact absurd hmem List.not_mem_nil

theorem tidy_bare (h : 13 ∉ statusCode) : (bare statusCode shouldClose).Tidy where
  statusLine := line_makeStatusLine h
  headers := by
    intro x hx
    rcases List.mem_append.mp hx with hx | hx
    · exact tidy_commonHeaders shouldClose x hx
    · rw [List.mem_singleton.mp hx]
      decide

theorem tidy_ofResource (h : 13 ∉ statusCode) (url : Bytes) (n : ℕ) :
    (ofResource statusCode shouldClose url n).Tidy where
  statusLine := line_makeStatusLine h
  headers := by
    intro x hx
    rcases List.mem_append.mp hx with hx | hx
    · exact tidy_commonHeaders shouldClose x hx
    · rcases List.mem_cons.mp hx with rfl | hx
      · have hkey : 13 ∉ headerContentLength := by decide
        exact ⟨hkey, not_mem_toDecimal n⟩
      · exact tidy_contentType url x hx

/-- What a header keeps when it gets the new value, all of them keep. -/
theorem forall_changeFirst {P : Header → Prop} {key newValue : Bytes} {hs : List Header}
    (hvalue : ∀ x, P x → P { x with value := newValue }) (h : ∀ x ∈ hs, P x) :
    ∀ x ∈ (changeFirst key newValue hs).2, P x := by
  induction hs with
  | nil => exact h
  | cons y hs ih =>
    obtain ⟨hy, hrest⟩ := List.forall_mem_cons.mp h
    unfold changeFirst
    split
    · exact List.forall_mem_cons.mpr ⟨hvalue y hy, hrest⟩
    · exact List.forall_mem_cons.mpr ⟨hy, ih hrest⟩

theorem tidy_changeHeader (h : response.Tidy) {key newValue : Bytes} (hvalue : 13 ∉ newValue) :
    (response.changeHeader key newValue).2.Tidy where
  statusLine := h.statusLine
  headers := forall_changeFirst (fun _ hx => ⟨hx.1, hvalue⟩) h.headers

end BlockLemmas

open BlockLemmas

/-- The first empty line of a serialised response is its end. -/
theorem headerBlock_serialize {response : Response} (h : response.Tidy) (rest : Bytes) :
    headerBlock (response.serialize [] ++ rest) = some (response.serialize [], rest) := by
  obtain ⟨hne, hfree⟩ := h.statusLine
  have hlines : ∀ line ∈ response.lines, line ≠ [] ∧ ¬ crlf <:+: line :=
    lines_free ⟨hne, not_infix_crlf hfree⟩ fun x hx =>
      ⟨(h.headers x hx).1, not_infix_crlf (h.headers x hx).2⟩
  rw [serialize_eq, List.nil_append]
  exact headerBlock_lines _ _ hlines rest

end Response

end TurtleServer.Http
