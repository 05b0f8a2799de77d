import TurtleServer.Http.Message

/-!
# Response heads (`http/response.cpp`)

A client reads the head of a response line by line, up to the first empty line. What it finds there is
what the server put there (`heads_unambiguous`), whatever path the resource has and whatever values
`ChangeHeader` is called with, as long as no line end is in a value: the path of a resource comes into
the head only as the type that its extension stands for.

The constructor gives the head its form (`HeadForm`), and `ChangeHeader` keeps it.
-/

namespace TurtleServer.Http.Response

open Lib BlockLemmas

variable {disk : FileSystem} {statusCode key newValue : Bytes} {shouldClose : Bool}
  {response : Response} {changes : List (Bytes × Bytes)}

/-- The calls of `ChangeHeader` with these keys and values, one after the other. -/
def changeAll (response : Response) (changes : List (Bytes × Bytes)) : Response :=
  changes.foldl (fun response change => (response.changeHeader change.1 change.2).2) response

/-- How many of the lines are a header with this key. -/
def countKey (key : Bytes) (lines : List Bytes) : ℕ :=
  lines.countP fun line => (key ++ colon).isPrefixOf line

/-- The head that `Serialize` appends can be read in one way only. -/
structure Unambiguous (response : Response) (statusCode : Bytes) : Prop where
  appended : ∀ buffer, response.serialize buffer = buffer ++ response.serialize []
  emptyLine : crlf ++ crlf <:+ response.serialize []
  emptyLine_last : ∀ before after,
    response.serialize [] = before ++ (crlf ++ crlf) ++ after → after = []
  lines : split (response.serialize []) crlf =
    (httpVersionTurtle ++ space ++ statusCode) ::
      response.headers.map (fun h => h.key ++ colon ++ h.value) ++ [[]]
  server : countKey headerServer (split (response.serialize []) crlf) = 1
  connection : countKey headerConnection (split (response.serialize []) crlf) = 1
  contentLength : countKey headerContentLength (split (response.serialize []) crlf) = 1
  contentType : countKey headerContentType (split (response.serialize []) crlf) ≤ 1

/-- The head of a response to which `ChangeHeader` was applied. -/
def headText (disk : FileSystem) (statusCode : Bytes) (shouldClose : Bool)
    (resourceUrl : Option Bytes) (changes : List (Bytes × Bytes)) : Option Bytes :=
  (new disk statusCode shouldClose resourceUrl).map fun response =>
    (response.changeAll changes).serialize []

/-- The two paths differ in nothing that a response tells. -/
structure SameKind (disk : FileSystem) (url url' : Bytes) : Prop where
  exist : disk.isFileExists url = disk.isFileExists url'
  size : disk.checkFileSize url = disk.checkFileSize url'
  dotted : 46 ∈ url ↔ 46 ∈ url'
  extension : 46 ∈ url →
    toExtension (url.rtakeWhile (· ≠ 46)) = toExtension (url'.rtakeWhile (· ≠ 46))

/-! ## The form of a head -/

/-- The keys that the constructor gives a response, in their order. -/
def keys (hasType : Bool) : List Bytes :=
  [headerServer, headerConnection, headerContentLength] ++ if hasType then [headerContentType] else []

/-- What the constructor sets up and `ChangeHeader` keeps. -/
structure HeadForm (response : Response) (statusCode : Bytes) : Prop where
  statusLine : response.statusLine = makeStatusLine statusCode
  keys : ∃ hasType, response.headers.map Header.key = keys hasType
  values : ∀ h ∈ response.headers, ¬ crlf <:+: h.value

namespace HeadLemmas

theorem changeFirst_keys (key newValue : Bytes) (hs : List Header) :
    (changeFirst key newValue hs).2.map Header.key = hs.map Header.key := by
  induction hs with
  | nil => rfl
  | cons h hs ih =>
    unfold changeFirst
    split
    · rfl
    · exact congrArg (h.key :: ·) ih

theorem headForm_changeHeader (h : response.HeadForm statusCode) (hvalue : ¬ crlf <:+: newValue) :
    (response.changeHeader key newValue).2.HeadForm statusCode where
  statusLine := h.statusLine
  keys := by
    obtain ⟨hasType, hkeys⟩ := h.keys
    exact ⟨hasType, (changeFirst_keys key newValue response.headers).trans hkeys⟩
  values := forall_changeFirst (fun _ _ => hvalue) h.values

theorem headForm_changeAll (h : response.HeadForm statusCode)
    (hchanges : ∀ change ∈ changes, ¬ crlf <:+: change.2) :
    (response.changeAll changes).HeadForm statusCode := by
  induction changes generalizing response with
  | nil => exact h
  | cons change changes ih =>
    obtain ⟨hvalue, hrest⟩ := List.forall_mem_cons.mp hchanges
    exact ih (headForm_changeHeader h hvalue) hrest

theorem headForm_bare (statusCode : Bytes) (shouldClose : Bool) :
    (bare statusCode shouldClose).HeadForm statusCode where
  statusLine := rfl
  keys := ⟨false, rfl⟩
  values := by
    intro h hmem
    rcases List.mem_append.mp hmem with hmem | hmem
    · exact not_infix_crlf (tidy_commonHeaders shouldClose h hmem).2
    · rw [List.mem_singleton.mp hmem]
      exact not_infix_crlf (by decide)

theorem headForm_ofResource (statusCode : Bytes) (shouldClose : Bool) (url : Bytes) (n : ℕ) :
    (ofResource statusCode shouldClose url n).HeadForm statusCode where
  statusLine := rfl
  keys := by
    refine ⟨url.any (· ∈ dot), ?_⟩
    unfold ofResource contentType
    cases url.any (· ∈ dot) with
    | false => rfl
    | true => rfl
  values := by
    intro h hmem
    rcases List.mem_append.mp hmem with hmem | hmem
    · exact not_infix_crlf (tidy_commonHeaders shouldClose h hmem).2
    · rcases List.mem_cons.mp hmem with rfl | hmem
      · exact not_infix_crlf (not_mem_toDecimal n)
      · exact not_infix_crlf (tidy_contentType url h hmem).2

/-- The constructor comes to its end on what is absent and on a regular file. -/
theorem headForm_new {resourceUrl : Option Bytes} (h : ∀ url ∈ resourceUrl, (disk url).Plain) :
    ∃ response, new disk statusCode shouldClose resourceUrl = some response ∧
      response.HeadForm statusCode := by
  cases resourceUrl with
  | none => exact ⟨_, rfl, headForm_bare statusCode shouldClose⟩
  | some url =>
    have hplain := h url rfl
    by_cases hdisk : disk url = .absent
    · refine ⟨_, ?_, headForm_bare statusCode shouldClose⟩
      simp [new, FileSystem.isFileExists_absent hdisk]
    · obtain ⟨size, hsize⟩ := FileSystem.checkFileSize_of_plain hplain hdisk
      have hexists := FileSystem.isFileExists_of_ne hdisk (FileSystem.told_of_plain hplain)
      refine ⟨_, ?_, headForm_ofResource statusCode shouldClose url size⟩
      simp [new, hexists, hsize]

/-! ## Its lines -/

theorem not_colon_keys (hasType : Bool) : ∀ k ∈ keys hasType, 58 ∉ k := by
  cases hasType <;> decide

theorem not_cr_keys (hasType : Bool) : ∀ k ∈ keys hasType, 13 ∉ k := by
  cases hasType <;> decide

theorem lines_of_headForm (h : response.HeadForm statusCode) (hstatus : ¬ crlf <:+: statusCode) :
    ∀ line ∈ response.lines, line ≠ [] ∧ ¬ crlf <:+: line := by
  obtain ⟨hasType, hkeys⟩ := h.keys
  refine lines_free ?_ fun x hx => ⟨?_, h.values x hx⟩
  · have hversion : 13 ∉ httpVersionTurtle ++ space := by decide
    rw [h.statusLine]
    exact ⟨by simp [makeStatusLine, space, bytes], not_infix_crlf_append hversion hstatus⟩
  · exact not_cr_keys hasType x.key (hkeys ▸ List.mem_map_of_mem hx)

/-- A head is its lines and an empty one, each with a line end. -/
theorem serialize_ofFields (response : Response) :
    response.serialize [] = ofFields crlf (response.lines ++ [[]]) [] := by
  rw [serialize_eq, ofFields, List.flatMap_append]
  simp

theorem split_serialize (hlines : ∀ line ∈ response.lines, line ≠ [] ∧ ¬ crlf <:+: line) :
    split (response.serialize []) crlf = response.lines ++ [[]] := by
  have hnil : ¬ crlf <:+: [] := by decide
  have hfields : ∀ line ∈ response.lines ++ [[]], ¬ crlf <:+: line := by
    refine List.forall_mem_append.mpr ⟨fun line hline => (hlines line hline).2, ?_⟩
    exact List.forall_mem_singleton.mpr hnil
  rw [serialize_ofFields, split_ofFields proper_crlf.unbordered hfields hnil]
  exact List.append_nil _

/-- The first empty line of what is received is the end of the head, whatever comes after it. -/
theorem headerBlock_of_headForm (h : response.HeadForm statusCode) (hstatus : ¬ crlf <:+: statusCode)
    (rest : Bytes) :
    headerBlock (response.serialize [] ++ rest) = some (response.serialize [], rest) := by
  rw [serialize_eq, List.nil_append]
  exact headerBlock_lines _ _ (lines_of_headForm h hstatus) rest

/-! ## The lines of a header -/

/-- A header line starts with the key that it has and with no other. -/
theorem key_prefix_iff {k k' : Bytes} (hk : 58 ∉ k) (hk' : 58 ∉ k') (v : Bytes) :
    k ++ colon <+: k' ++ colon ++ v ↔ k' = k := by
  constructor
  · rintro ⟨t, ht⟩
    have hfield : ¬ colon <:+: k' := fun hin => hk' (hin.subset (by decide))
    rw [List.append_assoc, List.append_assoc] at ht
    rcases separator_after_field proper_colon.unbordered hfield ht with ⟨rfl, -⟩ | ⟨u, rfl, -⟩
    · rfl
    · exact absurd (by simp [colon, bytes]) hk
  · rintro rfl
    exact List.prefix_append _ _

/-- No key starts as the status line does, with an `H`. -/
theorem not_prefix_statusLine (hkey : key ∈ keys true) (statusCode : Bytes) :
    ¬ key ++ colon <+: makeStatusLine statusCode := by
  have hhead : ∀ k ∈ keys true, k ≠ [] ∧ k.head? ≠ some 72 := by decide
  obtain ⟨hne, hletter⟩ := hhead key hkey
  obtain ⟨c, k, rfl⟩ := List.exists_cons_of_ne_nil hne
  show ¬ c :: (k ++ colon) <+: 72 :: _
  rw [List.cons_prefix_cons]
  exact fun h => hletter (congrArg some h.1)

/-- The headers with a key are the lines that start with it: no value and no status text adds one. -/
theorem filter_split (h : response.HeadForm statusCode) (hstatus : ¬ crlf <:+: statusCode)
    (hkey : key ∈ keys true) :
    ((split (response.serialize []) crlf).filter fun line => (key ++ colon).isPrefixOf line) =
      (response.headers.filter fun x => x.key = key).map fun x => x.key ++ colon ++ x.value := by
  obtain ⟨hasType, hkeys⟩ := h.keys
  have hfirst : ¬ (key ++ colon).isPrefixOf response.statusLine = true := by
    rw [List.isPrefixOf_iff_prefix, h.statusLine]
    exact not_prefix_statusLine hkey statusCode
  have hempty : ¬ (key ++ colon).isPrefixOf [] = true := by
    rw [List.isPrefixOf_iff_prefix, List.prefix_nil]
    simp [colon, bytes]
  have hheader : ∀ x ∈ response.headers,
      (key ++ colon).isPrefixOf (x.key ++ colon ++ x.value) = decide (x.key = key) := by
    intro x hx
    have hcolon := not_colon_keys hasType x.key (hkeys ▸ List.mem_map_of_mem hx)
    rw [Bool.eq_iff_iff, List.isPrefixOf_iff_prefix, decide_eq_true_iff]
    exact key_prefix_iff (not_colon_keys true key hkey) hcolon x.value
  rw [split_serialize (lines_of_headForm h hstatus), lines, List.filter_append,
    List.filter_cons_of_neg hfirst, List.filter_cons_of_neg hempty, List.filter_nil, List.append_nil,
    List.filter_map]
  exact congrArg (List.map _) (List.filter_congr hheader)

theorem countKey_split (h : response.HeadForm statusCode) (hstatus : ¬ crlf <:+: statusCode)
    (hkey : key ∈ keys true) :
    countKey key (split (response.serialize []) crlf) =
      (response.headers.map Header.key).count key := by
  rw [countKey, List.countP_eq_length_filter, filter_split h hstatus hkey, List.length_map,
    ← List.countP_eq_length_filter, List.count, List.countP_map]
  refine List.countP_congr fun x _ => ?_
  rw [decide_eq_true_iff, Function.comp_apply, beq_iff_eq]

theorem count_keys_of_required (hasType : Bool) :
    ∀ key ∈ [headerServer, headerConnection, headerContentLength], (keys hasType).count key = 1 := by
  cases hasType <;> decide

theorem unambiguous_of_headForm (h : response.HeadForm statusCode)
    (hstatus : ¬ crlf <:+: statusCode) : response.Unambiguous statusCode := by
  have hlines := lines_of_headForm h hstatus
  obtain ⟨hasType, hkeys⟩ := h.keys
  have hcount : ∀ key ∈ keys true,
      countKey key (split (response.serialize []) crlf) = (keys hasType).count key := by
    intro key hkey
    rw [countKey_split h hstatus hkey, hkeys]
  have hrequired : ∀ key ∈ [headerServer, headerConnection, headerContentLength],
      countKey key (split (response.serialize []) crlf) = 1 := by
    intro key hkey
    rw [hcount key (List.mem_append_left _ hkey), count_keys_of_required hasType key hkey]
  exact {
    appended := fun buffer => rfl
    emptyLine := by
      rw [serialize_eq]
      exact emptyLine_lines _ _
    emptyLine_last := by
      intro before after hparts
      rw [serialize_eq] at hparts
      exact emptyLine_last_lines hlines hparts
    lines := by
      rw [split_serialize hlines, lines, h.statusLine]
      rfl
    server := hrequired _ (by decide)
    connection := hrequired _ (by decide)
    contentLength := hrequired _ (by decide)
    contentType := by
      rw [hcount _ (by decide)]
      cases hasType <;> decide }

/-! ## What a head tells of the path -/

theorem changeAll_congr {response' : Response} (changes : List (Bytes × Bytes))
    (hstatus : response.statusLine = response'.statusLine)
    (hheaders : response.headers = response'.headers) :
    (response.changeAll changes).serialize [] = (response'.changeAll changes).serialize [] := by
  induction changes generalizing response response' with
  | nil =>
    show response.serialize [] = response'.serialize []
    rw [serialize, serialize, hstatus, hheaders]
  | cons change changes ih =>
    refine ih hstatus ?_
    show (changeFirst _ _ _).2 = (changeFirst _ _ _).2
    rw [hheaders]

theorem contentType_of_sameKind {url url' : Bytes} (h : SameKind disk url url') :
    contentType url = contentType url' := by
  have hdot : ∀ u : Bytes, u.any (· ∈ dot) = true ↔ 46 ∈ u := by
    intro u
    simp [dot, bytes]
  have hpred : (fun c : UInt8 => decide (c ∉ dot)) = fun c => decide (c ≠ 46) := by
    funext c
    simp [dot, bytes]
  simp only [contentType, hpred]
  by_cases hurl : 46 ∈ url
  · rw [if_pos ((hdot url).mpr hurl), if_pos ((hdot url').mpr (h.dotted.mp hurl)), h.extension hurl]
  · rw [if_neg (fun hany => hurl ((hdot url).mp hany)),
      if_neg (fun hany => hurl (h.dotted.mpr ((hdot url').mp hany)))]

end HeadLemmas

open HeadLemmas

theorem headText_of_sameKind {url url' : Bytes} (h : SameKind disk url url') :
    headText disk statusCode shouldClose (some url) changes =
      headText disk statusCode shouldClose (some url') changes := by
  simp only [headText, new, h.exist, h.size]
  cases disk.isFileExists url' with
  | none => rfl
  | some found =>
    cases found with
    | false => rfl
    | true =>
      cases disk.checkFileSize url' with
      | none => rfl
      | some n =>
        refine congrArg some (changeAll_congr changes rfl ?_)
        show commonHeaders _ ++ _ :: contentType url = commonHeaders _ ++ _ :: contentType url'
        rw [contentType_of_sameKind h]

/-- Response heads are unambiguous, and tell no more of the path of a resource than the type of its
extension. -/
theorem heads_unambiguous (disk : FileSystem) (statusCode : Bytes) (shouldClose : Bool)
    (changes : List (Bytes × Bytes)) (hstatus : ¬ crlf <:+: statusCode)
    (hchanges : ∀ change ∈ changes, ¬ crlf <:+: change.2) :
    (∀ resourceUrl : Option Bytes, (∀ url ∈ resourceUrl, (disk url).Plain) →
      ∃ response, new disk statusCode shouldClose resourceUrl = some response ∧
        (response.changeAll changes).Unambiguous statusCode) ∧
    ∀ url url', SameKind disk url url' →
      headText disk statusCode shouldClose (some url) changes =
        headText disk statusCode shouldClose (some url') changes := by
  refine ⟨fun resourceUrl hplain => ?_, fun url url' h => headText_of_sameKind h⟩
  obtain ⟨response, hnew, hform⟩ := headForm_new hplain
  exact ⟨response, hnew, unambiguous_of_headForm (headForm_changeAll hform hchanges) hstatus⟩

/-- A path with an empty line and a header in it, and a value that ends in a carriage return. -/
theorem heads_unambiguous_hostile :
    (∃ response, new (fun _ => .regular []) responseOk true
        (some (bytes "a\r\n\r\nServer:b.html")) = some response ∧
      (response.changeAll [(headerContentLength, [55, 13])]).Unambiguous responseOk) ∧
    headText (fun _ => .regular []) responseOk true (some (bytes "a\r\n\r\nServer:b.html"))
        [(headerContentLength, [55, 13])] =
      headText (fun _ => .regular []) responseOk true (some (bytes "c.d.HTML"))
        [(headerContentLength, [55, 13])] := by
  obtain ⟨hnew, hsame⟩ := heads_unambiguous (fun _ => .regular []) responseOk true
    [(headerContentLength, [55, 13])] (by decide) (by decide)
  refine ⟨hnew _ (fun url _ => trivial), hsame _ _ ⟨rfl, rfl, by decide, by decide⟩⟩

end TurtleServer.Http.Response
