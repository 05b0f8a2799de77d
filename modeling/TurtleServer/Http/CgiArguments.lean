import TurtleServer.Http.Server
import TurtleServer.Http.Splitting

/-!
# The arguments of a CGI program

The url of a CGI request is the path of the program with `&` and an argument after it, for each
argument. `ParseCgier` looks for the first `&` after the first `cgi-bin`. When there is none, the
position it adds 1 to is `npos`, the sum wraps around to 0, and the whole url is taken for arguments:
a program without arguments is given its own path as one (`path_becomes_argument`).

* `cgi_arguments_iff`: a url is decoded exactly when it has arguments.
-/

namespace TurtleServer.Http.Cgier

open Lib

/-- The path holds `cgi-bin`, and no `&` after the first of them. -/
def NamesProgram (path : Bytes) : Prop :=
  ∃ before after, cut cgiBin path = some (before, after) ∧ 38 ∉ after

/-- The url of a program with its arguments. -/
def encode (path : Bytes) (arguments : List Bytes) : Bytes :=
  path ++ arguments.flatMap (parameterSeparator ++ ·)

/-- The url is decoded to the program and its arguments, and the argument vector is the program, the
arguments and a null. -/
structure Decodes (path : Bytes) (arguments : List Bytes) : Prop where
  parse : parseCgier (encode path arguments) = ⟨path, arguments, true⟩
  argv : (parseCgier (encode path arguments)).buildArgumentList =
    some ((path :: arguments).map some ++ [none])

namespace ArgumentLemmas

variable {path before after : Bytes} {arguments : List Bytes}

theorem not_infix_name (hafter : 38 ∉ after) : ¬ parameterSeparator <:+: cgiBin ++ after := by
  intro hinfix
  rcases List.mem_append.mp ((List.singleton_infix_iff 38 _).mp hinfix) with hmem | hmem
  · exact absurd hmem (by decide)
  · exact hafter hmem

/-- The program and the text of the arguments are told apart at the first `&`. -/
theorem parseCgier_of_arguments (hcut : cut cgiBin path = some (before, after)) (hafter : 38 ∉ after)
    (text : Bytes) :
    parseCgier (path ++ (parameterSeparator ++ text)) =
      ⟨path, split text parameterSeparator, true⟩ := by
  have hpath : path = before ++ (cgiBin ++ after) := by
    rw [cut_eq hcut, List.append_assoc]
  have hname : cut parameterSeparator ((path ++ (parameterSeparator ++ text)).drop before.length) =
      some (cgiBin ++ after, text) := by
    rw [hpath, List.append_assoc, List.drop_left]
    exact cut_field proper_parameterSeparator.unbordered (not_infix_name hafter) text
  have hne : (path ++ (parameterSeparator ++ text)).isEmpty = false := by
    rw [hpath]
    simp [cgiBin, bytes]
  unfold parseCgier
  rw [hne, cut_append hcut]
  simp only [hname, Bool.false_eq_true, if_false]
  rw [← hpath]

/-- Without arguments there is no `&`, and the path is split. -/
theorem parseCgier_of_nil (hcut : cut cgiBin path = some (before, after)) (hafter : 38 ∉ after) :
    parseCgier path = ⟨path, split path parameterSeparator, true⟩ := by
  have hpath : path = before ++ (cgiBin ++ after) := by
    rw [cut_eq hcut, List.append_assoc]
  have hname : cut parameterSeparator (path.drop before.length) = none := by
    rw [hpath, List.drop_left]
    exact cut_eq_none_iff.mpr (not_infix_name hafter)
  have hne : path.isEmpty = false := by
    rw [hpath]
    simp [cgiBin, bytes]
  unfold parseCgier
  rw [hne, hcut]
  simp only [hname, Bool.false_eq_true, if_false]

theorem flatMap_eq_ofFields (fields : List Bytes) (last : Bytes) :
    (fields ++ [last]).flatMap (parameterSeparator ++ ·) =
      parameterSeparator ++ ofFields parameterSeparator fields last := by
  induction fields with
  | nil => simp [ofFields]
  | cons field fields ih =>
    rw [List.cons_append, List.flatMap_cons, ih, ofFields_cons, List.append_assoc]

/-- Arguments are split where they were put together. -/
theorem split_arguments {fields : List Bytes} {last : Bytes}
    (h : ∀ a ∈ fields ++ [last], a ≠ [] ∧ 38 ∉ a) :
    split (ofFields parameterSeparator fields last) parameterSeparator = fields ++ [last] := by
  have hfree : ∀ a ∈ fields ++ [last], ¬ parameterSeparator <:+: a :=
    fun a ha hinfix => (h a ha).2 ((List.singleton_infix_iff 38 a).mp hinfix)
  have hlast : last ≠ [] := (h last (List.mem_append_right _ List.mem_cons_self)).1
  rw [split_ofFields proper_parameterSeparator.unbordered (fun a ha => hfree a (List.mem_append_left _ ha))
    (hfree last (List.mem_append_right _ List.mem_cons_self))]
  rw [if_neg (by simpa using hlast)]

end ArgumentLemmas

open ArgumentLemmas

/-- The url of a program is decoded exactly when there are arguments. -/
theorem cgi_arguments_iff {path : Bytes} {arguments : List Bytes} (hpath : NamesProgram path)
    (harguments : ∀ a ∈ arguments, a ≠ [] ∧ 38 ∉ a) :
    Decodes path arguments ↔ arguments ≠ [] := by
  obtain ⟨before, after, hcut, hafter⟩ := hpath
  have hne : path ≠ [] := by
    rw [cut_eq hcut]
    simp [cgiBin, bytes]
  constructor
  · rintro hdecodes rfl
    have hparse : parseCgier path = ⟨path, [], true⟩ := by
      have hparse := hdecodes.parse
      rwa [encode, List.flatMap_nil, List.append_nil] at hparse
    rw [parseCgier_of_nil hcut hafter] at hparse
    have hnil : split path parameterSeparator = [] := congrArg Cgier.cgiArguments hparse
    exact hne ((split_eq_nil_iff proper_parameterSeparator.ne_nil).mp hnil)
  · intro hsome
    obtain ⟨fields, last, rfl⟩ := (List.eq_nil_or_concat' arguments).resolve_left hsome
    have hparse : parseCgier (encode path (fields ++ [last])) = ⟨path, fields ++ [last], true⟩ := by
      rw [encode, flatMap_eq_ofFields, parseCgier_of_arguments hcut hafter,
        split_arguments harguments]
    refine ⟨hparse, ?_⟩
    rw [hparse, buildArgumentList, if_neg (by simpa using hne)]

/-- The documented example, with two arguments. -/
theorem cgi_arguments_add :
    NamesProgram (bytes "/cgi-bin/add") ∧
      (∀ a ∈ [bytes "1", bytes "2"], a ≠ [] ∧ 38 ∉ a) ∧
      (Decodes (bytes "/cgi-bin/add") [bytes "1", bytes "2"] ↔ [bytes "1", bytes "2"] ≠ []) :=
  ⟨⟨bytes "/", bytes "/add", by decide, by decide⟩, by decide,
    cgi_arguments_iff ⟨bytes "/", bytes "/add", by decide, by decide⟩ (by decide)⟩

/-- A program without arguments. -/
theorem path_becomes_argument :
    NamesProgram (bytes "/cgi-bin/helloworld") ∧
      parseCgier (encode (bytes "/cgi-bin/helloworld") []) =
        ⟨bytes "/cgi-bin/helloworld", [bytes "/cgi-bin/helloworld"], true⟩ ∧
      ¬ Decodes (bytes "/cgi-bin/helloworld") [] := by
  have hparse : parseCgier (encode (bytes "/cgi-bin/helloworld") []) =
      ⟨bytes "/cgi-bin/helloworld", [bytes "/cgi-bin/helloworld"], true⟩ := by decide
  refine ⟨⟨bytes "/", bytes "/helloworld", by decide, by decide⟩, hparse, fun hdecodes => ?_⟩
  have harguments := congrArg Cgier.cgiArguments (hparse.symm.trans hdecodes.parse)
  exact List.cons_ne_nil _ _ harguments

end TurtleServer.Http.Cgier
