import TurtleServer.Http.Utils
import TurtleServer.Lib.Fields

/-!
# What `Split` and `Join` do

`Split` keeps empty tokens, at the start and between two delimiters, but not at the end: a text that
ends in a delimiter is split as if it did not (`split_ofFields`). `Join` gives back the text but for
that delimiter (`append_join_split`), and `Split` gives back the tokens that were joined when the
delimiter cannot overlap itself (`split_join_inverse`).
-/

namespace TurtleServer.Http

open Lib

variable {delim str token rest last : Bytes} {tokens fields : List Bytes}

theorem proper_crlf : Proper crlf := ⟨13, [10], rfl, by decide⟩
theorem proper_space : Proper space := proper_singleton 32
theorem proper_colon : Proper colon := proper_singleton 58
theorem proper_parameterSeparator : Proper parameterSeparator := proper_singleton 38

theorem not_infix_crlf_append {a b : Bytes} (ha : 13 ∉ a) (hb : ¬ crlf <:+: b) :
    ¬ crlf <:+: a ++ b := by
  have hskip : cut crlf (a ++ b) = (cut crlf b).map fun r => (a ++ r.1, r.2) := cut_skip ha b
  rw [← cut_eq_none_iff, hskip, cut_eq_none_iff.mpr hb]
  rfl

theorem not_infix_crlf {a : Bytes} (ha : 13 ∉ a) : ¬ crlf <:+: a :=
  fun hin => ha (hin.subset (by decide))

namespace SplitLemmas

/-- More rounds than there are characters make no difference. -/
theorem splitLoop_of_length_le (hdelim : delim ≠ []) {m n : ℕ} (hm : str.length ≤ m)
    (hn : str.length ≤ n) : splitLoop delim m str = splitLoop delim n str := by
  have hpos : 0 < delim.length := List.length_pos_of_ne_nil hdelim
  induction m generalizing n str with
  | zero =>
    have hstr : str = [] := List.length_eq_zero_iff.mp (Nat.le_zero.mp hm)
    subst hstr
    cases n with
    | zero => rfl
    | succ n => simp [splitLoop, cut, hdelim]
  | succ m ih =>
    cases n with
    | zero =>
      have hstr : str = [] := List.length_eq_zero_iff.mp (Nat.le_zero.mp hn)
      subst hstr
      simp [splitLoop, cut, hdelim]
    | succ n =>
      cases hc : cut delim str with
      | none => simp only [splitLoop, hc]
      | some r =>
        have hlength := length_of_cut hc
        have hrest : splitLoop delim m r.2 = splitLoop delim n r.2 := ih (by omega) (by omega)
        simp only [splitLoop, hc, hrest]

end SplitLemmas

open SplitLemmas

theorem split_of_none (h : cut delim str = none) :
    split str delim = if str.isEmpty then [] else [str] := by
  unfold split
  cases str.length with
  | zero => rfl
  | succ n => simp only [splitLoop, h]

theorem split_of_some (hdelim : delim ≠ []) (h : cut delim str = some (token, rest)) :
    split str delim = token :: split rest delim := by
  have hpos : 0 < delim.length := List.length_pos_of_ne_nil hdelim
  have hlength := length_of_cut h
  obtain ⟨n, hn⟩ : ∃ n, str.length = n + 1 := ⟨str.length - 1, by omega⟩
  have hrest : splitLoop delim n rest = splitLoop delim rest.length rest :=
    splitLoop_of_length_le hdelim (by omega) (le_refl _)
  unfold split
  rw [hn]
  simp only [splitLoop, h, hrest]

theorem split_eq_nil_iff (hdelim : delim ≠ []) : split str delim = [] ↔ str = [] := by
  cases hc : cut delim str with
  | none =>
    rw [split_of_none hc]
    cases str with
    | nil => simp
    | cons c str => simp
  | some r =>
    rw [split_of_some hdelim hc, cut_eq hc]
    exact iff_of_false (List.cons_ne_nil _ _) (by simp [hdelim])

/-- The tokens are the fields; the last one only if it is not empty. -/
theorem split_ofFields (hdelim : Unbordered delim) (hfields : ∀ field ∈ fields, ¬ delim <:+: field)
    (hlast : ¬ delim <:+: last) :
    split (ofFields delim fields last) delim = fields ++ if last.isEmpty then [] else [last] := by
  induction fields with
  | nil => exact split_of_none (cut_eq_none_iff.mpr hlast)
  | cons field fields ih =>
    obtain ⟨hfield, hfields⟩ := List.forall_mem_cons.mp hfields
    have hne : delim ≠ [] := fun hnil => hfield (hnil ▸ List.nil_infix)
    rw [ofFields_cons, split_of_some hne (cut_field hdelim hfield _), ih hfields]
    rfl

theorem join_cons (hrest : tokens ≠ []) :
    join (token :: tokens) delim = token ++ (delim ++ join tokens delim) := by
  obtain ⟨t, ts, rfl⟩ := List.exists_cons_of_ne_nil hrest
  simp [join, List.intercalate]

theorem join_fields (fields : List Bytes) (last : Bytes) :
    join (fields ++ [last]) delim = ofFields delim fields last := by
  induction fields with
  | nil => simp [join, ofFields]
  | cons field fields ih =>
    rw [List.cons_append, join_cons (List.append_ne_nil_of_right_ne_nil _ (List.cons_ne_nil _ _)), ih,
      ofFields_cons]

/-! ## Splitting what was joined -/

/-- The loop of `Split`, with `str` the string from `curr` on, ends and adds `tokens`. -/
inductive SplitRun (delim : Bytes) : Bytes → List Bytes → Prop
  | round {str token rest : Bytes} {tokens : List Bytes} : cut delim str = some (token, rest) →
      SplitRun delim rest tokens → SplitRun delim str (token :: tokens)
  | last {str : Bytes} : cut delim str = none →
      SplitRun delim str (if str.isEmpty then [] else [str])

theorem split_run (hdelim : delim ≠ []) (str : Bytes) : SplitRun delim str (split str delim) := by
  induction str using cut_induction hdelim with
  | unmatched str hc =>
    rw [split_of_none hc]
    exact .last hc
  | matched str token rest hc ih =>
    rw [split_of_some hdelim hc]
    exact .round hc ih

theorem not_infix_of_mem_split (hdelim : delim ≠ []) (str : Bytes) :
    ∀ token ∈ split str delim, ¬ delim <:+: token := by
  induction str using cut_induction hdelim with
  | unmatched str hc =>
    intro token htoken
    rw [split_of_none hc] at htoken
    cases str with
    | nil => exact absurd htoken List.not_mem_nil
    | cons c str =>
      obtain rfl := List.mem_singleton.mp htoken
      exact cut_eq_none_iff.mp hc
  | matched str token rest hc ih =>
    rw [split_of_some hdelim hc]
    exact List.forall_mem_cons.mpr ⟨cut_before hdelim hc, ih⟩

/-- `Join` undoes `Split` but for a delimiter that was the last found and with nothing after it. -/
theorem append_join_split (hdelim : delim ≠ []) (str : Bytes) :
    str = join (split str delim) delim ++
      if frames delim str ≠ [] ∧ unfinished delim str = [] then delim else [] := by
  induction str using cut_induction hdelim with
  | unmatched str hc =>
    obtain ⟨hframes, -⟩ := frames_of_none hc
    rw [split_of_none hc, hframes]
    cases str with
    | nil => simp [join]
    | cons c str => simp [join]
  | matched str token rest hc ih =>
    obtain ⟨hframes, hunfinished⟩ := frames_of_some hdelim hc
    rw [split_of_some hdelim hc, hframes, hunfinished]
    rcases eq_or_ne rest [] with rfl | hrest
    · rw [cut_eq hc]
      simp [split, splitLoop, unfinished, cutAll, join]
    · -- what is left after the delimiter is a frame or is unfinished
      have hmore : unfinished delim rest = [] → frames delim rest ≠ [] := by
        intro hu hf
        refine hrest ?_
        rw [← flatten_frames hdelim rest, hu, hf]
        rfl
      have hiff : ((token ++ delim) :: frames delim rest ≠ [] ∧ unfinished delim rest = []) ↔
          frames delim rest ≠ [] ∧ unfinished delim rest = [] :=
        ⟨fun h => ⟨hmore h.2, h.2⟩, fun h => ⟨List.cons_ne_nil _ _, h.2⟩⟩
      simp only [hiff]
      rw [join_cons (fun hnil => hrest ((split_eq_nil_iff hdelim).mp hnil)), List.append_assoc,
        List.append_assoc, ← ih, ← List.append_assoc]
      exact cut_eq hc

theorem join_split_matchEnds (hdelim : delim ≠ []) (str : Bytes) :
    (str = join (split str delim) delim ∨ str = join (split str delim) delim ++ delim) ∧
      (str = join (split str delim) delim ++ delim ↔
        (matchEnds delim str).getLast? = some str.length) := by
  have hjoin := append_join_split hdelim str
  rw [getLast?_matchEnds hdelim]
  by_cases hend : frames delim str ≠ [] ∧ unfinished delim str = []
  · rw [if_pos hend] at hjoin
    exact ⟨.inr hjoin, iff_of_true hjoin hend⟩
  · rw [if_neg hend, List.append_nil] at hjoin
    refine ⟨.inl hjoin, iff_of_false (fun hdouble => hdelim ?_) hend⟩
    exact List.self_eq_append_right.mp (hjoin.symm.trans hdouble)

/-- Joined tokens are split where they were joined. -/
theorem split_join (hdelim : Unbordered delim) (htokens : ∀ token ∈ tokens, ¬ delim <:+: token)
    (hlast : tokens.getLast? ≠ some []) : split (join tokens delim) delim = tokens := by
  rcases List.eq_nil_or_concat tokens with rfl | ⟨fields, last, rfl⟩
  · rfl
  · rw [List.concat_eq_append] at htokens hlast ⊢
    obtain ⟨hfields, hfree⟩ := List.forall_mem_append.mp htokens
    have hne : last ≠ [] := by simpa using hlast
    rw [join_fields, split_ofFields hdelim hfields (hfree last (List.mem_singleton.mpr rfl)),
      if_neg (by simpa using hne)]

/-- `Split` and `Join` are inverse up to one delimiter at the end. -/
theorem split_join_inverse (delim : Bytes) :
    (delim ≠ [] → ∀ str, SplitRun delim str (split str delim) ∧
      (∀ token ∈ split str delim, ¬ delim <:+: token) ∧
      (str = join (split str delim) delim ∨ str = join (split str delim) delim ++ delim) ∧
      (str = join (split str delim) delim ++ delim ↔
        (matchEnds delim str).getLast? = some str.length)) ∧
    (Unbordered delim → ∀ tokens : List Bytes, (∀ token ∈ tokens, ¬ delim <:+: token) →
      tokens.getLast? ≠ some [] → split (join tokens delim) delim = tokens) := by
  refine ⟨fun hdelim str => ?_, fun hdelim tokens htokens hlast => split_join hdelim htokens hlast⟩
  exact ⟨split_run hdelim str, not_infix_of_mem_split hdelim str, join_split_matchEnds hdelim str⟩

/-- `"GET\r\n"` loses its delimiter, and `"\r\nGET"` comes back from its tokens. -/
theorem split_join_inverse_crlf :
    (matchEnds crlf [71, 69, 84, 13, 10]).getLast? = some 5 ∧
      [71, 69, 84, 13, 10] = join (split [71, 69, 84, 13, 10] crlf) crlf ++ crlf ∧
      split (join [[], [71, 69, 84]] crlf) crlf = [[], [71, 69, 84]] := by
  have hends : (matchEnds crlf [71, 69, 84, 13, 10]).getLast? = some 5 := by decide
  obtain ⟨hsplit, hjoin⟩ := split_join_inverse crlf
  obtain ⟨-, -, -, hiff⟩ := hsplit proper_crlf.ne_nil [71, 69, 84, 13, 10]
  exact ⟨hends, hiff.mpr hends, hjoin proper_crlf.unbordered _ (by decide) (by decide)⟩

/-- A delimiter that can overlap itself: `"aaa"` ends in `"aa"`, but the match found is the other. -/
example : (matchEnds [97, 97] [97, 97, 97] : List ℕ) = [2] ∧ split [97, 97, 97] [97, 97] = [[], [97]] := by
  decide

/-! ## One character -/

/-- `Join` undoes `Split`. -/
theorem join_split {sep : UInt8} (h : str.getLast? ≠ some sep) : join (split str [sep]) [sep] = str := by
  rcases (join_split_matchEnds (List.cons_ne_nil sep []) str).1 with hjoin | hjoin
  · exact hjoin.symm
  · rw [hjoin, List.getLast?_concat] at h
    exact absurd rfl h

/-- `Join` undoes `Split` but for a delimiter at the end. -/
theorem join_split_of_last {sep : UInt8} (h : str.getLast? = some sep) :
    join (split str [sep]) [sep] ++ [sep] = str := by
  have hsep : [sep] ≠ [] := List.cons_ne_nil sep []
  have hstr := flatten_frames hsep str
  -- the last character would be in what is unfinished, which holds no delimiter
  have hunfinished : unfinished [sep] str = [] := by
    rcases eq_or_ne (unfinished [sep] str) [] with hnil | hne
    · exact hnil
    · rw [← hstr, List.getLast?_append_of_ne_nil _ hne] at h
      have hmem : [sep] <:+: unfinished [sep] str :=
        (List.singleton_infix_iff sep _).mpr (List.mem_of_getLast? h)
      exact absurd hmem (cut_eq_none_iff.mp (cut_unfinished hsep str))
  have hframes : frames [sep] str ≠ [] := by
    intro hnil
    rw [hnil, hunfinished] at hstr
    subst hstr
    exact absurd h nofun
  have hjoin := append_join_split hsep str
  rw [if_pos ⟨hframes, hunfinished⟩] at hjoin
  exact hjoin.symm

end TurtleServer.Http
