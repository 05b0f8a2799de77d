import TurtleServer.Http.Message
import TurtleServer.Http.Splitting

/-!
# Header lines

`Header(line)` splits the line at its colons and joins all tokens but the first again. `Split` makes no
token of what follows a colon at the end, so such a line loses that colon, or is taken for invalid when
there is no other (`empty_value_rejected`). All other lines are read as they stand:

* `parse_of_colon`: what is made of a line, by its first colon.
* `header_round_trip_iff`: parsing and serialising are inverse exactly for the lines that do not end in
  a colon.
-/

namespace TurtleServer.Http.Header

open Lib

/-- What should be made of a line: with a colon it is a header of the text before the first one and the
whole text after it, which serialises to the line again; without a colon it is invalid. -/
structure ReadsLine (line : Bytes) : Prop where
  valid : 58 ∈ line → (parse line).valid = true
  key : 58 ∈ line → (parse line).key = line.takeWhile (· ≠ 58)
  value : 58 ∈ line → (parse line).value = (line.dropWhile (· ≠ 58)).tail
  serialize : 58 ∈ line → (parse line).serialize = line ++ crlf
  invalid : 58 ∉ line → (parse line).valid = false

namespace ParseLemmas

variable {line k v : Bytes}

theorem not_infix_colon (h : 58 ∉ k) : ¬ colon <:+: k :=
  fun hinfix => h ((List.singleton_infix_iff 58 k).mp hinfix)

/-- The first colon of a line. -/
theorem exists_colon (h : 58 ∈ line) : ∃ k v, line = k ++ (colon ++ v) ∧ 58 ∉ k ∧
    line.takeWhile (· ≠ 58) = k ∧ (line.dropWhile (· ≠ 58)).tail = v := by
  obtain ⟨k, v, rfl, hk⟩ := List.eq_append_cons_of_mem h
  have hne : ∀ c ∈ k, (decide (c ≠ 58)) = true :=
    fun c hc => decide_eq_true fun heq => hk (heq ▸ hc)
  refine ⟨k, v, rfl, hk, ?_, ?_⟩
  · rw [List.takeWhile_append_of_pos hne, List.takeWhile_cons_of_neg (by simp), List.append_nil]
  · rw [List.dropWhile_append_of_pos hne, List.dropWhile_cons_of_neg (by simp), List.tail_cons]

theorem parse_of_no_colon (h : 58 ∉ line) : (parse line).valid = false := by
  have hsplit := split_of_none (cut_eq_none_iff.mpr (not_infix_colon h))
  unfold parse
  rw [hsplit]
  cases line with
  | nil => rfl
  | cons c line => rfl

/-- A line by its first colon. -/
theorem parse_of_colon (hk : 58 ∉ k) (v : Bytes) :
    parse (k ++ (colon ++ v)) =
      if v.isEmpty then { key := [], value := [], valid := false }
      else { key := k, value := join (split v colon) colon } := by
  have hsplit : split (k ++ (colon ++ v)) colon = k :: split v colon :=
    split_of_some proper_colon.ne_nil (cut_field proper_colon.unbordered (not_infix_colon hk) v)
  have hnil : split v colon = [] ↔ v = [] := split_eq_nil_iff proper_colon.ne_nil
  unfold parse
  rw [hsplit]
  cases hv : split v colon with
  | nil =>
    rw [if_pos (List.isEmpty_iff.mpr (hnil.mp hv))]
  | cons token tokens =>
    have hne : ¬ v.isEmpty := by
      intro h
      rw [hnil.mpr (List.isEmpty_iff.mp h)] at hv
      exact List.cons_ne_nil _ _ hv.symm
    rw [if_neg hne]
    cases tokens with
    | nil => simp [join]
    | cons token' tokens => rfl

/-- The text after the first colon ends as the line does. -/
theorem getLast?_of_colon (hv : v ≠ []) : (k ++ (colon ++ v)).getLast? = v.getLast? := by
  rw [List.getLast?_append_of_ne_nil _ (List.append_ne_nil_of_right_ne_nil _ hv),
    List.getLast?_append_of_ne_nil _ hv]

/-- The value is the whole text after the first colon, unless it ends in a colon. -/
theorem join_split_colon_iff (v : Bytes) :
    join (split v colon) colon = v ↔ v.getLast? ≠ some 58 := by
  constructor
  · intro heq hlast
    have hlost : join (split v colon) colon ++ [58] = v := join_split_of_last hlast
    rw [heq] at hlost
    exact absurd hlost (by simp)
  · intro hlast
    exact join_split hlast

theorem parse_eq_iff (hk : 58 ∉ k) :
    parse (k ++ (colon ++ v)) = { key := k, value := v } ↔ v ≠ [] ∧ v.getLast? ≠ some 58 := by
  rw [parse_of_colon hk]
  rcases eq_or_ne v [] with rfl | hv
  · exact iff_of_false (by simp) (by simp)
  · rw [if_neg (by simpa using hv), ← join_split_colon_iff]
    simp [hv]

theorem readsLine_of_colon (hparse : parse (k ++ (colon ++ v)) = { key := k, value := v })
    (htake : (k ++ (colon ++ v)).takeWhile (· ≠ 58) = k)
    (hdrop : ((k ++ (colon ++ v)).dropWhile (· ≠ 58)).tail = v) : ReadsLine (k ++ (colon ++ v)) where
  valid _ := by rw [hparse]
  key _ := by rw [hparse, htake]
  value _ := by rw [hparse, hdrop]
  serialize _ := by
    rw [hparse]
    simp [Header.serialize]
  invalid h := absurd (List.mem_append_right _ List.mem_cons_self) h

end ParseLemmas

open ParseLemmas

/-- Parsing and serialising are inverse exactly for the lines that do not end in a colon. -/
theorem header_round_trip_iff (line k v : Bytes) :
    (ReadsLine line ↔ line.getLast? ≠ some 58) ∧
    (58 ∉ k → (parse ((serialize { key := k, value := v }).rdrop 2) = { key := k, value := v } ↔
      v ≠ [] ∧ v.getLast? ≠ some 58)) := by
  constructor
  · by_cases hmem : 58 ∈ line
    · obtain ⟨k, v, rfl, hk, htake, hdrop⟩ := exists_colon hmem
      constructor
      · intro hreads hlast
        have hvalid := hreads.valid hmem
        have hvalue := (hreads.value hmem).trans hdrop
        rw [parse_of_colon hk] at hvalid hvalue
        rcases eq_or_ne v [] with rfl | hv
        · exact Bool.false_ne_true hvalid
        · rw [if_neg (by simpa using hv)] at hvalue
          rw [getLast?_of_colon hv] at hlast
          exact (join_split_colon_iff v).mp hvalue hlast
      · intro hlast
        have hv : v ≠ [] := by
          rintro rfl
          exact hlast (by simp [colon, bytes])
        rw [getLast?_of_colon hv] at hlast
        exact readsLine_of_colon ((parse_eq_iff hk).mpr ⟨hv, hlast⟩) htake hdrop
    · refine iff_of_true ?_ fun hlast => hmem (List.mem_of_getLast? hlast)
      exact ⟨fun h => absurd h hmem, fun h => absurd h hmem, fun h => absurd h hmem,
        fun h => absurd h hmem, fun _ => parse_of_no_colon hmem⟩
  · intro hk
    have htext : (serialize { key := k, value := v }).rdrop 2 = k ++ (colon ++ v) := by
      have hlength : (k ++ (colon ++ v) ++ crlf).length - 2 = (k ++ (colon ++ v)).length := by
        rw [List.length_append]
        rfl
      rw [Header.serialize, List.append_assoc k, List.rdrop, hlength, List.take_left]
    rw [htext]
    exact parse_eq_iff hk

/-- A header without a value, and one whose value ends in a colon. -/
theorem empty_value_rejected :
    (parse (bytes "Host:")).valid = false ∧ (parse (bytes "Host:a:")).value = bytes "a" ∧
      ¬ ReadsLine (bytes "Host:") ∧ ¬ ReadsLine (bytes "Host:a:") := by
  refine ⟨by decide, by decide, fun h => ?_, fun h => ?_⟩
  · exact absurd (h.valid (by decide)) (by decide)
  · exact absurd (h.value (by decide)) (by decide)

end TurtleServer.Http.Header
