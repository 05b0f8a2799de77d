import Mathlib.Tactic

/-!
# Cutting a stream at a terminator

`cut pat s` looks for the first occurrence of `pat`. `frames pat s` cuts `s` again and again: the
pieces up to and including a terminator are the complete frames of `s`, and what comes after the last
of them is `unfinished`.

The rule for streams that arrive piece by piece is `frames_append`: the frames of `s ++ t` are those
of `s`, and then those of what `s` has left unfinished with `t` after it. It rests on `cut_append`: a
first occurrence stays the first occurrence when more arrives.
-/

namespace TurtleServer.Lib

variable {α : Type*} [DecidableEq α]

/-- What comes before and what comes after the first occurrence of `pat`. -/
def cut (pat : List α) : List α → Option (List α × List α)
  | [] => if pat.isEmpty then some ([], []) else none
  | x :: xs =>
    if pat.isPrefixOf (x :: xs) then some ([], (x :: xs).drop pat.length)
    else (cut pat xs).map fun (before, after) => (x :: before, after)

/-- The complete frames, at most `bound` of them, and the rest. -/
def cutAll (pat : List α) : ℕ → List α → List (List α) × List α
  | 0, s => ([], s)
  | bound + 1, s =>
    match cut pat s with
    | none => ([], s)
    | some (before, after) =>
      let (fs, rest) := cutAll pat bound after
      ((before ++ pat) :: fs, rest)

/-- The frames of `s` that are complete, each with its terminator. -/
def frames (pat s : List α) : List (List α) := (cutAll pat s.length s).1

/-- What comes after the last complete frame. -/
def unfinished (pat s : List α) : List α := (cutAll pat s.length s).2

/-- Where pieces that follow each other end, the first of them starting at `n`. -/
def endsFrom (n : ℕ) : List (List α) → List ℕ
  | [] => []
  | piece :: pieces => (n + piece.length) :: endsFrom (n + piece.length) pieces

/-- Where the occurrences of `pat` end that are found from the left, each after the one before. -/
def matchEnds (pat s : List α) : List ℕ := endsFrom 0 (frames pat s)

variable {pat s t before after : List α}

theorem cut_cons_here {x : α} (h : pat <+: x :: s) :
    cut pat (x :: s) = some ([], (x :: s).drop pat.length) := by
  rw [cut, if_pos (List.isPrefixOf_iff_prefix.mpr h)]

theorem cut_cons_later {x : α} (h : ¬ pat <+: x :: s) :
    cut pat (x :: s) = (cut pat s).map fun r => (x :: r.1, r.2) := by
  rw [cut, if_neg (fun hp => h (List.isPrefixOf_iff_prefix.mp hp))]

theorem cut_eq (h : cut pat s = some (before, after)) : s = before ++ pat ++ after := by
  induction s generalizing before with
  | nil =>
    cases pat with
    | nil =>
      cases h
      rfl
    | cons p pat => exact absurd h (by simp [cut])
  | cons x xs ih =>
    by_cases hp : pat <+: x :: xs
    · rw [cut_cons_here hp] at h
      cases h
      exact (List.prefix_iff_eq_append.mp hp).symm
    · rw [cut_cons_later hp] at h
      obtain ⟨⟨b, a⟩, hr, hb⟩ := Option.map_eq_some_iff.mp h
      cases hb
      rw [ih hr]
      rfl

theorem length_of_cut (h : cut pat s = some (before, after)) :
    before.length + pat.length + after.length = s.length := by
  rw [cut_eq h, List.length_append, List.length_append]

theorem cut_append (h : cut pat s = some (before, after)) (t : List α) :
    cut pat (s ++ t) = some (before, after ++ t) := by
  induction s generalizing before with
  | nil =>
    cases pat with
    | nil =>
      cases h
      cases t <;> rfl
    | cons p pat => exact absurd h (by simp [cut])
  | cons x xs ih =>
    have hlength : pat.length ≤ (x :: xs).length := by
      have := length_of_cut h
      omega
    have hiff : pat <+: x :: (xs ++ t) ↔ pat <+: x :: xs := by
      rw [← List.cons_append]
      refine ⟨fun hp => ?_, fun hp => hp.trans (List.prefix_append _ _)⟩
      exact List.prefix_of_prefix_length_le hp (List.prefix_append _ _) hlength
    rw [List.cons_append]
    by_cases hp : pat <+: x :: xs
    · rw [cut_cons_here hp] at h
      rw [cut_cons_here (hiff.mpr hp), ← List.cons_append, List.drop_append_of_le_length hlength]
      cases h
      rfl
    · rw [cut_cons_later hp] at h
      obtain ⟨⟨b, a⟩, hr, hb⟩ := Option.map_eq_some_iff.mp h
      cases hb
      rw [cut_cons_later (fun hp' => hp (hiff.mp hp')), ih hr]
      rfl

theorem cut_self_append (hpat : pat ≠ []) (t : List α) : cut pat (pat ++ t) = some ([], t) := by
  cases pat with
  | nil => exact absurd rfl hpat
  | cons p pat =>
    have hp : p :: pat <+: p :: (pat ++ t) := List.prefix_append (p :: pat) t
    rw [List.cons_append, cut_cons_here hp]
    simp

/-- Nothing starts in a stretch without the first element of the terminator. -/
theorem cut_skip {p : α} {l : List α} (hl : p ∉ l) (s : List α) :
    cut (p :: pat) (l ++ s) = (cut (p :: pat) s).map fun r => (l ++ r.1, r.2) := by
  induction l with
  | nil => simp
  | cons x l ih =>
    obtain ⟨hne, hnot⟩ := List.ne_and_not_mem_of_not_mem_cons hl
    have hp : ¬ p :: pat <+: x :: (l ++ s) := fun hp => hne (List.cons_prefix_cons.mp hp).1
    rw [List.cons_append, cut_cons_later hp, ih hnot, Option.map_map]
    rfl

/-- A rule to prove something of every stream: it holds of one without a terminator, and of one with a
terminator when it holds of what comes after the first. -/
@[elab_as_elim]
theorem cut_induction (hpat : pat ≠ []) {motive : List α → Prop}
    (unmatched : ∀ s, cut pat s = none → motive s)
    (matched : ∀ s before after, cut pat s = some (before, after) → motive after → motive s)
    (s : List α) : motive s := by
  have hpos : 0 < pat.length := List.length_pos_of_ne_nil hpat
  induction hn : s.length using Nat.strong_induction_on generalizing s with
  | _ n ih =>
    cases hc : cut pat s with
    | none => exact unmatched s hc
    | some r =>
      have hlength := length_of_cut hc
      exact matched s r.1 r.2 hc (ih r.2.length (by omega) r.2 rfl)

/-! ## Frames -/

/-- More rounds than there are elements make no difference. -/
theorem cutAll_of_length_le (hpat : pat ≠ []) {m n : ℕ} (hm : s.length ≤ m) (hn : s.length ≤ n) :
    cutAll pat m s = cutAll pat n s := by
  have hpos : 0 < pat.length := List.length_pos_of_ne_nil hpat
  induction m generalizing n s with
  | zero =>
    have hs : s = [] := List.length_eq_zero_iff.mp (Nat.le_zero.mp hm)
    subst hs
    cases n with
    | zero => rfl
    | succ n => simp [cutAll, cut, hpat]
  | succ m ih =>
    cases n with
    | zero =>
      have hs : s = [] := List.length_eq_zero_iff.mp (Nat.le_zero.mp hn)
      subst hs
      simp [cutAll, cut, hpat]
    | succ n =>
      cases hc : cut pat s with
      | none => simp only [cutAll, hc]
      | some r =>
        have hlength := length_of_cut hc
        have hrest : cutAll pat m r.2 = cutAll pat n r.2 := ih (by omega) (by omega)
        simp only [cutAll, hc, hrest]

theorem frames_of_none (h : cut pat s = none) : frames pat s = [] ∧ unfinished pat s = s := by
  unfold frames unfinished
  cases hs : s.length with
  | zero => exact ⟨rfl, rfl⟩
  | succ n => simp [cutAll, h]

theorem frames_of_some (hpat : pat ≠ []) (h : cut pat s = some (before, after)) :
    frames pat s = (before ++ pat) :: frames pat after ∧
      unfinished pat s = unfinished pat after := by
  have hpos : 0 < pat.length := List.length_pos_of_ne_nil hpat
  have hlength := length_of_cut h
  obtain ⟨n, hn⟩ : ∃ n, s.length = n + 1 := ⟨s.length - 1, by omega⟩
  have hrest : cutAll pat n after = cutAll pat after.length after :=
    cutAll_of_length_le hpat (by omega) (le_refl _)
  constructor
  · simp only [frames, hn, cutAll, h, hrest]
  · simp only [unfinished, hn, cutAll, h, hrest]

theorem frames_append (hpat : pat ≠ []) (s t : List α) :
    frames pat (s ++ t) = frames pat s ++ frames pat (unfinished pat s ++ t) ∧
      unfinished pat (s ++ t) = unfinished pat (unfinished pat s ++ t) := by
  induction s using cut_induction hpat with
  | unmatched s hc =>
    obtain ⟨hf, hu⟩ := frames_of_none hc
    rw [hf, hu]
    exact ⟨rfl, rfl⟩
  | matched s before after hc ih =>
    -- a frame found in `s` is found in `s ++ t`
    obtain ⟨hf, hu⟩ := frames_of_some hpat hc
    obtain ⟨hf', hu'⟩ := frames_of_some hpat (cut_append hc t)
    obtain ⟨ihf, ihu⟩ := ih
    rw [hf, hu, hf', hu', ihf, ihu]
    exact ⟨rfl, rfl⟩

/-- The rest of a stream holds no complete frame. -/
theorem frames_unfinished (hpat : pat ≠ []) (s : List α) :
    frames pat (unfinished pat s) = [] ∧ unfinished pat (unfinished pat s) = unfinished pat s := by
  obtain ⟨hf, hu⟩ := frames_append hpat s []
  rw [List.append_nil, List.append_nil] at hf hu
  exact ⟨List.self_eq_append_right.mp hf, hu.symm⟩

theorem cut_unfinished (hpat : pat ≠ []) (s : List α) : cut pat (unfinished pat s) = none := by
  cases hc : cut pat (unfinished pat s) with
  | none => rfl
  | some r =>
    obtain ⟨hf, -⟩ := frames_of_some hpat hc
    rw [(frames_unfinished hpat s).1] at hf
    exact absurd hf nofun

/-- The frames and the rest are the stream. -/
theorem flatten_frames (hpat : pat ≠ []) (s : List α) :
    (frames pat s).flatten ++ unfinished pat s = s := by
  induction s using cut_induction hpat with
  | unmatched s hc =>
    obtain ⟨hf, hu⟩ := frames_of_none hc
    rw [hf, hu]
    rfl
  | matched s before after hc ih =>
    obtain ⟨hf, hu⟩ := frames_of_some hpat hc
    rw [hf, hu, List.flatten_cons, List.append_assoc, ih]
    exact (cut_eq hc).symm

/-! ## Where occurrences end -/

omit [DecidableEq α] in
theorem getLast?_endsFrom (n : ℕ) (pieces : List (List α)) :
    (endsFrom n pieces).getLast? =
      if pieces.isEmpty then none else some (n + pieces.flatten.length) := by
  induction pieces generalizing n with
  | nil => rfl
  | cons piece pieces ih =>
    rw [endsFrom, List.getLast?_cons, ih]
    cases pieces with
    | nil => simp
    | cons piece' pieces => simp [Nat.add_assoc]

/-- The last occurrence ends where the stream ends: there is one, and nothing is left after it. -/
theorem getLast?_matchEnds (hpat : pat ≠ []) :
    (matchEnds pat s).getLast? = some s.length ↔ frames pat s ≠ [] ∧ unfinished pat s = [] := by
  have hlength : (frames pat s).flatten.length + (unfinished pat s).length = s.length := by
    rw [← List.length_append, flatten_frames hpat]
  rw [matchEnds, getLast?_endsFrom, ← List.length_eq_zero_iff]
  cases hf : frames pat s with
  | nil => simp
  | cons f fs =>
    rw [hf] at hlength
    simp only [List.isEmpty_cons, Bool.false_eq_true, if_false, Option.some.injEq, ne_eq, reduceCtorEq,
      not_false_eq_true, true_and]
    omega

end TurtleServer.Lib
