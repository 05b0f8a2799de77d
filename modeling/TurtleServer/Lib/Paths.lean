import Mathlib.Tactic

/-!
# Paths in a tree of folders

A path is a list of segments: stay, climb to the folder above, or go down into a name. `Place` is where
a path leads to, by its text alone: so many levels above the start and from there down through names.
For a path from the root there is nothing above the start.

What a path does from any folder is determined by what it does from the start: it climbs `ups` levels
and then goes down through `names` (`walk_eq_follow`). So whether a path leads into a folder can be told
from where the two paths part (`inside_walk_iff`): only the names matter that one of them climbs over,
and what each of them goes down through after that.
-/

namespace TurtleServer.Lib

variable {α : Type*}

inductive Segment (α : Type*)
  | here
  | up
  | name (a : α)
deriving DecidableEq, Repr

structure Place (α : Type*) where
  ups : ℕ
  names : List α
deriving DecidableEq, Repr

namespace Place

def start : Place α := ⟨0, []⟩

/-- One segment further. -/
def go (rooted : Bool) (p : Place α) : Segment α → Place α
  | .here => p
  | .name a => ⟨p.ups, p.names ++ [a]⟩
  | .up =>
    match p.names with
    | [] => if rooted then p else ⟨p.ups + 1, []⟩
    | _ :: _ => ⟨p.ups, p.names.dropLast⟩

/-- A path from `p` on. -/
def walk (rooted : Bool) (p : Place α) (segments : List (Segment α)) : Place α :=
  segments.foldl (go rooted) p

/-- From `p` on, `c.ups` levels up and then down through `c.names`. -/
def follow (rooted : Bool) (p c : Place α) : Place α :=
  ⟨if rooted then p.ups else p.ups + (c.ups - p.names.length),
    p.names.take (p.names.length - c.ups) ++ c.names⟩

/-- Further down through `extra`. -/
def down (p : Place α) (extra : List α) : Place α := ⟨p.ups, p.names ++ extra⟩

/-- `q` is `p` or below it. -/
def Inside (q p : Place α) : Prop := q.ups = p.ups ∧ p.names <+: q.names

instance [DecidableEq α] (q p : Place α) : Decidable (q.Inside p) :=
  inferInstanceAs (Decidable (_ ∧ _))

variable {rooted : Bool} {b c e p : Place α} {extra : List α}

/-! ## What a path does from any folder -/

theorem go_up_of_nil (h : p.names = []) :
    p.go rooted .up = if rooted then p else ⟨p.ups + 1, []⟩ := by
  simp only [go, h]

theorem go_up_of_ne_nil (h : p.names ≠ []) : p.go rooted .up = ⟨p.ups, p.names.dropLast⟩ := by
  obtain ⟨a, l, hl⟩ := List.exists_cons_of_ne_nil h
  simp only [go, hl]

/-- Climbing once more from where `c` has led. -/
theorem go_up_follow (p c : Place α) :
    (p.follow rooted c).go rooted .up = p.follow rooted (c.go false .up) := by
  rcases eq_or_ne c.names [] with hc | hc
  · rw [go_up_of_nil hc, if_neg Bool.false_ne_true]
    rcases Nat.lt_or_ge c.ups p.names.length with hlt | hge
    · -- there is a name of `p` left to climb over
      have hne : (p.follow rooted c).names ≠ [] := by
        simp only [follow, hc, List.append_nil, ne_eq, List.take_eq_nil_iff, not_or]
        exact ⟨by omega, List.ne_nil_of_length_pos (by omega)⟩
      rw [go_up_of_ne_nil hne]
      have hups : c.ups - p.names.length = c.ups + 1 - p.names.length := by omega
      have htake : (p.names.take (p.names.length - c.ups)).dropLast =
          p.names.take (p.names.length - (c.ups + 1)) := by
        rw [List.dropLast_eq_take, List.take_take, List.length_take]
        congr 1
        omega
      simp only [follow, hc, List.append_nil, hups, htake]
    · have hnil : (p.follow rooted c).names = [] := by
        simp only [follow, hc, List.append_nil, Nat.sub_eq_zero_of_le hge, List.take_zero]
      rw [go_up_of_nil hnil]
      have hups : p.ups + (c.ups - p.names.length) + 1 = p.ups + (c.ups + 1 - p.names.length) := by
        omega
      have hzero : p.names.length - (c.ups + 1) = 0 := by omega
      cases rooted with
      | true => simp only [follow, hc, if_true, Nat.sub_eq_zero_of_le hge, hzero]
      | false =>
        simp only [follow, Bool.false_eq_true, if_false, hups, hzero, List.take_zero, List.append_nil]
  · have hne : (p.follow rooted c).names ≠ [] := List.append_ne_nil_of_right_ne_nil _ hc
    rw [go_up_of_ne_nil hc, go_up_of_ne_nil hne]
    simp only [follow, List.dropLast_append_of_ne_nil hc]

theorem go_follow (p c : Place α) (segment : Segment α) :
    (p.follow rooted c).go rooted segment = p.follow rooted (c.go false segment) := by
  cases segment with
  | here => rfl
  | name a => simp only [go, follow, List.append_assoc]
  | up => exact go_up_follow p c

theorem walk_eq_follow (p : Place α) (segments : List (Segment α)) :
    p.walk rooted segments = p.follow rooted (start.walk false segments) := by
  -- a path is extended at its end
  induction segments using List.reverseRecOn with
  | nil =>
    cases rooted with
    | true => simp [walk, follow, start]
    | false => simp [walk, follow, start]
  | append_singleton segments segment ih =>
    unfold walk at ih ⊢
    rw [List.foldl_append, List.foldl_append, ih]
    exact go_follow p _ segment

theorem walk_append (p : Place α) (xs ys : List (Segment α)) :
    p.walk rooted (xs ++ ys) = (p.walk rooted xs).walk rooted ys := List.foldl_append

/-! ## Where two paths part -/

/-- What two paths have in common at their beginning, and what is left of each. -/
def parting [DecidableEq α] : List (Segment α) → List (Segment α) →
    List (Segment α) × List (Segment α) × List (Segment α)
  | x :: xs, y :: ys =>
    if x = y then (x :: (parting xs ys).1, (parting xs ys).2)
    else ([], x :: xs, y :: ys)
  | xs, ys => ([], xs, ys)

theorem parting_spec [DecidableEq α] (xs ys : List (Segment α)) :
    (parting xs ys).1 ++ (parting xs ys).2.1 = xs ∧ (parting xs ys).1 ++ (parting xs ys).2.2 = ys := by
  induction xs, ys using parting.induct with
  | case1 xs x ys ih =>
    rw [parting, if_pos rfl]
    exact ⟨congrArg (x :: ·) ih.1, congrArg (x :: ·) ih.2⟩
  | case2 x xs y ys hne =>
    rw [parting, if_neg hne]
    exact ⟨rfl, rfl⟩
  | case3 xs ys hnot =>
    rw [parting.eq_2 xs ys hnot]
    exact ⟨rfl, rfl⟩

theorem parting_append [DecidableEq α] (xs ys : List (Segment α)) :
    parting (ys ++ xs) ys = (ys, xs, []) := by
  induction ys with
  | nil => cases xs <;> rfl
  | cons y ys ih => rw [List.cons_append, parting, if_pos rfl, ih]

/-- The names of the folder `b` that the way `c` or the way `e` climbs over. -/
def climbed (b c e : Place α) : List α := b.names.drop (b.names.length - max c.ups e.ups)

/-- From the folder `b` the way `c` leads into the place that is further down through `extra` from where
`e` leads: they end at the same height, and with the names that were climbed over put back, the way `c`
goes down through all that `e` and `extra` go down through. -/
structure Returns (rooted : Bool) (b c e : Place α) (extra : List α) : Prop where
  height : rooted = true ∨ c.ups - b.names.length = e.ups - b.names.length
  names : (climbed b c e).take ((climbed b c e).length - e.ups) ++ e.names ++ extra <+:
    (climbed b c e).take ((climbed b c e).length - c.ups) ++ c.names

instance [DecidableEq α] : Decidable (Returns rooted b c e extra) :=
  decidable_of_iff (_ ∧ _) ⟨fun h => ⟨h.1, h.2⟩, fun h => ⟨h.height, h.names⟩⟩

/-- What is left of the folder itself: it is the way `c` alone that climbs. -/
theorem returns_start_iff :
    Returns rooted b c start extra ↔
      (rooted = true ∨ c.ups ≤ b.names.length) ∧
        b.names.drop (b.names.length - c.ups) ++ extra <+: c.names := by
  have hclimbed : climbed b c start = b.names.drop (b.names.length - c.ups) := by
    simp only [climbed, start, Nat.zero_le, max_eq_left]
  have hzero : (b.names.drop (b.names.length - c.ups)).length - c.ups = 0 := by
    rw [List.length_drop]
    omega
  have hheight : c.ups - b.names.length = (start : Place α).ups - b.names.length ↔
      c.ups ≤ b.names.length := by
    simp only [start]
    omega
  have hnames : (climbed b c start).take ((climbed b c start).length - (start : Place α).ups) ++
        (start : Place α).names ++ extra <+:
      (climbed b c start).take ((climbed b c start).length - c.ups) ++ c.names ↔
      b.names.drop (b.names.length - c.ups) ++ extra <+: c.names := by
    rw [hclimbed, hzero]
    simp only [start, Nat.sub_zero, List.take_length, List.append_nil, List.take_zero,
      List.nil_append]
  constructor
  · rintro ⟨hups, hprefix⟩
    exact ⟨hups.imp_right hheight.mp, hnames.mp hprefix⟩
  · rintro ⟨hups, hprefix⟩
    exact ⟨hups.imp_right hheight.mpr, hnames.mpr hprefix⟩

/-- What stays of the folder is what stays of the names climbed over, and all before them. -/
theorem take_eq_climbed (b : Place α) {k : ℕ} (hk : k ≤ max c.ups e.ups) :
    b.names.take (b.names.length - k) =
      b.names.take (b.names.length - max c.ups e.ups) ++
        (climbed b c e).take ((climbed b c e).length - k) := by
  have hlength : b.names.length - k = (b.names.length - max c.ups e.ups) +
      ((climbed b c e).length - k) := by
    rw [climbed, List.length_drop]
    omega
  rw [hlength, List.take_add]
  rfl

theorem inside_follow_iff :
    (b.follow rooted c).Inside ((b.follow rooted e).down extra) ↔ Returns rooted b c e extra := by
  have hheight : (b.follow rooted c).ups = (b.follow rooted e).ups ↔
      rooted = true ∨ c.ups - b.names.length = e.ups - b.names.length := by
    cases rooted with
    | true => simp [follow]
    | false => simp [follow]
  have hnames : (b.follow rooted e).names ++ extra <+: (b.follow rooted c).names ↔
      (climbed b c e).take ((climbed b c e).length - e.ups) ++ e.names ++ extra <+:
        (climbed b c e).take ((climbed b c e).length - c.ups) ++ c.names := by
    have hc := take_eq_climbed (c := c) (e := e) b (le_max_left c.ups e.ups)
    have he := take_eq_climbed (c := c) (e := e) b (le_max_right c.ups e.ups)
    simp only [follow]
    rw [hc, he, List.append_assoc, List.append_assoc, List.append_assoc,
      List.prefix_append_right_inj, List.append_assoc]
  constructor
  · rintro ⟨hups, hprefix⟩
    exact ⟨hheight.mp hups, hnames.mp hprefix⟩
  · rintro ⟨hups, hprefix⟩
    exact ⟨hheight.mpr hups, hnames.mpr hprefix⟩

/-- Whether a path leads into a folder, told from where the two paths part. -/
theorem inside_walk_iff [DecidableEq α] (p : Place α) (xs ys : List (Segment α)) (extra : List α) :
    (p.walk rooted xs).Inside ((p.walk rooted ys).down extra) ↔
      Returns rooted (p.walk rooted (parting xs ys).1) (start.walk false (parting xs ys).2.1)
        (start.walk false (parting xs ys).2.2) extra := by
  obtain ⟨hxs, hys⟩ := parting_spec xs ys
  rw [← inside_follow_iff, ← walk_eq_follow, ← walk_eq_follow, ← walk_append, ← walk_append, hxs, hys]

end Place

end TurtleServer.Lib
