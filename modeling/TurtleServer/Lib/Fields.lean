import TurtleServer.Lib.Frames

/-!
# Fields between separators

A text is cut by a separator into fields that do not contain it. `fields_exist`: every text is a list
of fields, each with a separator after it, and a last field without one. `cut_field`: cutting such a
text gives back its first field, when the separator cannot overlap itself (`Unbordered`). It is enough
for this that its first element does not come again in it (`Proper`).
-/

namespace TurtleServer.Lib

variable {α : Type*} [DecidableEq α] {pat sep s t field rest before after : List α} {x p : α}

/-- The first element of the separator does not come again in it. -/
def Proper (sep : List α) : Prop := ∃ p pat, sep = p :: pat ∧ p ∉ pat

omit [DecidableEq α] in
theorem Proper.ne_nil (h : Proper sep) : sep ≠ [] := by
  obtain ⟨p, pat, rfl, -⟩ := h
  exact List.cons_ne_nil p pat

omit [DecidableEq α] in
theorem proper_singleton (p : α) : Proper [p] := ⟨p, [], rfl, List.not_mem_nil⟩

/-- Nothing but the whole separator is both at its beginning and at its end. -/
def Unbordered (sep : List α) : Prop := ∀ p, p ≠ [] → p <+: sep → p <:+ sep → p = sep

omit [DecidableEq α] in
theorem Proper.unbordered (h : Proper sep) : Unbordered sep := by
  obtain ⟨p, pat, rfl, hp⟩ := h
  intro l hl hprefix hsuffix
  obtain ⟨x, l, rfl⟩ := List.exists_cons_of_ne_nil hl
  obtain ⟨rfl, -⟩ := List.cons_prefix_cons.mp hprefix
  rcases List.suffix_cons_iff.mp hsuffix with heq | hsuffix
  · exact heq
  · exact absurd (hsuffix.subset List.mem_cons_self) hp

/-! ## Where there is no separator -/

theorem cut_eq_none_iff : cut pat s = none ↔ ¬ pat <:+: s := by
  induction s with
  | nil =>
    cases pat with
    | nil => simp [cut]
    | cons p pat => simp [cut]
  | cons x s ih =>
    rw [List.infix_cons_iff, not_or]
    by_cases hp : pat <+: x :: s
    · rw [cut_cons_here hp]
      exact iff_of_false (Option.some_ne_none _) fun h => h.1 hp
    · rw [cut_cons_later hp, Option.map_eq_none_iff, ih]
      exact (and_iff_right hp).symm

/-- What comes before the first occurrence does not contain one. -/
theorem cut_before (hpat : pat ≠ []) (h : cut pat s = some (before, after)) : ¬ pat <:+: before := by
  induction s generalizing before with
  | nil => exact absurd h (by simp [cut, hpat])
  | cons x s ih =>
    by_cases hp : pat <+: x :: s
    · rw [cut_cons_here hp] at h
      cases h
      exact fun hnil => hpat (List.infix_nil.mp hnil)
    · rw [cut_cons_later hp] at h
      obtain ⟨⟨b, a⟩, hr, hb⟩ := Option.map_eq_some_iff.mp h
      cases hb
      rw [List.infix_cons_iff, not_or]
      refine ⟨fun hpre => hp ?_, ih hr⟩
      have hs : x :: s = (x :: b) ++ (pat ++ a) := by
        rw [cut_eq hr]
        simp
      rw [hs]
      exact hpre.trans (List.prefix_append _ _)

/-! ## Cutting off a field -/

omit [DecidableEq α] in
/-- A separator that starts inside a stretch before another separator ends inside it. -/
theorem prefix_of_unbordered (hsep : Unbordered sep) {l : List α} (hl : l ≠ [])
    (h : sep <+: l ++ (sep ++ rest)) : sep <+: l := by
  rcases Nat.lt_or_ge l.length sep.length with hlt | hge
  · -- otherwise its end is the beginning of the next separator
    have hbegin : l <+: sep :=
      List.prefix_of_prefix_length_le (List.prefix_append _ _) h (Nat.le_of_lt hlt)
    obtain ⟨p, hp⟩ := hbegin
    have hne : p ≠ [] := by
      rintro rfl
      rw [← hp, List.append_nil] at hlt
      exact Nat.lt_irrefl _ hlt
    have hlength : l.length + p.length = sep.length := by rw [← hp, List.length_append]
    have hprefix : p <+: sep := by
      nth_rewrite 1 [← hp] at h
      have hrest := (List.prefix_append_right_inj l).mp h
      exact List.prefix_of_prefix_length_le hrest (List.prefix_append _ _) (by omega)
    have hwhole := hsep p hne hprefix ⟨l, hp⟩
    have hpos : 0 < l.length := List.length_pos_of_ne_nil hl
    rw [hwhole] at hlength
    omega
  · exact List.prefix_of_prefix_length_le h (List.prefix_append _ _) hge

theorem cut_field (hsep : Unbordered sep) (h : ¬ sep <:+: field) (rest : List α) :
    cut sep (field ++ (sep ++ rest)) = some (field, rest) := by
  induction field with
  | nil => exact cut_self_append (fun hnil => h (hnil ▸ List.infix_rfl)) rest
  | cons x field ih =>
    have hlater : ¬ sep <+: x :: (field ++ (sep ++ rest)) := fun hp =>
      h (prefix_of_unbordered hsep (List.cons_ne_nil x field) hp).isInfix
    rw [List.infix_cons_iff, not_or] at h
    rw [List.cons_append, cut_cons_later hlater, ih h.2]
    rfl

omit [DecidableEq α] in
/-- A separator in a text that starts with a field is the one after the field or comes after it. -/
theorem separator_after_field (hsep : Unbordered sep) (hfield : ¬ sep <:+: field)
    (h : s ++ (sep ++ t) = field ++ (sep ++ rest)) :
    (s = field ∧ t = rest) ∨ ∃ u, s = field ++ (sep ++ u) ∧ rest = u ++ (sep ++ t) := by
  induction field generalizing s with
  | nil =>
    rw [List.nil_append] at h
    rcases eq_or_ne s [] with rfl | hs
    · exact .inl ⟨rfl, List.append_cancel_left h⟩
    · have hprefix : sep <+: s := prefix_of_unbordered hsep hs ⟨rest, h.symm⟩
      obtain ⟨u, rfl⟩ := hprefix
      rw [List.append_assoc] at h
      exact .inr ⟨u, rfl, (List.append_cancel_left h).symm⟩
  | cons x field ih =>
    cases s with
    | nil =>
      have hprefix : sep <+: x :: field :=
        prefix_of_unbordered hsep (List.cons_ne_nil x field) ⟨t, h⟩
      exact absurd hprefix.isInfix hfield
    | cons y s =>
      rw [List.cons_append, List.cons_append] at h
      obtain ⟨rfl, htail⟩ := List.cons.inj h
      have hrest : ¬ sep <:+: field := fun hin => hfield (List.infix_cons_iff.mpr (.inr hin))
      rcases ih hrest htail with ⟨rfl, ht⟩ | ⟨u, rfl, hu⟩
      · exact .inl ⟨rfl, ht⟩
      · exact .inr ⟨u, rfl, hu⟩

/-! ## Texts as lists of fields -/

/-- The fields, each with a separator after it, and then `last`. -/
def ofFields (sep : List α) (fields : List (List α)) (last : List α) : List α :=
  fields.flatMap (· ++ sep) ++ last

omit [DecidableEq α] in
theorem ofFields_cons (fields : List (List α)) (last : List α) :
    ofFields sep (field :: fields) last = field ++ (sep ++ ofFields sep fields last) := by
  simp [ofFields]

omit [DecidableEq α] in
/-- After fields that are not empty, two separators in a row come no earlier than the one where `last`
would be. -/
theorem suffix_of_double_separator (hsep : Unbordered sep) {fields : List (List α)}
    (hfields : ∀ field ∈ fields, field ≠ [] ∧ ¬ sep <:+: field)
    (h : s ++ (sep ++ (sep ++ t)) = ofFields sep fields (sep ++ rest)) : t <:+ rest := by
  rcases eq_or_ne sep [] with rfl | hne
  · cases fields with
    | nil => exact ⟨s, by simpa [ofFields] using h⟩
    | cons field fields => exact absurd List.nil_infix (hfields field List.mem_cons_self).2
  induction fields generalizing s with
  | nil =>
    have hnil : ¬ sep <:+: [] := fun hin => hne (List.infix_nil.mp hin)
    rcases separator_after_field hsep hnil h with ⟨-, rfl⟩ | ⟨u, -, rfl⟩
    · exact List.suffix_append sep t
    · exact ⟨u ++ (sep ++ sep), by simp⟩
  | cons field fields ih =>
    obtain ⟨hfield, hfields⟩ := List.forall_mem_cons.mp hfields
    rw [ofFields_cons] at h
    rcases separator_after_field hsep hfield.2 h with ⟨-, hnext⟩ | ⟨u, -, hnext⟩
    · -- the first of the two ends this field, and the field after it is not empty
      cases fields with
      | nil => exact List.append_cancel_left hnext ▸ List.suffix_rfl
      | cons next fields =>
        obtain ⟨hfull, hfree⟩ := hfields next List.mem_cons_self
        rw [ofFields_cons] at hnext
        rcases separator_after_field (s := []) hsep hfree hnext with ⟨hempty, -⟩ | ⟨u, hempty, -⟩
        · exact absurd hempty.symm hfull
        · exact absurd (List.append_eq_nil_iff.mp hempty.symm).1 hfull
    · exact ih hfields hnext.symm

/-- Every text is a list of fields that do not contain the separator. -/
theorem fields_exist (hsep : sep ≠ []) (s : List α) :
    ∃ fields last, s = ofFields sep fields last ∧ (∀ field ∈ fields, ¬ sep <:+: field) ∧
      ¬ sep <:+: last := by
  induction s using cut_induction hsep with
  | unmatched s hc => exact ⟨[], s, rfl, by simp, cut_eq_none_iff.mp hc⟩
  | matched s before after hc ih =>
    obtain ⟨fields, last, hr, hfields, hlast⟩ := ih
    refine ⟨before :: fields, last, ?_, List.forall_mem_cons.mpr ⟨cut_before hsep hc, hfields⟩, hlast⟩
    rw [ofFields_cons, ← hr, cut_eq hc, List.append_assoc]

end TurtleServer.Lib
