import Mathlib.Tactic

/-!
# Queues ordered by a key

`KeyedQueue key` is the content of an ordered associative container whose comparator looks at
`key` only: a list strictly increasing in the key. Two elements with equal keys are the same
element to the container, whatever else distinguishes them. So

* `find? k` answers *the* element with key `k`, not the element one asks for;
* `emplace a` does nothing when an element with the key of `a` is present;
* `erase k` removes the element with key `k`.
-/

namespace TurtleServer.Lib

variable {α κ : Type*} [LinearOrder κ]

/-- A list strictly increasing in `key`. -/
structure KeyedQueue (key : α → κ) where
  toList : List α
  sorted : toList.Pairwise fun a b => key a < key b

namespace KeyedQueue

variable {key : α → κ}

instance : Membership α (KeyedQueue key) := ⟨fun q a => a ∈ q.toList⟩

theorem mem_def {q : KeyedQueue key} {a : α} : a ∈ q ↔ a ∈ q.toList := Iff.rfl

instance [DecidableEq α] (q : KeyedQueue key) (a : α) : Decidable (a ∈ q) :=
  inferInstanceAs (Decidable (a ∈ q.toList))

/-- Insertion at the place the key gives, unless the place is taken. -/
def insertList (key : α → κ) (a : α) : List α → List α
  | [] => [a]
  | b :: bs =>
    if key a < key b then a :: b :: bs
    else if key b < key a then b :: insertList key a bs
    else b :: bs

namespace Aux

theorem mem_insertList_imp {a x : α} : ∀ {l : List α}, x ∈ insertList key a l → x = a ∨ x ∈ l
  | [], h => by simpa [insertList] using h
  | b :: bs, h => by
    unfold insertList at h
    split at h
    · simpa using h
    · split at h
      · rcases List.mem_cons.mp h with rfl | h'
        · exact .inr List.mem_cons_self
        · exact (mem_insertList_imp h').imp id (List.mem_cons_of_mem _)
      · exact .inr h

theorem mem_insertList_old {a x : α} : ∀ {l : List α}, x ∈ l → x ∈ insertList key a l
  | b :: bs, h => by
    unfold insertList
    split
    · exact List.mem_cons_of_mem _ h
    · split
      · rcases List.mem_cons.mp h with rfl | h'
        · exact List.mem_cons_self
        · exact List.mem_cons_of_mem _ (mem_insertList_old h')
      · exact h

theorem insertList_of_fresh {a : α} : ∀ {l : List α}, (∀ b ∈ l, key b ≠ key a) →
    a ∈ insertList key a l ∧ (insertList key a l).length = l.length + 1
  | [], _ => by simp [insertList]
  | b :: bs, h => by
    unfold insertList
    split
    · simp
    · split
      · obtain ⟨hmem, hlen⟩ := insertList_of_fresh fun c hc => h c (List.mem_cons_of_mem _ hc)
        exact ⟨List.mem_cons_of_mem _ hmem, by simp [hlen]⟩
      · next h1 h2 =>
        exact absurd (le_antisymm (not_lt.mp h1) (not_lt.mp h2)) (h b List.mem_cons_self)

/-- An equal key blocks the insertion: the list stays as it is. -/
theorem insertList_of_taken {a : α} : ∀ {l : List α},
    l.Pairwise (fun a b => key a < key b) → (∃ b ∈ l, key b = key a) → insertList key a l = l
  | [], _, ⟨_, hb, _⟩ => absurd hb List.not_mem_nil
  | b :: bs, hs, ⟨c, hc, hca⟩ => by
    have hbs := (List.pairwise_cons.mp hs)
    unfold insertList
    rcases List.mem_cons.mp hc with rfl | hc'
    · rw [if_neg (by rw [hca]; exact lt_irrefl _), if_neg (by rw [hca]; exact lt_irrefl _)]
    · have hlt : key b < key a := hca ▸ hbs.1 c hc'
      rw [if_neg (not_lt.mpr hlt.le), if_pos hlt, insertList_of_taken hbs.2 ⟨c, hc', hca⟩]

theorem insertList_perm {a : α} : ∀ {l : List α},
    insertList key a l = l ∨ (insertList key a l).Perm (a :: l)
  | [] => .inr (.refl _)
  | b :: bs => by
    unfold insertList
    split
    · exact .inr (.refl _)
    · split
      · rcases insertList_perm (a := a) (l := bs) with h | h
        · exact .inl (congrArg (b :: ·) h)
        · exact .inr ((h.cons b).trans (.swap a b bs))
      · exact .inl rfl

theorem sorted_insertList {a : α} : ∀ {l : List α},
    l.Pairwise (fun a b => key a < key b) →
      (insertList key a l).Pairwise fun a b => key a < key b
  | [], _ => by simp [insertList]
  | b :: bs, hs => by
    have hbs := (List.pairwise_cons.mp hs)
    unfold insertList
    split
    · next hab =>
      refine List.pairwise_cons.mpr ⟨fun c hc => ?_, hs⟩
      rcases List.mem_cons.mp hc with rfl | hc'
      · exact hab
      · exact hab.trans (hbs.1 c hc')
    · split
      · next hba =>
        refine List.pairwise_cons.mpr ⟨fun c hc => ?_, sorted_insertList hbs.2⟩
        rcases mem_insertList_imp hc with rfl | hc'
        · exact hba
        · exact hbs.1 c hc'
      · exact hs

end Aux

/-- The empty queue. -/
def empty : KeyedQueue key := ⟨[], List.Pairwise.nil⟩

/-- The element with key `k`, if there is one. -/
def find? (q : KeyedQueue key) (k : κ) : Option α := q.toList.find? fun a => key a = k

/-- Adds `a` unless an element with its key is present. -/
def emplace (q : KeyedQueue key) (a : α) : KeyedQueue key :=
  ⟨insertList key a q.toList, Aux.sorted_insertList q.sorted⟩

/-- Removes the element with key `k`. -/
def erase (q : KeyedQueue key) (k : κ) : KeyedQueue key :=
  ⟨q.toList.filter fun a => key a ≠ k, q.sorted.filter _⟩

/-- Removes the first `n` elements. -/
def drop (q : KeyedQueue key) (n : ℕ) : KeyedQueue key :=
  ⟨q.toList.drop n, q.sorted.sublist (List.drop_sublist n _)⟩

/-- The number of elements. -/
def length (q : KeyedQueue key) : ℕ := q.toList.length

variable {q : KeyedQueue key} {a b x : α} {k : κ}

@[simp] theorem not_mem_empty : ¬ a ∈ (empty : KeyedQueue key) := List.not_mem_nil

@[simp] theorem mem_erase : x ∈ q.erase k ↔ x ∈ q ∧ key x ≠ k := by
  simp [mem_def, erase, List.mem_filter]

/-- A key names at most one element. -/
theorem eq_of_key (ha : a ∈ q) (hb : b ∈ q) (h : key a = key b) : a = b := by
  by_contra hne
  have hp := List.pairwise_iff_getElem.mp q.sorted
  obtain ⟨i, hi, rfl⟩ := List.getElem_of_mem (mem_def.mp ha)
  obtain ⟨j, hj, rfl⟩ := List.getElem_of_mem (mem_def.mp hb)
  rcases lt_trichotomy i j with hij | rfl | hij
  · exact absurd h (hp i j hi hj hij).ne
  · exact hne rfl
  · exact absurd h (hp j i hj hi hij).ne'

theorem find?_eq_some : q.find? k = some a ↔ a ∈ q ∧ key a = k := by
  constructor
  · intro h
    exact ⟨List.mem_of_find?_eq_some h, by simpa using List.find?_some h⟩
  · rintro ⟨ha, hk⟩
    cases hf : q.find? k with
    | none => exact absurd hk (by simpa using List.find?_eq_none.mp hf a ha)
    | some b =>
      have hb : key b = k := by simpa using List.find?_some hf
      rw [eq_of_key (List.mem_of_find?_eq_some hf) ha (hb.trans hk.symm)]

theorem find?_eq_none : q.find? k = none ↔ ∀ a ∈ q, key a ≠ k := by
  simp [find?, List.find?_eq_none, mem_def]

theorem mem_emplace : x ∈ q.emplace a ↔ x ∈ q ∨ (x = a ∧ ∀ b ∈ q, key b ≠ key a) := by
  by_cases hfree : ∀ b ∈ q, key b ≠ key a
  · constructor
    · intro h
      rcases Aux.mem_insertList_imp h with rfl | h'
      · exact .inr ⟨rfl, hfree⟩
      · exact .inl h'
    · rintro (h | ⟨rfl, _⟩)
      · exact Aux.mem_insertList_old h
      · exact (Aux.insertList_of_fresh hfree).1
  · have htaken : ∃ b ∈ q.toList, key b = key a := by
      push Not at hfree
      exact hfree
    have hsame : (q.emplace a).toList = q.toList := Aux.insertList_of_taken q.sorted htaken
    rw [mem_def, hsame]
    exact ⟨.inl, fun h => h.resolve_right fun h' => hfree h'.2⟩

theorem length_emplace_of_free (h : ∀ b ∈ q, key b ≠ key a) :
    (q.emplace a).length = q.length + 1 :=
  (Aux.insertList_of_fresh h).2

/-- What emplacing adds is at most the new element. -/
theorem emplace_perm (q : KeyedQueue key) (a : α) :
    (q.emplace a).toList = q.toList ∨ (q.emplace a).toList.Perm (a :: q.toList) :=
  Aux.insertList_perm

/-- What erasing takes away is the element found. -/
theorem perm_erase (h : q.find? k = some a) : q.toList.Perm (a :: (q.erase k).toList) := by
  classical
  obtain ⟨ha, rfl⟩ := find?_eq_some.mp h
  have hnodup : q.toList.Nodup := q.sorted.imp fun hlt heq => (heq ▸ hlt).false
  have herase : (q.erase (key a)).toList = q.toList.erase a := by
    rw [hnodup.erase_eq_filter]
    refine List.filter_congr fun b hb => ?_
    have hiff : key b = key a ↔ b = a := ⟨eq_of_key hb ha, congrArg key⟩
    rw [Bool.eq_iff_iff]
    simp [hiff]
  rw [herase]
  exact List.perm_cons_erase ha

/-- Erasing the key of an element leaves one element less. -/
theorem length_erase (ha : a ∈ q) : (q.erase (key a)).length + 1 = q.length :=
  (perm_erase (find?_eq_some.mpr ⟨ha, rfl⟩)).length_eq.symm

/-- The first element has the least key. -/
theorem head_le {l : List α} (h : q.toList = a :: l) (hb : b ∈ q) : key a ≤ key b := by
  have hs := q.sorted
  rw [h] at hs
  rcases List.mem_cons.mp (h ▸ mem_def.mp hb) with rfl | hb'
  · exact le_refl _
  · exact ((List.pairwise_cons.mp hs).1 b hb').le

theorem mem_of_mem_drop {n : ℕ} (h : x ∈ q.drop n) : x ∈ q := List.mem_of_mem_drop h

/-- The elements dropped come before the ones kept. -/
theorem lt_of_mem_take_of_mem_drop {n : ℕ} (ha : a ∈ q.toList.take n) (hb : b ∈ q.drop n) :
    key a < key b := by
  have hs := q.sorted
  rw [← List.take_append_drop n q.toList] at hs
  exact (List.pairwise_append.mp hs).2.2 a ha b hb

end KeyedQueue

end TurtleServer.Lib
