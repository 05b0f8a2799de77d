import Mathlib.Tactic

/-!
# Doubly linked lists in a heap

A heap maps an address to a cell, or to nothing when no object lives there. A cell holds a value and
two pointers, each of which may be null. Reading or writing through a null or dangling pointer is
undefined, which is `none` here.

`Linked next prev l` says that the addresses of `l` are chained both ways: `next` leads from each to
the one after it and `prev` back. The two rules are `Linked.unlink` and `Linked.insertLast`: what the
two, respectively four, pointer writes of a removal and of an insertion do to such a list. They are
stated for the functions `next` and `prev`, so that they apply to a heap whatever else its cells hold.
-/

namespace TurtleServer.Lib

variable {ν α : Type*}

/-- A cell of a doubly linked list. -/
structure Cell (ν α : Type*) where
  value : α
  prev : Option ν
  next : Option ν
deriving DecidableEq, Repr

/-- The objects alive, by address. -/
abbrev Heap (ν α : Type*) := ν → Option (Cell ν α)

namespace Heap

variable [DecidableEq ν] (h : Heap ν α) {n m : ν}

def next (n : ν) : Option ν := (h n).bind Cell.next

def prev (n : ν) : Option ν := (h n).bind Cell.prev

def value (n : ν) : Option α := (h n).map Cell.value

/-- A write through the pointer `n`. -/
def modify (n : ν) (f : Cell ν α → Cell ν α) : Option (Heap ν α) :=
  (h n).map fun c => Function.update h n (some (f c))

/-- `n->next_ = m`. -/
def setNext (n m : ν) : Option (Heap ν α) := h.modify n fun c => { c with next := some m }

/-- `n->prev_ = m`. -/
def setPrev (n m : ν) : Option (Heap ν α) := h.modify n fun c => { c with prev := some m }

/-- A write to the value of `n`. -/
def setValue (n : ν) (f : α → α) : Option (Heap ν α) :=
  h.modify n fun c => { c with value := f c.value }

variable {h}

omit [DecidableEq ν] in
theorem exists_cell {v : α} (hv : h.value n = some v) : ∃ c, h n = some c ∧ c.value = v := by
  unfold value at hv
  exact Option.map_eq_some_iff.mp hv

/-! Making and freeing a cell. -/

theorem next_update (n : ν) (c : Option (Cell ν α)) :
    next (Function.update h n c) = Function.update h.next n (c.bind Cell.next) :=
  Function.comp_update (fun o : Option (Cell ν α) => o.bind Cell.next) h n c

theorem prev_update (n : ν) (c : Option (Cell ν α)) :
    prev (Function.update h n c) = Function.update h.prev n (c.bind Cell.prev) :=
  Function.comp_update (fun o : Option (Cell ν α) => o.bind Cell.prev) h n c

theorem value_update (n : ν) (c : Option (Cell ν α)) :
    value (Function.update h n c) = Function.update h.value n (c.map Cell.value) :=
  Function.comp_update (fun o : Option (Cell ν α) => o.map Cell.value) h n c

section writes

variable {v : α}

/-- A write changes the cell of `n` only. -/
theorem modify_spec {c : Cell ν α} (hc : h n = some c) (f : Cell ν α → Cell ν α) :
    ∃ h', h.modify n f = some h' ∧ h'.next = Function.update h.next n (f c).next ∧
      h'.prev = Function.update h.prev n (f c).prev ∧
      h'.value = Function.update h.value n (some (f c).value) :=
  ⟨Function.update h n (some (f c)), by rw [modify, hc, Option.map_some], next_update n _,
    prev_update n _, value_update n _⟩

omit [DecidableEq ν] in
theorem read_cell {c : Cell ν α} (hc : h n = some c) :
    h.next n = c.next ∧ h.prev n = c.prev ∧ h.value n = some c.value := by
  unfold next prev value
  rw [hc]
  exact ⟨rfl, rfl, rfl⟩

theorem setNext_spec (hv : h.value n = some v) (m : ν) : ∃ h', h.setNext n m = some h' ∧
    h'.next = Function.update h.next n (some m) ∧ h'.prev = h.prev ∧ h'.value = h.value := by
  obtain ⟨c, hc, -⟩ := exists_cell hv
  obtain ⟨-, hprev, hvalue⟩ := read_cell hc
  obtain ⟨h', hmodify, hnext', hprev', hvalue'⟩ :=
    modify_spec hc fun c => { c with next := some m }
  refine ⟨h', hmodify, hnext', ?_, ?_⟩
  · rw [hprev', ← hprev, Function.update_eq_self]
  · rw [hvalue', ← hvalue, Function.update_eq_self]

theorem setPrev_spec (hv : h.value n = some v) (m : ν) : ∃ h', h.setPrev n m = some h' ∧
    h'.next = h.next ∧ h'.prev = Function.update h.prev n (some m) ∧ h'.value = h.value := by
  obtain ⟨c, hc, -⟩ := exists_cell hv
  obtain ⟨hnext, -, hvalue⟩ := read_cell hc
  obtain ⟨h', hmodify, hnext', hprev', hvalue'⟩ :=
    modify_spec hc fun c => { c with prev := some m }
  refine ⟨h', hmodify, ?_, hprev', ?_⟩
  · rw [hnext', ← hnext, Function.update_eq_self]
  · rw [hvalue', ← hvalue, Function.update_eq_self]

theorem setValue_spec (hv : h.value n = some v) (f : α → α) : ∃ h', h.setValue n f = some h' ∧
    h'.next = h.next ∧ h'.prev = h.prev ∧ h'.value = Function.update h.value n (some (f v)) := by
  obtain ⟨c, hc, rfl⟩ := exists_cell hv
  obtain ⟨hnext, hprev, -⟩ := read_cell hc
  obtain ⟨h', hmodify, hnext', hprev', hvalue'⟩ :=
    modify_spec hc fun c => { c with value := f c.value }
  refine ⟨h', hmodify, ?_, ?_, hvalue'⟩
  · rw [hnext', ← hnext, Function.update_eq_self]
  · rw [hprev', ← hprev, Function.update_eq_self]

end writes

end Heap

/-! ## Linked lists -/

/-- The addresses of the list are chained in both directions. -/
def Linked (next prev : ν → Option ν) (l : List ν) : Prop :=
  l.IsChain fun a b => next a = some b ∧ prev b = some a

namespace Linked

variable {next prev next' prev' : ν → Option ν} {l as bs : List ν} {a b n p q t : ν}

/-- The frame rule: a list depends on `next` of all its elements but the last and on `prev` of all
but the first. -/
theorem frame : ∀ {l : List ν}, Linked next prev l → (∀ x ∈ l.dropLast, next' x = next x) →
    (∀ x ∈ l.tail, prev' x = prev x) → Linked next' prev' l
  | [], _, _, _ => List.IsChain.nil
  | [a], _, _, _ => List.IsChain.singleton a
  | a :: b :: l, h, hn, hp => by
    obtain ⟨⟨hnext, hprev⟩, hrest⟩ := List.isChain_cons_cons.mp h
    have htail : Linked next' prev' (b :: l) :=
      frame hrest (fun x hx => hn x (List.mem_cons_of_mem _ hx))
        (fun x hx => hp x (List.mem_cons_of_mem _ hx))
    refine List.isChain_cons_cons.mpr ⟨⟨?_, ?_⟩, htail⟩
    · exact (hn a List.mem_cons_self).trans hnext
    · exact (hp b List.mem_cons_self).trans hprev

theorem reverse (h : Linked next prev l) : Linked prev next l.reverse :=
  List.isChain_reverse.mpr (List.IsChain.imp (fun _ _ => And.symm) h)

variable [DecidableEq ν]

/-- Removing an inner element: its neighbours are made to point at each other. -/
theorem unlink (h : Linked next prev (as ++ n :: bs)) (hnd : (as ++ n :: bs).Nodup)
    (has : as ≠ []) (hbs : bs ≠ []) :
    ∃ p q, p ∈ as ∧ q ∈ bs ∧ prev n = some p ∧ next n = some q ∧
      Linked (Function.update next p (some q)) (Function.update prev q (some p)) (as ++ bs) := by
  obtain ⟨xs, p, rfl⟩ : ∃ xs p, as = xs ++ [p] :=
    ⟨as.dropLast, as.getLast has, (List.dropLast_append_getLast has).symm⟩
  obtain ⟨q, ys, rfl⟩ := List.exists_cons_of_ne_nil hbs
  rw [List.append_assoc, List.singleton_append] at h hnd
  obtain ⟨hleft, ⟨hpn, hnp⟩, hright⟩ := List.isChain_append_cons_cons.mp h
  obtain ⟨⟨hnq, hqn⟩, hright⟩ := List.isChain_cons_cons.mp hright
  refine ⟨p, q, by simp, by simp, hnp, hnq, ?_⟩
  simp only [List.nodup_append, List.nodup_cons, List.mem_cons] at hnd
  rw [List.append_assoc, List.singleton_append]
  refine List.isChain_append_cons_cons.mpr ⟨?_, ⟨by simp, by simp⟩, ?_⟩
  · refine frame hleft (fun x hx => ?_) (fun x hx => ?_)
    · rw [List.dropLast_concat] at hx
      exact Function.update_of_ne (fun he => hnd.2.2 x hx p (.inl rfl) he) _ _
    · have hx' : x ∈ xs ∨ x = p := by simpa using List.mem_of_mem_tail hx
      refine Function.update_of_ne (fun he => ?_) _ _
      subst he
      rcases hx' with hx' | rfl
      · exact hnd.2.2 x hx' x (.inr (.inr (.inl rfl))) rfl
      · exact hnd.2.1.1 (.inr (.inl rfl))
  · refine frame hright (fun x hx => ?_) (fun x hx => ?_)
    · have hx' : x ∈ q :: ys := List.mem_of_mem_dropLast hx
      refine Function.update_of_ne (fun he => ?_) _ _
      subst he
      exact hnd.2.1.1 (.inr (List.mem_cons.mp hx'))
    · refine Function.update_of_ne (fun he => ?_) _ _
      subst he
      exact hnd.2.1.2.2.1 hx

/-- Inserting before the last element. -/
theorem insertLast (h : Linked next prev (as ++ [t])) (hnd : (as ++ [t]).Nodup) (has : as ≠ [])
    (hn : n ∉ as ++ [t]) :
    ∃ p, p ∈ as ∧ prev t = some p ∧
      Linked (Function.update (Function.update next p (some n)) n (some t))
        (Function.update (Function.update prev t (some n)) n (some p)) (as ++ [n, t]) := by
  obtain ⟨xs, p, rfl⟩ : ∃ xs p, as = xs ++ [p] :=
    ⟨as.dropLast, as.getLast has, (List.dropLast_append_getLast has).symm⟩
  rw [List.append_assoc, List.singleton_append] at h hnd hn
  obtain ⟨hleft, ⟨hpt, htp⟩, -⟩ := List.isChain_append_cons_cons.mp h
  simp only [List.nodup_append, List.nodup_cons, List.mem_cons, List.mem_append,
    List.not_mem_nil, or_false, not_or] at hnd hn
  refine ⟨p, by simp, htp, ?_⟩
  rw [List.append_assoc, List.singleton_append]
  refine List.isChain_append_cons_cons.mpr ⟨?_, ⟨?_, by simp⟩, ?_⟩
  · refine frame hleft (fun x hx => ?_) (fun x hx => ?_)
    · rw [List.dropLast_concat] at hx
      have hxn : x ≠ n := fun he => hn.1 (he ▸ hx)
      have hxp : x ≠ p := hnd.2.2 x hx p (.inl rfl)
      rw [Function.update_of_ne hxn, Function.update_of_ne hxp]
    · have hx' : x ∈ xs ∨ x = p := by simpa using List.mem_of_mem_tail hx
      have hxn : x ≠ n := by
        rintro rfl
        exact hx'.elim hn.1 fun he => hn.2.1 he
      have hxt : x ≠ t := by
        rintro rfl
        exact hx'.elim (fun hxs => hnd.2.2 x hxs x (.inr rfl) rfl) fun he => hnd.2.1.1 he.symm
      rw [Function.update_of_ne hxn, Function.update_of_ne hxt]
  · rw [Function.update_of_ne (fun he => hn.2.1 he.symm), Function.update_self]
  · refine List.isChain_cons_cons.mpr ⟨⟨Function.update_self .., ?_⟩, List.isChain_singleton t⟩
    rw [Function.update_of_ne (fun he => hn.2.2 he.symm), Function.update_self]

end Linked

end TurtleServer.Lib
