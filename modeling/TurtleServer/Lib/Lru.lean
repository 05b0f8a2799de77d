import Mathlib.Tactic

/-!
# Least-recently-used lists

The abstract cache: a list of key-value pairs from the least to the most recently used one, whose
total size is kept within a capacity. `load` moves the pair it finds to the end; `insert` drops the
shortest prefix that makes room and appends.

What is kept is the longest suffix that fits (`suffix_makeRoom`). So lists that see the same accesses
are included in each other when their capacities are (`access_suffix`): the smaller is a suffix of the
larger.
-/

namespace TurtleServer.Lib.Lru

variable {α β : Type*} [DecidableEq α] (size : β → ℕ)

/-- The total size of the values. -/
def total (l : List (α × β)) : ℕ := (l.map fun e => size e.2).sum

/-- The value of a key, and the list with its pair moved to the end. -/
def load (l : List (α × β)) (k : α) : Option β × List (α × β) :=
  match l.find? fun e => e.1 = k with
  | some e => (some e.2, l.filter (fun e => e.1 ≠ k) ++ [e])
  | none => (none, l)

/-- The list without the shortest prefix after which `need` more fits in. -/
def makeRoom (capacity need : ℕ) (l : List (α × β)) : List (α × β) :=
  (l.tails.find? fun rest => total size rest + need ≤ capacity).getD []

/-- Refused when the key is present or the value alone is too large. -/
def insert (capacity : ℕ) (l : List (α × β)) (k : α) (v : β) : Bool × List (α × β) :=
  if (∃ e ∈ l, e.1 = k) ∨ capacity < size v then (false, l)
  else (true, makeRoom size capacity (size v) l ++ [(k, v)])

/-- A use of the key `k`: load it, or else insert its value. -/
def access (capacity : ℕ) (value : α → β) (l : List (α × β)) (k : α) : List (α × β) :=
  match load l k with
  | (some _, l) => l
  | (none, l) => (insert size capacity l k (value k)).2

variable {size} {capacity need : ℕ} {l : List (α × β)} {e : α × β} {k : α} {v : β}

omit [DecidableEq α] in
@[simp] theorem total_nil : total size ([] : List (α × β)) = 0 := rfl

omit [DecidableEq α] in
@[simp] theorem total_cons : total size (e :: l) = size e.2 + total size l := by simp [total]

omit [DecidableEq α] in
@[simp] theorem total_append {l' : List (α × β)} :
    total size (l ++ l') = total size l + total size l' := by
  simp [total]

omit [DecidableEq α] in
@[simp] theorem makeRoom_nil : makeRoom size capacity need ([] : List (α × β)) = [] := by
  by_cases h : need ≤ capacity <;> simp [makeRoom, h]

omit [DecidableEq α] in
theorem makeRoom_of_fits (h : total size l + need ≤ capacity) :
    makeRoom size capacity need l = l := by
  cases l <;> simp_all [makeRoom]

omit [DecidableEq α] in
theorem makeRoom_cons_of_not_fits (h : ¬ total size (e :: l) + need ≤ capacity) :
    makeRoom size capacity need (e :: l) = makeRoom size capacity need l := by
  rw [makeRoom, List.tails, List.find?_cons, decide_eq_false h, makeRoom]

omit [DecidableEq α] in
theorem makeRoom_suffix : ∀ l : List (α × β), makeRoom size capacity need l <:+ l
  | [] => by
    rw [makeRoom_nil]
  | e :: l => by
    by_cases h : total size (e :: l) + need ≤ capacity
    · rw [makeRoom_of_fits h]
    · rw [makeRoom_cons_of_not_fits h]
      exact (makeRoom_suffix l).trans (List.suffix_cons e l)

omit [DecidableEq α] in
/-- There is room, unless the value does not even fit into an empty list. -/
theorem makeRoom_fits (h : need ≤ capacity) :
    ∀ l : List (α × β), total size (makeRoom size capacity need l) + need ≤ capacity
  | [] => by
    have hnil : total size ([] : List (α × β)) + need ≤ capacity := by simpa using h
    rw [makeRoom_of_fits hnil]
    exact hnil
  | e :: l => by
    by_cases hfits : total size (e :: l) + need ≤ capacity
    · rw [makeRoom_of_fits hfits]
      exact hfits
    · rw [makeRoom_cons_of_not_fits hfits]
      exact makeRoom_fits h l

theorem load_of_mem_nodup (hnd : (l.map Prod.fst).Nodup) (he : e ∈ l) :
    load l e.1 = (some e.2, l.filter (fun e' => e'.1 ≠ e.1) ++ [e]) := by
  have hfind : l.find? (fun e' => e'.1 = e.1) = some e := by
    cases hf : l.find? fun e' => decide (e'.1 = e.1) with
    | none => exact absurd (decide_eq_true rfl) (List.find?_eq_none.mp hf e he)
    | some e' =>
      have hk : e'.1 = e.1 := by simpa using List.find?_some hf
      rw [List.inj_on_of_nodup_map hnd (List.mem_of_find?_eq_some hf) he hk]
  rw [load, hfind]

theorem load_of_not_mem (h : ∀ e ∈ l, e.1 ≠ k) : load l k = (none, l) := by
  have hfind : l.find? (fun e => e.1 = k) = none := List.find?_eq_none.mpr (by simpa using h)
  rw [load, hfind]

theorem load_isSome_iff : (load l k).1.isSome = true ↔ k ∈ l.map Prod.fst := by
  have hload : (load l k).1.isSome = (l.find? fun e => e.1 = k).isSome := by
    unfold load
    cases l.find? fun e => e.1 = k <;> rfl
  rw [hload, List.find?_isSome, List.mem_map]
  simp

/-- A miss leaves the list as it is. -/
theorem load_of_eq_none (h : (load l k).1 = none) : load l k = (none, l) := by
  unfold load at h ⊢
  split at h
  · exact absurd h (Option.some_ne_none _)
  · rfl

theorem mem_of_load_eq_some (h : (load l k).1 = some v) : (k, v) ∈ l := by
  unfold load at h
  split at h
  · rename_i e he
    have hk : e.1 = k := by simpa using List.find?_some he
    have hv : e.2 = v := Option.some.inj h
    rw [← hk, ← hv]
    exact List.mem_of_find?_eq_some he
  · exact absurd h (Option.some_ne_none _).symm

/-- Where no key occurs twice, the value loaded is the one in the list. -/
theorem load_eq_some_iff (hnd : (l.map Prod.fst).Nodup) : (load l k).1 = some v ↔ (k, v) ∈ l := by
  refine ⟨mem_of_load_eq_some, fun h => ?_⟩
  rw [load_of_mem_nodup hnd h]

/-- Loading brings in nothing new. -/
theorem mem_of_mem_load (h : e ∈ (load l k).2) : e ∈ l := by
  unfold load at h
  split at h
  · rename_i e' he'
    rcases List.mem_append.mp h with h | h
    · exact List.mem_of_mem_filter h
    · rw [List.mem_singleton.mp h]
      exact List.mem_of_find?_eq_some he'
  · exact h

/-- Inserting brings in nothing but the new pair. -/
theorem mem_of_mem_insert (h : e ∈ (insert size capacity l k v).2) : e ∈ l ∨ e = (k, v) := by
  unfold insert at h
  split at h
  · exact .inl h
  · rcases List.mem_append.mp h with h | h
    · exact .inl ((makeRoom_suffix l).subset h)
    · exact .inr (List.mem_singleton.mp h)

/-! ## Two capacities -/

omit [DecidableEq α] in
/-- A suffix that fits is kept. -/
theorem suffix_makeRoom {s : List (α × β)} (hfits : total size s + need ≤ capacity)
    (h : s <:+ l) : s <:+ makeRoom size capacity need l := by
  induction l with
  | nil => rwa [makeRoom_nil]
  | cons e l ih =>
    by_cases hall : total size (e :: l) + need ≤ capacity
    · rwa [makeRoom_of_fits hall]
    · rw [makeRoom_cons_of_not_fits hall]
      rcases List.suffix_cons_iff.mp h with rfl | hl
      · exact absurd hfits hall
      · exact ih hl

theorem access_of_mem (hnd : (l.map Prod.fst).Nodup) (he : e ∈ l) {value : α → β} :
    access size capacity value l e.1 = l.filter (fun e' => e'.1 ≠ e.1) ++ [e] := by
  unfold access
  rw [load_of_mem_nodup hnd he]

theorem access_of_not_mem (h : ∀ e ∈ l, e.1 ≠ k) {value : α → β} (hk : size (value k) ≤ capacity) :
    access size capacity value l k =
      makeRoom size capacity (size (value k)) l ++ [(k, value k)] := by
  have hnew : ¬ ((∃ e ∈ l, e.1 = k) ∨ capacity < size (value k)) := by
    rintro (⟨e, he, hek⟩ | hlarge)
    · exact h e he hek
    · exact absurd hk (Nat.not_le.mpr hlarge)
  unfold access
  rw [load_of_not_mem h]
  show (insert size capacity l k (value k)).2 = _
  rw [insert, if_neg hnew]

/-- An access brings in nothing but the value of its key. -/
theorem mem_of_mem_access {value : α → β} (h : e ∈ access size capacity value l k) :
    e ∈ l ∨ e = (k, value k) := by
  unfold access at h
  cases hload : load l k with
  | mk data l' =>
    have hl' : ∀ e ∈ l', e ∈ l := fun e he => mem_of_mem_load (hload ▸ he : e ∈ (load l k).2)
    rw [hload] at h
    cases data with
    | some v => exact .inl (hl' e h)
    | none => exact (mem_of_mem_insert h).imp_left (hl' e)

/-- A list of the smaller capacity stays a suffix of one of the larger capacity. -/
theorem access_suffix {s : List (α × β)} {capacity' : ℕ} {value : α → β}
    (hnd : (l.map Prod.fst).Nodup) (hvalue : ∀ e ∈ l, e.2 = value e.1)
    (hcap : capacity ≤ capacity') (hk : size (value k) ≤ capacity) (h : s <:+ l) :
    access size capacity value s k <:+ access size capacity' value l k := by
  by_cases hlarge : ∃ e ∈ l, e.1 = k
  · obtain ⟨e, he, rfl⟩ := hlarge
    rw [access_of_mem hnd he]
    obtain ⟨p, rfl⟩ := h
    rw [List.filter_append]
    by_cases hsmall : e ∈ s
    · -- both find the key
      have hnds : (s.map Prod.fst).Nodup := by
        rw [List.map_append] at hnd
        exact (List.nodup_append.mp hnd).2.1
      rw [access_of_mem hnds hsmall, List.append_assoc]
      exact List.suffix_append _ _
    · -- only the larger finds it, and the smaller makes room for it
      have hmiss : ∀ e' ∈ s, e'.1 ≠ e.1 := by
        intro e' he' hkey
        rw [List.inj_on_of_nodup_map hnd (List.mem_append_right p he') he hkey] at he'
        exact hsmall he'
      have hfilter : s.filter (fun e' => e'.1 ≠ e.1) = s :=
        List.filter_eq_self.mpr fun e' he' => decide_eq_true (hmiss e' he')
      have hpair : (e.1, value e.1) = e := by rw [← hvalue e he]
      rw [access_of_not_mem hmiss hk, hfilter, hpair]
      have hroom : makeRoom size capacity (size (value e.1)) s <:+ s := makeRoom_suffix s
      obtain ⟨q, hq⟩ := hroom
      refine ⟨p.filter (fun e' => e'.1 ≠ e.1) ++ q, ?_⟩
      rw [← List.append_assoc, List.append_assoc _ q, hq]
  · -- neither finds it
    have hmiss : ∀ e ∈ l, e.1 ≠ k := fun e he hek => hlarge ⟨e, he, hek⟩
    rw [access_of_not_mem hmiss (hk.trans hcap),
      access_of_not_mem (fun e he => hmiss e (h.subset he)) hk]
    have hfits : total size (makeRoom size capacity (size (value k)) s) + size (value k) ≤ capacity' :=
      (makeRoom_fits hk s).trans hcap
    exact List.suffix_append_self_iff.mpr (suffix_makeRoom hfits ((makeRoom_suffix s).trans h))

/-- What the smaller finds, the larger finds. -/
theorem load_isSome_of_subset {s : List (α × β)} (hnd : (l.map Prod.fst).Nodup) (h : s ⊆ l)
    (hsome : (load s k).1.isSome = true) : (load l k).1.isSome = true := by
  obtain ⟨v, hv⟩ := Option.isSome_iff_exists.mp hsome
  have hmem : (k, v) ∈ l := h (mem_of_load_eq_some hv)
  exact Option.isSome_iff_exists.mpr ⟨v, (load_eq_some_iff hnd).mpr hmem⟩

end TurtleServer.Lib.Lru
