import TurtleServer.Lib.Lru

/-!
# What a least-recently-used list holds

The keys used so far, in the order of their last uses, make the recency list; it knows nothing of a
capacity. Starting from nothing, uses of keys leave the longest suffix of it that fits
(`accesses_longest`), where keys whose values do not even fit alone do not count.

So whether a key is found is decided by what came after its last use: it is found when its value and
those of the different keys used since fit together (`hit_iff`).
-/

namespace TurtleServer.Lib.Lru

variable {α β : Type*} [DecidableEq α] (size : β → ℕ) (capacity : ℕ) (value : α → β)

/-- The key becomes the one used last. -/
def touch (l : List (α × β)) (k : α) : List (α × β) :=
  l.filter (fun e => e.1 ≠ k) ++ [(k, value k)]

/-- The keys in the order of their last uses. -/
def recency (ks : List α) : List (α × β) := ks.foldl (touch value) []

/-- Uses of keys, from the empty list. -/
def accesses (ks : List α) : List (α × β) := ks.foldl (access size capacity value) []

/-- The keys whose values fit. -/
def fitting (ks : List α) : List α := ks.filter fun k => size (value k) ≤ capacity

variable {size capacity value} {l s : List (α × β)} {e : α × β} {k : α} {ks : List α}

/-! ## The recency list -/

theorem recency_concat (ks : List α) (k : α) :
    recency value (ks ++ [k]) = touch value (recency value ks) k := List.foldl_concat ..

theorem mem_keys_touch {j : α} :
    j ∈ (touch value l k).map Prod.fst ↔ j = k ∨ j ∈ l.map Prod.fst := by
  simp only [touch, List.map_append, List.mem_append, List.map_singleton, List.mem_singleton,
    List.mem_map, List.mem_filter, decide_eq_true_eq]
  constructor
  · rintro (⟨e, ⟨he, -⟩, rfl⟩ | rfl)
    · exact .inr ⟨e, he, rfl⟩
    · exact .inl rfl
  · rintro (rfl | ⟨e, he, rfl⟩)
    · exact .inr rfl
    · by_cases hk : e.1 = k
      · exact .inr hk
      · exact .inl ⟨e, ⟨he, hk⟩, rfl⟩

theorem nodup_touch (h : (l.map Prod.fst).Nodup) : ((touch value l k).map Prod.fst).Nodup := by
  rw [touch, List.map_append, List.map_singleton, List.nodup_append]
  refine ⟨h.sublist (List.Sublist.map _ (List.filter_sublist ..)), List.nodup_singleton _, ?_⟩
  rintro j hj _ hk rfl
  obtain ⟨e, he, rfl⟩ := List.mem_map.mp hj
  have hne : e.1 ≠ k := of_decide_eq_true (List.mem_filter.mp he).2
  exact hne (List.mem_singleton.mp hk)

theorem mem_keys_recency (ks : List α) {j : α} : j ∈ (recency value ks).map Prod.fst ↔ j ∈ ks := by
  induction ks using List.reverseRecOn with
  | nil => exact Iff.rfl
  | append_singleton ks k ih =>
    rw [recency_concat, mem_keys_touch, ih, List.mem_append, List.mem_singleton, or_comm]

theorem nodup_recency (ks : List α) : ((recency value ks).map Prod.fst).Nodup := by
  induction ks using List.reverseRecOn with
  | nil => exact List.nodup_nil
  | append_singleton ks k ih =>
    rw [recency_concat]
    exact nodup_touch ih

theorem value_of_mem_recency (ks : List α) : ∀ e ∈ recency value ks, e.2 = value e.1 := by
  induction ks using List.reverseRecOn with
  | nil => exact fun _ he => absurd he List.not_mem_nil
  | append_singleton ks k ih =>
    intro e he
    rw [recency_concat] at he
    rcases List.mem_append.mp he with he | he
    · exact ih e (List.mem_of_mem_filter he)
    · rw [List.mem_singleton.mp he]

/-- The keys that are not used again keep their order, before those that are. -/
theorem recency_append (js ks : List α) :
    recency value (js ++ ks) = (recency value js).filter (fun e => e.1 ∉ ks) ++ recency value ks := by
  induction ks using List.reverseRecOn with
  | nil => simp [recency]
  | append_singleton ks k ih =>
    have hfilter : (fun e : α × β => decide (e.1 ∉ ks ++ [k])) =
        fun e => decide (e.1 ≠ k) && decide (e.1 ∉ ks) := by
      funext e
      simp [and_comm]
    rw [← List.append_assoc, recency_concat, ih, touch, List.filter_append, List.filter_filter,
      ← hfilter, List.append_assoc, recency_concat, touch]

/-- What comes after the last use of a key. -/
theorem recency_last_use (before : List α) {since : List α} (h : k ∉ since) :
    ∃ older, recency value (before ++ k :: since) =
      older ++ (k, value k) :: recency value since := by
  have hone : recency value (k :: since) = (k, value k) :: recency value since := by
    rw [← List.singleton_append, recency_append, recency, List.foldl_cons, List.foldl_nil, touch,
      List.filter_nil, List.nil_append, List.filter_cons_of_pos (by simpa using h), List.filter_nil,
      List.singleton_append]
  rw [recency_append, hone]
  exact ⟨_, rfl⟩

theorem total_recency (ks : List α) :
    total size (recency value ks) = ∑ j ∈ ks.toFinset, size (value j) := by
  have hkeys : ((recency value ks).map Prod.fst).toFinset = ks.toFinset := by
    ext j
    rw [List.mem_toFinset, List.mem_toFinset, mem_keys_recency]
  have hvalues : (recency value ks).map (fun e => size e.2) =
      ((recency value ks).map Prod.fst).map fun j => size (value j) := by
    rw [List.map_map]
    exact List.map_congr_left fun e he => congrArg size (value_of_mem_recency ks e he)
  rw [total, hvalues, ← List.sum_toFinset _ (nodup_recency ks), hkeys]

/-! ## The list as a suffix -/

/-- Taking a pair out by its key. -/
theorem total_filter_of_mem (hnd : (l.map Prod.fst).Nodup) (he : e ∈ l) :
    total size (l.filter fun e' => e'.1 ≠ e.1) + size e.2 = total size l := by
  induction l with
  | nil => exact absurd he List.not_mem_nil
  | cons e' l ih =>
    obtain ⟨hnot, hnd⟩ := List.nodup_cons.mp hnd
    rcases List.mem_cons.mp he with rfl | hmem
    · have hrest : l.filter (fun e' => e'.1 ≠ e.1) = l :=
        List.filter_eq_self.mpr fun e' he' => decide_eq_true fun hk =>
          hnot (hk ▸ List.mem_map_of_mem he')
      rw [List.filter_cons_of_neg (by simp), hrest, total_cons, Nat.add_comm]
    · have hne : e'.1 ≠ e.1 := fun hk => hnot (hk ▸ List.mem_map_of_mem hmem)
      rw [List.filter_cons_of_pos (by simpa using hne), total_cons, total_cons, Nat.add_assoc,
        ih hnd hmem]

omit [DecidableEq α] in
theorem filter_eq_self_of_miss (p : α → Prop) [DecidablePred p] (h : ∀ e ∈ l, p e.1) :
    l.filter (fun e => p e.1) = l := List.filter_eq_self.mpr fun e he => decide_eq_true (h e he)

/-- Taking a key out takes out no more than its value. -/
theorem total_le_filter (hnd : (l.map Prod.fst).Nodup) (hvalue : ∀ e ∈ l, e.2 = value e.1) (k : α) :
    total size l ≤ total size (l.filter fun e => e.1 ≠ k) + size (value k) := by
  by_cases hmem : ∃ e ∈ l, e.1 = k
  · obtain ⟨e, he, rfl⟩ := hmem
    rw [← hvalue e he, total_filter_of_mem hnd he]
  · rw [filter_eq_self_of_miss (· ≠ k) fun e he hk => hmem ⟨e, he, hk⟩]
    exact Nat.le_add_right _ _

/-- `s` is the longest suffix of `l` that fits. -/
structure Longest (size : β → ℕ) (capacity : ℕ) (l s : List (α × β)) : Prop where
  suffix : s <:+ l
  fits : total size s ≤ capacity
  longest : ∀ t, t <:+ l → total size t ≤ capacity → t <:+ s

/-- The key is found. -/
theorem longest_touch_of_mem (h : Longest size capacity l s) (hnd : (l.map Prod.fst).Nodup)
    (he : e ∈ s) (hpair : value e.1 = e.2) :
    Longest size capacity (touch value l e.1) (s.filter (fun e' => e'.1 ≠ e.1) ++ [e]) := by
  obtain ⟨⟨p, rfl⟩, hfits, hlongest⟩ := h
  rw [List.map_append, List.nodup_append] at hnd
  obtain ⟨-, hnds, hapart⟩ := hnd
  have hp : p.filter (fun e' => e'.1 ≠ e.1) = p :=
    filter_eq_self_of_miss (· ≠ e.1) fun e' he' =>
      hapart _ (List.mem_map_of_mem he') _ (List.mem_map_of_mem he)
  have hsame : total size (s.filter (fun e' => e'.1 ≠ e.1) ++ [e]) = total size s := by
    rw [total_append, total_cons, total_nil, Nat.add_zero, total_filter_of_mem hnds he]
  have htouch : touch value (p ++ s) e.1 = p ++ (s.filter (fun e' => e'.1 ≠ e.1) ++ [e]) := by
    rw [touch, List.filter_append, hp, hpair, List.append_assoc]
  rw [htouch]
  refine ⟨List.suffix_append _ _, hsame.trans_le hfits, fun t ht hroom => ?_⟩
  rcases List.suffix_or_suffix_of_suffix ht (List.suffix_append p _) with hshort | ⟨u, rfl⟩
  · exact hshort
  · -- what is longer was too long before
    obtain ⟨q, hq⟩ := ht
    have hu : u <:+ p := ⟨q, List.append_cancel_right ((List.append_assoc ..).trans hq)⟩
    rw [total_append, hsame, ← total_append] at hroom
    have hlong : u ++ s <:+ s := hlongest _ (List.suffix_append_self_iff.mpr hu) hroom
    have hnil : u = [] := by
      have hlength := hlong.length_le
      rw [List.length_append] at hlength
      exact List.length_eq_zero_iff.mp (by omega)
    rw [hnil, List.nil_append]

/-- The key is not found, and room is made for its value. -/
theorem longest_touch_of_not_mem (h : Longest size capacity l s) (hnd : (l.map Prod.fst).Nodup)
    (hvalue : ∀ e ∈ l, e.2 = value e.1) (hmiss : ∀ e ∈ s, e.1 ≠ k)
    (hk : size (value k) ≤ capacity) :
    Longest size capacity (touch value l k)
      (makeRoom size capacity (size (value k)) s ++ [(k, value k)]) := by
  obtain ⟨⟨p, rfl⟩, hfits, hlongest⟩ := h
  have hs : s.filter (fun e => e.1 ≠ k) = s := filter_eq_self_of_miss (· ≠ k) hmiss
  have htouch : touch value (p ++ s) k =
      p.filter (fun e => e.1 ≠ k) ++ s ++ [(k, value k)] := by
    rw [touch, List.filter_append, hs]
  rw [htouch]
  refine ⟨?_, ?_, fun t ht hroom => ?_⟩
  · exact List.suffix_append_self_iff.mpr
      ((makeRoom_suffix s).trans (List.suffix_append _ _))
  · rw [total_append, total_cons, total_nil, Nat.add_zero]
    exact makeRoom_fits hk s
  · rcases List.suffix_concat_iff.mp ht with rfl | ⟨t', rfl, ht'⟩
    · exact List.nil_suffix
    · rw [total_append, total_cons, total_nil, Nat.add_zero] at hroom
      refine List.suffix_append_self_iff.mpr (suffix_makeRoom hroom ?_)
      rcases List.suffix_or_suffix_of_suffix ht' (List.suffix_append _ s) with hshort | ⟨u, rfl⟩
      · exact hshort
      · -- with the old pair of the key, or without it, what is longer was too long before
        obtain ⟨q, hq⟩ := ht'
        have hu : u <:+ p.filter fun e => e.1 ≠ k :=
          ⟨q, List.append_cancel_right ((List.append_assoc ..).trans hq)⟩
        obtain ⟨u', hu', rfl⟩ := List.suffix_filter_iff.mp hu
        have hnd' : (u'.map Prod.fst).Nodup := by
          rw [List.map_append, List.nodup_append] at hnd
          exact hnd.1.sublist (hu'.sublist.map _)
        have htake : total size u' ≤ total size (u'.filter fun e => e.1 ≠ k) + size (value k) :=
          total_le_filter hnd' (fun e he => hvalue e (List.mem_append_left _ (hu'.subset he))) k
        have hlong : u' ++ s <:+ s := by
          refine hlongest _ (List.suffix_append_self_iff.mpr hu') ?_
          have hroom' : total size (u'.filter fun e => e.1 ≠ k) + total size s + size (value k) ≤
              capacity := by
            rw [← total_append]
            exact hroom
          rw [total_append]
          omega
        have hnil : u' = [] := by
          have hlength := hlong.length_le
          rw [List.length_append] at hlength
          exact List.length_eq_zero_iff.mp (by omega)
        rw [hnil, List.filter_nil, List.nil_append]

/-- A use of a key whose value fits, seen from the recency list. -/
theorem access_longest (h : Longest size capacity l s) (hnd : (l.map Prod.fst).Nodup)
    (hvalue : ∀ e ∈ l, e.2 = value e.1) (hk : size (value k) ≤ capacity) :
    Longest size capacity (touch value l k) (access size capacity value s k) := by
  have hnds : (s.map Prod.fst).Nodup := hnd.sublist (h.suffix.sublist.map _)
  by_cases hmem : ∃ e ∈ s, e.1 = k
  · obtain ⟨e, he, rfl⟩ := hmem
    rw [access_of_mem hnds he]
    exact longest_touch_of_mem h hnd he (hvalue e (h.suffix.subset he)).symm
  · have hmiss : ∀ e ∈ s, e.1 ≠ k := fun e he hek => hmem ⟨e, he, hek⟩
    rw [access_of_not_mem hmiss hk]
    exact longest_touch_of_not_mem h hnd hvalue hmiss hk

/-- A value that does not fit is not found, and refused. -/
theorem access_of_large (hk : capacity < size (value k)) (hmiss : ∀ e ∈ l, e.1 ≠ k) :
    access size capacity value l k = l := by
  unfold access
  rw [load_of_not_mem hmiss]
  show (insert size capacity l k (value k)).2 = l
  rw [insert, if_pos (.inr hk)]

/-! ## Uses of keys -/

/-- What is left is the longest suffix of the recency list that fits. -/
theorem accesses_longest (size : β → ℕ) (capacity : ℕ) (value : α → β) (ks : List α) :
    Longest size capacity (recency value (fitting size capacity value ks))
      (accesses size capacity value ks) := by
  induction ks using List.reverseRecOn with
  | nil => exact ⟨List.suffix_refl _, Nat.zero_le _, fun t ht _ => ht⟩
  | append_singleton ks k ih =>
    rw [accesses, List.foldl_concat, fitting, List.filter_append]
    by_cases hk : size (value k) ≤ capacity
    · rw [List.filter_cons_of_pos (by simpa using hk), List.filter_nil, recency_concat]
      exact access_longest ih (nodup_recency _) (value_of_mem_recency _) hk
    · rw [List.filter_cons_of_neg (by simpa using hk), List.filter_nil, List.append_nil]
      have hmiss : ∀ e ∈ accesses size capacity value ks, e.1 ≠ k := by
        rintro e he rfl
        have hmem : e.1 ∈ fitting size capacity value ks :=
          (mem_keys_recency _).mp (List.mem_map_of_mem (ih.suffix.subset he))
        exact hk (of_decide_eq_true (List.mem_filter.mp hmem).2)
      rw [← accesses, access_of_large (not_le.mp hk) hmiss]
      exact ih

omit [DecidableEq α] in
theorem last_use (h : k ∈ ks) : ∃ before since, ks = before ++ k :: since ∧ k ∉ since := by
  obtain ⟨since, before, hks, hnot⟩ := List.eq_append_cons_of_mem (List.mem_reverse.mpr h)
  refine ⟨before.reverse, since.reverse, ?_, fun hmem => hnot (List.mem_reverse.mp hmem)⟩
  rw [← List.reverse_reverse ks, hks, List.reverse_append, List.reverse_cons, List.append_assoc,
    List.singleton_append]

/-- The recency list from the last use of a key on. -/
theorem recency_fitting (before : List α) {since : List α} (hnot : k ∉ since)
    (hk : size (value k) ≤ capacity) :
    ∃ older, recency value (fitting size capacity value (before ++ k :: since)) =
        older ++ (k, value k) :: recency value (fitting size capacity value since) ∧
      k ∉ fitting size capacity value since := by
  have hnot' : k ∉ fitting size capacity value since := fun hmem =>
    hnot (List.mem_of_mem_filter hmem)
  obtain ⟨older, holder⟩ := recency_last_use (fitting size capacity value before) hnot'
  refine ⟨older, ?_, hnot'⟩
  rw [← holder, fitting, fitting, fitting, List.filter_append,
    List.filter_cons_of_pos (by simpa using hk)]

/-- A key is found when its value and those of the different keys used since fit together. -/
theorem hit_iff (ks : List α) (k : α) :
    (load (accesses size capacity value ks) k).1.isSome = true ↔
      ∃ before since, ks = before ++ k :: since ∧ k ∉ since ∧
        size (value k) + ∑ j ∈ (fitting size capacity value since).toFinset, size (value j) ≤
          capacity := by
  obtain ⟨hsuffix, hfits, hlongest⟩ := accesses_longest size capacity value ks
  generalize accesses size capacity value ks = s at hsuffix hfits hlongest
  have hnds : (s.map Prod.fst).Nodup := (nodup_recency _).sublist (hsuffix.sublist.map _)
  constructor
  · intro hsome
    obtain ⟨v, hv⟩ := Option.isSome_iff_exists.mp hsome
    have hmem : (k, v) ∈ s := mem_of_load_eq_some hv
    have hfit : k ∈ fitting size capacity value ks :=
      (mem_keys_recency _).mp (List.mem_map_of_mem (hsuffix.subset hmem))
    have hk : size (value k) ≤ capacity := of_decide_eq_true (List.mem_filter.mp hfit).2
    obtain ⟨before, since, rfl, hnot⟩ := last_use (List.mem_of_mem_filter hfit)
    refine ⟨before, since, rfl, hnot, ?_⟩
    obtain ⟨older, hrecency, hnot'⟩ := recency_fitting before hnot hk
    rw [hrecency] at hsuffix
    rw [← total_recency, ← total_cons (e := (k, value k))]
    -- the list reaches back to the last use of the key
    rcases List.suffix_or_suffix_of_suffix hsuffix (List.suffix_append older _) with hshort | hlong
    · rcases List.suffix_cons_iff.mp hshort with rfl | hshorter
      · exact hfits
      · exact absurd ((mem_keys_recency _).mp (List.mem_map_of_mem (hshorter.subset hmem))) hnot'
    · obtain ⟨p, rfl⟩ := hlong
      rw [total_append] at hfits
      exact (Nat.le_add_left _ _).trans hfits
  · rintro ⟨before, since, rfl, hnot, hroom⟩
    have hk : size (value k) ≤ capacity := (Nat.le_add_right _ _).trans hroom
    obtain ⟨older, hrecency, -⟩ := recency_fitting before hnot hk
    rw [← total_recency, ← total_cons (e := (k, value k))] at hroom
    have hreaches : (k, value k) :: recency value (fitting size capacity value since) <:+ s := by
      refine hlongest _ ?_ hroom
      rw [hrecency]
      exact List.suffix_append _ _
    have hmem : (k, value k) ∈ s := hreaches.subset List.mem_cons_self
    exact Option.isSome_iff_exists.mpr ⟨_, (load_eq_some_iff hnds).mpr hmem⟩

end TurtleServer.Lib.Lru
