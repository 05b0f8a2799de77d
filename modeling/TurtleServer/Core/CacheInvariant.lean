import TurtleServer.Core.Cache
import TurtleServer.Lib.Lru

/-!
# The representation invariant of the cache

Three things have to stay in step in a `Cache`: the doubly linked list between the sentinels, the
hash map `mapping_`, and the counter `occupancy_`. Every operation breaks the agreement in the middle
and restores it at the end.

`Rep clock c es` relates a cache to the list `es` of its nodes in list order, each with its content.
One lemma per operation says what happens to `es`:

* `tryLoad_hit`: the node found moves to the end, with a new time stamp;
* `evictOne_rep`: the first node goes;
* `tryInsert_new`: the first nodes go until there is room, and one comes at the end;
* `clear_rep`: all go.

`wellFormed_of_rep` and `entries_of_rep` say what a representation means for the pointers themselves
(`WellFormed`) and for the content of the cache (`entries`).
-/

namespace TurtleServer.Cache

open Lib

/-! ## 1. What a well-formed cache is -/

/-- From `a`, the pointer `f` leads through the nodes `ns` and then to `b`. -/
def Follows (f : NodeId → Option NodeId) (a : NodeId) : List NodeId → NodeId → Prop
  | [], b => f a = some b
  | n :: ns, b => f a = some n ∧ Follows f n ns b

/-- The size of the data at a node. -/
def sizeAt (c : Cache) (n : NodeId) : ℕ := (c.heap.value n).elim 0 CacheNode.size

/-- The time stamp of a node. -/
def lastAccessAt (c : Cache) (n : NodeId) : ℕ := (c.heap.value n).elim 0 CacheNode.lastAccess

/-- The cache is in order, with the nodes `ns` between the sentinels. -/
structure WellFormed (c : Cache) (ns : List NodeId) : Prop where
  forward : Follows c.heap.next header ns tailer
  backward : Follows c.heap.prev tailer ns.reverse header
  once : ns.Nodup
  exactly : ∀ n, n ∈ ns ↔ ∃ url, c.mapping.lookup url = some n
  identifier : ∀ url n, c.mapping.lookup url = some n →
    ∃ v, c.heap.value n = some v ∧ v.identifier = url
  occupancy : c.occupancy = (ns.map c.sizeAt).sum
  fits : c.occupancy ≤ c.capacity
  order : ((header :: ns).map c.lastAccessAt).Pairwise (· ≤ ·)

/-! ## 2. The list between the sentinels -/

/-- The sentinels and the nodes `ns` between them are alive, distinct and linked both ways. -/
structure Shape (heap : Heap NodeId CacheNode) (ns : List NodeId) : Prop where
  linked : Linked heap.next heap.prev (header :: ns ++ [tailer])
  nodup : (header :: ns ++ [tailer]).Nodup
  live : ∀ x ∈ header :: ns ++ [tailer], ∃ v, heap.value x = some v

namespace ShapeLemmas

variable {c : Cache} {heap heap' : Heap NodeId CacheNode} {ns as bs : List NodeId} {n : NodeId}
  {v : CacheNode}

/-- A cell outside the list may be made, changed or freed. -/
theorem update (h : Shape heap ns) (hn : n ∉ header :: ns ++ [tailer])
    (cell : Option (Cell NodeId CacheNode)) : Shape (Function.update heap n cell) ns where
  linked := by
    refine h.linked.frame (fun x hx => ?_) (fun x hx => ?_)
    · have hne : x ≠ n := ne_of_mem_of_not_mem (List.mem_of_mem_dropLast hx) hn
      rw [Heap.next_update, Function.update_of_ne hne]
    · have hne : x ≠ n := ne_of_mem_of_not_mem (List.mem_of_mem_tail hx) hn
      rw [Heap.prev_update, Function.update_of_ne hne]
  nodup := h.nodup
  live := by
    intro x hx
    rw [Heap.value_update, Function.update_of_ne (ne_of_mem_of_not_mem hx hn)]
    exact h.live x hx

/-- A value in the list may be changed. -/
theorem setValue (h : Shape heap ns) (hn : heap'.next = heap.next) (hp : heap'.prev = heap.prev)
    (hv : heap'.value = Function.update heap.value n (some v)) : Shape heap' ns where
  linked := by
    rw [hn, hp]
    exact h.linked
  nodup := h.nodup
  live := by
    intro x hx
    rw [hv]
    by_cases hxn : x = n
    · exact ⟨v, by rw [hxn, Function.update_self]⟩
    · rw [Function.update_of_ne hxn]
      exact h.live x hx

/-- The two pointer writes of `RemoveFromList`. -/
theorem removeFromList_links {p q : NodeId} {vp vq : CacheNode} (hprev : c.heap.prev n = some p)
    (hnext : c.heap.next n = some q) (hvp : c.heap.value p = some vp)
    (hvq : c.heap.value q = some vq) :
    ∃ heap, c.removeFromList n = some { c with heap } ∧
      heap.next = Function.update c.heap.next p (some q) ∧
      heap.prev = Function.update c.heap.prev q (some p) ∧ heap.value = c.heap.value := by
  obtain ⟨h1, hs1, hn1, hp1, hv1⟩ := Heap.setNext_spec hvp q
  obtain ⟨h2, hs2, hn2, hp2, hv2⟩ := Heap.setPrev_spec (h := h1) (n := q) (by rw [hv1]; exact hvq) p
  refine ⟨h2, ?_, hn2.trans hn1, ?_, hv2.trans hv1⟩
  · simp only [removeFromList, hprev, hnext, hs1, hs2, Option.bind_eq_bind, Option.bind_some,
      Option.pure_def]
  · rw [hp2, hp1]

/-- The four pointer writes of `AppendToListTail`. -/
theorem appendToListTail_links {p : NodeId} {vp vt : CacheNode} (hprev : c.heap.prev tailer = some p)
    (hvp : c.heap.value p = some vp) (hvt : c.heap.value tailer = some vt)
    (hv : c.heap.value n = some v) :
    ∃ heap, c.appendToListTail n = some { c with heap } ∧
      heap.next = Function.update (Function.update c.heap.next p (some n)) n (some tailer) ∧
      heap.prev = Function.update (Function.update c.heap.prev tailer (some n)) n (some p) ∧
      heap.value = c.heap.value := by
  obtain ⟨h1, hs1, hn1, hp1, hv1⟩ := Heap.setNext_spec hvp n
  obtain ⟨h2, hs2, hn2, hp2, hv2⟩ :=
    Heap.setPrev_spec (h := h1) (n := tailer) (by rw [hv1]; exact hvt) n
  obtain ⟨h3, hs3, hn3, hp3, hv3⟩ :=
    Heap.setPrev_spec (h := h2) (n := n) (by rw [hv2, hv1]; exact hv) p
  obtain ⟨h4, hs4, hn4, hp4, hv4⟩ :=
    Heap.setNext_spec (h := h3) (n := n) (by rw [hv3, hv2, hv1]; exact hv) tailer
  refine ⟨h4, ?_, ?_, ?_, ?_⟩
  · simp only [appendToListTail, hprev, hs1, hs2, hs3, hs4, Option.bind_eq_bind, Option.bind_some,
      Option.pure_def]
  · rw [hn4, hn3, hn2, hn1]
  · rw [hp4, hp3, hp2, hp1]
  · rw [hv4, hv3, hv2, hv1]

/-- `RemoveFromList` of a node of the list. -/
theorem removeFromList_spec (h : Shape c.heap (as ++ n :: bs)) :
    ∃ heap, c.removeFromList n = some { c with heap } ∧ heap.value = c.heap.value ∧
      Shape heap (as ++ bs) ∧ n ∉ header :: (as ++ bs) ++ [tailer] := by
  have hids : header :: (as ++ n :: bs) ++ [tailer] =
      (header :: as) ++ n :: (bs ++ [tailer]) := by simp
  have hids' : (header :: as) ++ (bs ++ [tailer]) = header :: (as ++ bs) ++ [tailer] := by simp
  have hlinked := hids ▸ h.linked
  have hnodup := hids ▸ h.nodup
  have hlive := hids ▸ h.live
  obtain ⟨p, q, hp, hq, hprev, hnext, hunlinked⟩ := hlinked.unlink hnodup (by simp) (by simp)
  obtain ⟨vp, hvp⟩ := hlive p (List.mem_append_left _ hp)
  obtain ⟨vq, hvq⟩ := hlive q (List.mem_append_right _ (List.mem_cons_of_mem _ hq))
  obtain ⟨heap, hremove, hn', hp', hvalue⟩ := removeFromList_links hprev hnext hvp hvq
  obtain ⟨hnot, hnodup'⟩ := List.nodup_cons.mp (List.nodup_middle.mp hnodup)
  rw [hids'] at hunlinked hnot hnodup'
  refine ⟨heap, hremove, hvalue, ⟨?_, hnodup', ?_⟩, hnot⟩
  · rw [hn', hp']
    exact hunlinked
  · intro x hx
    rw [hvalue]
    rw [← hids'] at hx
    exact hlive x (List.perm_middle.mem_iff.mpr (List.mem_cons_of_mem _ hx))

/-- `AppendToListTail` of a node that is alive and not in the list. -/
theorem appendToListTail_spec (h : Shape c.heap ns) (hn : n ∉ header :: ns ++ [tailer])
    (hv : c.heap.value n = some v) :
    ∃ heap, c.appendToListTail n = some { c with heap } ∧ heap.value = c.heap.value ∧
      Shape heap (ns ++ [n]) := by
  have hids : header :: (ns ++ [n]) ++ [tailer] = (header :: ns) ++ n :: [tailer] := by simp
  obtain ⟨p, hp, hprev, hlinked⟩ := h.linked.insertLast h.nodup (by simp) hn
  obtain ⟨vp, hvp⟩ := h.live p (List.mem_append_left _ hp)
  obtain ⟨vt, hvt⟩ := h.live tailer (List.mem_append_right _ List.mem_cons_self)
  obtain ⟨heap, happend, hn', hp', hvalue⟩ := appendToListTail_links hprev hvp hvt hv
  refine ⟨heap, happend, hvalue, ⟨?_, ?_, ?_⟩⟩
  · rw [hn', hp', hids]
    exact hlinked
  · rw [hids]
    exact List.nodup_middle.mpr (List.nodup_cons.mpr ⟨hn, h.nodup⟩)
  · intro x hx
    rw [hvalue]
    rw [hids] at hx
    rcases List.mem_cons.mp (List.perm_middle.mem_iff.mp hx) with rfl | hx
    · exact ⟨v, hv⟩
    · exact h.live x hx

/-- The pointer writes of `Clear`, with every node but the sentinels freed. -/
theorem clear_spec (h : Shape heap ns) (dead : NodeId → Bool) (hheader : dead header = false)
    (htailer : dead tailer = false) :
    ∃ h1 h2, heap.setNext header tailer = some h1 ∧ h1.setPrev tailer header = some h2 ∧
      h2.value = heap.value ∧ Shape (fun n => if dead n then none else h2 n) [] := by
  obtain ⟨vh, hvh⟩ := h.live header (by simp)
  obtain ⟨vt, hvt⟩ := h.live tailer (by simp)
  obtain ⟨h1, hs1, hn1, hp1, hv1⟩ := Heap.setNext_spec hvh tailer
  obtain ⟨h2, hs2, hn2, hp2, hv2⟩ :=
    Heap.setPrev_spec (h := h1) (n := tailer) (by rw [hv1]; exact hvt) header
  have hvalue : h2.value = heap.value := hv2.trans hv1
  have hnext : h2.next header = some tailer := by rw [hn2, hn1, Function.update_self]
  have hprev : h2.prev tailer = some header := by rw [hp2, Function.update_self]
  refine ⟨h1, h2, hs1, hs2, hvalue, ⟨?_, by decide, ?_⟩⟩
  · refine List.isChain_cons_cons.mpr ⟨⟨?_, ?_⟩, List.isChain_singleton _⟩
    · simpa [Heap.next, hheader] using hnext
    · simpa [Heap.prev, htailer] using hprev
  · intro x hx
    have hx' : x = header ∨ x = tailer := by simpa using hx
    rcases hx' with rfl | rfl
    · exact ⟨vh, by simpa [Heap.value, hheader] using (congrFun hvalue header).trans hvh⟩
    · exact ⟨vt, by simpa [Heap.value, htailer] using (congrFun hvalue tailer).trans hvt⟩

theorem follows_of_linked {next prev : NodeId → Option NodeId} {ns : List NodeId} {a b : NodeId}
    (h : Linked next prev (a :: ns ++ [b])) : Follows next a ns b := by
  induction ns generalizing a with
  | nil => exact (List.isChain_cons_cons.mp h).1.1
  | cons n ns ih =>
    obtain ⟨⟨hnext, -⟩, hrest⟩ := List.isChain_cons_cons.mp h
    exact ⟨hnext, ih hrest⟩

theorem follows_back_of_shape (h : Shape heap ns) : Follows heap.prev tailer ns.reverse header := by
  have hreverse : Linked heap.prev heap.next (tailer :: ns.reverse ++ [header]) := by
    simpa using Linked.reverse h.linked
  exact follows_of_linked hreverse

theorem nodup_of_shape (h : Shape heap ns) : ns.Nodup :=
  (List.nodup_append.mp (List.nodup_cons.mp h.nodup).2).1

end ShapeLemmas

open ShapeLemmas

/-! ## 3. The representation -/

/-- The cache holds the nodes `es`, in list order, each given with its content. -/
structure Rep (clock : Clock) (c : Cache) (es : List (NodeId × CacheNode)) : Prop where
  shape : Shape c.heap (es.map Prod.fst)
  headerTime : ∃ v, c.heap.value header = some v ∧ v.lastAccess = clock.now 0
  values : ∀ e ∈ es, c.heap.value e.1 = some e.2
  mapped : ∀ url n, c.mapping.lookup url = some n ↔ ∃ v, (n, v) ∈ es ∧ v.identifier = url
  occupancy : c.occupancy = Lru.total CacheNode.size es
  fits : c.occupancy ≤ c.capacity
  capacity_lt : c.capacity < 2 ^ 64
  order : es.Pairwise fun a b => a.2.lastAccess ≤ b.2.lastAccess
  times : ∀ e ∈ es, clock.now 0 ≤ e.2.lastAccess ∧ e.2.lastAccess ≤ clock.now c.reads
  fresh : ∀ n v, c.heap.value n = some v → n < c.made

namespace RepLemmas

variable {clock : Clock} {c : Cache} {es as bs : List (NodeId × CacheNode)} {n : NodeId}
  {v : CacheNode} {url source : Bytes}

/-- No two nodes have the same identifier, for `mapping_` has one entry for each. -/
theorem identifier_inj (h : Rep clock c es) {e e' : NodeId × CacheNode} (he : e ∈ es) (he' : e' ∈ es)
    (hid : e.2.identifier = e'.2.identifier) : e = e' := by
  have h1 := (h.mapped e.2.identifier e.1).mpr ⟨e.2, he, rfl⟩
  have h2 := (h.mapped e.2.identifier e'.1).mpr ⟨e'.2, he', hid.symm⟩
  have hn : e.1 = e'.1 := Option.some.inj (h1.symm.trans h2)
  have hv : e.2 = e'.2 := by
    have hval := h.values e he
    rw [hn, h.values e' he'] at hval
    exact (Option.some.inj hval).symm
  exact Prod.ext hn hv

theorem mapping_empty_iff (h : Rep clock c es) : c.mapping.entries = [] ↔ es = [] := by
  constructor
  · intro hm
    cases es with
    | nil => rfl
    | cons e rest =>
      have hl := (h.mapped e.2.identifier e.1).mpr ⟨e.2, List.mem_cons_self, rfl⟩
      rw [AList.lookup, hm] at hl
      exact absurd hl (by simp)
  · intro hes
    subst hes
    cases hm : c.mapping.entries with
    | nil => rfl
    | cons e rest =>
      have hl : e.2 ∈ c.mapping.lookup e.1 :=
        AList.mem_lookup_iff.mpr (by rw [hm]; exact List.mem_cons_self)
      obtain ⟨v, hv, -⟩ := (h.mapped e.1 e.2).mp hl
      exact absurd hv List.not_mem_nil

theorem lookup_eq_none (h : Rep clock c es) (hmiss : ∀ e ∈ es, e.2.identifier ≠ url) :
    c.mapping.lookup url = none := by
  cases hl : c.mapping.lookup url with
  | none => rfl
  | some n =>
    obtain ⟨v, hv, hid⟩ := (h.mapped url n).mp hl
    exact absurd hid (hmiss _ hv)

/-! ### The parts of a representation

How the entries of `mapping_`, the time stamps and the contents change when a node is moved, taken
out or added. -/

/-- `mapping_` still leads to a node that was moved to the end and stamped. -/
theorem mapped_moved (h : Rep clock c (as ++ (n, v) :: bs)) (t : ℕ) (url : Bytes) (m : NodeId) :
    c.mapping.lookup url = some m ↔
      ∃ w, (m, w) ∈ as ++ bs ++ [(n, { v with lastAccess := t })] ∧ w.identifier = url := by
  refine (h.mapped url m).trans ?_
  simp only [List.mem_append, List.mem_cons, List.not_mem_nil, or_false, Prod.mk.injEq]
  constructor
  · rintro ⟨w, hw | ⟨rfl, rfl⟩ | hw, hid⟩
    · exact ⟨w, .inl (.inl hw), hid⟩
    · exact ⟨_, .inr ⟨rfl, rfl⟩, hid⟩
    · exact ⟨w, .inl (.inr hw), hid⟩
  · rintro ⟨w, (hw | hw) | ⟨rfl, rfl⟩, hid⟩
    · exact ⟨w, .inl hw, hid⟩
    · exact ⟨w, .inr (.inr hw), hid⟩
    · exact ⟨v, .inr (.inl ⟨rfl, rfl⟩), hid⟩

theorem mapped_erased (h : Rep clock c ((n, v) :: es)) (url : Bytes) (m : NodeId) :
    (c.mapping.erase v.identifier).lookup url = some m ↔ ∃ w, (m, w) ∈ es ∧ w.identifier = url := by
  have hnot : (n, v) ∉ es := by
    intro hmem
    obtain ⟨hn, -⟩ := List.nodup_cons.mp (List.nodup_cons.mp h.shape.nodup).2
    exact hn (List.mem_append_left _ (List.mem_map_of_mem hmem))
  rw [Map.lookup_erase_eq_some, h.mapped url m]
  constructor
  · rintro ⟨hne, w, hw, hid⟩
    cases hw with
    | head => exact absurd hid.symm hne
    | tail _ hw => exact ⟨w, hw, hid⟩
  · rintro ⟨w, hw, hid⟩
    refine ⟨?_, w, List.mem_cons_of_mem _ hw, hid⟩
    rintro rfl
    -- a second node with this identifier would be the first node again
    have hsame := identifier_inj h (List.mem_cons_of_mem _ hw) List.mem_cons_self hid
    exact hnot (hsame ▸ hw)

theorem mapped_emplaced (h : Rep clock c es) (hnew : ∀ e ∈ es, e.2.identifier ≠ v.identifier)
    (url : Bytes) (m : NodeId) :
    (c.mapping.emplace v.identifier n).lookup url = some m ↔
      ∃ w, (m, w) ∈ es ++ [(n, v)] ∧ w.identifier = url := by
  have hnotin : v.identifier ∉ c.mapping := AList.lookup_eq_none.mp (lookup_eq_none h hnew)
  simp only [List.mem_append, List.mem_singleton, Prod.mk.injEq]
  by_cases hurl : url = v.identifier
  · subst hurl
    rw [Map.lookup_emplace_self hnotin]
    constructor
    · rintro ⟨⟩
      exact ⟨_, .inr ⟨rfl, rfl⟩, rfl⟩
    · rintro ⟨w, hw | ⟨rfl, -⟩, hid⟩
      · exact absurd hid (hnew _ hw)
      · rfl
  · rw [Map.lookup_emplace_ne hurl, h.mapped url m]
    constructor
    · rintro ⟨w, hw, hid⟩
      exact ⟨w, .inl hw, hid⟩
    · rintro ⟨w, hw | ⟨-, rfl⟩, hid⟩
      · exact ⟨w, hw, hid⟩
      · exact absurd hid.symm hurl

/-- The stamp of a node that comes to the end is the latest one. -/
theorem order_push (horder : es.Pairwise fun a b => a.2.lastAccess ≤ b.2.lastAccess)
    (hle : ∀ e ∈ es, e.2.lastAccess ≤ v.lastAccess) :
    (es ++ [(n, v)]).Pairwise fun a b => a.2.lastAccess ≤ b.2.lastAccess := by
  refine List.pairwise_append.mpr ⟨horder, List.pairwise_singleton _ _, ?_⟩
  intro a ha b hb
  rw [List.mem_singleton.mp hb]
  exact hle a ha

theorem times_push {reads : ℕ}
    (htimes : ∀ e ∈ es, clock.now 0 ≤ e.2.lastAccess ∧ e.2.lastAccess ≤ clock.now reads)
    (hv : v.lastAccess = clock.now reads) : ∀ e ∈ es ++ [(n, v)],
      clock.now 0 ≤ e.2.lastAccess ∧ e.2.lastAccess ≤ clock.now (reads + 1) := by
  have hmono : clock.now reads ≤ clock.now (reads + 1) := clock.mono (Nat.le_succ _)
  intro e he
  rcases List.mem_append.mp he with he | he
  · exact ⟨(htimes e he).1, (htimes e he).2.trans hmono⟩
  · rw [List.mem_singleton.mp he, hv]
    exact ⟨clock.mono (Nat.zero_le _), hmono⟩

theorem values_push {value : NodeId → Option CacheNode} (hvalues : ∀ e ∈ es, value e.1 = some e.2)
    (hn : value n = some v) : ∀ e ∈ es ++ [(n, v)], value e.1 = some e.2 := by
  intro e he
  rcases List.mem_append.mp he with he | he
  · exact hvalues e he
  · rw [List.mem_singleton.mp he]
    exact hn

/-- The contents of the other nodes, when at most the content of `n` has changed. -/
theorem values_of_other {value : NodeId → Option CacheNode} (h : Rep clock c es)
    (hother : ∀ x, x ≠ n → value x = c.heap.value x) {rest : List (NodeId × CacheNode)}
    (hsub : rest ⊆ es) (hnot : n ∉ header :: rest.map Prod.fst ++ [tailer]) :
    (∃ w, value header = some w ∧ w.lastAccess = clock.now 0) ∧
      ∀ e ∈ rest, value e.1 = some e.2 := by
  obtain ⟨w, hw, ht⟩ := h.headerTime
  refine ⟨⟨w, (hother header (ne_of_mem_of_not_mem (by simp) hnot)).trans hw, ht⟩, ?_⟩
  intro e he
  refine (hother e.1 (ne_of_mem_of_not_mem ?_ hnot)).trans (h.values e (hsub he))
  exact List.mem_append_left _ (List.mem_cons_of_mem _ (List.mem_map_of_mem he))

theorem fresh_of_other {value : NodeId → Option CacheNode} (h : Rep clock c es)
    (hother : ∀ x, x ≠ n → value x = c.heap.value x) {made : ℕ} (hn : n < made)
    (hmade : c.made ≤ made) (m : NodeId) (w : CacheNode) (hw : value m = some w) : m < made := by
  by_cases hm : m = n
  · exact hm ▸ hn
  · exact (h.fresh m w ((hother m hm).symm.trans hw)).trans_le hmade

/-! ### TryLoad -/

theorem tryLoad_miss (h : Rep clock c es) (hmiss : ∀ e ∈ es, e.2.identifier ≠ url)
    (destination : Bytes) : c.tryLoad clock url destination = some (false, destination, c) := by
  rw [tryLoad, lookup_eq_none h hmiss]

/-- A hit appends the data to the destination and moves the node to the end of the list. -/
theorem tryLoad_hit (h : Rep clock c (as ++ (n, v) :: bs)) (destination : Bytes) :
    ∃ c', c.tryLoad clock v.identifier destination = some (true, destination ++ v.data, c') ∧
      c'.capacity = c.capacity ∧
      Rep clock c' (as ++ bs ++ [(n, { v with lastAccess := clock.now c.reads })]) := by
  have hmem : (n, v) ∈ as ++ (n, v) :: bs := by simp
  have hlook : c.mapping.lookup v.identifier = some n := (h.mapped _ _).mpr ⟨v, hmem, rfl⟩
  have hval : c.heap.value n = some v := h.values _ hmem
  have hshape : Shape c.heap (as.map Prod.fst ++ n :: bs.map Prod.fst) := by
    simpa using h.shape
  -- out of the list, back in at the end, and a new time stamp
  obtain ⟨h1, hr1, hv1, hsh1, hnot⟩ := removeFromList_spec hshape
  have hval1 : h1.value n = some v := by rw [hv1, hval]
  obtain ⟨h2, hr2, hv2, hsh2⟩ := appendToListTail_spec (c := { c with heap := h1 }) hsh1 hnot hval1
  have hval2 : h2.value n = some v := by
    rw [hv2]
    exact hval1
  obtain ⟨h3, hr3, hn3, hp3, hv3⟩ := Heap.setValue_spec hval2
    fun v => { v with lastAccess := clock.now c.reads }
  have hvalue : h3.value = Function.update c.heap.value n
      (some { v with lastAccess := clock.now c.reads }) := by
    rw [hv3, hv2]
    show Function.update h1.value n _ = _
    rw [hv1]
  have hother : ∀ x, x ≠ n → h3.value x = c.heap.value x := by
    intro x hx
    rw [hvalue, Function.update_of_ne hx]
  have hsub : as ++ bs ⊆ as ++ (n, v) :: bs := fun e he =>
    List.perm_middle.mem_iff.mpr (List.mem_cons_of_mem _ he)
  obtain ⟨hheader, hvalues⟩ := values_of_other h hother hsub (by simpa using hnot)
  refine ⟨{ c with heap := h3, reads := c.reads + 1 }, ?_, rfl, ?_⟩
  · simp only [tryLoad, hlook, serialize, hval, hr1, hr2, updateTimestamp, hr3, Option.map_some,
      Option.bind_eq_bind, Option.bind_some, Option.pure_def]
  exact
    { shape := by simpa using setValue hsh2 hn3 hp3 hv3
      headerTime := hheader
      values := values_push hvalues (by rw [hvalue, Function.update_self])
      mapped := mapped_moved h _
      occupancy := by
        refine h.occupancy.trans ?_
        simp only [Lru.total_append, Lru.total_cons, Lru.total_nil, CacheNode.size]
        omega
      fits := h.fits
      capacity_lt := h.capacity_lt
      order := by
        refine order_push ?_ fun e he => (h.times e (hsub he)).2
        exact h.order.sublist (List.Sublist.append_left (List.sublist_cons_self _ _) _)
      times := times_push (fun e he => h.times e (hsub he)) rfl
      fresh := fresh_of_other h hother (h.fresh n v hval) (le_refl _) }

/-! ### The eviction loop -/

/-- The first node of the list is unlinked, and its entry and its memory go. -/
theorem evictOne_rep {rest : List (NodeId × CacheNode)} (h : Rep clock c ((n, v) :: rest)) :
    ∃ c', c.evictOne = some c' ∧ c'.capacity = c.capacity ∧ Rep clock c' rest := by
  have hmem : (n, v) ∈ (n, v) :: rest := List.mem_cons_self
  have hlook : c.mapping.lookup v.identifier = some n := (h.mapped _ _).mpr ⟨v, hmem, rfl⟩
  have hval : c.heap.value n = some v := h.values _ hmem
  have hshape : Shape c.heap ([] ++ n :: rest.map Prod.fst) := h.shape
  have hfirst : c.heap.next header = some n := (List.isChain_cons_cons.mp hshape.linked).1.1
  obtain ⟨h1, hr1, hv1, hsh1, hnot⟩ := removeFromList_spec hshape
  have hother : ∀ x, x ≠ n → Heap.value (Function.update h1 n none) x = c.heap.value x := by
    intro x hx
    rw [Heap.value_update, Function.update_of_ne hx, hv1]
  obtain ⟨hheader, hvalues⟩ := values_of_other h hother (List.subset_cons_self _ _) hnot
  have htotal : c.occupancy = v.size + Lru.total CacheNode.size rest := h.occupancy
  have hfits : c.occupancy < 2 ^ 64 := Nat.lt_of_le_of_lt h.fits h.capacity_lt
  have hoccupancy : (c.occupancy + 2 ^ 64 - v.size) % 2 ^ 64 = Lru.total CacheNode.size rest := by
    omega
  refine ⟨{ c with
    mapping := c.mapping.erase v.identifier
    heap := Function.update h1 n none
    occupancy := (c.occupancy + 2 ^ 64 - v.size) % 2 ^ 64 }, ?_, rfl, ?_⟩
  · simp only [evictOne, hfirst, hval, hlook, hr1, Option.bind_eq_bind, Option.bind_some,
      Option.pure_def]
  exact
    { shape := update hsh1 hnot none
      headerTime := hheader
      values := hvalues
      mapped := mapped_erased h
      occupancy := hoccupancy
      fits := by
        show _ ≤ c.capacity
        rw [hoccupancy]
        exact (Nat.le_add_left _ _).trans (htotal ▸ h.fits)
      capacity_lt := h.capacity_lt
      order := (List.pairwise_cons.mp h.order).2
      times := fun e he => h.times e (List.mem_cons_of_mem _ he)
      fresh := fresh_of_other h hother (h.fresh n v hval) (le_refl _) }

/-- The difference in the loop condition does not wrap around. -/
theorem mustEvict_iff (h : Rep clock c es) (need : ℕ) :
    c.mustEvict need ↔ es ≠ [] ∧ ¬ Lru.total CacheNode.size es + need ≤ c.capacity := by
  have hfits := h.fits
  have hlt := h.capacity_lt
  rw [mustEvict, ne_eq, mapping_empty_iff h, ← h.occupancy]
  refine and_congr_right fun _ => ?_
  omega

/-- `mapping_` has an entry for every node, so its size is a bound for the loop. -/
theorem length_le_mapping (h : Rep clock c es) : es.length ≤ c.mapping.entries.length := by
  have hnd : es.Nodup := (List.nodup_append.mp (List.nodup_cons.mp h.shape.nodup).2).1.of_map
  have hkeys : (es.map fun e => e.2.identifier).Nodup :=
    hnd.map_on fun _ he _ he' hid => identifier_inj h he he' hid
  have hsub : es.map (fun e => e.2.identifier) ⊆ c.mapping.keys := by
    intro url hurl
    obtain ⟨e, he, rfl⟩ := List.mem_map.mp hurl
    exact Map.mem_of_lookup ((h.mapped _ e.1).mpr ⟨e.2, he, rfl⟩)
  have hle := (List.subperm_of_subset hkeys hsub).length_le
  rwa [List.length_map, AList.keys, List.keys, List.length_map] at hle

/-- The loop drops the shortest prefix that makes room. -/
theorem evictLoop_rep {need : ℕ} (rounds : ℕ) (h : Rep clock c es) (hrounds : es.length ≤ rounds)
    (hneed : need ≤ c.capacity) :
    ∃ c', evictLoop need rounds c = some c' ∧ c'.capacity = c.capacity ∧
      Rep clock c' (Lru.makeRoom CacheNode.size c.capacity need es) := by
  induction rounds generalizing c es with
  | zero =>
    have hes : es = [] := List.length_eq_zero_iff.mp (Nat.le_zero.mp hrounds)
    subst hes
    refine ⟨c, rfl, rfl, ?_⟩
    rw [Lru.makeRoom_of_fits (by simpa using hneed)]
    exact h
  | succ rounds ih =>
    by_cases hevict : c.mustEvict need
    · obtain ⟨hne, hroom⟩ := (mustEvict_iff h need).mp hevict
      obtain ⟨⟨n, v⟩, rest, rfl⟩ := List.exists_cons_of_ne_nil hne
      obtain ⟨c₁, hc₁, hcap₁, hrep₁⟩ := evictOne_rep h
      obtain ⟨c₂, hc₂, hcap₂, hrep₂⟩ := ih hrep₁ (Nat.le_of_succ_le_succ hrounds) (hcap₁ ▸ hneed)
      refine ⟨c₂, ?_, hcap₂.trans hcap₁, ?_⟩
      · rw [evictLoop, if_pos hevict, hc₁]
        exact hc₂
      · rw [Lru.makeRoom_cons_of_not_fits hroom, ← hcap₁]
        exact hrep₂
    · refine ⟨c, by rw [evictLoop, if_neg hevict], rfl, ?_⟩
      have hroom : Lru.total CacheNode.size es + need ≤ c.capacity := by
        by_contra hroom
        refine hevict ((mustEvict_iff h need).mpr ⟨?_, hroom⟩)
        rintro rfl
        exact hroom (by simpa using hneed)
      rw [Lru.makeRoom_of_fits hroom]
      exact h

/-! ### TryInsert -/

/-- Refused, and nothing has changed. -/
theorem tryInsert_refused (h : Rep clock c es)
    (hrefused : (∃ e ∈ es, e.2.identifier = url) ∨ c.capacity < source.length) :
    c.tryInsert clock url source = some (false, c) := by
  unfold tryInsert
  cases hl : c.mapping.lookup url with
  | some n => rfl
  | none =>
    rcases hrefused with ⟨e, he, hid⟩ | hlarge
    · have hsome := (h.mapped url e.1).mpr ⟨e.2, he, hid⟩
      rw [hl] at hsome
      exact absurd hsome (Option.some_ne_none _).symm
    · exact if_pos hlarge

/-- The end of `TryInsert`, once there is room: a new node, at an address that nothing lives at, comes
to the end of the list. -/
theorem insertNode_rep (h : Rep clock c es) (hnew : ∀ e ∈ es, e.2.identifier ≠ url)
    (hroom : Lru.total CacheNode.size es + source.length ≤ c.capacity) :
    ∃ heap, (c.makeNode clock url source).appendToListTail c.made =
        some { c.makeNode clock url source with heap } ∧
      Rep clock { c.makeNode clock url source with
        heap := heap
        occupancy := (c.occupancy + source.length) % 2 ^ 64
        mapping := c.mapping.emplace url c.made }
        (es ++ [(c.made, ⟨url, source, clock.now c.reads⟩)]) := by
  have hfree : c.made ∉ header :: es.map Prod.fst ++ [tailer] := by
    intro hmem
    obtain ⟨w, hw⟩ := h.shape.live _ hmem
    exact lt_irrefl _ (h.fresh _ w hw)
  obtain ⟨heap, hr, hv, hsh⟩ := appendToListTail_spec (c := c.makeNode clock url source)
    (v := ⟨url, source, clock.now c.reads⟩) (update h.shape hfree _) hfree
    (by rw [makeNode, Heap.value_update, Function.update_self]; rfl)
  have hvalue : heap.value = Function.update c.heap.value c.made
      (some ⟨url, source, clock.now c.reads⟩) := by
    rw [hv, makeNode, Heap.value_update]
    rfl
  have hother : ∀ x, x ≠ c.made → heap.value x = c.heap.value x := by
    intro x hx
    rw [hvalue, Function.update_of_ne hx]
  obtain ⟨hheader, hvalues⟩ := values_of_other h hother (List.Subset.refl _) hfree
  have hlt : Lru.total CacheNode.size es + source.length < 2 ^ 64 :=
    Nat.lt_of_le_of_lt hroom h.capacity_lt
  have hoccupancy : (c.occupancy + source.length) % 2 ^ 64 =
      Lru.total CacheNode.size es + source.length := by
    rw [h.occupancy, Nat.mod_eq_of_lt hlt]
  refine ⟨heap, hr, ?_⟩
  exact
    { shape := by simpa using hsh
      headerTime := hheader
      values := values_push hvalues (by rw [hvalue, Function.update_self])
      mapped := mapped_emplaced (v := ⟨url, source, clock.now c.reads⟩) h hnew
      occupancy := by
        show (c.occupancy + source.length) % 2 ^ 64 = _
        rw [hoccupancy, Lru.total_append, Lru.total_cons, Lru.total_nil]
        rfl
      fits := by
        show (c.occupancy + source.length) % 2 ^ 64 ≤ c.capacity
        rw [hoccupancy]
        exact hroom
      capacity_lt := h.capacity_lt
      order := order_push h.order fun e he => (h.times e he).2
      times := times_push h.times rfl
      fresh := fresh_of_other h hother (Nat.lt_succ_self _) (Nat.le_succ _) }

/-- Room is made at the front, and a new node comes at the end. -/
theorem tryInsert_new (h : Rep clock c es) (hnew : ∀ e ∈ es, e.2.identifier ≠ url)
    (hlength : source.length ≤ c.capacity) :
    ∃ c' n t, c.tryInsert clock url source = some (true, c') ∧ c'.capacity = c.capacity ∧
      Rep clock c' (Lru.makeRoom CacheNode.size c.capacity source.length es ++
        [(n, ⟨url, source, t⟩)]) := by
  obtain ⟨c₁, hc₁, hcap₁, h₁⟩ := evictLoop_rep _ h (length_le_mapping h) hlength
  have hroom : Lru.total CacheNode.size (Lru.makeRoom CacheNode.size c.capacity source.length es) +
      source.length ≤ c₁.capacity := (Lru.makeRoom_fits hlength es).trans_eq hcap₁.symm
  obtain ⟨heap, hr, hrep⟩ := insertNode_rep h₁
    (fun e he => hnew e ((Lru.makeRoom_suffix es).subset he)) hroom
  refine ⟨{ c₁.makeNode clock url source with
    heap := heap
    occupancy := (c₁.occupancy + source.length) % 2 ^ 64
    mapping := c₁.mapping.emplace url c₁.made }, c₁.made, clock.now c₁.reads, ?_, hcap₁, hrep⟩
  unfold tryInsert
  rw [lookup_eq_none h hnew]
  simp only [gt_iff_lt, Nat.not_lt.mpr hlength, if_false, hc₁, hr, Option.bind_eq_bind,
    Option.bind_some, Option.pure_def]
  rfl

/-! ### Clear, and the cache at the start -/

/-- `mapping_` owns no sentinel. -/
theorem not_owned (h : Rep clock c es) {x : NodeId} (hx : x = header ∨ x = tailer) :
    c.mapping.entries.any (fun e => e.2 = x) = false := by
  rw [List.any_eq_false]
  intro e he hex
  have hl : c.mapping.lookup e.1 = some e.2 := AList.mem_lookup_iff.mpr he
  obtain ⟨v, hv, -⟩ := (h.mapped _ _).mp hl
  rw [of_decide_eq_true hex] at hv
  have hmem : x ∈ es.map Prod.fst := List.mem_map_of_mem hv
  obtain ⟨hheader, hrest⟩ := List.nodup_cons.mp h.shape.nodup
  rcases hx with rfl | rfl
  · exact hheader (List.mem_append_left _ hmem)
  · exact (List.nodup_append.mp hrest).2.2 _ hmem _ List.mem_cons_self rfl

theorem clear_rep (h : Rep clock c es) :
    ∃ c', c.clear = some c' ∧ c'.capacity = c.capacity ∧ Rep clock c' [] := by
  have hheader := not_owned h (.inl rfl)
  obtain ⟨h1, h2, hs1, hs2, hv, hsh⟩ := clear_spec h.shape
    (fun n => c.mapping.entries.any fun e => e.2 = n) hheader (not_owned h (.inr rfl))
  refine ⟨{ c with
    mapping := ∅
    heap := fun n => if c.mapping.entries.any (fun e => e.2 = n) then none else h2 n
    occupancy := 0 }, ?_, rfl, ?_⟩
  · simp only [clear, hs1, hs2, Option.bind_eq_bind, Option.bind_some, Option.pure_def]
  exact
    { shape := hsh
      headerTime := by
        obtain ⟨w, hw, ht⟩ := h.headerTime
        refine ⟨w, ?_, ht⟩
        rw [← hv] at hw
        simpa [Heap.value, hheader] using hw
      values := fun e he => absurd he List.not_mem_nil
      mapped := by simp
      occupancy := rfl
      fits := Nat.zero_le _
      capacity_lt := h.capacity_lt
      order := List.Pairwise.nil
      times := fun e he => absurd he List.not_mem_nil
      fresh := by
        intro m w hw
        refine h.fresh m w ?_
        rw [← hv]
        simp only [Heap.value] at hw ⊢
        split at hw
        · exact absurd hw (by simp)
        · exact hw }

theorem new_rep (capacity : UInt64) : Rep clock (new clock capacity) [] where
  shape :=
    { linked := List.isChain_cons_cons.mpr ⟨⟨rfl, rfl⟩, List.isChain_singleton _⟩
      nodup := by decide
      live := by
        intro x hx
        have hx' : x = header ∨ x = tailer := by simpa using hx
        rcases hx' with rfl | rfl
        · exact ⟨_, rfl⟩
        · exact ⟨_, rfl⟩ }
  headerTime := ⟨_, rfl, rfl⟩
  values := fun e he => absurd he List.not_mem_nil
  mapped := by simp [new]
  occupancy := rfl
  fits := Nat.zero_le _
  capacity_lt := capacity.toNat_lt
  order := List.Pairwise.nil
  times := fun e he => absurd he List.not_mem_nil
  fresh := by
    intro m w hw
    show m < 2
    by_contra hm
    have h0 : m ≠ header := fun he => hm (he ▸ Nat.zero_lt_two)
    have h1 : m ≠ tailer := fun he => hm (he ▸ Nat.one_lt_two)
    simp [new, Heap.value, h0, h1] at hw

/-! ### What follows -/

theorem walk_of_follows {ns : List NodeId} {a : NodeId} {bound : ℕ}
    (h : Follows c.heap.next a ns tailer) (htailer : tailer ∉ ns) (hbound : ns.length ≤ bound) :
    c.walk bound a = ns := by
  induction ns generalizing a bound with
  | nil =>
    have hnext : c.heap.next a = some tailer := h
    cases bound with
    | zero => rfl
    | succ bound => simp [walk, hnext]
  | cons n ns ih =>
    obtain ⟨hnext, hrest⟩ := h
    obtain ⟨hne, hnot⟩ := List.ne_and_not_mem_of_not_mem_cons htailer
    cases bound with
    | zero => exact absurd hbound (Nat.not_succ_le_zero _)
    | succ bound =>
      simp only [walk, hnext, if_neg hne.symm]
      rw [ih hrest hnot (Nat.le_of_succ_le_succ hbound)]

end RepLemmas

open RepLemmas

variable {clock : Clock} {c : Cache} {es : List (NodeId × CacheNode)}

theorem wellFormed_of_rep (h : Rep clock c es) : c.WellFormed (es.map Prod.fst) where
  forward := follows_of_linked h.shape.linked
  backward := follows_back_of_shape h.shape
  once := nodup_of_shape h.shape
  exactly := by
    intro n
    constructor
    · intro hn
      obtain ⟨e, he, rfl⟩ := List.mem_map.mp hn
      exact ⟨_, (h.mapped _ _).mpr ⟨e.2, he, rfl⟩⟩
    · rintro ⟨url, hurl⟩
      obtain ⟨v, hv, -⟩ := (h.mapped _ _).mp hurl
      exact List.mem_map_of_mem hv
  identifier := by
    intro url n hurl
    obtain ⟨v, hv, hid⟩ := (h.mapped _ _).mp hurl
    exact ⟨v, h.values _ hv, hid⟩
  occupancy := by
    have hsize : ∀ e ∈ es, c.sizeAt e.1 = e.2.size := by
      intro e he
      rw [sizeAt, h.values e he]
      rfl
    rw [h.occupancy, Lru.total, List.map_map]
    exact congrArg List.sum (List.map_congr_left fun e he => (hsize e he).symm)
  fits := h.fits
  order := by
    have htime : ∀ e ∈ es, c.lastAccessAt e.1 = e.2.lastAccess := by
      intro e he
      rw [lastAccessAt, h.values e he]
      rfl
    have hheader : c.lastAccessAt header = clock.now 0 := by
      obtain ⟨v, hv, ht⟩ := h.headerTime
      rw [lastAccessAt, hv]
      exact ht
    have hmap : (es.map Prod.fst).map c.lastAccessAt = es.map fun e => e.2.lastAccess := by
      rw [List.map_map]
      exact List.map_congr_left htime
    rw [List.map_cons, hmap, hheader]
    refine List.pairwise_cons.mpr ⟨?_, List.pairwise_map.mpr h.order⟩
    intro t ht
    obtain ⟨e, he, rfl⟩ := List.mem_map.mp ht
    exact (h.times e he).1

theorem entries_of_rep (h : Rep clock c es) :
    c.entries = es.map fun e => (e.2.identifier, e.2.data) := by
  obtain ⟨hnodup, -, hdisjoint⟩ := List.nodup_append.mp (List.nodup_cons.mp h.shape.nodup).2
  have htailer : tailer ∉ es.map Prod.fst := fun hmem => hdisjoint _ hmem _ List.mem_cons_self rfl
  have hsub : es.map Prod.fst ⊆ List.range c.made := by
    intro n hn
    obtain ⟨e, he, rfl⟩ := List.mem_map.mp hn
    exact List.mem_range.mpr (h.fresh _ _ (h.values e he))
  have hbound : (es.map Prod.fst).length ≤ c.made := by
    simpa using (List.subperm_of_subset hnodup hsub).length_le
  have hwalk : c.walk c.made header = es.map Prod.fst :=
    walk_of_follows (follows_of_linked h.shape.linked) htailer hbound
  rw [entries, hwalk, List.filterMap_map]
  have hpair : ∀ e ∈ es, ((c.heap.value e.1).map fun v => (v.identifier, v.data)) =
      some (e.2.identifier, e.2.data) := by
    intro e he
    rw [h.values e he]
    rfl
  rw [List.filterMap_congr (g := fun e => some (e.2.identifier, e.2.data)) hpair]
  rw [List.filterMap_eq_map']

end TurtleServer.Cache
