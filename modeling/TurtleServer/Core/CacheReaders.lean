import TurtleServer.Core.CacheRefinement

/-!
# Readers of the cache at the same time

`TryLoad` takes the lock in shared mode and moves the node it has found to the end of the list. The
calls that are admitted together make their steps in any order; `RemoveFromList` and
`AppendToListTail` are one step each here.

1. `Reader` and `Readers`: the steps of one call and of all, and `Intact`: the list is in order.
2. `advance_spec`: what one step does as long as no two calls hold the same node.
3. `double_move`: what two calls that hold the same node can do to it.
4. `readers_keep_list`: the list survives every order of the steps exactly when no two calls ask for
   the same cached resource.
-/

namespace TurtleServer.Cache

open Lib ShapeLemmas

/-! ## 1. The calls -/

/-- A call of `TryLoad` that holds the lock: before the search, after `Serialize`, after
`RemoveFromList`, after `AppendToListTail` and after its end. -/
inductive Reader
  | called (resourceUrl destination : Bytes)
  | loaded (node : NodeId) (destination : Bytes)
  | removed (node : NodeId) (destination : Bytes)
  | appended (node : NodeId) (destination : Bytes)
  | returned (found : Bool) (destination : Bytes)
deriving DecidableEq, Repr

/-- The next step of a call. -/
def advance (clock : Clock) (c : Cache) : Reader → Option (Cache × Reader)
  | .called resourceUrl destination =>
    match c.mapping.lookup resourceUrl with
    | some node => do
      let destination ← c.serialize node destination
      return (c, .loaded node destination)
    | none => some (c, .returned false destination)
  | .loaded node destination => do
    let c ← c.removeFromList node
    return (c, .removed node destination)
  | .removed node destination => do
    let c ← c.appendToListTail node
    return (c, .appended node destination)
  | .appended node destination => do
    let c ← c.updateTimestamp clock node
    return (c, .returned true destination)
  | .returned found destination => some (c, .returned found destination)

/-- The steps of a call that is alone are `tryLoad`. -/
theorem tryLoad_eq_advance (clock : Clock) (c : Cache) (resourceUrl destination : Bytes) :
    (c.tryLoad clock resourceUrl destination).map (fun r => (r.2.2, Reader.returned r.1 r.2.1)) =
      (do
        let (c, r) ← c.advance clock (.called resourceUrl destination)
        let (c, r) ← c.advance clock r
        let (c, r) ← c.advance clock r
        c.advance clock r) := by
  unfold tryLoad
  cases hlookup : c.mapping.lookup resourceUrl with
  | none => simp [advance, hlookup]
  | some node =>
    cases hserialize : c.serialize node destination with
    | none => simp [advance, hlookup, hserialize]
    | some data =>
      cases hremove : c.removeFromList node with
      | none => simp [advance, hlookup, hserialize, hremove]
      | some c₁ =>
        cases happend : c₁.appendToListTail node with
        | none => simp [advance, hlookup, hserialize, hremove, happend]
        | some c₂ => simp [advance, hlookup, hserialize, hremove, happend, Option.map_bind]

/-- A cache and the calls of `TryLoad` that have been admitted together. -/
structure Readers (k : ℕ) where
  cache : Cache
  readers : Fin k → Reader

namespace Readers

variable {k : ℕ}

/-- All calls, before their first step. -/
def start (c : Cache) (calls : Fin k → Bytes × Bytes) : Readers k where
  cache := c
  readers i := .called (calls i).1 (calls i).2

/-- Call `i` makes its next step. -/
def step (clock : Clock) (s : Readers k) (i : Fin k) : Option (Readers k) := do
  let (cache, reader) ← s.cache.advance clock (s.readers i)
  return { cache, readers := Function.update s.readers i reader }

/-- The machine whose state is `none` after undefined behaviour. -/
def next (clock : Clock) (o : Option (Readers k)) (i : Fin k) : Option (Readers k) :=
  o.bind fun s => s.step clock i

def AllReturned (s : Readers k) : Prop := ∀ i, ∃ found destination, s.readers i = .returned found destination

end Readers

/-- The list is in order: `next_` leads from the header to the tailer through every mapped node once,
`prev_` leads back, and every mapped node is one with its own identifier. -/
structure Intact (c : Cache) (ns : List NodeId) : Prop where
  forward : Follows c.heap.next header ns tailer
  backward : Follows c.heap.prev tailer ns.reverse header
  once : ns.Nodup
  inner : header ∉ ns ∧ tailer ∉ ns
  exactly : ∀ n, n ∈ ns ↔ ∃ url, c.mapping.lookup url = some n
  identifier : ∀ url n, c.mapping.lookup url = some n →
    ∃ v, c.heap.value n = some v ∧ v.identifier = url

namespace Reader

/-- The node a call has found. -/
def node : Reader → Option NodeId
  | .loaded n _ | .removed n _ | .appended n _ => some n
  | _ => none

/-- The node a call has found and not put at the end of the list yet. -/
def holds : Reader → Option NodeId
  | .loaded n _ | .removed n _ => some n
  | _ => none

/-- The node a call has taken out of the list. -/
def out : Reader → Option NodeId
  | .removed n _ => some n
  | _ => none

/-- The number of steps before the end of a call. -/
def left : Reader → ℕ
  | .called _ _ => 4
  | .loaded _ _ => 3
  | .removed _ _ => 2
  | .appended _ _ => 1
  | .returned _ _ => 0

end Reader

/-- What a step does to the call that makes it. -/
inductive Advances (c : Cache) : Reader → Reader → Prop
  | miss {url d : Bytes} (h : c.mapping.lookup url = none) :
    Advances c (.called url d) (.returned false d)
  | hit {url d d' : Bytes} {n : NodeId} (h : c.mapping.lookup url = some n) :
    Advances c (.called url d) (.loaded n d')
  | remove {n : NodeId} {d : Bytes} : Advances c (.loaded n d) (.removed n d)
  | append {n : NodeId} {d : Bytes} : Advances c (.removed n d) (.appended n d)
  | stamp {n : NodeId} {d : Bytes} : Advances c (.appended n d) (.returned true d)
  | rest {found : Bool} {d : Bytes} : Advances c (.returned found d) (.returned found d)

/-! ## 2. Steps -/

namespace ReaderLemmas

variable {clock : Clock} {k : ℕ} {c : Cache} {ns : List NodeId} {n : NodeId} {i : Fin k}

/-- The mapped nodes are between the sentinels, alive and have their own identifiers. -/
structure Mapped (c : Cache) : Prop where
  inner : ∀ url n, c.mapping.lookup url = some n → n ≠ header ∧ n ≠ tailer
  identifier : ∀ url n, c.mapping.lookup url = some n →
    ∃ v, c.heap.value n = some v ∧ v.identifier = url

/-- The list holds the mapped nodes but for those that a call has taken out, and no two calls hold
the same node. -/
structure Inv (c : Cache) (readers : Fin k → Reader) (ns : List NodeId) : Prop where
  mapped : Mapped c
  shape : Shape c.heap ns
  mem : ∀ n, n ∈ ns ↔ (∃ url, c.mapping.lookup url = some n) ∧ ∀ i, (readers i).out ≠ some n
  node : ∀ i n, (readers i).node = some n → ∃ url, c.mapping.lookup url = some n
  apart : ∀ i j n, (readers i).holds = some n → (readers j).holds = some n → i = j

theorem holds_of_out {r : Reader} (h : r.out = some n) : r.holds = some n := by
  cases r with
  | removed n' d => exact h
  | _ => exact absurd h (by simp [Reader.out])

/-- `mapping_` and the identifiers do not change. -/
theorem mapped_of_value {heap : Heap NodeId CacheNode} (h : Mapped c)
    (hvalue : heap.value = c.heap.value) : Mapped { c with heap } where
  inner := h.inner
  identifier := by
    show ∀ url n, c.mapping.lookup url = some n → ∃ v, heap.value n = some v ∧ v.identifier = url
    rw [hvalue]
    exact h.identifier

/-- A call that comes to a place where it holds no more than before keeps the others apart. -/
theorem apart_update {readers : Fin k → Reader} {r : Reader}
    (h : ∀ i j n, (readers i).holds = some n → (readers j).holds = some n → i = j)
    (hr : ∀ n, r.holds = some n → ∀ j, j ≠ i → (readers j).holds ≠ some n) :
    ∀ a b n, (Function.update readers i r a).holds = some n →
      (Function.update readers i r b).holds = some n → a = b := by
  intro a b n ha hb
  rcases eq_or_ne a i with rfl | hai
  · rcases eq_or_ne b a with rfl | hba
    · rfl
    · rw [Function.update_self] at ha
      rw [Function.update_of_ne hba] at hb
      exact absurd hb (hr n ha b hba)
  · rcases eq_or_ne b i with rfl | hbi
    · rw [Function.update_self] at hb
      rw [Function.update_of_ne hai] at ha
      exact absurd ha (hr n hb a hai)
    · rw [Function.update_of_ne hai] at ha
      rw [Function.update_of_ne hbi] at hb
      exact h a b n ha hb

theorem node_update {readers : Fin k → Reader} {r : Reader}
    (h : ∀ i n, (readers i).node = some n → ∃ url, c.mapping.lookup url = some n)
    (hr : ∀ n, r.node = some n → ∃ url, c.mapping.lookup url = some n) :
    ∀ j n, (Function.update readers i r j).node = some n → ∃ url, c.mapping.lookup url = some n :=
  (Function.forall_update_iff readers fun _ r => ∀ n, r.node = some n →
    ∃ url, c.mapping.lookup url = some n).mpr ⟨hr, fun j _ => h j⟩

/-- No call has taken out `n`, when call `i` has come to `r`. -/
theorem out_update {readers : Fin k → Reader} {r : Reader} {n : NodeId} :
    (∀ j, (Function.update readers i r j).out ≠ some n) ↔
      r.out ≠ some n ∧ ∀ j, j ≠ i → (readers j).out ≠ some n :=
  Function.forall_update_iff readers fun _ r => r.out ≠ some n

theorem out_iff {readers : Fin k → Reader} {n : NodeId} (hi : (readers i).out = none) :
    (∀ j, (readers j).out ≠ some n) ↔ ∀ j, j ≠ i → (readers j).out ≠ some n := by
  constructor
  · exact fun h j _ => h j
  · intro h j
    rcases eq_or_ne j i with rfl | hj
    · rw [hi]
      exact nofun
    · exact h j hj

/-- A step that leaves the list as it is. -/
theorem inv_same {readers : Fin k → Reader} {r : Reader} (h : Inv c readers ns)
    (hout : (readers i).out = none) (hout' : r.out = none)
    (hnode : ∀ n, r.node = some n → ∃ url, c.mapping.lookup url = some n)
    (hr : ∀ n, r.holds = some n → ∀ j, j ≠ i → (readers j).holds ≠ some n) :
    Inv c (Function.update readers i r) ns where
  mapped := h.mapped
  shape := h.shape
  mem := by
    intro n
    rw [h.mem n, out_update, out_iff hout, hout']
    simp
  node := node_update h.node hnode
  apart := apart_update h.apart hr

/-- Call `i` takes its node out of the list. -/
theorem inv_remove {readers : Fin k → Reader} {d : Bytes} (h : Inv c readers ns)
    (hi : readers i = .loaded n d) :
    ∃ c' ns', c.removeFromList n = some c' ∧ c'.mapping = c.mapping ∧
      Inv c' (Function.update readers i (.removed n d)) ns' := by
  have hholds : (readers i).holds = some n := by rw [hi]; rfl
  have hout : (readers i).out = none := by rw [hi]; rfl
  have hmapped : ∃ url, c.mapping.lookup url = some n := h.node i n (by rw [hi]; rfl)
  have hmem : n ∈ ns := by
    refine (h.mem n).mpr ⟨hmapped, (out_iff hout).mpr fun j hj hn => ?_⟩
    exact hj (h.apart j i n (holds_of_out hn) hholds)
  obtain ⟨as, bs, rfl⟩ := List.append_of_mem hmem
  obtain ⟨heap, hremove, hvalue, hshape, hnot⟩ := removeFromList_spec h.shape
  refine ⟨_, as ++ bs, hremove, rfl, mapped_of_value h.mapped hvalue, hshape, ?_, ?_, ?_⟩
  · intro m
    rw [out_update]
    rcases eq_or_ne m n with rfl | hne
    · refine iff_of_false ?_ (by simp [Reader.out])
      exact fun hm => hnot (List.mem_append_left _ (List.mem_cons_of_mem _ hm))
    · have hm : m ∈ as ++ bs ↔ m ∈ as ++ n :: bs := by simp [hne]
      rw [hm, h.mem m, out_iff hout]
      simp [Reader.out, hne.symm]
  · exact node_update h.node fun m hm => by
      cases hm
      exact hmapped
  · refine apart_update h.apart fun m hm j hj hn => ?_
    cases hm
    exact hj (h.apart j i n hn hholds)

/-- Call `i` puts its node at the end of the list. -/
theorem inv_append {readers : Fin k → Reader} {d : Bytes} (h : Inv c readers ns)
    (hi : readers i = .removed n d) :
    ∃ c' ns', c.appendToListTail n = some c' ∧ c'.mapping = c.mapping ∧
      Inv c' (Function.update readers i (.appended n d)) ns' := by
  have hholds : (readers i).holds = some n := by rw [hi]; rfl
  have hout : (readers i).out = some n := by rw [hi]; rfl
  obtain ⟨url, hurl⟩ := h.node i n (by rw [hi]; rfl)
  obtain ⟨v, hv, -⟩ := h.mapped.identifier url n hurl
  have hothers : ∀ j, j ≠ i → (readers j).out ≠ some n := fun j hj hn =>
    hj (h.apart j i n (holds_of_out hn) hholds)
  have hnot : n ∉ header :: ns ++ [tailer] := by
    have hmem : n ∉ ns := fun hn => ((h.mem n).mp hn).2 i hout
    obtain ⟨hheader, htailer⟩ := h.mapped.inner url n hurl
    simpa [hheader, htailer] using hmem
  obtain ⟨heap, happend, hvalue, hshape⟩ := appendToListTail_spec h.shape hnot hv
  refine ⟨_, ns ++ [n], happend, rfl, mapped_of_value h.mapped hvalue, hshape, ?_, ?_, ?_⟩
  · intro m
    rw [out_update]
    rcases eq_or_ne m n with rfl | hne
    · exact iff_of_true (by simp) ⟨⟨url, hurl⟩, nofun, hothers⟩
    · have hm : m ∈ ns ++ [n] ↔ m ∈ ns := by simp [hne]
      rw [hm, h.mem m]
      refine and_congr_right fun _ => ⟨fun hall => ⟨nofun, fun j _ => hall j⟩, fun hall j => ?_⟩
      rcases eq_or_ne j i with rfl | hj
      · rw [hout]
        exact fun heq => hne (Option.some.inj heq).symm
      · exact hall.2 j hj
  · exact node_update h.node fun m hm => by
      cases hm
      exact ⟨url, hurl⟩
  · exact apart_update h.apart nofun

/-- Call `i` stamps its node. -/
theorem inv_stamp (clock : Clock) {readers : Fin k → Reader} {d : Bytes} (h : Inv c readers ns)
    (hi : readers i = .appended n d) :
    ∃ c', c.updateTimestamp clock n = some c' ∧ c'.mapping = c.mapping ∧
      Inv c' (Function.update readers i (.returned true d)) ns := by
  obtain ⟨url, hurl⟩ := h.node i n (by rw [hi]; rfl)
  obtain ⟨v, hv, hid⟩ := h.mapped.identifier url n hurl
  obtain ⟨heap, hset, hnext, hprev, hvalue⟩ :=
    Heap.setValue_spec hv fun v => { v with lastAccess := clock.now c.reads }
  refine ⟨{ c with heap, reads := c.reads + 1 }, ?_, rfl, ?_⟩
  · rw [updateTimestamp, hset]
    rfl
  have hmapped : Mapped { c with heap, reads := c.reads + 1 } := by
    refine ⟨h.mapped.inner, fun url' m hm => ?_⟩
    show ∃ w, heap.value m = some w ∧ w.identifier = url'
    rw [hvalue]
    rcases eq_or_ne m n with rfl | hne
    · obtain ⟨w, hw, hwid⟩ := h.mapped.identifier url' m hm
      rw [hv] at hw
      cases hw
      exact ⟨_, Function.update_self .., hwid⟩
    · rw [Function.update_of_ne hne]
      exact h.mapped.identifier url' m hm
  have hstamped : Inv { c with heap, reads := c.reads + 1 } readers ns :=
    ⟨hmapped, ShapeLemmas.setValue h.shape hnext hprev hvalue, h.mem, h.node, h.apart⟩
  refine inv_same hstamped (by rw [hi]; rfl) rfl ?_ ?_
  · intro m hm
    cases hm
  · intro m hm
    cases hm

/-- One step of call `i`, when nobody else holds the node it is about to find. -/
theorem advance_spec (clock : Clock) {readers : Fin k → Reader} (h : Inv c readers ns)
    (hfree : ∀ url d n, readers i = .called url d → c.mapping.lookup url = some n →
      ∀ j, j ≠ i → (readers j).holds ≠ some n) :
    ∃ c' r ns', c.advance clock (readers i) = some (c', r) ∧ Advances c (readers i) r ∧
      c'.mapping = c.mapping ∧ Inv c' (Function.update readers i r) ns' := by
  cases hi : readers i with
  | called url d =>
    have hout : (readers i).out = none := by rw [hi]; rfl
    cases hlookup : c.mapping.lookup url with
    | none =>
      refine ⟨c, .returned false d, ns, by simp [advance, hlookup], .miss hlookup, rfl, ?_⟩
      exact inv_same h hout rfl nofun nofun
    | some n =>
      obtain ⟨v, hv, -⟩ := h.mapped.identifier url n hlookup
      refine ⟨c, .loaded n (d ++ v.data), ns, by simp [advance, hlookup, serialize, hv], .hit hlookup,
        rfl, inv_same h hout rfl (fun m hm => ?_) (fun m hm => ?_)⟩
      · cases hm
        exact ⟨url, hlookup⟩
      · cases hm
        exact hfree url d n hi hlookup
  | loaded n d =>
    obtain ⟨c', ns', hremove, hmapping, hinv⟩ := inv_remove h hi
    exact ⟨c', _, ns', by simp [advance, hremove], .remove, hmapping, hinv⟩
  | removed n d =>
    obtain ⟨c', ns', happend, hmapping, hinv⟩ := inv_append h hi
    exact ⟨c', _, ns', by simp [advance, happend], .append, hmapping, hinv⟩
  | appended n d =>
    obtain ⟨c', hstamp, hmapping, hinv⟩ := inv_stamp clock h hi
    exact ⟨c', _, ns, by simp [advance, hstamp], .stamp, hmapping, hinv⟩
  | returned found d =>
    refine ⟨c, .returned found d, ns, rfl, .rest, rfl, ?_⟩
    rw [← hi, Function.update_eq_self]
    exact h

/-! ### Between the steps -/

theorem follows_concat {f : NodeId → Option NodeId} {a b : NodeId} :
    Follows f a (ns ++ [n]) b ↔ Follows f a ns n ∧ f n = some b := by
  induction ns generalizing a with
  | nil => exact Iff.rfl
  | cons m ns ih =>
    show f a = some m ∧ Follows f m (ns ++ [n]) b ↔ (f a = some m ∧ Follows f m ns n) ∧ f n = some b
    rw [ih, and_assoc]

theorem linked_of_follows {next prev : NodeId → Option NodeId} {a b : NodeId}
    (hforward : Follows next a ns b) (hbackward : Follows prev b ns.reverse a) :
    Linked next prev (a :: ns ++ [b]) := by
  induction ns generalizing a with
  | nil => exact List.isChain_cons_cons.mpr ⟨⟨hforward, hbackward⟩, List.isChain_singleton b⟩
  | cons n ns ih =>
    rw [List.reverse_cons, follows_concat] at hbackward
    exact List.isChain_cons_cons.mpr ⟨⟨hforward.1, hbackward.2⟩, ih hforward.2 hbackward.1⟩

/-- A pointer that leads somewhere belongs to a live cell. -/
theorem live_of_follows {f : NodeId → Option NodeId} {a b : NodeId} {heap : Heap NodeId CacheNode}
    (hf : ∀ x y, f x = some y → ∃ v, heap.value x = some v) (h : Follows f a ns b) :
    ∃ v, heap.value a = some v := by
  cases ns with
  | nil => exact hf a b h
  | cons n ns => exact hf a n h.1

theorem value_of_next {heap : Heap NodeId CacheNode} (x y : NodeId) (h : heap.next x = some y) :
    ∃ v, heap.value x = some v := by
  obtain ⟨cell, hcell, -⟩ := Option.bind_eq_some_iff.mp h
  exact ⟨cell.value, by rw [Heap.value, hcell]; rfl⟩

theorem value_of_prev {heap : Heap NodeId CacheNode} (x y : NodeId) (h : heap.prev x = some y) :
    ∃ v, heap.value x = some v := by
  obtain ⟨cell, hcell, -⟩ := Option.bind_eq_some_iff.mp h
  exact ⟨cell.value, by rw [Heap.value, hcell]; rfl⟩

theorem shape_of_intact (h : Intact c ns) : Shape c.heap ns where
  linked := linked_of_follows h.forward h.backward
  nodup := by
    have hne : header ≠ tailer := by decide
    refine List.nodup_append.mpr ⟨List.nodup_cons.mpr ⟨h.inner.1, h.once⟩, List.nodup_singleton _, ?_⟩
    rintro x hx _ hy rfl
    obtain rfl := List.mem_singleton.mp hy
    rcases List.mem_cons.mp hx with hx | hx
    · exact hne hx.symm
    · exact h.inner.2 hx
  live := by
    intro x hx
    rcases List.mem_append.mp hx with hx | hx
    · rcases List.mem_cons.mp hx with rfl | hx
      · exact live_of_follows value_of_next h.forward
      · obtain ⟨url, hurl⟩ := (h.exactly x).mp hx
        obtain ⟨v, hv, -⟩ := h.identifier url x hurl
        exact ⟨v, hv⟩
    · rw [List.mem_singleton.mp hx]
      exact live_of_follows value_of_prev h.backward

/-- Between the steps of calls that have all not begun or come to their end. -/
theorem inv_of_intact {readers : Fin k → Reader} (h : Intact c ns)
    (hidle : ∀ i, (readers i).node = none) : Inv c readers ns := by
  have hholds : ∀ i, (readers i).holds = none ∧ (readers i).out = none := by
    intro i
    have hi := hidle i
    cases hr : readers i with
    | called url d => exact ⟨rfl, rfl⟩
    | returned found d => exact ⟨rfl, rfl⟩
    | _ =>
      rw [hr] at hi
      exact absurd hi (by simp [Reader.node])
  refine ⟨⟨fun url n hn => ?_, h.identifier⟩, shape_of_intact h, fun n => ?_, fun i n hn => ?_,
    fun i j n hi => ?_⟩
  · have hmem : n ∈ ns := (h.exactly n).mpr ⟨url, hn⟩
    exact ⟨fun he => h.inner.1 (he ▸ hmem), fun he => h.inner.2 (he ▸ hmem)⟩
  · rw [h.exactly n]
    exact (and_iff_left fun i => by simp [(hholds i).2]).symm
  · exact absurd hn (by simp [hidle i])
  · exact absurd hi (by simp [(hholds i).1])

theorem intact_of_inv {readers : Fin k → Reader} (h : Inv c readers ns)
    (hidle : ∀ i, (readers i).out = none) : Intact c ns where
  forward := follows_of_linked h.shape.linked
  backward := follows_back_of_shape h.shape
  once := nodup_of_shape h.shape
  inner := by
    obtain ⟨hheader, hrest⟩ := List.nodup_cons.mp h.shape.nodup
    refine ⟨fun hmem => hheader (List.mem_append_left _ hmem), fun hmem => ?_⟩
    exact (List.nodup_append.mp hrest).2.2 tailer hmem tailer List.mem_cons_self rfl
  exactly := by
    intro n
    rw [h.mem n]
    exact and_iff_left fun i => by simp [hidle i]
  identifier := h.mapped.identifier

/-! ## 3. Two calls with the same node -/

/-- The shape is one of the pointers and of what is alive. -/
theorem shape_congr {heap heap' : Heap NodeId CacheNode} (h : Shape heap ns)
    (hnext : heap'.next = heap.next) (hprev : heap'.prev = heap.prev)
    (hvalue : heap'.value = heap.value) : Shape heap' ns where
  linked := by
    rw [hnext, hprev]
    exact h.linked
  nodup := h.nodup
  live := by
    rw [hvalue]
    exact h.live

/-- The first removal leaves the pointers of `n` itself as they are, so that the second one does
nothing. -/
theorem double_remove {as bs : List NodeId} (h : Shape c.heap (as ++ n :: bs)) :
    ∃ heap₁ heap₂, c.removeFromList n = some { c with heap := heap₁ } ∧
      removeFromList { c with heap := heap₁ } n = some { c with heap := heap₂ } ∧
      heap₂.value = c.heap.value ∧ Shape heap₂ (as ++ bs) ∧
      n ∉ header :: (as ++ bs) ++ [tailer] := by
  have hids : header :: (as ++ n :: bs) ++ [tailer] =
      (header :: as) ++ n :: (bs ++ [tailer]) := by simp
  have hlinked := hids ▸ h.linked
  have hnodup := hids ▸ h.nodup
  have hlive := hids ▸ h.live
  obtain ⟨p, q, hp, hq, hprev, hnext, -⟩ := hlinked.unlink hnodup (by simp) (by simp)
  obtain ⟨vp, hvp⟩ := hlive p (List.mem_append_left _ hp)
  obtain ⟨vq, hvq⟩ := hlive q (List.mem_append_right _ (List.mem_cons_of_mem _ hq))
  obtain ⟨hnot, -⟩ := List.nodup_cons.mp (List.nodup_middle.mp hnodup)
  have hnp : n ≠ p := fun he => hnot (he ▸ List.mem_append_left _ hp)
  have hnq : n ≠ q := fun he => hnot (he ▸ List.mem_append_right _ hq)
  obtain ⟨heap₁, hremove₁, hvalue₁, hshape, hout⟩ := removeFromList_spec h
  obtain ⟨heap, hremove, hnext₁, hprev₁, -⟩ := removeFromList_links hprev hnext hvp hvq
  obtain rfl : heap = heap₁ := by simpa using hremove.symm.trans hremove₁
  have hprevn : heap.prev n = some p := by
    rw [hprev₁, Function.update_of_ne hnq]
    exact hprev
  have hnextn : heap.next n = some q := by
    rw [hnext₁, Function.update_of_ne hnp]
    exact hnext
  obtain ⟨heap₂, hremove₂, hnext₂, hprev₂, hvalue₂⟩ :=
    removeFromList_links (c := { c with heap }) hprevn hnextn
      ((congrFun hvalue₁ p).trans hvp) ((congrFun hvalue₁ q).trans hvq)
  refine ⟨heap, heap₂, hremove, hremove₂, hvalue₂.trans hvalue₁, ?_, hout⟩
  refine shape_congr hshape ?_ ?_ hvalue₂
  · rw [hnext₂]
    exact Function.update_eq_self_iff.mpr (by rw [hnext₁, Function.update_self])
  · rw [hprev₂]
    exact Function.update_eq_self_iff.mpr (by rw [hprev₁, Function.update_self])

/-- The second of two appendings takes `n` for its own predecessor. -/
theorem double_append {v : CacheNode} (h : Shape c.heap ns) (hn : n ∉ header :: ns ++ [tailer])
    (hv : c.heap.value n = some v) :
    ∃ heap₁ heap₂, c.appendToListTail n = some { c with heap := heap₁ } ∧
      appendToListTail { c with heap := heap₁ } n = some { c with heap := heap₂ } ∧
      heap₂.value = c.heap.value ∧ heap₂.prev tailer = some n ∧ heap₂.prev n = some n := by
  have hne : tailer ≠ n := by
    rintro rfl
    exact hn (by simp)
  obtain ⟨vt, hvt⟩ := h.live tailer (by simp)
  obtain ⟨heap₁, happend₁, hvalue₁, hshape⟩ := appendToListTail_spec h hn hv
  have hlast : heap₁.prev tailer = some n := by
    have hback := follows_back_of_shape hshape
    rw [List.reverse_append, List.reverse_singleton] at hback
    exact hback.1
  have hv₁ : heap₁.value n = some v := (congrFun hvalue₁ n).trans hv
  obtain ⟨heap₂, happend₂, -, hprev₂, hvalue₂⟩ :=
    appendToListTail_links (c := { c with heap := heap₁ }) hlast hv₁
      ((congrFun hvalue₁ tailer).trans hvt) hv₁
  refine ⟨heap₁, heap₂, happend₁, happend₂, hvalue₂.trans hvalue₁, ?_, ?_⟩
  · rw [hprev₂, Function.update_of_ne hne, Function.update_self]
  · rw [hprev₂, Function.update_self]

/-- A list in which `prev_` leads from a mapped node to itself is not in order. -/
theorem not_intact {url : Bytes} (hmapped : c.mapping.lookup url = some n)
    (htailer : c.heap.prev tailer = some n) (hloop : c.heap.prev n = some n) : ¬ Intact c ns := by
  intro h
  have hheader : n ≠ header := by
    rintro rfl
    exact h.inner.1 ((h.exactly header).mpr ⟨url, hmapped⟩)
  have hback := h.backward
  have hnodup := List.nodup_reverse.mpr h.once
  cases hns : ns.reverse with
  | nil =>
    rw [hns] at hback
    exact hheader (Option.some.inj (htailer.symm.trans hback))
  | cons m ms =>
    rw [hns] at hback hnodup
    obtain ⟨hm, hrest⟩ := hback
    obtain rfl : n = m := Option.some.inj (htailer.symm.trans hm)
    cases ms with
    | nil => exact hheader (Option.some.inj (hloop.symm.trans hrest))
    | cons m' ms =>
      obtain rfl : n = m' := Option.some.inj (hloop.symm.trans hrest.1)
      exact (List.nodup_cons.mp hnodup).1 List.mem_cons_self

/-! ### Schedules -/

variable {s : Readers k}

theorem next_of_advance {c' : Cache} {r r' : Reader} (hr : s.readers i = r)
    (hadvance : s.cache.advance clock r = some (c', r')) :
    Readers.next clock (some s) i = some ⟨c', Function.update s.readers i r'⟩ := by
  show s.step clock i = _
  rw [Readers.step, hr, hadvance]
  rfl

theorem left_of_advances {r r' : Reader} (h : Advances c r r') : r'.left ≤ r.left - 1 := by
  cases h <;> simp [Reader.left]

theorem holds_of_node {r : Reader} (h : r.node = none) : r.holds = none := by
  cases r with
  | called url d => rfl
  | returned found d => rfl
  | _ => exact absurd h (by simp [Reader.node])

theorem node_of_left {r : Reader} (h : r.left = 0) : r.node = none := by
  cases r with
  | returned found d => rfl
  | _ => exact absurd h (by simp [Reader.left])

theorem returned_of_left {r : Reader} (h : r.left = 0) :
    ∃ found destination, r = .returned found destination := by
  cases r with
  | returned found d => exact ⟨found, d, rfl⟩
  | _ => exact absurd h (by simp [Reader.left])

/-- Call `i` goes on to its end while the others pause with no node in their hands. -/
theorem finish_call (clock : Clock) (steps : ℕ) (h : Inv s.cache s.readers ns)
    (hothers : ∀ j, j ≠ i → (s.readers j).holds = none) (hleft : (s.readers i).left ≤ steps) :
    ∃ s' ns', run (Readers.next clock) (some s) (List.replicate steps i) = some s' ∧
      s'.cache.mapping = s.cache.mapping ∧ Inv s'.cache s'.readers ns' ∧
      (s'.readers i).left = 0 ∧ ∀ j, j ≠ i → s'.readers j = s.readers j := by
  induction steps generalizing s ns with
  | zero => exact ⟨s, ns, rfl, rfl, h, Nat.le_zero.mp hleft, fun _ _ => rfl⟩
  | succ steps ih =>
    obtain ⟨c', r, ns', hadvance, hadvances, hmapping, hinv⟩ :=
      advance_spec clock h (i := i) fun url d n _ _ j hj => by simp [hothers j hj]
    have hstep := next_of_advance rfl hadvance
    have hkeep : ∀ j, j ≠ i → Function.update s.readers i r j = s.readers j := fun j hj =>
      Function.update_of_ne hj _ _
    obtain ⟨s', ns'', hrun, hmapping', hinv', hend, hsame⟩ :=
      ih (s := ⟨c', Function.update s.readers i r⟩) hinv
        (fun j hj => by simpa [hkeep j hj] using hothers j hj)
        (by
          have hless := left_of_advances hadvances
          simp only [Function.update_self]
          omega)
    refine ⟨s', ns'', ?_, hmapping'.trans hmapping, hinv', hend, fun j hj => ?_⟩
    · rw [List.replicate_succ, run_cons, hstep]
      exact hrun
    · exact (hsame j hj).trans (hkeep j hj)

/-- The calls `js` go on to their ends, one after the other. -/
theorem finish_calls (clock : Clock) (js : List (Fin k)) (h : Inv s.cache s.readers ns)
    (hidle : ∀ j, (s.readers j).node = none) :
    ∃ s' ns', run (Readers.next clock) (some s) (js.flatMap (List.replicate 4)) = some s' ∧
      s'.cache.mapping = s.cache.mapping ∧ Inv s'.cache s'.readers ns' ∧
      (∀ j, (s'.readers j).node = none) ∧ (∀ j ∈ js, (s'.readers j).left = 0) ∧
      ∀ j, j ∉ js → s'.readers j = s.readers j := by
  induction js generalizing s ns with
  | nil => exact ⟨s, ns, rfl, rfl, h, hidle, fun j hj => absurd hj List.not_mem_nil, fun _ _ => rfl⟩
  | cons i js ih =>
    have hleft : (s.readers i).left ≤ 4 := by
      cases s.readers i <;> simp [Reader.left]
    obtain ⟨s₁, ns₁, hrun₁, hmapping₁, hinv₁, hend₁, hsame₁⟩ :=
      finish_call clock 4 h (fun j _ => holds_of_node (hidle j)) hleft
    have hidle₁ : ∀ j, (s₁.readers j).node = none := by
      intro j
      rcases eq_or_ne j i with rfl | hj
      · exact node_of_left hend₁
      · rw [hsame₁ j hj]
        exact hidle j
    obtain ⟨s₂, ns₂, hrun₂, hmapping₂, hinv₂, hidle₂, hend₂, hsame₂⟩ := ih hinv₁ hidle₁
    refine ⟨s₂, ns₂, ?_, hmapping₂.trans hmapping₁, hinv₂, hidle₂, ?_, ?_⟩
    · rw [List.flatMap_cons, run_append, hrun₁]
      exact hrun₂
    · intro j hj
      by_cases hjs : j ∈ js
      · exact hend₂ j hjs
      · have hji : j = i := (List.mem_cons.mp hj).resolve_right hjs
        rw [hsame₂ j hjs, hji]
        exact hend₁
    · intro j hj
      obtain ⟨hji, hjs⟩ := List.ne_and_not_mem_of_not_mem_cons hj
      exact (hsame₂ j hjs).trans (hsame₁ j hji)

theorem updateTimestamp_prev (clock : Clock) {v : CacheNode} (hv : c.heap.value n = some v) :
    ∃ c', c.updateTimestamp clock n = some c' ∧ c'.mapping = c.mapping ∧
      c'.heap.prev = c.heap.prev ∧ ∃ v', c'.heap.value n = some v' := by
  obtain ⟨heap, hset, -, hprev, hvalue⟩ :=
    Heap.setValue_spec hv fun v => { v with lastAccess := clock.now c.reads }
  refine ⟨{ c with heap, reads := c.reads + 1 }, ?_, rfl, hprev,
    ⟨_, (congrFun hvalue n).trans (Function.update_self ..)⟩⟩
  rw [updateTimestamp, hset]
  rfl

/-- Calls `i` and `j` make one step each. -/
theorem run_pair (clock : Clock) {j : Fin k} {c₁ c₂ : Cache} {r r₁ r' r₂ : Reader} (hne : j ≠ i)
    (hi : s.readers i = r) (hj : s.readers j = r') (hfirst : s.cache.advance clock r = some (c₁, r₁))
    (hsecond : c₁.advance clock r' = some (c₂, r₂)) :
    ∃ s', run (Readers.next clock) (some s) [i, j] = some s' ∧ s'.cache = c₂ ∧ s'.readers i = r₁ ∧
      s'.readers j = r₂ ∧ ∀ m, m ≠ i → m ≠ j → s'.readers m = s.readers m := by
  have hj₁ : Function.update s.readers i r₁ j = r' := by rw [Function.update_of_ne hne, hj]
  refine ⟨⟨c₂, Function.update (Function.update s.readers i r₁) j r₂⟩, ?_, rfl, ?_, ?_, ?_⟩
  · rw [run_cons, next_of_advance hi hfirst]
    exact next_of_advance (s := ⟨c₁, _⟩) hj₁ hsecond
  · exact (Function.update_of_ne hne.symm _ _).trans (Function.update_self ..)
  · exact Function.update_self ..
  · exact fun m hmi hmj => (Function.update_of_ne hmj _ _).trans (Function.update_of_ne hmi _ _)

/-- Calls `i` and `j` take out the same node, and then both append it. -/
theorem double_load (clock : Clock) {j : Fin k} {url d d' : Bytes} (h : Inv s.cache s.readers ns)
    (hne : j ≠ i) (hn : n ∈ ns) (hi : s.readers i = .called url d)
    (hj : s.readers j = .called url d') (hlookup : s.cache.mapping.lookup url = some n) :
    ∃ s', run (Readers.next clock) (some s) ([i, j] ++ [i, j] ++ [i, j] ++ [i, j]) = some s' ∧
      s'.cache.mapping = s.cache.mapping ∧ (s'.readers i).left = 0 ∧ (s'.readers j).left = 0 ∧
      (∀ m, m ≠ i → m ≠ j → s'.readers m = s.readers m) ∧
      s'.cache.heap.prev tailer = some n ∧ s'.cache.heap.prev n = some n := by
  obtain ⟨as, bs, rfl⟩ := List.append_of_mem hn
  obtain ⟨v, hv⟩ := h.shape.live n (by simp)
  obtain ⟨heap₁, heap₂, hremove₁, hremove₂, hvalue₂, hshape₂, hout⟩ := double_remove h.shape
  obtain ⟨heap₃, heap₄, happend₁, happend₂, hvalue₄, htailer, hloop⟩ :=
    double_append (c := { s.cache with heap := heap₂ }) hshape₂ hout
      ((congrFun hvalue₂ n).trans hv)
  have hv₄ : heap₄.value n = some v := (congrFun (hvalue₄.trans hvalue₂) n).trans hv
  obtain ⟨c₅, hstamp₁, hmapping₅, hprev₅, v₅, hv₅⟩ :=
    updateTimestamp_prev clock (c := { s.cache with heap := heap₄ }) hv₄
  obtain ⟨c₆, hstamp₂, hmapping₆, hprev₆, -⟩ := updateTimestamp_prev clock hv₅
  have hload : ∀ d, s.cache.advance clock (.called url d) =
      some (s.cache, .loaded n (d ++ v.data)) := fun d => by
    simp [advance, hlookup, serialize, hv]
  obtain ⟨s₁, hrun₁, hc₁, hi₁, hj₁, hm₁⟩ := run_pair clock hne hi hj (hload d) (hload d')
  obtain ⟨s₂, hrun₂, hc₂, hi₂, hj₂, hm₂⟩ := run_pair clock hne hi₁ hj₁
    (by rw [hc₁, advance, hremove₁]; rfl) (by rw [advance, hremove₂]; rfl)
  obtain ⟨s₃, hrun₃, hc₃, hi₃, hj₃, hm₃⟩ := run_pair clock hne hi₂ hj₂
    (by rw [hc₂, advance, happend₁]; rfl) (by rw [advance, happend₂]; rfl)
  obtain ⟨s₄, hrun₄, hc₄, hi₄, hj₄, hm₄⟩ := run_pair clock hne hi₃ hj₃
    (by rw [hc₃, advance, hstamp₁]; rfl) (by rw [advance, hstamp₂]; rfl)
  refine ⟨s₄, ?_, ?_, by rw [hi₄]; rfl, by rw [hj₄]; rfl, ?_, ?_, ?_⟩
  · rw [run_append, run_append, run_append, hrun₁, hrun₂, hrun₃, hrun₄]
  · rw [hc₄, hmapping₆, hmapping₅]
  · intro m hmi hmj
    rw [hm₄ m hmi hmj, hm₃ m hmi hmj, hm₂ m hmi hmj, hm₁ m hmi hmj]
  · rw [hc₄, hprev₆, hprev₅]
    exact htailer
  · rw [hc₄, hprev₆, hprev₅]
    exact hloop

/-- Every call is about the resource it was made for. -/
structure Tracks (mapping : Map Bytes NodeId) (calls : Fin k → Bytes × Bytes)
    (readers : Fin k → Reader) : Prop where
  called : ∀ i url d, readers i = .called url d → url = (calls i).1
  node : ∀ i n, (readers i).node = some n → mapping.lookup (calls i).1 = some n

theorem tracks_update {calls : Fin k → Bytes × Bytes} {readers : Fin k → Reader} {r : Reader}
    (h : Tracks c.mapping calls readers) (hr : Advances c (readers i) r) :
    Tracks c.mapping calls (Function.update readers i r) := by
  constructor
  · refine (Function.forall_update_iff readers fun j r => ∀ url d, r = .called url d →
      url = (calls j).1).mpr ⟨?_, fun j _ => h.called j⟩
    cases hi : readers i <;> rw [hi] at hr <;> cases hr <;> exact nofun
  · refine (Function.forall_update_iff readers fun j r => ∀ n, r.node = some n →
      c.mapping.lookup (calls j).1 = some n).mpr ⟨?_, fun j _ => h.node j⟩
    cases hi : readers i with
    | called url d =>
      rw [hi] at hr
      cases hr with
      | miss hlookup => exact nofun
      | hit hlookup =>
        rintro m ⟨⟩
        rw [← h.called i url d hi]
        exact hlookup
    | loaded n d =>
      rw [hi] at hr
      cases hr with
      | remove => exact fun m hm => h.node i m (by rw [hi]; exact hm)
    | removed n d =>
      rw [hi] at hr
      cases hr with
      | append => exact fun m hm => h.node i m (by rw [hi]; exact hm)
    | appended n d =>
      rw [hi] at hr
      cases hr with
      | stamp => exact nofun
    | returned found d =>
      rw [hi] at hr
      cases hr with
      | rest => exact nofun

theorem node_of_holds {r : Reader} (h : r.holds = some n) : r.node = some n := by
  cases r with
  | loaded n' d => exact h
  | removed n' d => exact h
  | _ => exact absurd h (by simp [Reader.holds])

end ReaderLemmas

open ReaderLemmas

/-! ## 4. All orders of the steps -/

/-- Whatever the order of the steps: nothing undefined is done, and the list is in order again when
all calls have come to their end. -/
def KeepsList (clock : Clock) {k : ℕ} (c : Cache) (calls : Fin k → Bytes × Bytes) : Prop :=
  ∀ schedule : List (Fin k), ∃ s, run (Readers.next clock) (some (.start c calls)) schedule = some s ∧
    (s.AllReturned → ∃ ns, Intact s.cache ns)

/-- No two of the calls ask for the same cached resource. -/
def DistinctLoads {k : ℕ} (c : Cache) (calls : Fin k → Bytes × Bytes) : Prop :=
  ∀ i j, i ≠ j → (calls i).1 = (calls j).1 → c.mapping.lookup (calls i).1 = none

namespace ReaderLemmas

variable {clock : Clock} {k : ℕ} {c : Cache} {ns : List NodeId} {calls : Fin k → Bytes × Bytes}

/-- Nothing undefined has been done, and the calls are kept apart. -/
def Tracked (c : Cache) (calls : Fin k → Bytes × Bytes) (o : Option (Readers k)) : Prop :=
  ∃ s ns, o = some s ∧ s.cache.mapping = c.mapping ∧ Tracks c.mapping calls s.readers ∧
    Inv s.cache s.readers ns

theorem tracked_run (clock : Clock) (hdistinct : DistinctLoads c calls) (h : Intact c ns)
    (schedule : List (Fin k)) :
    Tracked c calls (run (Readers.next clock) (some (.start c calls)) schedule) := by
  have hstart : Tracked c calls (some (.start c calls)) := by
    refine ⟨_, ns, rfl, rfl, ⟨?_, nofun⟩, inv_of_intact h fun _ => rfl⟩
    rintro i url d ⟨⟩
    rfl
  refine run_of_forall (I := Tracked c calls) ?_ schedule hstart
  rintro - i ⟨s, ns', rfl, hmapping, htracks, hinv⟩
  obtain ⟨c', r, ns'', hadvance, hadvances, hmapping', hinv'⟩ :=
    advance_spec clock hinv (i := i) fun url d n hi hlookup j hj hholds => by
      -- a second call with this node would ask for the same resource
      have hj' := htracks.node j n (node_of_holds hholds)
      rw [hmapping, htracks.called i url d hi] at hlookup
      obtain ⟨v, hv, hid⟩ := h.identifier _ n hj'
      obtain ⟨v', hv', hid'⟩ := h.identifier _ n hlookup
      cases hv.symm.trans hv'
      have hnone := hdistinct i j hj.symm (hid'.symm.trans hid)
      rw [hlookup] at hnone
      cases hnone
  refine ⟨⟨c', _⟩, ns'', next_of_advance rfl hadvance, hmapping'.trans hmapping, ?_, hinv'⟩
  have hupdate := tracks_update (c := s.cache) (hmapping ▸ htracks) hadvances
  rw [hmapping] at hupdate
  exact hupdate

theorem not_keepsList {i j : Fin k} (h : Intact c ns) (hne : j ≠ i)
    (hsame : (calls i).1 = (calls j).1) {n : NodeId}
    (hlookup : c.mapping.lookup (calls i).1 = some n) : ¬ KeepsList clock c calls := by
  intro hkeeps
  let others := (List.finRange k).filter fun m => m ≠ i ∧ m ≠ j
  have hothers : ∀ m, m ∈ others ↔ m ≠ i ∧ m ≠ j := by simp [others]
  obtain ⟨s₁, ns₁, hrun₁, hmapping₁, hinv₁, hidle₁, hend₁, hsame₁⟩ :=
    finish_calls clock others (s := .start c calls) (inv_of_intact h fun _ => rfl) fun _ => rfl
  have hi : s₁.readers i = .called (calls i).1 (calls i).2 :=
    hsame₁ i fun hmem => ((hothers i).mp hmem).1 rfl
  have hj : s₁.readers j = .called (calls i).1 (calls j).2 := by
    rw [hsame]
    exact hsame₁ j fun hmem => ((hothers j).mp hmem).2 rfl
  have hlookup₁ : s₁.cache.mapping.lookup (calls i).1 = some n := by
    rw [hmapping₁]
    exact hlookup
  have hmem : n ∈ ns₁ :=
    ((intact_of_inv hinv₁ fun m => by
      cases hr : s₁.readers m with
      | removed n' d => exact absurd (hidle₁ m) (by simp [hr, Reader.node])
      | _ => rfl).exactly n).mpr ⟨_, hlookup₁⟩
  obtain ⟨s₂, hrun₂, hmapping₂, hi₂, hj₂, hsame₂, htailer, hloop⟩ :=
    double_load clock hinv₁ hne hmem hi hj hlookup₁
  obtain ⟨s, hrun, hintact⟩ :=
    hkeeps (others.flatMap (List.replicate 4) ++ ([i, j] ++ [i, j] ++ [i, j] ++ [i, j]))
  rw [run_append, hrun₁, hrun₂] at hrun
  cases hrun
  have hall : s₂.AllReturned := by
    intro m
    rcases eq_or_ne m i with rfl | hmi
    · exact returned_of_left hi₂
    · rcases eq_or_ne m j with rfl | hmj
      · exact returned_of_left hj₂
      · rw [hsame₂ m hmi hmj]
        exact returned_of_left (hend₁ m ((hothers m).mpr ⟨hmi, hmj⟩))
  obtain ⟨ns', hns'⟩ := hintact hall
  exact not_intact (hmapping₂ ▸ hlookup₁) htailer hloop hns'

end ReaderLemmas

/-- Concurrent readers keep the list in order exactly when no two of them ask for the same cached
resource. -/
theorem readers_keep_list (clock : Clock) {k : ℕ} {c : Cache} {ns : List NodeId} (h : Intact c ns)
    (calls : Fin k → Bytes × Bytes) : KeepsList clock c calls ↔ DistinctLoads c calls := by
  constructor
  · intro hkeeps i j hne hsame
    cases hlookup : c.mapping.lookup (calls i).1 with
    | none => rfl
    | some n => exact absurd hkeeps (not_keepsList h hne.symm hsame hlookup)
  · intro hdistinct schedule
    obtain ⟨s, ns', hrun, -, -, hinv⟩ := tracked_run clock hdistinct h schedule
    refine ⟨s, hrun, fun hall => ⟨ns', intact_of_inv hinv fun i => ?_⟩⟩
    obtain ⟨found, destination, hi⟩ := hall i
    rw [hi]
    rfl

/-- Every cache that can be reached is in order. -/
theorem intact_of_reachable {clock : Clock} {capacity : UInt64} {c : Cache}
    (h : Reachable clock capacity c) : ∃ ns, Intact c ns := by
  obtain ⟨-, es, hrep⟩ := rep_of_reachable h
  obtain ⟨hforward, hbackward, honce, hexactly, hidentifier, -, -, -⟩ := wellFormed_of_rep hrep
  obtain ⟨hheader, hrest⟩ := List.nodup_cons.mp hrep.shape.nodup
  refine ⟨_, hforward, hbackward, honce, ⟨?_, ?_⟩, hexactly, hidentifier⟩
  · exact fun hmem => hheader (List.mem_append_left _ hmem)
  · exact fun hmem => (List.nodup_append.mp hrest).2.2 tailer hmem tailer List.mem_cons_self rfl

/-- A clock for the two examples. -/
def slowClock : Clock := .upTo 100 (by decide)

/-- A cache of ten bytes with one file in it. -/
def oneFile : Option Cache :=
  run (next slowClock) (some (new slowClock 10)) [.tryInsert (bytes "/a") [7]]

/-- Two calls that ask for the file. -/
def bothLoad (_ : Fin 2) : Bytes × Bytes := (bytes "/a", [])

theorem oneFile_intact : ∃ c ns, oneFile = some c ∧ Intact c ns := by
  obtain ⟨c, hc⟩ := Option.isSome_iff_exists.mp (show oneFile.isSome = true by decide)
  have hreachable : Reachable slowClock 10 c := ⟨_, hc⟩
  obtain ⟨ns, hns⟩ := intact_of_reachable hreachable
  exact ⟨c, ns, hc, hns⟩

theorem oneFile_readers :
    ∃ c ns, oneFile = some c ∧ Intact c ns ∧
      (KeepsList slowClock c bothLoad ↔ DistinctLoads c bothLoad) := by
  obtain ⟨c, ns, hc, hns⟩ := oneFile_intact
  exact ⟨c, ns, hc, hns, readers_keep_list slowClock hns bothLoad⟩

/-- Both calls take out the node of the file, and then both append it. -/
def bothMove : List (Fin 2) := [0, 1, 0, 1, 0, 1, 0, 1]

/-- What can be seen of the file's node and of the two calls at the end. -/
def fileNode (s : Readers 2) : Option NodeId × Option NodeId × Option NodeId × Reader × Reader :=
  (s.cache.mapping.lookup (bytes "/a"), s.cache.heap.prev tailer, s.cache.heap.prev 2, s.readers 0,
    s.readers 1)

/-- Both calls have returned, and `prev_` leads from the node of the file to itself. -/
theorem second_reader_breaks_list :
    ∃ c s, oneFile = some c ∧ (∃ ns, Intact c ns) ∧
      run (Readers.next slowClock) (some (.start c bothLoad)) bothMove = some s ∧
      s.AllReturned ∧ s.cache.heap.prev 2 = some 2 ∧ ¬ ∃ ns, Intact s.cache ns := by
  obtain ⟨c, ns, hc, hns⟩ := oneFile_intact
  have hend : (oneFile.bind fun c => run (Readers.next slowClock) (some (.start c bothLoad))
      bothMove).map fileNode =
        some (some 2, some 2, some 2, .returned true [7], .returned true [7]) := by decide
  rw [hc, Option.bind_some] at hend
  obtain ⟨s, hrun, hnode⟩ := Option.map_eq_some_iff.mp hend
  simp only [fileNode, Prod.mk.injEq] at hnode
  obtain ⟨hmapped, htailer, hloop, hfirst, hsecond⟩ := hnode
  refine ⟨c, s, hc, ⟨ns, hns⟩, hrun, fun i => ?_, hloop, ?_⟩
  · cases i using Fin.cases with
    | zero => exact ⟨true, [7], hfirst⟩
    | succ i =>
      obtain rfl : i = 0 := Subsingleton.elim _ _
      exact ⟨true, [7], hsecond⟩
  · rintro ⟨ns', hns'⟩
    exact not_intact hmapped htailer hloop hns'

end TurtleServer.Cache
