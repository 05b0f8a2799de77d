import TurtleServer.Core.CacheInvariant
import TurtleServer.Lib.Runs

/-!
# The cache is a least-recently-used list

The reference is `Lib.Lru` at urls and byte strings: `refStep` is one operation on the list of cached
pairs. `step_refines` is the simulation, from which both results follow by induction over the
operations:

1. **Well-formedness.** `wellFormed_always`: after every operation the linked list, the map and the
   counter agree, and no operation is undefined or fails its assertion.
2. **Refinement.** `history_eq_refHistory`: the answers, the occupancy and the entries after every
   operation are those of the reference.
-/

namespace TurtleServer.Cache

open Lib RepLemmas

/-! ## 1. The reference -/

/-- One operation on the list of cached pairs, from the least to the most recently used. -/
def refStep (capacity : ℕ) (l : List (Bytes × Bytes)) : Op → Result × List (Bytes × Bytes)
  | .tryLoad resourceUrl destination =>
    match Lru.load l resourceUrl with
    | (some data, l) => (.loaded true (destination ++ data), l)
    | (none, l) => (.loaded false destination, l)
  | .tryInsert resourceUrl source =>
    let (success, l) := Lru.insert List.length capacity l resourceUrl source
    (.inserted success, l)
  | .clear => (.cleared, [])

/-- What can be seen of a cache after an operation. -/
structure Seen where
  result : Result
  occupancy : ℕ
  entries : List (Bytes × Bytes)
deriving DecidableEq, Repr

/-- What is seen of the cache after each operation. -/
def history (clock : Clock) : Cache → List Op → Option (List Seen)
  | _, [] => some []
  | c, op :: ops => do
    let (result, c) ← c.step clock op
    let rest ← history clock c ops
    return ⟨result, c.getOccupancy, c.entries⟩ :: rest

/-- What is seen of the reference after each operation. -/
def refHistory (capacity : ℕ) : List (Bytes × Bytes) → List Op → List Seen
  | _, [] => []
  | l, op :: ops =>
    let (result, l) := refStep capacity l op
    ⟨result, Lru.total List.length l, l⟩ :: refHistory capacity l ops

/-! ## 2. The simulation -/

/-- The url and the data of a node. -/
def pair (e : NodeId × CacheNode) : Bytes × Bytes := (e.2.identifier, e.2.data)

namespace RefinementLemmas

variable {clock : Clock} {c : Cache} {es : List (NodeId × CacheNode)}

theorem total_map_pair (es : List (NodeId × CacheNode)) :
    Lru.total List.length (es.map pair) = Lru.total CacheNode.size es := by
  rw [Lru.total, List.map_map]
  rfl

theorem makeRoom_map_pair (capacity need : ℕ) (es : List (NodeId × CacheNode)) :
    Lru.makeRoom List.length capacity need (es.map pair) =
      (Lru.makeRoom CacheNode.size capacity need es).map pair := by
  induction es with
  | nil => simp
  | cons e es ih =>
    by_cases hfits : Lru.total CacheNode.size (e :: es) + need ≤ capacity
    · rw [Lru.makeRoom_of_fits hfits, Lru.makeRoom_of_fits]
      rw [total_map_pair]
      exact hfits
    · rw [Lru.makeRoom_cons_of_not_fits hfits, List.map_cons, Lru.makeRoom_cons_of_not_fits, ih]
      rw [← List.map_cons, total_map_pair]
      exact hfits

theorem keys_nodup (h : Rep clock c es) : ((es.map pair).map Prod.fst).Nodup := by
  have hnd : es.Nodup := (List.nodup_append.mp (List.nodup_cons.mp h.shape.nodup).2).1.of_map
  rw [List.map_map]
  exact hnd.map_on fun _ he _ he' hid => identifier_inj h he he' hid

/-- Moving a node to the end is what the reference does with its pair. -/
theorem filter_map_pair {as bs : List (NodeId × CacheNode)} {n : NodeId} {v : CacheNode}
    (h : Rep clock c (as ++ (n, v) :: bs)) :
    ((as ++ (n, v) :: bs).map pair).filter (fun e => e.1 ≠ v.identifier) =
      (as ++ bs).map pair := by
  have hnd : ((as.map pair ++ (v.identifier, v.data) :: bs.map pair).map Prod.fst).Nodup := by
    have := keys_nodup h
    simpa [pair] using this
  rw [List.map_append, List.map_cons] at hnd
  obtain ⟨hnot, -⟩ := List.nodup_cons.mp (List.nodup_middle.mp hnd)
  have hothers : ((as ++ bs).map pair).filter (fun e => e.1 ≠ v.identifier) =
      (as ++ bs).map pair := by
    refine List.filter_eq_self.mpr fun e he => decide_eq_true fun hid => hnot ?_
    show v.identifier ∈ _
    rw [← List.map_append, ← List.map_append, ← hid]
    exact List.mem_map_of_mem he
  rw [← hothers, List.map_append, List.map_append, List.map_cons, List.filter_append,
    List.filter_append, List.filter_cons_of_neg (by simp [pair])]

theorem tryLoad_refines (h : Rep clock c es) (url destination : Bytes) :
    ∃ c' es', c.tryLoad clock url destination =
        some ((Lru.load (es.map pair) url).1.isSome,
          destination ++ (Lru.load (es.map pair) url).1.getD [], c') ∧
      c'.capacity = c.capacity ∧ Rep clock c' es' ∧
      es'.map pair = (Lru.load (es.map pair) url).2 := by
  by_cases hmem : ∃ e ∈ es, e.2.identifier = url
  · obtain ⟨⟨n, v⟩, he, rfl⟩ := hmem
    have hload := Lru.load_of_mem_nodup (keys_nodup h) (List.mem_map_of_mem he)
    obtain ⟨as, bs, rfl⟩ := List.append_of_mem he
    obtain ⟨c', hc', hcap, hrep⟩ := tryLoad_hit h destination
    have hpair : (pair (n, v)).1 = v.identifier := rfl
    rw [hpair, filter_map_pair h] at hload
    refine ⟨c', _, ?_, hcap, hrep, ?_⟩
    · rw [hc', hload]
      rfl
    · rw [hload]
      simp [pair]
  · have hmiss : ∀ e ∈ es, e.2.identifier ≠ url := fun e he hid => hmem ⟨e, he, hid⟩
    have hload : Lru.load (es.map pair) url = (none, es.map pair) := by
      refine Lru.load_of_not_mem fun e he => ?_
      obtain ⟨e', he', rfl⟩ := List.mem_map.mp he
      exact hmiss e' he'
    refine ⟨c, es, ?_, rfl, h, by rw [hload]⟩
    rw [tryLoad_miss h hmiss, hload]
    simp

theorem tryInsert_refines (h : Rep clock c es) (url source : Bytes) :
    ∃ c' es', c.tryInsert clock url source =
        some ((Lru.insert List.length c.capacity (es.map pair) url source).1, c') ∧
      c'.capacity = c.capacity ∧ Rep clock c' es' ∧
      es'.map pair = (Lru.insert List.length c.capacity (es.map pair) url source).2 := by
  have hkey : (∃ e ∈ es.map pair, e.1 = url) ↔ ∃ e ∈ es, e.2.identifier = url := by
    simp [pair]
  by_cases hrefused : (∃ e ∈ es, e.2.identifier = url) ∨ c.capacity < source.length
  · refine ⟨c, es, ?_, rfl, h, ?_⟩
    · rw [tryInsert_refused h hrefused, Lru.insert, if_pos (hrefused.imp_left hkey.mpr)]
    · rw [Lru.insert, if_pos (hrefused.imp_left hkey.mpr)]
  · obtain ⟨hnew, hlength⟩ := not_or.mp hrefused
    obtain ⟨c', n, t, hc', hcap, hrep⟩ := tryInsert_new h (fun e he hid => hnew ⟨e, he, hid⟩)
      (Nat.not_lt.mp hlength)
    refine ⟨c', _, ?_, hcap, hrep, ?_⟩
    · rw [hc', Lru.insert, if_neg (fun hr => hrefused (hr.imp_left hkey.mp))]
    · rw [Lru.insert, if_neg (fun hr => hrefused (hr.imp_left hkey.mp)), makeRoom_map_pair,
        List.map_append]
      rfl

/-- One operation on the cache is one operation on the list of its pairs. -/
theorem step_refines (h : Rep clock c es) (op : Op) :
    ∃ result c' es', c.step clock op = some (result, c') ∧ c'.capacity = c.capacity ∧
      Rep clock c' es' ∧ refStep c.capacity (es.map pair) op = (result, es'.map pair) := by
  cases op with
  | tryLoad url destination =>
    obtain ⟨c', es', hc', hcap, hrep, hes'⟩ := tryLoad_refines h url destination
    refine ⟨_, c', es', by rw [step, hc']; rfl, hcap, hrep, ?_⟩
    rw [refStep, hes']
    cases Lru.load (es.map pair) url with
    | mk data l =>
      cases data with
      | none => simp
      | some data => rfl
  | tryInsert url source =>
    obtain ⟨c', es', hc', hcap, hrep, hes'⟩ := tryInsert_refines h url source
    exact ⟨_, c', es', by rw [step, hc']; rfl, hcap, hrep, by rw [refStep, hes']⟩
  | clear =>
    obtain ⟨c', hc', hcap, hrep⟩ := clear_rep h
    exact ⟨_, c', [], by rw [step, hc']; rfl, hcap, hrep, rfl⟩

theorem history_of_rep (h : Rep clock c es) (ops : List Op) :
    history clock c ops = some (refHistory c.capacity (es.map pair) ops) := by
  induction ops generalizing c es with
  | nil => rfl
  | cons op ops ih =>
    obtain ⟨result, c', es', hstep, hcap, hrep, href⟩ := step_refines h op
    have hentries : c'.entries = es'.map pair := entries_of_rep hrep
    have hoccupancy : c'.getOccupancy = Lru.total List.length (es'.map pair) := by
      rw [total_map_pair]
      exact hrep.occupancy
    rw [history, hstep]
    show (history clock c' ops).bind _ = _
    rw [ih hrep, hcap, refHistory, href, hentries, hoccupancy]
    rfl

end RefinementLemmas

open RefinementLemmas

/-! ## 3. Whole sequences of operations -/

/-- The machine whose state is `none` once an operation was undefined or failed its assertion. -/
def next (clock : Clock) (c : Option Cache) (op : Op) : Option Cache :=
  c.bind fun c => (c.step clock op).map Prod.snd

/-- No operation was undefined, and the cache is represented by a list of nodes. -/
def Represented (clock : Clock) (capacity : ℕ) (o : Option Cache) : Prop :=
  ∃ c es, o = some c ∧ c.capacity = capacity ∧ Rep clock c es

namespace RefinementLemmas

theorem next_represented {clock : Clock} {capacity : ℕ} {o : Option Cache}
    (h : Represented clock capacity o) (op : Op) : Represented clock capacity (next clock o op) := by
  obtain ⟨c, es, rfl, hcap, hrep⟩ := h
  obtain ⟨result, c', es', hstep, hcap', hrep', -⟩ := step_refines hrep op
  refine ⟨c', es', ?_, hcap'.trans hcap, hrep'⟩
  rw [next, Option.bind_some, hstep]
  rfl

theorem represented_new (clock : Clock) (capacity : UInt64) :
    Represented clock capacity.toNat (some (new clock capacity)) :=
  ⟨_, [], rfl, rfl, new_rep capacity⟩

theorem represented_always (clock : Clock) (capacity : UInt64) (ops : List Op) :
    Always (next clock) (Represented clock capacity.toNat) (some (new clock capacity)) ops :=
  always_of_along (fun _ op h _ => next_represented h op) (represented_new clock capacity)
    (Along.of_forall (fun _ _ => True.intro) _ _)

end RefinementLemmas

theorem wellFormed_always (clock : Clock) (capacity : UInt64) (ops : List Op) :
    Always (next clock) (fun o => ∃ c ns, o = some c ∧ c.WellFormed ns)
      (some (new clock capacity)) ops := by
  refine (represented_always clock capacity ops).mono ?_
  rintro - ⟨c, es, rfl, -, h⟩
  exact ⟨c, _, rfl, wellFormed_of_rep h⟩

/-- The caches that some sequence of operations leads to. -/
def Reachable (clock : Clock) (capacity : UInt64) (c : Cache) : Prop :=
  ∃ ops, run (next clock) (some (new clock capacity)) ops = some c

theorem rep_of_reachable {clock : Clock} {capacity : UInt64} {c : Cache}
    (h : Reachable clock capacity c) : c.capacity = capacity.toNat ∧ ∃ es, Rep clock c es := by
  obtain ⟨ops, hops⟩ := h
  have hlast : Represented clock capacity.toNat (some c) :=
    hops ▸ (represented_always clock capacity ops).last (represented_new clock capacity)
  obtain ⟨c', es, hc, hcap, hrep⟩ := hlast
  cases hc
  exact ⟨hcap, es, hrep⟩

theorem history_eq_refHistory (clock : Clock) (capacity : UInt64) (ops : List Op) :
    history clock (new clock capacity) ops = some (refHistory capacity.toNat [] ops) :=
  history_of_rep (new_rep capacity) ops

end TurtleServer.Cache
