import TurtleServer.Http.CacheSizes
import TurtleServer.Lib.LruRecency

/-!
# When the cache hits

The lookups of `ProcessHttpRequest` move nodes, evict and insert. `hits_iff`: what comes out of it for
files that do not change. A lookup finds its file exactly when the file was looked up before, and the
sizes of the different files looked up since then, with its own, add up to the capacity at most; files
larger than the cache do not count. The entries are the files looked up last, as many as fit.
-/

namespace TurtleServer.Http

open Lib

/-- The file was looked up before, and has not been pushed out since. -/
def Cached (capacity : ℕ) (content : Bytes → Bytes) (before : List Bytes) (path : Bytes) : Prop :=
  ∃ older since, before = older ++ path :: since ∧ path ∉ since ∧
    (content path).length +
      ∑ p ∈ (since.filter fun p => (content p).length ≤ capacity).toFinset, (content p).length ≤
        capacity

/-- The files looked up, in the order of their last lookups, as far as they fit at all. -/
def lookedUp (capacity : ℕ) (content : Bytes → Bytes) (paths : List Bytes) : List (Bytes × Bytes) :=
  Lru.recency content (paths.filter fun p => (content p).length ≤ capacity)

namespace CacheHitLemmas

open FragmentationLemmas CacheSizeLemmas

variable {clock : Clock} {capacity : ℕ} {disk : FileSystem} {content : Bytes → Bytes}
  {cache : Cache}

/-- What a lookup sees after the lookups `past`. -/
def seenAfter (capacity : ℕ) (content : Bytes → Bytes) (past : List Bytes) (path : Bytes) : Lookup :=
  ⟨(Lru.load (Lru.accesses List.length capacity content past) path).1.isSome,
    Lru.accesses List.length capacity content (past ++ [path])⟩

/-- The lookups `paths` after the lookups `past`. -/
theorem lookups_spec (past : List Bytes) {paths : List Bytes}
    (h : Holds clock capacity cache (Lru.accesses List.length capacity content past))
    (hdisk : ∀ path ∈ paths, disk path = .regular (content path)) :
    ∃ seen, lookups clock disk cache paths = some seen ∧ seen.length = paths.length ∧
      ∀ n path, paths[n]? = some path →
        seen[n]? = some (seenAfter capacity content (past ++ paths.take n) path) := by
  induction paths generalizing cache past with
  | nil => exact ⟨[], rfl, rfl, fun n path hn => absurd hn.symm (Option.some_ne_none _)⟩
  | cons first paths ih =>
    obtain ⟨hfirst, hdisk⟩ := List.forall_mem_cons.mp hdisk
    obtain ⟨cache', hlookup, hholds⟩ := lookup_spec h hfirst
    have hstep : Lru.access List.length capacity content
        (Lru.accesses List.length capacity content past) first =
          Lru.accesses List.length capacity content (past ++ [first]) :=
      (List.foldl_concat ..).symm
    rw [hstep] at hlookup hholds
    obtain ⟨seen, hseen, hlength, hall⟩ := ih (past ++ [first]) hholds hdisk
    refine ⟨seenAfter capacity content past first :: seen, ?_, congrArg Nat.succ hlength, ?_⟩
    · rw [lookups, hlookup]
      show (lookups clock disk cache' paths).bind _ = _
      rw [hseen]
      rfl
    · intro n path hn
      cases n with
      | zero =>
        obtain rfl : first = path := Option.some.inj hn
        simp
      | succ n =>
        rw [List.getElem?_cons_succ] at hn ⊢
        rw [hall n path hn, List.take_succ_cons, List.append_assoc, List.singleton_append]

end CacheHitLemmas

open CacheHitLemmas

/-- Of lookups one after the other in a cache that is empty at first: which are hits, and what the
cache holds after each. -/
theorem hits_iff (clock : Clock) (capacity : UInt64) (disk : FileSystem) (content : Bytes → Bytes)
    (paths : List Bytes) (hdisk : ∀ path ∈ paths, disk path = .regular (content path)) :
    ∃ seen, lookups clock disk (Cache.new clock capacity) paths = some seen ∧
      seen.length = paths.length ∧
      ∀ n path, paths[n]? = some path → ∃ s, seen[n]? = some s ∧
        (s.hit = true ↔ Cached capacity.toNat content (paths.take n) path) ∧
        Lru.Longest List.length capacity.toNat (lookedUp capacity.toNat content (paths.take (n + 1)))
          s.entries := by
  obtain ⟨seen, hseen, hlength, hall⟩ :=
    lookups_spec [] (CacheSizeLemmas.holds_new clock capacity) hdisk
  refine ⟨seen, hseen, hlength, fun n path hn => ⟨_, hall n path hn, ?_, ?_⟩⟩
  · show (Lru.load (Lru.accesses List.length capacity.toNat content (paths.take n)) path).1.isSome =
      true ↔ _
    exact Lru.hit_iff (paths.take n) path
  · rw [List.take_add_one, hn]
    exact Lru.accesses_longest List.length capacity.toNat content (paths.take n ++ [path])

/-- Three files, of one, two and three bytes. -/
def stairs : Bytes → Bytes := fun path => List.replicate (path.headD 0).toNat 7

/-- The lookups of these files. -/
def climb : List Bytes := [[1], [2], [1], [3], [1], [2], [1], [3], [2]]

/-- In four bytes of cache, the file of one byte outlives that of two, and not that of three. -/
theorem hits_iff_stairs :
    (lookups (.upTo 9 (by decide)) (fun path => .regular (stairs path))
        (Cache.new (.upTo 9 (by decide)) 4) climb).map (List.map Lookup.hit) =
      some [false, false, true, false, true, false, true, false, false] ∧
    ∃ seen, lookups (.upTo 9 (by decide)) (fun path => .regular (stairs path))
        (Cache.new (.upTo 9 (by decide)) 4) climb = some seen ∧
      seen.length = climb.length ∧
      ∀ n path, climb[n]? = some path → ∃ s, seen[n]? = some s ∧
        (s.hit = true ↔ Cached 4 stairs (climb.take n) path) ∧
        Lru.Longest List.length 4 (lookedUp 4 stairs (climb.take (n + 1))) s.entries :=
  ⟨by decide, hits_iff _ 4 _ stairs climb fun _ _ => rfl⟩

end TurtleServer.Http
