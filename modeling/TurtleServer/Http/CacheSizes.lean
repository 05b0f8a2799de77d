import TurtleServer.Http.Fragmentation

/-!
# A bigger cache never hits less

Two caches of different capacities see the same lookups of `ProcessHttpRequest`. Where one finds the
resource and the other does not, the one moves an entry and the other evicts several to make room, so
that the lists diverge. By `Lru.access_suffix` the list of the smaller cache stays a suffix of the
list of the larger one all the same.
-/

namespace TurtleServer.Http

open Lib

/-- What is seen of a lookup: whether `TryLoad` found the resource, and the cached pairs after it. -/
structure Lookup where
  hit : Bool
  entries : List (Bytes × Bytes)
deriving DecidableEq, Repr

/-- A lookup as `ProcessHttpRequest` makes it. -/
def lookup (clock : Clock) (disk : FileSystem) (cache : Cache) (resourceFullPath : Bytes) :
    Option (Lookup × Cache) := do
  let (resourceCached, _, _) ← cache.tryLoad clock resourceFullPath []
  let (_, cache) ← cachedFetch clock disk cache resourceFullPath
  return (⟨resourceCached, cache.entries⟩, cache)

/-- Lookups one after the other. -/
def lookups (clock : Clock) (disk : FileSystem) : Cache → List Bytes → Option (List Lookup)
  | _, [] => some []
  | cache, path :: paths => do
    let (seen, cache) ← lookup clock disk cache path
    let rest ← lookups clock disk cache paths
    return seen :: rest

/-- A lookup seen in a cache, and the same one seen in a larger cache. -/
structure Included (small large : Lookup) : Prop where
  entries : small.entries <:+ large.entries
  hit : small.hit = true → large.hit = true

namespace CacheSizeLemmas

open Cache.RefinementLemmas FragmentationLemmas

variable {clock clock' : Clock} {capacity capacity' : ℕ} {disk : FileSystem} {content : Bytes → Bytes}
  {path : Bytes} {cache cache' : Cache} {l s : List (Bytes × Bytes)}

theorem lruFetch_eq_access (hdisk : disk path = .regular (content path)) :
    lruFetch capacity disk l path =
      some (((Lru.load l path).1.getD (content path)),
        Lru.access List.length capacity content l path) := by
  unfold lruFetch Lru.access
  rw [FileSystem.loadFile_regular hdisk]
  cases hload : Lru.load l path with
  | mk data l' =>
    cases data with
    | some data => rfl
    | none =>
      have hmiss := hload.symm.trans (Lru.load_of_eq_none (congrArg Prod.fst hload))
      cases hmiss
      rfl

/-- A lookup is an access to the list that the cache stands for. -/
theorem lookup_spec (h : Holds clock capacity cache l)
    (hdisk : disk path = .regular (content path)) :
    ∃ cache', lookup clock disk cache path =
        some (⟨(Lru.load l path).1.isSome, Lru.access List.length capacity content l path⟩, cache') ∧
      Holds clock capacity cache' (Lru.access List.length capacity content l path) := by
  have hhit : ∃ data c, cache.tryLoad clock path [] = some ((Lru.load l path).1.isSome, data, c) := by
    obtain ⟨-, es, hrep, rfl⟩ := h
    obtain ⟨c, -, hc, -⟩ := tryLoad_refines hrep path []
    exact ⟨_, c, hc⟩
  obtain ⟨data, c, hc⟩ := hhit
  rcases cachedFetch_simulates disk cache l path h with ⟨-, hnone⟩ | ⟨body, c', l', hf, hf', hholds⟩
  · rw [lruFetch_eq_access hdisk] at hnone
    exact absurd hnone (Option.some_ne_none _)
  · rw [lruFetch_eq_access hdisk] at hf'
    cases hf'
    refine ⟨c', ?_, hholds⟩
    simp only [lookup, hc, hf, Option.bind_eq_bind, Option.bind_some, Option.pure_def,
      entries_of_holds hholds]

theorem nodup_of_holds (h : Holds clock capacity cache l) : (l.map Prod.fst).Nodup := by
  obtain ⟨-, es, hrep, rfl⟩ := h
  exact keys_nodup hrep

theorem lookups_included (hcap : capacity ≤ capacity') {paths : List Bytes}
    (hdisk : ∀ path ∈ paths, disk path = .regular (content path))
    (hsize : ∀ path ∈ paths, (content path).length ≤ capacity) (hs : Holds clock capacity cache s)
    (hl : Holds clock' capacity' cache' l) (hsuffix : s <:+ l)
    (hcontent : ∀ e ∈ l, e.2 = content e.1) :
    ∃ small large, lookups clock disk cache paths = some small ∧
      lookups clock' disk cache' paths = some large ∧ List.Forall₂ Included small large := by
  induction paths generalizing cache cache' s l with
  | nil => exact ⟨[], [], rfl, rfl, .nil⟩
  | cons path paths ih =>
    obtain ⟨hpath, hdisk⟩ := List.forall_mem_cons.mp hdisk
    obtain ⟨hk, hsize⟩ := List.forall_mem_cons.mp hsize
    obtain ⟨c, hc, hs'⟩ := lookup_spec hs hpath
    obtain ⟨c', hc', hl'⟩ := lookup_spec hl hpath
    have hnd := nodup_of_holds hl
    have hsuffix' := Lru.access_suffix (k := path) hnd hcontent hcap hk hsuffix
    have hhit : (Lru.load s path).1.isSome = true → (Lru.load l path).1.isSome = true :=
      Lru.load_isSome_of_subset hnd hsuffix.subset
    have hcontent' : ∀ e ∈ Lru.access List.length capacity' content l path, e.2 = content e.1 := by
      intro e he
      rcases Lru.mem_of_mem_access he with hold | rfl
      · exact hcontent e hold
      · rfl
    obtain ⟨small, large, hsmall, hlarge, hall⟩ := ih hdisk hsize hs' hl' hsuffix' hcontent'
    refine ⟨⟨_, _⟩ :: small, ⟨_, _⟩ :: large, ?_, ?_, .cons ⟨hsuffix', hhit⟩ hall⟩
    · rw [lookups, hc]
      show (lookups clock disk c paths).bind _ = _
      rw [hsmall]
      rfl
    · rw [lookups, hc']
      show (lookups clock' disk c' paths).bind _ = _
      rw [hlarge]
      rfl

theorem holds_new (clock : Clock) (capacity : UInt64) :
    Holds clock capacity.toNat (Cache.new clock capacity) [] :=
  ⟨rfl, [], Cache.RepLemmas.new_rep capacity, rfl⟩

end CacheSizeLemmas

open CacheSizeLemmas

/-- After every lookup the list of the smaller cache is a suffix of the list of the larger one, and
every hit of the smaller is a hit of the larger. -/
theorem bigger_cache_hits (clock clock' : Clock) {capacity capacity' : UInt64}
    (hcap : capacity ≤ capacity') (disk : FileSystem) (content : Bytes → Bytes) (paths : List Bytes)
    (hdisk : ∀ path ∈ paths, disk path = .regular (content path))
    (hsize : ∀ path ∈ paths, (content path).length ≤ capacity.toNat) :
    ∃ small large, lookups clock disk (Cache.new clock capacity) paths = some small ∧
      lookups clock' disk (Cache.new clock' capacity') paths = some large ∧
      List.Forall₂ Included small large :=
  lookups_included (UInt64.le_iff_toNat_le.mp hcap) hdisk hsize (holds_new clock capacity)
    (holds_new clock' capacity') (List.suffix_refl []) (fun _ he => absurd he List.not_mem_nil)

/-- A disk on which every file holds two bytes. -/
def pairDisk : FileSystem := fun _ => .regular [1, 2]

/-- With room for one file and for two, and a file that is looked up again after another one. -/
theorem bigger_cache_hits_pairDisk :
    (2 : UInt64) ≤ 4 ∧
      ∃ small large,
        lookups (.upTo 9 (by decide)) pairDisk (Cache.new (.upTo 9 (by decide)) 2) [[1], [2], [1]] =
          some small ∧
        lookups (.upTo 9 (by decide)) pairDisk (Cache.new (.upTo 9 (by decide)) 4) [[1], [2], [1]] =
          some large ∧
        List.Forall₂ Included small large :=
  ⟨by decide, bigger_cache_hits _ _ (by decide) pairDisk (fun _ => [1, 2]) [[1], [2], [1]]
    (fun _ _ => rfl) (fun _ _ => by decide)⟩

end TurtleServer.Http
