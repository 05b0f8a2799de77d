import TurtleServer.Core.Basic
import TurtleServer.Lib.LinkedHeap
import TurtleServer.Lib.Map

/-!
# The cache (`core/cache.h`, `core/cache.cpp`)

`Cache` is the class `Cache` with its nodes in a heap: `CacheNode *` is an address, and `prev_` and
`next_` are the pointers of the cell there. The sentinels live at `header` and `tailer`; every other
node is owned by the `shared_ptr` in `mapping_` and freed when its entry is erased.

`none` as the result of an operation is undefined behaviour or a failed assertion: a null or dangling
pointer is followed, or `EvictOne` does not find its node in `mapping_`.

`size_t` differences and sums are taken modulo `2 ^ 64`.
-/

namespace TurtleServer

open Lib

/-- An address of a `CacheNode`. -/
abbrev NodeId := ℕ

/-- A `CacheNode` without its two pointers. -/
structure CacheNode where
  identifier : Bytes
  data : Bytes
  lastAccess : ℕ
deriving DecidableEq, Repr

def CacheNode.size (node : CacheNode) : ℕ := node.data.length

/-- The class `Cache`. `made` counts the nodes constructed so far, and `reads` the looks at the
clock. -/
structure Cache where
  mapping : Map Bytes NodeId
  capacity : ℕ
  occupancy : ℕ
  heap : Heap NodeId CacheNode
  made : ℕ
  reads : ℕ

namespace Cache

/-- `header_.get()`. -/
abbrev header : NodeId := 0

/-- `tailer_.get()`. -/
abbrev tailer : NodeId := 1

variable (clock : Clock)

/-- `Cache(capacity)`: two sentinels with empty identifier and data, linked to each other. -/
def new (capacity : UInt64) : Cache where
  mapping := ∅
  capacity := capacity.toNat
  occupancy := 0
  heap n :=
    if n = header then some ⟨⟨[], [], clock.now 0⟩, none, some tailer⟩
    else if n = tailer then some ⟨⟨[], [], clock.now 1⟩, some header, none⟩
    else none
  made := 2
  reads := 2

/-- `GetOccupancy`. -/
def getOccupancy (c : Cache) : ℕ := c.occupancy

/-- `CacheNode::Serialize`, through a pointer. -/
def serialize (c : Cache) (node : NodeId) (destination : Bytes) : Option Bytes :=
  (c.heap.value node).map fun v => destination ++ v.data

/-- `CacheNode::UpdateTimestamp`, through a pointer. -/
def updateTimestamp (c : Cache) (node : NodeId) : Option Cache := do
  let heap ← c.heap.setValue node fun v => { v with lastAccess := clock.now c.reads }
  return { c with heap, reads := c.reads + 1 }

/-- `RemoveFromList`. -/
def removeFromList (c : Cache) (node : NodeId) : Option Cache := do
  let nodePrev ← c.heap.prev node
  let nodeNext ← c.heap.next node
  let heap ← c.heap.setNext nodePrev nodeNext
  let heap ← heap.setPrev nodeNext nodePrev
  return { c with heap }

/-- `AppendToListTail`. -/
def appendToListTail (c : Cache) (node : NodeId) : Option Cache := do
  let nodePrev ← c.heap.prev tailer
  let heap ← c.heap.setNext nodePrev node
  let heap ← heap.setPrev tailer node
  let heap ← heap.setPrev node nodePrev
  let heap ← heap.setNext node tailer
  return { c with heap }

/-- `TryLoad`: whether the resource was found, the destination buffer and the state after. -/
def tryLoad (c : Cache) (resourceUrl destination : Bytes) : Option (Bool × Bytes × Cache) :=
  match c.mapping.lookup resourceUrl with
  | some node => do
    let destination ← c.serialize node destination
    let c ← c.removeFromList node
    let c ← c.appendToListTail node
    let c ← c.updateTimestamp clock node
    return (true, destination, c)
  | none => some (false, destination, c)

/-- `EvictOne`. Erasing the entry drops the last reference to the node. -/
def evictOne (c : Cache) : Option Cache := do
  let firstNode ← c.heap.next header
  let first ← c.heap.value firstNode
  -- `assert(iter != mapping_.end())`
  let node ← c.mapping.lookup first.identifier
  let c ← c.removeFromList node
  return { c with
    mapping := c.mapping.erase first.identifier
    heap := Function.update c.heap node none
    occupancy := (c.occupancy + 2 ^ 64 - first.size) % 2 ^ 64 }

/-- The condition of the eviction loop in `TryInsert`. -/
def mustEvict (c : Cache) (sourceSize : ℕ) : Prop :=
  c.mapping.entries ≠ [] ∧ (c.capacity + 2 ^ 64 - c.occupancy) % 2 ^ 64 < sourceSize

instance (c : Cache) (sourceSize : ℕ) : Decidable (c.mustEvict sourceSize) :=
  inferInstanceAs (Decidable (_ ∧ _))

/-- The eviction loop in `TryInsert`. Each round erases one entry of `mapping_`, and the loop ends
when it is empty, so the number of entries bounds the rounds. -/
def evictLoop (sourceSize : ℕ) : ℕ → Cache → Option Cache
  | 0, c => some c
  | rounds + 1, c =>
    if c.mustEvict sourceSize then do
      let c ← c.evictOne
      evictLoop sourceSize rounds c
    else some c

/-- `std::make_shared<CacheNode>(resource_url, source)`. -/
def makeNode (c : Cache) (resourceUrl source : Bytes) : Cache :=
  { c with
    heap := Function.update c.heap c.made
      (some ⟨⟨resourceUrl, source, clock.now c.reads⟩, none, none⟩)
    made := c.made + 1
    reads := c.reads + 1 }

/-- `TryInsert`. -/
def tryInsert (c : Cache) (resourceUrl source : Bytes) : Option (Bool × Cache) :=
  match c.mapping.lookup resourceUrl with
  | some _ => some (false, c)
  | none =>
    if source.length > c.capacity then some (false, c)
    else do
      let c ← evictLoop source.length c.mapping.entries.length c
      let node := c.made
      let c ← (c.makeNode clock resourceUrl source).appendToListTail node
      return (true, { c with
        occupancy := (c.occupancy + source.length) % 2 ^ 64
        mapping := c.mapping.emplace resourceUrl node })

/-- `Clear`. Emptying `mapping_` frees every node it owns. -/
def clear (c : Cache) : Option Cache := do
  let heap ← c.heap.setNext header tailer
  let heap ← heap.setPrev tailer header
  return { c with
    mapping := ∅
    heap := fun n => if c.mapping.entries.any (fun e => e.2 = n) then none else heap n
    occupancy := 0 }

/-! ## Sequences of operations -/

/-- The operations on a cache. -/
inductive Op
  | tryLoad (resourceUrl destination : Bytes)
  | tryInsert (resourceUrl source : Bytes)
  | clear

/-- What an operation answers. -/
inductive Result
  | loaded (found : Bool) (destination : Bytes)
  | inserted (success : Bool)
  | cleared
deriving DecidableEq, Repr

/-- One operation. -/
def step (c : Cache) : Op → Option (Result × Cache)
  | .tryLoad resourceUrl destination => do
    let (found, destination, c) ← c.tryLoad clock resourceUrl destination
    return (.loaded found destination, c)
  | .tryInsert resourceUrl source => do
    let (success, c) ← c.tryInsert clock resourceUrl source
    return (.inserted success, c)
  | .clear => do
    let c ← c.clear
    return (.cleared, c)

/-- The nodes met when `next_` is followed from `node` to the tailer, at most `bound` of them. -/
def walk (c : Cache) : ℕ → NodeId → List NodeId
  | 0, _ => []
  | bound + 1, node =>
    match c.heap.next node with
    | none => []
    | some n => if n = tailer then [] else n :: walk c bound n

/-- The cached pairs of url and data, from the least to the most recently used. -/
def entries (c : Cache) : List (Bytes × Bytes) :=
  (c.walk c.made header).filterMap fun n =>
    (c.heap.value n).map fun v => (v.identifier, v.data)

end Cache

end TurtleServer
