import Mathlib.Data.List.AList
import Mathlib.Tactic

/-!
# Finite maps with the insertion of `std::map`

`Map α β` is Mathlib's association list with distinct keys. The one operation it lacks is the
insertion of the C++ containers, which leaves a key that is present as it is (`AList.insert`
replaces).
-/

namespace TurtleServer.Lib

/-- A finite map from `α` to `β`. -/
abbrev Map (α β : Type*) := AList fun _ : α => β

namespace Map

variable {α β : Type*} [DecidableEq α] {m : Map α β} {k k' : α} {v : β}

/-- `insert` and `emplace` of `std::map` and `std::unordered_map`: nothing happens when the key is
present. -/
def emplace (m : Map α β) (k : α) (v : β) : Map α β := if k ∈ m then m else AList.insert k v m

theorem emplace_of_mem (h : k ∈ m) : m.emplace k v = m := if_pos h

theorem emplace_of_not_mem (h : k ∉ m) : m.emplace k v = AList.insert k v m := if_neg h

theorem mem_iff_lookup : k ∈ m ↔ ∃ v, m.lookup k = some v := by
  rw [← AList.lookup_isSome, Option.isSome_iff_exists]

theorem mem_of_lookup (h : m.lookup k = some v) : k ∈ m := mem_iff_lookup.mpr ⟨v, h⟩

@[simp] theorem mem_emplace : k' ∈ m.emplace k v ↔ k' = k ∨ k' ∈ m := by
  by_cases h : k ∈ m
  · rw [emplace_of_mem h]
    exact ⟨.inr, fun h' => h'.elim (fun he => he ▸ h) id⟩
  · rw [emplace_of_not_mem h, AList.mem_insert]

theorem lookup_emplace_self (h : k ∉ m) : (m.emplace k v).lookup k = some v := by
  rw [emplace_of_not_mem h, AList.lookup_insert]

theorem lookup_emplace_ne (hne : k' ≠ k) : (m.emplace k v).lookup k' = m.lookup k' := by
  by_cases h : k ∈ m
  · rw [emplace_of_mem h]
  · rw [emplace_of_not_mem h, AList.lookup_insert_ne hne]

theorem lookup_erase_eq_some :
    (AList.erase k m).lookup k' = some v ↔ k' ≠ k ∧ m.lookup k' = some v := by
  by_cases h : k' = k
  · subst h
    simp
  · rw [AList.lookup_erase_ne h]
    exact ⟨fun hv => ⟨h, hv⟩, And.right⟩

end Map

end TurtleServer.Lib
