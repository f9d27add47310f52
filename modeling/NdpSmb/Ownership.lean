import Mathlib.Data.List.Nodup
import Mathlib.Data.List.Perm.Basic
import Mathlib.Logic.Function.Basic

/-!
Memory by address, and a list of who accounts for it: each address in use is on the list once.
-/

namespace Ownership

variable {α β : Type}

structure Inventory (heap : α → Option β) (owned : List α) : Prop where
  once : owned.Nodup
  inUse : ∀ address, heap address ≠ none ↔ address ∈ owned

section Inventory

variable {heap : α → Option β} {owned others front : List α} {address : α}

theorem inventory_nil : Inventory (fun _ => none : α → Option β) [] where
  once := List.nodup_nil
  inUse address := by simp

theorem Inventory.perm (listed : Inventory heap owned) (same : owned.Perm others) : Inventory heap others where
  once := same.nodup_iff.mp listed.once
  inUse address := by rw [listed.inUse, same.mem_iff]

theorem Inventory.middle (listed : Inventory heap (front ++ address :: others)) :
    Inventory heap (address :: (front ++ others)) :=
  listed.perm List.perm_middle

variable [DecidableEq α]

theorem Inventory.allocated (listed : Inventory heap owned) (unused : heap address = none) (value : β) :
    Inventory (Function.update heap address (some value)) (address :: owned) where
  once := by
    refine List.nodup_cons.mpr ⟨fun inside => ?_, listed.once⟩
    exact (listed.inUse address).mpr inside unused
  inUse other := by
    by_cases same : other = address
    · simp [same]
    · rw [Function.update_of_ne same, listed.inUse, List.mem_cons]
      simp [same]

theorem Inventory.written (listed : Inventory heap owned) (used : heap address ≠ none) (value : β) :
    Inventory (Function.update heap address (some value)) owned where
  once := listed.once
  inUse other := by
    by_cases same : other = address
    · rw [same, Function.update_self, ← listed.inUse]
      simp [used]
    · rw [Function.update_of_ne same, listed.inUse]

theorem Inventory.freed (listed : Inventory heap (address :: others)) :
    Inventory (Function.update heap address none) others where
  once := (List.nodup_cons.mp listed.once).2
  inUse other := by
    have absent := (List.nodup_cons.mp listed.once).1
    by_cases same : other = address
    · rw [same, Function.update_self]
      simp [absent]
    · rw [Function.update_of_ne same, listed.inUse, List.mem_cons]
      simp [same]

end Inventory

end Ownership
