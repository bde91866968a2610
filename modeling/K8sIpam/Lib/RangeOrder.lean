import Mathlib

/-! # Loops over maps

A loop over a map meets every entry once, in an order that is not the same each time. -/

open Std

/-- The order of one loop over a map. -/
structure RangeOrder (K : Type) [Ord K] [TransOrd K] where
  entries : {α : Type} → ExtTreeMap K α → List (K × α)
  perm : ∀ {α : Type} (t : ExtTreeMap K α), (entries t).Perm t.toList

namespace RangeOrder

variable {K : Type} [Ord K] [TransOrd K] [LawfulEqOrd K] {α : Type}

def byKey : RangeOrder K := ⟨ExtTreeMap.toList, fun _ => .refl _⟩

variable (o : RangeOrder K) {t : ExtTreeMap K α} {k : K} {a : α}

theorem mem_entries : (k, a) ∈ o.entries t ↔ t[k]? = some a := by
  rw [(o.perm t).mem_iff, ExtTreeMap.mem_toList_iff_getElem?_eq_some]

theorem mem_keys : k ∈ (o.entries t).map Prod.fst ↔ k ∈ t := by
  rw [((o.perm t).map _).mem_iff, ExtTreeMap.map_fst_toList_eq_keys, ExtTreeMap.mem_keys]

end RangeOrder
