import Mathlib

/-! # Windows of bit vectors

The bit vectors that count from one number up to another, in ascending order, and scans of such a
window that stop at the first one that does not have a property. -/

namespace Window

variable {w a n : Nat} {x y : BitVec w}

/-- The `n` bit vectors from `a` on. -/
def ids (w a n : Nat) : List (BitVec w) := (List.range' a n).map (BitVec.ofNat w)

theorem toNat_ofNat {k : Nat} (h : k < 2 ^ w) : (BitVec.ofNat w k).toNat = k := by
  rw [BitVec.toNat_ofNat, Nat.mod_eq_of_lt h]

theorem toNat_add_one (h : x.toNat + 1 < 2 ^ w) : (x + 1).toNat = x.toNat + 1 := by
  have hone : (BitVec.ofNat w 1).toNat = 1 := toNat_ofNat (by omega)
  rw [BitVec.toNat_add, show (1 : BitVec w) = BitVec.ofNat w 1 from rfl, hone, Nat.mod_eq_of_lt h]

theorem toNat_sub_one (h : 0 < x.toNat) : (x - 1).toNat = x.toNat - 1 := by
  have hlt := x.isLt
  have hone : (BitVec.ofNat w 1).toNat = 1 := toNat_ofNat (by omega)
  have hle : BitVec.ofNat w 1 ≤ x := by rw [BitVec.le_def, hone]; exact h
  rw [show (1 : BitVec w) = BitVec.ofNat w 1 from rfl, BitVec.toNat_sub_of_le hle, hone]

theorem mem_ids (h : a + n ≤ 2 ^ w) : x ∈ ids w a n ↔ a ≤ x.toNat ∧ x.toNat < a + n := by
  rw [ids, List.mem_map]
  constructor
  · rintro ⟨k, hk, rfl⟩
    obtain ⟨hlow, hhigh⟩ := List.mem_range'_1.mp hk
    rw [toNat_ofNat (by omega)]
    exact ⟨hlow, hhigh⟩
  · rintro ⟨hlow, hhigh⟩
    exact ⟨x.toNat, List.mem_range'_1.mpr ⟨hlow, hhigh⟩, by simp⟩

theorem pairwise_ids (h : a + n ≤ 2 ^ w) : (ids w a n).Pairwise (· < ·) := by
  rw [ids, List.pairwise_map]
  refine (List.pairwise_lt_range' (s := a) (n := n)).imp_of_mem fun hx hy hlt => ?_
  have hx := (List.mem_range'_1.mp hx).2
  have hy := (List.mem_range'_1.mp hy).2
  rw [BitVec.lt_def, toNat_ofNat (by omega), toNat_ofNat (by omega)]
  exact hlt

theorem ids_append (w a m n : Nat) : ids w a (m + n) = ids w a m ++ ids w (a + m) n := by
  rw [ids, ids, ids, ← List.map_append, List.range'_append_1]

@[simp] theorem ids_zero (w a : Nat) : ids w a 0 = [] := rfl

theorem ids_succ (w a n : Nat) : ids w a (n + 1) = BitVec.ofNat w a :: ids w (a + 1) n := rfl

@[simp] theorem length_ids (w a n : Nat) : (ids w a n).length = n := by
  rw [ids, List.length_map, List.length_range']

/-- A relation between the elements of a window and the later ones. -/
theorem pairwise_ids_iff {R : BitVec w → BitVec w → Prop} (h : a + n ≤ 2 ^ w) :
    (ids w a n).Pairwise R ↔ ∀ x ∈ ids w a n, ∀ y ∈ ids w a n, x < y → R x y := by
  have hsorted := pairwise_ids h
  constructor
  · intro hR x hx y hy hlt
    obtain ⟨i, hi, rfl⟩ := List.mem_iff_getElem.mp hx
    obtain ⟨j, hj, rfl⟩ := List.mem_iff_getElem.mp hy
    rcases Nat.lt_trichotomy i j with hij | rfl | hij
    · exact List.pairwise_iff_getElem.mp hR i j hi hj hij
    · exact absurd hlt (BitVec.lt_irrefl _)
    · exact absurd hlt (BitVec.lt_asymm (List.pairwise_iff_getElem.mp hsorted j i hj hi hij))
  · exact fun hall => hsorted.imp_of_mem fun hx hy hlt => hall _ hx _ hy hlt

/-! ## What comes first -/

variable {α : Type} {p : α → Bool} {l : List α}

/-- The elements with a property come first exactly when every element before one of them has it. -/
theorem filter_eq_takeWhile_iff :
    l.filter p = l.takeWhile p ↔ l.Pairwise fun a b => p b = true → p a = true := by
  induction l with
  | nil => simp
  | cons a l ih =>
    rw [List.pairwise_cons]
    cases ha : p a with
    | true =>
      rw [List.filter_cons_of_pos ha, List.takeWhile_cons_of_pos ha, List.cons.injEq, ih]
      simp
    | false =>
      have hneg : ¬p a = true := by rw [ha]; exact Bool.false_ne_true
      rw [List.filter_cons_of_neg hneg, List.takeWhile_cons_of_neg hneg, List.filter_eq_nil_iff]
      constructor
      · intro h
        refine ⟨fun b hb hpb => absurd hpb (h b hb), List.pairwise_of_forall_mem_list ?_⟩
        exact fun b hb c hc hpc => absurd hpc (h c hc)
      · intro h b hb hpb
        cases h.1 b hb hpb

end Window
