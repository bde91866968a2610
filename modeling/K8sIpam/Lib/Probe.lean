import Mathlib.Data.Fin.Basic
import Mathlib.Data.Nat.ModEq

/-! # Linear probing

The slots of a table in the order in which they are tried: from a first slot on, and around the
end of the table. -/

namespace Probe

variable {n : Nat} [NeZero n]

/-- The slot after a slot. -/
def next (i : Fin n) : Fin n := if h : i.val + 1 < n then ⟨i.val + 1, h⟩ else 0

/-- The slot that is tried after `d` others. -/
def slot (i : Fin n) (d : Nat) : Fin n := Fin.ofNat n (i.val + d)

theorem slot_zero (i : Fin n) : slot i 0 = i := by
  apply Fin.ext
  exact Nat.mod_eq_of_lt i.isLt

theorem slot_next (i : Fin n) (d : Nat) : slot (next i) d = slot i (d + 1) := by
  apply Fin.ext
  unfold slot next
  split
  · simp [Nat.add_right_comm, Nat.add_assoc]
  next h =>
    have hi : i.val + 1 = n := by omega
    have : i.val + (d + 1) = d + n := by omega
    simp [this]

/-- The number of slots that are tried before a slot. -/
def distance (i j : Fin n) : Nat := (j.val + (n - i.val)) % n

theorem distance_lt (i j : Fin n) : distance i j < n := Nat.mod_lt _ (Nat.pos_of_neZero n)

theorem slot_distance (i j : Fin n) : slot i (distance i j) = j := by
  apply Fin.ext
  have hi := i.isLt
  calc (i.val + (j.val + (n - i.val)) % n) % n
      = (i.val + (j.val + (n - i.val))) % n := Nat.add_mod_mod _ _ _
    _ = (j.val + n) % n := by congr 1; omega
    _ = j.val := by rw [Nat.add_mod_right, Nat.mod_eq_of_lt j.isLt]

theorem distance_slot (i : Fin n) {d : Nat} (hd : d < n) : distance i (slot i d) = d := by
  have hi := i.isLt
  calc ((i.val + d) % n + (n - i.val)) % n
      = (i.val + d + (n - i.val)) % n := Nat.mod_add_mod _ _ _
    _ = (d + n) % n := by congr 1; omega
    _ = d := by rw [Nat.add_mod_right, Nat.mod_eq_of_lt hd]

/-- The first of so many slots that satisfies `p`. -/
def find (p : Fin n → Bool) : Nat → Fin n → Option (Fin n)
  | 0, _ => none
  | fuel + 1, i => if p i then some i else find p fuel (next i)

variable {p : Fin n → Bool} {fuel : Nat} {i j : Fin n}

theorem find_eq_some : find p fuel i = some j ↔
    ∃ d < fuel, slot i d = j ∧ p j ∧ ∀ e < d, p (slot i e) = false := by
  induction fuel generalizing i with
  | zero => simp [find]
  | succ fuel ih =>
    unfold find
    split
    next hp =>
      constructor
      · rintro ⟨⟩
        exact ⟨0, Nat.succ_pos _, slot_zero _, hp, fun e he => absurd he (Nat.not_lt_zero e)⟩
      · rintro ⟨d, -, rfl, -, hfirst⟩
        cases d with
        | zero => rw [slot_zero]
        | succ d =>
          have := hfirst 0 (Nat.succ_pos d)
          rw [slot_zero, hp] at this
          cases this
    next hp =>
      rw [ih]
      constructor
      · rintro ⟨d, hd, hslot, hj, hfirst⟩
        refine ⟨d + 1, Nat.succ_lt_succ hd, by rw [← slot_next, hslot], hj, fun e he => ?_⟩
        cases e with
        | zero => rw [slot_zero, Bool.eq_false_iff]; exact hp
        | succ e => rw [← slot_next]; exact hfirst e (Nat.lt_of_succ_lt_succ he)
      · rintro ⟨d, hd, hslot, hj, hfirst⟩
        cases d with
        | zero =>
          rw [slot_zero] at hslot
          subst hslot
          exact absurd hj hp
        | succ d =>
          refine ⟨d, Nat.lt_of_succ_lt_succ hd, by rw [slot_next, hslot], hj, fun e he => ?_⟩
          rw [slot_next]
          exact hfirst (e + 1) (Nat.succ_lt_succ he)

theorem find_eq_none : find p fuel i = none ↔ ∀ d < fuel, p (slot i d) = false := by
  induction fuel generalizing i with
  | zero => simp [find]
  | succ fuel ih =>
    unfold find
    split
    next hp =>
      refine ⟨nofun, fun h => ?_⟩
      have := h 0 (Nat.succ_pos _)
      rw [slot_zero, hp] at this
      cases this
    next hp =>
      rw [ih]
      constructor
      · intro h d hd
        cases d with
        | zero => rw [slot_zero, Bool.eq_false_iff]; exact hp
        | succ d => rw [← slot_next]; exact h d (Nat.lt_of_succ_lt_succ hd)
      · intro h d hd
        rw [slot_next]
        exact h (d + 1) (Nat.succ_lt_succ hd)

/-- Once all slots have been tried there is no use in going on. -/
theorem find_all_eq_none (hfuel : n ≤ fuel) : find p fuel i = none ↔ ∀ j, p j = false := by
  rw [find_eq_none]
  constructor
  · intro h j
    rw [← slot_distance i j]
    exact h _ ((distance_lt i j).trans_le hfuel)
  · exact fun h d _ => h _

/-- Among all slots the one found is tried first. -/
theorem find_all_eq_some : find p n i = some j ↔
    p j ∧ ∀ j', distance i j' < distance i j → p j' = false := by
  rw [find_eq_some]
  constructor
  · rintro ⟨d, hd, rfl, hj, hfirst⟩
    refine ⟨hj, fun j' hj' => ?_⟩
    rw [distance_slot i hd] at hj'
    rw [← slot_distance i j']
    exact hfirst _ hj'
  · rintro ⟨hj, hfirst⟩
    refine ⟨distance i j, distance_lt i j, slot_distance i j, hj, fun e he => hfirst _ ?_⟩
    rwa [distance_slot i (he.trans (distance_lt i j))]

end Probe
