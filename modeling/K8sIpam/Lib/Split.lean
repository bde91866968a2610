import Mathlib.Data.List.Basic

/-! # Cutting a list at a separator

At most a given number of parts: the last one keeps the separators that are left. And what the parts
are made of, when the list is cut at every separator. -/

namespace Split

section
variable {α : Type} [DecidableEq α] {a : α} {xs ys : List α}

def splitN (a : α) : Nat → List α → List (List α)
  | 0, _ => []
  | 1, xs => [xs]
  | n + 2, xs =>
    match xs.dropWhile (· ≠ a) with
    | [] => [xs]
    | _ :: rest => xs.takeWhile (· ≠ a) :: splitN a (n + 1) rest

/-- A part without separators is cut off. -/
theorem splitN_append (h : a ∉ xs) (n : Nat) :
    splitN a (n + 2) (xs ++ a :: ys) = xs :: splitN a (n + 1) ys := by
  have hxs : ∀ x ∈ xs, decide (x ≠ a) = true := by
    intro x hx
    exact decide_eq_true fun heq => h (heq ▸ hx)
  have hdrop : (xs ++ a :: ys).dropWhile (· ≠ a) = a :: ys := by
    rw [List.dropWhile_append_of_pos hxs, List.dropWhile_cons_of_neg (by simp)]
  have htake : (xs ++ a :: ys).takeWhile (· ≠ a) = xs := by
    rw [List.takeWhile_append_of_pos hxs, List.takeWhile_cons_of_neg (by simp), List.append_nil]
  rw [splitN, hdrop, htake]

/-- A list with two separators has three parts. -/
theorem exists_splitN_three (h : 2 ≤ xs.count a) : ∃ ys zs ws, a ∉ ys ∧ a ∉ zs ∧
    xs = ys ++ a :: (zs ++ a :: ws) ∧ splitN a 3 xs = [ys, zs, ws] := by
  have hmem : a ∈ xs := List.count_pos_iff.mp (Nat.lt_of_lt_of_le Nat.zero_lt_two h)
  obtain ⟨ys, rest, rfl, hys⟩ := List.eq_append_cons_of_mem hmem
  have hrest : 0 < rest.count a := by
    rw [List.count_append, List.count_cons_self, List.count_eq_zero.mpr hys] at h
    omega
  obtain ⟨zs, ws, rfl, hzs⟩ := List.eq_append_cons_of_mem (List.count_pos_iff.mp hrest)
  refine ⟨ys, zs, ws, hys, hzs, rfl, ?_⟩
  rw [splitN_append hys, splitN_append hzs, splitN]

end

/-! ## Elements of the parts -/

variable {α : Type} {a : α} {xs : List α}

theorem mem_intercalate {b : α} {ls : List (List α)} (h : b ∈ [a].intercalate ls) :
    b = a ∨ ∃ l ∈ ls, b ∈ l := by
  induction ls with
  | nil => cases h
  | cons l ls ih =>
    cases ls with
    | nil => exact .inr ⟨l, by simp, by simpa [List.intercalate] using h⟩
    | cons l' ls =>
      rw [List.intercalate_cons_cons, List.mem_append, List.mem_append, List.mem_singleton] at h
      rcases h with (h | h) | h
      · exact .inr ⟨l, by simp, h⟩
      · exact .inl h
      · obtain h | ⟨m, hm, hb⟩ := ih h
        · exact .inl h
        · exact .inr ⟨m, List.mem_cons_of_mem _ hm, hb⟩

theorem mem_splitOn [DecidableEq α] {b : α} (h : b ∈ xs) : b = a ∨ ∃ l ∈ xs.splitOn a, b ∈ l :=
  mem_intercalate (by rwa [List.intercalate_splitOn])

end Split
