import Mathlib

/-! # Numbers as text

A number in a positional system with a fixed number of places, each place written in its own
base, and the way back. -/

namespace Digits

/-- The `k` places of `v` in base `B`, the highest first. -/
def groups (B : Nat) : Nat → Nat → List Nat
  | 0, _ => []
  | k + 1, v => v / B ^ k % B :: groups B k v

def ungroup (B : Nat) (ds : List Nat) : Nat := ds.foldl (fun n d => n * B + d) 0

theorem length_groups (B k v : Nat) : (groups B k v).length = k := by
  induction k with
  | zero => rfl
  | succ k ih => simp [groups, ih]

theorem lt_of_mem_groups {B k v d : Nat} (hB : 0 < B) (h : d ∈ groups B k v) : d < B := by
  induction k with
  | zero => cases h
  | succ k ih =>
    rcases List.mem_cons.mp h with rfl | h
    · exact Nat.mod_lt _ hB
    · exact ih h

private theorem foldl_groups (B k v n : Nat) :
    (groups B k v).foldl (fun n d => n * B + d) n = n * B ^ k + v % B ^ k := by
  induction k generalizing n with
  | zero => simp [groups, Nat.mod_one]
  | succ k ih =>
    rw [groups, List.foldl_cons, ih, Nat.pow_succ, Nat.mod_mul]
    ring

/-- The places of a number determine it. -/
theorem ungroup_groups {B k v : Nat} (h : v < B ^ k) : ungroup B (groups B k v) = v := by
  rw [ungroup, foldl_groups, Nat.zero_mul, Nat.zero_add, Nat.mod_eq_of_lt h]

/-! ## Digits -/

def digitVal (c : Char) : Option Nat :=
  if '0' ≤ c ∧ c ≤ '9' then some (c.toNat - 48)
  else if 'a' ≤ c ∧ c ≤ 'f' then some (c.toNat - 87)
  else none

theorem digitVal_digitChar {n : Nat} (h : n < 16) : digitVal n.digitChar = some n := by
  have : ∀ n < 16, digitVal n.digitChar = some n := by decide
  exact this n h

private def readFrom (b : Nat) : Nat → List Char → Option Nat
  | n, [] => some n
  | n, c :: cs =>
    match digitVal c with
    | some d => if d < b then readFrom b (b * n + d) cs else none
    | none => none

/-- Read a number that is written with the digits of a base. -/
def read (b : Nat) (cs : List Char) : Option Nat := if cs = [] then none else readFrom b 0 cs

private theorem readFrom_append (b n : Nat) (cs cs' : List Char) :
    readFrom b n (cs ++ cs') = (readFrom b n cs).bind fun m => readFrom b m cs' := by
  induction cs generalizing n with
  | nil => rfl
  | cons c cs ih =>
    rw [List.cons_append, readFrom, readFrom]
    cases digitVal c with
    | none => rfl
    | some d =>
      dsimp only
      split
      · exact ih _
      · rfl

private theorem readFrom_digit {b n d : Nat} (hb : b ≤ 16) (hd : d < b) :
    readFrom b n [d.digitChar] = some (b * n + d) := by
  rw [readFrom, digitVal_digitChar (hd.trans_le hb)]
  simp [hd, readFrom]

private theorem readFrom_toDigits {b : Nat} (h1 : 1 < b) (hb : b ≤ 16) (n : Nat) :
    readFrom b 0 (Nat.toDigits b n) = some n := by
  induction n using Nat.strongRecOn with
  | ind n ih =>
    rw [Nat.toDigits_eq_if h1]
    split
    next h => rw [readFrom_digit hb h, Nat.mul_zero, Nat.zero_add]
    next h =>
      have hlt : n / b < n := Nat.div_lt_self (by omega) h1
      rw [readFrom_append, ih _ hlt, Option.bind_some, readFrom_digit hb (Nat.mod_lt _ (by omega)),
        Nat.div_add_mod]

/-- What is written is read back. -/
theorem read_toDigits {b : Nat} (h1 : 1 < b) (hb : b ≤ 16) (n : Nat) :
    read b (Nat.toDigits b n) = some n := by
  rw [read, if_neg Nat.toDigits_ne_nil, readFrom_toDigits h1 hb]

/-- The characters of a written number. -/
theorem digitVal_of_mem_toDigits {b n : Nat} {c : Char} (h1 : 1 < b) (hb : b ≤ 16)
    (h : c ∈ Nat.toDigits b n) : (digitVal c).isSome = true := by
  induction n using Nat.strongRecOn with
  | ind n ih =>
    rw [Nat.toDigits_eq_if h1] at h
    split at h
    next hn =>
      rw [List.mem_singleton.mp h, digitVal_digitChar (hn.trans_le hb)]
      rfl
    next hn =>
      rcases List.mem_append.mp h with h | h
      · exact ih _ (Nat.div_lt_self (by omega) h1) h
      · rw [List.mem_singleton.mp h, digitVal_digitChar ((Nat.mod_lt _ (by omega)).trans_le hb)]
        rfl

/-- A written number has no leading zeros. -/
theorem head?_toDigits {b n : Nat} (h1 : 1 < b) (hb : b ≤ 16) (hn : 0 < n) :
    (Nat.toDigits b n).head? ≠ some '0' := by
  induction n using Nat.strongRecOn with
  | ind n ih =>
    rw [Nat.toDigits_eq_if h1]
    split
    next h =>
      have hdigit : ∀ d < 16, 0 < d → some d.digitChar ≠ some '0' := by decide
      exact hdigit n (h.trans_le hb) hn
    next h =>
      have hdiv : 0 < n / b := Nat.div_pos (by omega) (by omega)
      rw [List.head?_append_of_ne_nil _ Nat.toDigits_ne_nil]
      exact ih _ (Nat.div_lt_self hn h1) hdiv

/-- The digits are in lower case. -/
theorem toLower_of_mem_toDigits {b n : Nat} {c : Char} (h1 : 1 < b) (hb : b ≤ 16)
    (h : c ∈ Nat.toDigits b n) : c.toLower = c := by
  have hdigit : ∀ d < 16, d.digitChar.toLower = d.digitChar := by decide
  induction n using Nat.strongRecOn with
  | ind n ih =>
    rw [Nat.toDigits_eq_if h1] at h
    split at h
    next hn => rw [List.mem_singleton.mp h, hdigit n (hn.trans_le hb)]
    next hn =>
      rcases List.mem_append.mp h with h | h
      · exact ih _ (Nat.div_lt_self (by omega) h1) h
      · rw [List.mem_singleton.mp h, hdigit _ ((Nat.mod_lt _ (by omega)).trans_le hb)]

private theorem digitVal_of_readFrom {b n m : Nat} {cs : List Char} (h : readFrom b n cs = some m)
    {c : Char} (hc : c ∈ cs) : (digitVal c).isSome = true := by
  induction cs generalizing n with
  | nil => cases hc
  | cons d cs ih =>
    rw [readFrom] at h
    split at h
    next v hv =>
      split at h
      · rcases List.mem_cons.mp hc with rfl | hc
        · rw [hv]
          rfl
        · exact ih h hc
      · cases h
    · cases h

/-- Only digits are read. -/
theorem digitVal_of_read {b n : Nat} {cs : List Char} (h : read b cs = some n) {c : Char}
    (hc : c ∈ cs) : (digitVal c).isSome = true := by
  unfold read at h
  split at h
  · cases h
  · exact digitVal_of_readFrom h hc

/-! ## Separators -/

/-- The last separator of a list is where what follows has none. -/
theorem append_sep_inj {α : Type} {a : α} {xs xs' ys ys' : List α} (hy : a ∉ ys) (hy' : a ∉ ys')
    (h : xs ++ a :: ys = xs' ++ a :: ys') : xs = xs' ∧ ys = ys' := by
  rcases List.append_eq_append_iff.mp h with ⟨as, rfl, has⟩ | ⟨as, rfl, has⟩
  all_goals
    cases as with
    | nil => simp_all
    | cons b as =>
      obtain ⟨-, rfl⟩ := List.cons.inj has
      simp at hy hy'

end Digits
