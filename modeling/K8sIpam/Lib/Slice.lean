import K8sIpam.Lib.Prog

/-! # Slices of shared arrays

A slice is a window on an array of the heap. Slices of one array see each other's writes: appending
writes into the array as long as it has room behind the slice, and only then into a new one. -/

namespace Atomic

variable {α : Type}

abbrev Arrays (α : Type) := List (List α)

structure Slice where
  arr : Nat
  off : Nat
  len : Nat
  deriving DecidableEq

namespace Slice

def array (h : Arrays α) (s : Slice) : List α := h.getD s.arr []

def cap (h : Arrays α) (s : Slice) : Nat := (s.array h).length - s.off

def elems (h : Arrays α) (s : Slice) : List α := ((s.array h).drop s.off).take s.len

/-- The window lies inside its array. -/
def Valid (h : Arrays α) (s : Slice) : Prop := s.off + s.len ≤ (s.array h).length

instance (h : Arrays α) (s : Slice) : Decidable (s.Valid h) := inferInstanceAs (Decidable (_ ≤ _))

/-- The element at an index, as it is now. -/
def get? (h : Arrays α) (s : Slice) (i : Nat) : Option α := (s.elems h)[i]?

theorem Valid.upTo {h : Arrays α} {s : Slice} (hv : s.Valid h) {hi : Nat} (hcap : hi ≤ s.cap h) :
    Valid h { s with len := hi } := by
  have : s.off + s.len ≤ (s.array h).length := hv
  have : hi ≤ (s.array h).length - s.off := hcap
  change s.off + hi ≤ (s.array h).length
  omega

/-- The expression `s[:hi]`. -/
def upTo (h : Arrays α) (s : Slice) (hv : s.Valid h) (hi : Nat) :
    Except Failure { s' : Slice // s'.Valid h } :=
  if hcap : hi ≤ s.cap h then .ok ⟨{ s with len := hi }, hv.upTo hcap⟩
  else .error (.panic ("slice bounds out of range [:" ++ toString hi ++ "] with capacity " ++
    toString (s.cap h)))

/-- The expression `s[lo:]`. -/
def startingAt (s : Slice) (lo : Nat) : Except Failure Slice :=
  if lo ≤ s.len then .ok ⟨s.arr, s.off + lo, s.len - lo⟩
  else .error (.panic ("slice bounds out of range [" ++ toString lo ++ ":" ++ toString s.len ++ "]"))

/-- The list with other elements from an index on. -/
def write (xs : List α) (i : Nat) (ys : List α) : List α :=
  xs.take i ++ ys ++ xs.drop (i + ys.length)

/-- The expression `append(s, ys...)`. The room that a new array has in excess is left open. -/
def append (spare : List α) (h : Arrays α) (s : Slice) (ys : List α) : Arrays α × Slice :=
  if s.len + ys.length ≤ s.cap h then
    (h.set s.arr (write (s.array h) (s.off + s.len) ys), { s with len := s.len + ys.length })
  else (h ++ [s.elems h ++ ys ++ spare], ⟨h.length, 0, s.len + ys.length⟩)

/-! ## Elements -/

section
variable {h : Arrays α} {s : Slice}

theorem getElem?_elems (h : Arrays α) (s : Slice) (j : Nat) :
    (s.elems h)[j]? = if j < s.len then (s.array h)[s.off + j]? else none := by
  rw [elems, List.getElem?_take, List.getElem?_drop]

theorem Valid.length_elems (hv : s.Valid h) : (s.elems h).length = s.len := by
  unfold Valid at hv
  rw [elems, List.length_take, List.length_drop]
  omega

theorem getElem?_write {xs : List α} {i : Nat} (hi : i ≤ xs.length) (ys : List α) (j : Nat) :
    (write xs i ys)[j]? =
      if i ≤ j ∧ j < i + ys.length then ys[j - i]? else xs[j]? := by
  have htake : (xs.take i).length = i := by simp [hi]
  unfold write
  rw [List.append_assoc, List.getElem?_append, htake, List.getElem?_append, List.getElem?_take,
    List.getElem?_drop]
  by_cases hj : j < i
  · rw [if_pos hj, if_pos hj, if_neg (by omega)]
  · rw [if_neg hj]
    by_cases hj' : j < i + ys.length
    · rw [if_pos (by omega), if_pos (by omega)]
    · rw [if_neg (by omega), if_neg (by omega)]
      congr 1
      omega

theorem length_write {xs : List α} {i : Nat} {ys : List α} (hi : i + ys.length ≤ xs.length) :
    (write xs i ys).length = xs.length := by
  simp only [write, List.length_append, List.length_take, List.length_drop]
  omega

/-! ## Appending -/

variable (spare : List α) {ys : List α}

/-- There is room, and the array is written. -/
theorem array_append (hroom : s.len + ys.length ≤ s.cap h) (s' : Slice)
    (hs : s'.arr = s.arr) :
    s'.array (append spare h s ys).1 = write (s.array h) (s.off + s.len) ys := by
  rw [append, if_pos hroom, array, hs]
  by_cases harr : s.arr < h.length
  · simp [List.getD_eq_getElem?_getD, harr]
  · -- an array that is not there has no room
    have hnil : s.array h = [] := by simp [array, List.getD_eq_getElem?_getD, harr]
    have hys : ys = [] := by
      rw [cap, hnil, List.length_nil] at hroom
      exact List.eq_nil_of_length_eq_zero (by omega)
    simp [hnil, hys, write, List.getD_eq_getElem?_getD, harr]

theorem append_valid (hv : s.Valid h) :
    (append spare h s ys).2.Valid (append spare h s ys).1 := by
  unfold Valid at hv ⊢
  by_cases hroom : s.len + ys.length ≤ s.cap h
  · have hslice : (append spare h s ys).2 = { s with len := s.len + ys.length } := by
      rw [append, if_pos hroom]
    have harray := array_append spare hroom { s with len := s.len + ys.length } rfl
    unfold cap at hroom
    rw [hslice, harray, length_write (by omega)]
    dsimp only
    omega
  · rw [append, if_neg hroom]
    simp [array, List.getD_eq_getElem?_getD, Valid.length_elems hv]

theorem append_elems (hv : s.Valid h) :
    (append spare h s ys).2.elems (append spare h s ys).1 = s.elems h ++ ys := by
  have hlen := hv.length_elems
  by_cases hroom : s.len + ys.length ≤ s.cap h
  · have hslice : (append spare h s ys).2 = { s with len := s.len + ys.length } := by
      rw [append, if_pos hroom]
    refine List.ext_getElem? fun j => ?_
    rw [hslice, getElem?_elems, array_append spare hroom { s with len := s.len + ys.length } rfl,
      getElem?_write hv, List.getElem?_append, hlen, getElem?_elems]
    dsimp only
    by_cases hj : j < s.len
    · rw [if_pos (by omega), if_neg (by omega), if_pos hj, if_pos hj]
    · rw [if_neg hj]
      by_cases hj' : j < s.len + ys.length
      · rw [if_pos hj', if_pos (by omega)]
        congr 1
        omega
      · rw [if_neg hj', List.getElem?_eq_none (by omega)]
  · rw [append, if_neg hroom]
    have htake : (s.elems h ++ ys ++ spare).take (s.len + ys.length) = s.elems h ++ ys :=
      List.take_left' (by rw [List.length_append, hlen])
    simpa [elems, array, List.getD_eq_getElem?_getD] using htake

end
end Slice
end Atomic
