import K8sIpam.Db.Db

/-! # The iterator over free ids

`pkg/db/iterator.go`: a position in a slice of keys. The searches of the database walk over lists
of free ids; here they are written with the iterator, whose reads of the slice can fail, and shown
to be the same searches. -/

namespace K8sIpam
open Atomic

/-- The iterator of `IterateFree`. Its entries are free ids, without labels. -/
structure Iterator (w : Nat) where
  current : Int
  keys : List (BitVec w)

namespace Iterator

variable {w : Nat} (it : Iterator w)

/-- `keys[i]`. -/
def key (i : Int) : Except Failure (BitVec w) :=
  if i < 0 then .error (.panic ("index out of range [" ++ toString i ++ "]"))
  else match it.keys[i.toNat]? with
    | some k => .ok k
    | none => .error (.panic ("index out of range [" ++ toString i ++ "] with length " ++
        toString it.keys.length))

def value : Except Failure (Entry w) := do
  let k ← it.key it.current
  return ⟨k, ∅⟩

/-- `Next` moves on and says whether there is a key at the new position. -/
def next : Iterator w := { it with current := it.current + 1 }

def inBounds : Prop := it.current < it.keys.length

instance : Decidable it.inBounds := inferInstanceAs (Decidable (_ < _))

def isConsecutive : Except Failure Bool := do
  let previous ← it.key (it.current - 1)
  let k ← it.key it.current
  return previous = k - 1

/-- The loop of `FindFreeRange`. -/
def freeRange (start stop : BitVec w) (it : Iterator w) (entries : List (Entry w)) :
    Except Failure (List (Entry w)) :=
  if it.next.inBounds then do
    let e ← it.next.value
    if e.id < start then freeRange start stop it.next entries
    else if e.id = start then freeRange start stop it.next (entries ++ [e])
    else if e.id ≤ stop then do
      let consecutive ← it.next.isConsecutive
      if consecutive then freeRange start stop it.next (entries ++ [e])
      else .error (.error ("entry " ++ toString e.id.toNat ++ " in use in range: start: " ++
        toString start.toNat ++ ", end " ++ toString stop.toNat))
    else return entries
  else return []
termination_by (it.keys.length - it.current).toNat
decreasing_by all_goals simp only [inBounds, next] at *; omega

/-- The loop of `FindFreeSize`. -/
def freeSize (size i : BitVec w) (it : Iterator w) (entries : List (Entry w)) :
    Except Failure (List (Entry w)) :=
  if it.next.inBounds then do
    let e ← it.next.value
    if i + 1 ≥ size then return entries ++ [e]
    else freeSize size (i + 1) it.next (entries ++ [e])
  else .error (.error ("could not find free entries that fit in size " ++ toString size.toNat))
termination_by (it.keys.length - it.current).toNat
decreasing_by simp only [inBounds, next] at *; omega

/-! ## The iterator and the list of ids -/

/-- The iterator after it has passed some keys. -/
def after (seen rest : List (BitVec w)) : Iterator w := ⟨(seen.length : Int) - 1, seen ++ rest⟩

section
variable {seen ids : List (BitVec w)} {id : BitVec w}

theorem after_next : (after seen (id :: ids)).next = after (seen ++ [id]) ids := by
  simp [after, next]

theorem inBounds_after_next : (after seen ids).next.inBounds ↔ ids ≠ [] := by
  have hlen : ids ≠ [] ↔ 0 < ids.length := List.length_pos_iff.symm
  rw [hlen]
  simp only [inBounds, next, after, List.length_append]
  omega

theorem value_after_next : (after seen (id :: ids)).next.value = .ok ⟨id, ∅⟩ := by
  have hpos : (after seen (id :: ids)).next.current = (seen.length : Int) := by
    simp [after, next]
  have hkey : (after seen (id :: ids)).next.keys[seen.length]? = some id := by simp [after, next]
  unfold value key
  rw [hpos, if_neg (by omega), Int.toNat_natCast, hkey]
  rfl

/-- The key before the first one is read out of range. -/
theorem isConsecutive_after_next :
    (after seen (id :: ids)).next.isConsecutive =
      match seen.getLast? with
      | none => .error (.panic "index out of range [-1]")
      | some p => .ok (p = id - 1) := by
  have hkey : (after seen (id :: ids)).next.key seen.length = .ok id := by
    unfold key
    rw [if_neg (by omega), Int.toNat_natCast]
    simp [after, next]
  have hpos : (after seen (id :: ids)).next.current = (seen.length : Int) := by
    simp [after, next]
  unfold isConsecutive
  rw [hpos, hkey]
  rcases List.eq_nil_or_concat seen with rfl | ⟨seen, p, rfl⟩
  · rfl
  · have hprev : (after (seen ++ [p]) (id :: ids)).next.key
        (((seen ++ [p]).length : Int) - 1) = .ok p := by
      have hidx : ((seen ++ [p]).length : Int) - 1 = (seen.length : Int) := by simp
      unfold key
      rw [hidx, if_neg (by omega), Int.toNat_natCast]
      simp [after, next]
    rw [List.concat_eq_append, hprev, List.getLast?_append]
    rfl

end

theorem freeRange_after (start stop : BitVec w) (seen ids : List (BitVec w))
    (entries : List (Entry w)) :
    freeRange start stop (after seen ids) entries =
      DB.findFreeRangeLoop start stop seen.getLast? ids entries := by
  induction ids generalizing seen entries with
  | nil =>
    have hout : ¬(after seen ([] : List (BitVec w))).next.inBounds := by
      simp [inBounds_after_next]
    rw [freeRange, if_neg hout]
    rfl
  | cons id ids ih =>
    have hlast : (seen ++ [id]).getLast? = some id := by simp
    have hstep := fun es => ih (seen ++ [id]) es
    rw [freeRange, if_pos (inBounds_after_next.mpr (List.cons_ne_nil id ids)), value_after_next,
      isConsecutive_after_next, after_next, DB.findFreeRangeLoop.eq_def]
    dsimp only
    change (if id < start then _ else if id = start then _ else if id ≤ stop then _ else _) = _
    rw [hstep, hstep, hlast]
    refine if_congr Iff.rfl rfl (if_congr Iff.rfl rfl (if_congr Iff.rfl ?_ rfl))
    cases seen.getLast? with
    | none => rfl
    | some p =>
      change (if (decide (p = id - 1)) = true then _ else _) = _
      simp only [decide_eq_true_eq]

theorem freeSize_after (size i : BitVec w) (seen ids : List (BitVec w))
    (entries : List (Entry w)) :
    freeSize size i (after seen ids) entries = DB.findFreeSizeLoop size i ids entries := by
  induction ids generalizing seen i entries with
  | nil =>
    have hout : ¬(after seen ([] : List (BitVec w))).next.inBounds := by
      simp [inBounds_after_next]
    rw [freeSize, if_neg hout]
    rfl
  | cons id ids ih =>
    rw [freeSize, if_pos (inBounds_after_next.mpr (List.cons_ne_nil id ids)), value_after_next,
      after_next, DB.findFreeSizeLoop]
    change (if i + 1 ≥ size then _ else _) = _
    rw [ih]
    rfl

end Iterator

namespace DB

variable {w : Nat} (d : DB w)

def iterateFree : Iterator w := ⟨-1, d.freeIds⟩

/-- The searches are those that the iterator makes. -/
theorem findFreeRange_eq_iterate (start size : BitVec w) :
    d.findFreeRange start size =
      if start ≥ d.lastId then .error (tooBig "start" d start)
      else if start + size - 1 ≥ d.lastId then .error (tooBig "end" d (start + size - 1))
      else Iterator.freeRange start (start + size - 1) d.iterateFree [] := by
  have hit : d.iterateFree = Iterator.after [] d.freeIds := rfl
  rw [hit, Iterator.freeRange_after]
  rfl

theorem findFreeSize_eq_iterate (size : BitVec w) :
    d.findFreeSize size =
      if size ≥ d.lastId then .error (tooBig "size" d size)
      else Iterator.freeSize size 0 d.iterateFree [] := by
  have hit : d.iterateFree = Iterator.after [] d.freeIds := rfl
  rw [hit, Iterator.freeSize_after]
  rfl

/-! ## Reads out of range -/

variable {start stop : BitVec w} {ids : List (BitVec w)} {entries : List (Entry w)}

/-- Behind the first free id the previous one can be read. -/
theorem findFreeRangeLoop_safe (p : BitVec w) :
    ¬Crashes (findFreeRangeLoop start stop (some p) ids entries) := by
  induction ids generalizing p entries with
  | nil => exact not_crashes_ok
  | cons id ids ih =>
    rw [findFreeRangeLoop]
    split
    · exact ih id
    · split
      · exact ih id
      · split
        · split
          · exact ih id
          · exact not_crashes_error
        · exact not_crashes_ok

/-- The loop reads before the first free id exactly when that is the first to be compared. -/
theorem findFreeRangeLoop_crashes :
    Crashes (findFreeRangeLoop start stop none ids entries) ↔
      ∃ id, ids.head? = some id ∧ start < id ∧ id ≤ stop := by
  cases ids with
  | nil => simp [findFreeRangeLoop, not_crashes_ok]
  | cons id ids =>
    rw [findFreeRangeLoop]
    simp only [List.head?_cons, Option.some.injEq, exists_eq_left']
    by_cases hlt : id < start
    · rw [if_pos hlt]
      exact iff_of_false (findFreeRangeLoop_safe id) fun h => BitVec.lt_asymm hlt h.1
    · rw [if_neg hlt]
      by_cases heq : id = start
      · rw [if_pos heq]
        exact iff_of_false (findFreeRangeLoop_safe id) fun h => BitVec.lt_irrefl _ (heq ▸ h.1)
      · rw [if_neg heq]
        have hgt : start < id := by bv_omega
        by_cases hle : id ≤ stop
        · rw [if_pos hle]
          exact iff_of_true ⟨_, rfl⟩ ⟨hgt, hle⟩
        · rw [if_neg hle]
          exact iff_of_false not_crashes_ok fun h => hle h.2

/-- A search for a range crashes exactly when the smallest free id lies behind its start. -/
theorem findFreeRange_crashes {size : BitVec w} :
    Crashes (d.findFreeRange start size) ↔
      start < d.lastId ∧ start + size - 1 < d.lastId ∧
        ∃ id, d.freeIds.head? = some id ∧ start < id ∧ id ≤ start + size - 1 := by
  unfold findFreeRange
  dsimp only
  split
  next h => exact iff_of_false not_crashes_error fun h' => BitVec.not_lt.mpr h h'.1
  next h =>
    rw [BitVec.not_le] at h
    split
    next h' => exact iff_of_false not_crashes_error fun hc => BitVec.not_lt.mpr h' hc.2.1
    next h' =>
      rw [BitVec.not_le] at h'
      rw [findFreeRangeLoop_crashes]
      exact ⟨fun hc => ⟨h, h', hc⟩, fun hc => hc.2.2⟩

theorem findFreeSizeLoop_safe {size i : BitVec w} :
    ¬Crashes (findFreeSizeLoop size i ids entries) := by
  induction ids generalizing i entries with
  | nil => exact not_crashes_error
  | cons id ids ih =>
    rw [findFreeSizeLoop]
    split
    · exact not_crashes_ok
    · exact ih

theorem findFreeSize_safe (size : BitVec w) : ¬Crashes (d.findFreeSize size) := by
  unfold findFreeSize
  split
  · exact not_crashes_error
  · exact findFreeSizeLoop_safe

end DB
end K8sIpam
