import K8sIpam.Lib.Slice
import Mathlib.Data.List.Induction

/-! # Finalizers

`pkg/meta/finalizer.go`. `RemoveFinalizer` ranges over the slice of the object while it closes the
gaps in the array under it: behind the elements that are left the array keeps old ones, which the
loop still reads. -/

namespace K8sIpam
open Atomic

/-- The finalizers of an object, in the arrays of the process. -/
structure Finalizers where
  heap : Arrays String
  slice : Slice
  valid : slice.Valid heap

namespace Finalizers

def list (o : Finalizers) : List String := o.slice.elems o.heap

def finalizerExists (o : Finalizers) (finalizer : String) : Bool := o.list.any fun e => e = finalizer

section
variable (spare : List String)

/-- The slice of the object becomes the one that `append` returns. -/
def append (o : Finalizers) (s : { s : Slice // s.Valid o.heap }) (ys : List String) : Finalizers where
  heap := (s.1.append spare o.heap ys).1
  slice := (s.1.append spare o.heap ys).2
  valid := Slice.append_valid spare s.2

def addFinalizer (o : Finalizers) (finalizer : String) : Finalizers :=
  if o.finalizerExists finalizer then o else o.append spare ⟨o.slice, o.valid⟩ [finalizer]

/-- The assignment `f = append(f[:i], f[i+1:]...)`. -/
def cut (o : Finalizers) (i : Nat) : Except Failure Finalizers := do
  let head ← o.slice.upTo o.heap o.valid i
  let tail ← o.slice.startingAt (i + 1)
  return o.append spare head (tail.elems o.heap)

/-- The loop over the slice `f` that the object had, which reads the array as it is now. -/
def removeLoop (finalizer : String) (f : Slice) : List Nat → Finalizers → Except Failure Finalizers
  | [], o => .ok o
  | i :: is, o =>
    if f.get? o.heap i = some finalizer then do
      let o ← o.cut spare i
      removeLoop finalizer f is o
    else removeLoop finalizer f is o

def removeFinalizer (o : Finalizers) (finalizer : String) : Except Failure Finalizers :=
  removeLoop spare finalizer o.slice (List.range o.slice.len) o

end

/-! ## The loop through the slice that it ranges over -/

section
variable (spare : List String) {f : Slice} {o : Finalizers} {xs : List String} {m i : Nat}

/-- Through the slice of the loop the array is `xs`, of which the object has the first `m`. -/
structure Seen (f : Slice) (o : Finalizers) (xs : List String) (m : Nat) : Prop where
  slice : o.slice = { f with len := m }
  elems : f.elems o.heap = xs
  valid : f.Valid o.heap
  le : m ≤ f.len

theorem Seen.length (h : Seen f o xs m) : xs.length = f.len := h.elems ▸ h.valid.length_elems

theorem Seen.list_eq (h : Seen f o xs m) : o.list = xs.take m := by
  refine List.ext_getElem? fun j => ?_
  rw [list, h.slice, Slice.getElem?_elems, List.getElem?_take, ← h.elems, Slice.getElem?_elems]
  change (if j < m then (f.array o.heap)[f.off + j]? else none) = _
  by_cases hj : j < m
  · rw [if_pos hj, if_pos hj, if_pos (Nat.lt_of_lt_of_le hj h.le)]
  · rw [if_neg hj, if_neg hj]

/-- The elements after the place move down by one. The last of them stays where it was too. -/
def shift (xs : List String) (i m : Nat) : List String :=
  xs.take i ++ (xs.take m).drop (i + 1) ++ xs.drop (m - 1)

theorem getElem?_shift (him : i < m) (hm : m ≤ xs.length) (j : Nat) :
    (shift xs i m)[j]? = if i ≤ j ∧ j < m - 1 then xs[j + 1]? else xs[j]? := by
  have htake : (xs.take i).length = i := by
    rw [List.length_take]
    omega
  have hdrop : ((xs.take m).drop (i + 1)).length = m - (i + 1) := by
    rw [List.length_drop, List.length_take]
    omega
  unfold shift
  rw [List.append_assoc, List.getElem?_append, htake, List.getElem?_append, hdrop,
    List.getElem?_take, List.getElem?_drop, List.getElem?_drop, List.getElem?_take]
  by_cases hj : j < i
  · rw [if_pos hj, if_pos hj, if_neg (by omega)]
  · rw [if_neg hj]
    by_cases hj' : j < m - 1
    · rw [if_pos (by omega), if_pos (by omega), if_pos (by omega)]
      congr 1
      omega
    · rw [if_neg (by omega), if_neg (by omega)]
      congr 1
      omega

/-- In bounds the elements behind the place are appended to those before it. -/
theorem cut_eq (hi : i < o.slice.len) : ∃ hcap : i ≤ o.slice.cap o.heap,
    o.cut spare i = .ok (o.append spare ⟨{ o.slice with len := i }, o.valid.upTo hcap⟩
      (Slice.elems o.heap ⟨o.slice.arr, o.slice.off + (i + 1), o.slice.len - (i + 1)⟩)) := by
  have hvalid : o.slice.off + o.slice.len ≤ (o.slice.array o.heap).length := o.valid
  have hcap : i ≤ o.slice.cap o.heap := by
    unfold Slice.cap
    omega
  refine ⟨hcap, ?_⟩
  have hstart : i + 1 ≤ o.slice.len := hi
  rw [cut, Slice.upTo, dif_pos hcap, Slice.startingAt, if_pos hstart]
  rfl

theorem Seen.cut_ok (h : Seen f o xs m) (him : i < m) :
    ∃ o', o.cut spare i = .ok o' ∧ Seen f o' (shift xs i m) (m - 1) := by
  have hlen := h.length
  have hle := h.le
  have hvalid : f.off + f.len ≤ (f.array o.heap).length := h.valid
  have hslice := h.slice
  obtain ⟨hcap, hcut⟩ := cut_eq spare (o := o) (i := i) (by rwa [hslice])
  -- what is appended is behind the place, and there is room for it
  generalize hys : Slice.elems o.heap ⟨o.slice.arr, o.slice.off + (i + 1), o.slice.len - (i + 1)⟩ = ys
    at hcut
  rw [hslice] at hys
  have hmoved : ∀ j, ys[j]? = if j < m - (i + 1) then (f.array o.heap)[f.off + (i + 1) + j]? else none :=
    fun j => hys ▸ Slice.getElem?_elems o.heap ⟨f.arr, f.off + (i + 1), m - (i + 1)⟩ j
  have hylen : ys.length = m - (i + 1) := by
    rw [← hys]
    refine Slice.Valid.length_elems ?_
    change f.off + (i + 1) + (m - (i + 1)) ≤ (f.array o.heap).length
    omega
  have hroom : i + ys.length ≤ Slice.cap o.heap ⟨f.arr, f.off, i⟩ := by
    change i + ys.length ≤ (f.array o.heap).length - f.off
    omega
  have harray : f.array (o.append spare ⟨{ o.slice with len := i }, o.valid.upTo hcap⟩ ys).heap =
      Slice.write (f.array o.heap) (f.off + i) ys := by
    dsimp only [append]
    rw [hslice]
    exact Slice.array_append spare (s := ⟨f.arr, f.off, i⟩) hroom f rfl
  refine ⟨_, hcut, ?_, List.ext_getElem? fun j => ?_, ?_, by omega⟩
  · dsimp only [append]
    rw [hslice, Slice.append, if_pos hroom]
    dsimp only
    congr 1
    omega
  · rw [Slice.getElem?_elems, harray, Slice.getElem?_write (by omega), hylen, hmoved,
      getElem?_shift him (by omega), ← h.elems, Slice.getElem?_elems, Slice.getElem?_elems]
    by_cases hj : i ≤ j ∧ j < m - 1
    · rw [if_pos (by omega), if_pos (by omega), if_pos (by omega), if_pos hj, if_pos (by omega)]
      congr 1
      omega
    · rw [if_neg hj]
      by_cases hj' : j < f.len
      · rw [if_pos hj', if_neg (by omega), if_pos hj']
      · rw [if_neg hj', if_neg hj']
  · change f.off + f.len ≤ (f.array _).length
    rw [harray, Slice.length_write (by omega)]
    exact hvalid

theorem Seen.cut_panic (h : Seen f o xs m) (him : m ≤ i) (hi : i < f.len) :
    Crashes (o.cut spare i) := by
  have hvalid : f.off + f.len ≤ (f.array o.heap).length := h.valid
  have hcap : i ≤ o.slice.cap o.heap := by
    rw [h.slice]
    change i ≤ (f.array o.heap).length - f.off
    omega
  have hstart : ¬i + 1 ≤ o.slice.len := by
    rw [h.slice]
    exact fun hlt => absurd him (Nat.not_le.mpr hlt)
  rw [cut, Slice.upTo, dif_pos hcap, Slice.startingAt, if_neg hstart]
  exact ⟨_, rfl⟩

/-! ## What the loop leaves -/

/-- The elements that the loop leaves of those from its place on, when `k` old ones follow them in the
array, each the last element `z`. The element after one that is removed comes to the place that was
just read and is not looked at; an old element that has to be removed is out of bounds. -/
def removeSkipping (finalizer z : String) : Nat → List String → Option (List String)
  | k, [] => if 0 < k ∧ z = finalizer then none else some []
  | k, [x] =>
    if x = finalizer then if k = 0 then some [] else none
    else some [x]
  | k, x :: y :: rest =>
    if x = finalizer then (removeSkipping finalizer z (k + 1) rest).map (y :: ·)
    else (removeSkipping finalizer z k (y :: rest)).map (x :: ·)

/-- The loop ends with the elements, or it crashes. -/
def Ends (x : Except Failure Finalizers) : Option (List String) → Prop
  | some ys => ∃ o, x = .ok o ∧ o.list = ys
  | none => Crashes x

variable (finalizer : String)

theorem removeLoop_cons (i : Nat) (is : List Nat) (o : Finalizers) :
    removeLoop spare finalizer f (i :: is) o =
      if f.get? o.heap i = some finalizer then
        o.cut spare i >>= fun o => removeLoop spare finalizer f is o
      else removeLoop spare finalizer f is o := rfl

theorem removeLoop_cons_of_ne {is : List Nat} (h : Seen f o xs m) (hi : xs[i]? ≠ some finalizer) :
    removeLoop spare finalizer f (i :: is) o = removeLoop spare finalizer f is o := by
  rw [removeLoop_cons, if_neg]
  rwa [Slice.get?, h.elems]

/-- The old elements behind those of the object are read, and an old finalizer is out of bounds. -/
theorem removeLoop_old {z : String} {is : List Nat} (h : Seen f o xs m)
    (his : ∀ i ∈ is, m ≤ i ∧ xs[i]? = some z) :
    Ends (removeLoop spare finalizer f is o)
      (if is ≠ [] ∧ z = finalizer then none else some (xs.take m)) := by
  induction is with
  | nil =>
    rw [if_neg fun hnil => hnil.1 rfl]
    exact ⟨o, rfl, h.list_eq⟩
  | cons i is ih =>
    obtain ⟨hm, hz⟩ := his i List.mem_cons_self
    by_cases hfin : z = finalizer
    · rw [if_pos ⟨List.cons_ne_nil _ _, hfin⟩]
      have hlt : i < f.len := h.length ▸ (List.getElem?_eq_some_iff.mp hz).1
      obtain ⟨msg, hmsg⟩ := h.cut_panic spare hm hlt
      refine ⟨msg, ?_⟩
      rw [removeLoop_cons, if_pos (by rw [Slice.get?, h.elems, hz, hfin]), hmsg]
      rfl
    · rw [removeLoop_cons_of_ne spare finalizer h (by simpa [hz] using hfin)]
      have hrest := ih fun j hj => his j (List.mem_cons_of_mem _ hj)
      rw [if_neg fun hcons => hfin hcons.2] at hrest ⊢
      exact hrest

theorem shift_append (done rest old : List String) (x z : String)
    (hz : (x :: rest).getLast? = some z) :
    shift (done ++ (x :: rest) ++ old) done.length (done.length + (rest.length + 1)) =
      done ++ rest ++ (z :: old) := by
  obtain ⟨ys, hys⟩ := List.getLast?_eq_some_iff.mp hz
  have hlen : rest.length = ys.length := by simpa using congrArg List.length hys
  have htake : (done ++ (x :: rest) ++ old).take (done.length + (rest.length + 1)) =
      done ++ (x :: rest) := List.take_left' (by simp)
  have hdrop : (done ++ (x :: rest) ++ old).drop (done.length + (rest.length + 1) - 1) = z :: old := by
    rw [hys, ← List.append_assoc, List.append_assoc]
    refine List.drop_left' ?_
    rw [List.length_append]
    omega
  have hrest : (done ++ (x :: rest)).drop (done.length + 1) = rest := by
    rw [← List.singleton_append, ← List.append_assoc]
    exact List.drop_left' (by simp)
  rw [shift, htake, hdrop, hrest, List.append_assoc done, List.take_left]

/-- From a place behind the elements of the object on, there are old elements only. -/
theorem removeLoop_replicate {z : String} {done : List String} (a b : Nat)
    (h : Seen f o (done ++ List.replicate (a + b) z) done.length) :
    Ends (removeLoop spare finalizer f (List.range' (done.length + a) b) o)
      (if 0 < b ∧ z = finalizer then none else some done) := by
  have hold : ∀ i ∈ List.range' (done.length + a) b,
      done.length ≤ i ∧ (done ++ List.replicate (a + b) z)[i]? = some z := by
    intro i hi
    obtain ⟨hle, hlt⟩ := List.mem_range'_1.mp hi
    refine ⟨by omega, ?_⟩
    rw [List.getElem?_append_right (by omega), List.getElem?_replicate, if_pos (by omega)]
  have hends := removeLoop_old spare finalizer h hold
  rw [List.take_left] at hends
  simpa [Nat.pos_iff_ne_zero] using hends

/-- The finalizer is found: the elements behind it move down, and the next one is passed. -/
theorem removeLoop_found {z : String} {k : Nat} {done rest : List String} (is : List Nat)
    (hz : (finalizer :: rest).getLast? = some z)
    (h : Seen f o (done ++ (finalizer :: rest) ++ List.replicate k z)
      (done.length + (rest.length + 1))) :
    ∃ o', removeLoop spare finalizer f (done.length :: is) o = removeLoop spare finalizer f is o' ∧
      Seen f o' (done ++ rest ++ List.replicate (k + 1) z) (done.length + rest.length) := by
  obtain ⟨o', hcut, hseen⟩ := h.cut_ok spare (i := done.length) (by omega)
  rw [shift_append _ _ _ _ _ hz] at hseen
  refine ⟨o', ?_, hseen⟩
  rw [removeLoop_cons, if_pos, hcut]
  · rfl
  · rw [Slice.get?, h.elems, List.append_assoc, List.getElem?_append_right (Nat.le_refl _), Nat.sub_self]
    rfl

/-- Another element is passed. -/
theorem removeLoop_passed {x : String} {is : List Nat} {done rest : List String} (hx : x ≠ finalizer)
    (h : Seen f o (done ++ (x :: rest) ++ xs) m) :
    removeLoop spare finalizer f (done.length :: is) o = removeLoop spare finalizer f is o := by
  have hread : (done ++ (x :: rest) ++ xs)[done.length]? = some x := by simp
  exact removeLoop_cons_of_ne spare finalizer h (by simpa [hread] using hx)

theorem last_of_tail {x z : String} {l : List String} (h : ∀ w ∈ (x :: l).getLast?, w = z) :
    ∀ w ∈ l.getLast?, w = z := by
  intro w hw
  refine h w ?_
  rw [List.getLast?_cons, hw]
  rfl

/-- The invariant of the loop: the elements that were passed, those that are left, and the old ones
behind them. -/
theorem removeLoop_ends {z : String} (k : Nat) (todo done : List String) (o : Finalizers)
    (hz : ∀ x ∈ todo.getLast?, x = z)
    (h : Seen f o (done ++ todo ++ List.replicate k z) (done.length + todo.length)) :
    Ends (removeLoop spare finalizer f (List.range' done.length (todo.length + k)) o)
      ((removeSkipping finalizer z k todo).map (done ++ ·)) := by
  induction todo using List.twoStepInduction generalizing k done o with
  | nil =>
    rw [List.append_nil] at h
    rw [← Nat.zero_add k] at h
    have hends := removeLoop_replicate spare finalizer 0 k h
    rw [removeSkipping, List.length_nil, Nat.zero_add]
    split at hends
    next hold => rwa [if_pos hold]
    next hold => rwa [if_neg hold, Option.map_some, List.append_nil]
  | singleton x =>
    obtain rfl : x = z := hz x rfl
    rw [removeSkipping, List.length_singleton, Nat.add_comm 1 k, List.range'_succ]
    by_cases hx : x = finalizer
    · subst hx
      obtain ⟨o', hstep, hseen⟩ :=
        removeLoop_found spare x (List.range' (done.length + 1) k) rfl h
      rw [List.append_nil, Nat.add_comm k 1] at hseen
      have hends := removeLoop_replicate spare x 1 k hseen
      rw [if_pos rfl, hstep]
      split at hends
      next hold => rwa [if_neg (Nat.ne_of_gt hold.1)]
      next hold =>
        have hk : k = 0 := Nat.eq_zero_of_not_pos fun hpos => hold ⟨hpos, rfl⟩
        rwa [if_pos hk, Option.map_some, List.append_nil]
    · rw [removeLoop_passed spare finalizer hx h, if_neg hx]
      rw [← List.length_append, ← Nat.zero_add k] at h
      have hends := removeLoop_replicate spare finalizer 0 k h
      rw [if_neg fun hold => hx hold.2] at hends
      simpa using hends
  | cons_cons x y rest ih ih' =>
    have hindex : List.range' done.length ((x :: y :: rest).length + k) =
        done.length :: List.range' (done.length + 1) ((y :: rest).length + k) := by
      rw [List.length_cons, Nat.add_right_comm, List.range'_succ]
    rw [removeSkipping, hindex]
    by_cases hx : x = finalizer
    · subst hx
      obtain ⟨last, hlast⟩ : ∃ last, (x :: y :: rest).getLast? = some last :=
        Option.isSome_iff_exists.mp (by simp)
      obtain rfl : last = z := hz last hlast
      obtain ⟨o', hstep, hseen⟩ := removeLoop_found spare x
        (List.range' (done.length + 1) ((y :: rest).length + k)) hlast h
      have hseen' : Seen f o' (done ++ [y] ++ rest ++ List.replicate (k + 1) last)
          ((done ++ [y]).length + rest.length) := by
        simpa [Nat.add_assoc, Nat.add_comm 1] using hseen
      have hends := ih (k + 1) (done ++ [y]) o' (last_of_tail (last_of_tail hz)) hseen'
      rw [List.length_append, List.length_singleton] at hends
      rw [if_pos rfl, hstep, Option.map_map, List.length_cons, Nat.add_assoc, Nat.add_comm 1 k]
      convert hends using 2
      funext ys
      simp
    · have hseen : Seen f o (done ++ [x] ++ (y :: rest) ++ List.replicate k z)
          ((done ++ [x]).length + (y :: rest).length) := by
        simpa [Nat.add_assoc, Nat.add_comm 1] using h
      have hends := ih' y k (done ++ [x]) o (last_of_tail hz) hseen
      rw [List.length_append, List.length_singleton] at hends
      rw [removeLoop_passed spare finalizer hx h, if_neg hx, Option.map_map]
      convert hends using 2
      funext ys
      simp

/-! ## When all of them are removed -/

variable {finalizer} {z : String} {k : Nat} {l : List String}

/-- An old finalizer is reached. -/
theorem removeSkipping_eq_none (hk : 0 < k) (hlast : ∀ x ∈ l.getLast?, x = finalizer) :
    removeSkipping finalizer finalizer k l = none := by
  induction l using List.twoStepInduction generalizing k with
  | nil => rw [removeSkipping, if_pos ⟨hk, rfl⟩]
  | singleton x => rw [removeSkipping, if_pos (hlast x rfl), if_neg (Nat.ne_of_gt hk)]
  | cons_cons x y rest ih ih' =>
    rw [removeSkipping, ih (Nat.succ_pos k) (last_of_tail (last_of_tail hlast)),
      ih' y hk (last_of_tail hlast)]
    split <;> rfl

/-- If another element is the last, one of two finalizers in a row stays. -/
theorem removeSkipping_eq_filter_iff (hz : z ≠ finalizer) (hlast : ∀ x ∈ l.getLast?, x = z) :
    removeSkipping finalizer z k l = some (l.filter (· ≠ finalizer)) ↔
      l.IsChain fun a b => ¬(a = finalizer ∧ b = finalizer) := by
  induction l using List.twoStepInduction generalizing k with
  | nil => simp [removeSkipping, hz]
  | singleton x =>
    have hx : x ≠ finalizer := hlast x rfl ▸ hz
    simp [removeSkipping, hx]
  | cons_cons x y rest ih ih' =>
    have hchain : y ≠ finalizer → ((y :: rest).IsChain (fun a b => ¬(a = finalizer ∧ b = finalizer)) ↔
        rest.IsChain fun a b => ¬(a = finalizer ∧ b = finalizer)) := by
      intro hy
      cases rest with
      | nil => simp
      | cons w rest => simp [hy]
    rw [removeSkipping, List.isChain_cons_cons]
    by_cases hx : x = finalizer
    · rw [if_pos hx, List.filter_cons_of_neg (by simpa using hx)]
      by_cases hy : y = finalizer
      · -- the second of them is kept, and the filter keeps none
        refine iff_of_false (fun h => ?_) fun h => h.1 ⟨hx, hy⟩
        obtain ⟨ys, -, hys⟩ := Option.map_eq_some_iff.mp h
        have hmem : y ∈ (y :: rest).filter (· ≠ finalizer) := hys ▸ List.mem_cons_self
        simp [hy] at hmem
      · rw [List.filter_cons_of_pos (by simpa using hy), hchain hy,
          ← ih (last_of_tail (last_of_tail hlast)) (k := k + 1)]
        simp [hy]
    · rw [if_neg hx, List.filter_cons_of_pos (by simpa using hx),
        ← ih' y (last_of_tail hlast) (k := k)]
      simp [hx]

/-- If the finalizer is the last element, it is the only one or the loop crashes. -/
theorem removeSkipping_last_iff (hlast : ∀ x ∈ l.getLast?, x = finalizer) :
    removeSkipping finalizer finalizer 0 l = some (l.filter (· ≠ finalizer)) ↔
      l.count finalizer ≤ 1 := by
  induction l using List.twoStepInduction with
  | nil => simp [removeSkipping]
  | singleton x =>
    obtain rfl : x = finalizer := hlast x rfl
    simp [removeSkipping]
  | cons_cons x y rest ih ih' =>
    have hlast' := last_of_tail hlast
    rw [removeSkipping]
    by_cases hx : x = finalizer
    · have hmem : finalizer ∈ y :: rest := by
        obtain ⟨w, hw⟩ := Option.isSome_iff_exists.mp
          (List.getLast?_isSome.mpr (List.cons_ne_nil y rest))
        exact hlast' w hw ▸ List.mem_of_getLast? hw
      have hcount : 0 < (y :: rest).count finalizer := List.count_pos_iff.mpr hmem
      rw [if_pos hx, removeSkipping_eq_none Nat.one_pos (last_of_tail hlast'), hx, List.count_cons_self]
      exact iff_of_false (fun h => by cases h) (by omega)
    · rw [if_neg hx, List.filter_cons_of_pos (by simpa using hx), List.count_cons_of_ne hx,
        ← ih' y hlast']
      simp

theorem isChain_of_count_le_one (h : l.count finalizer ≤ 1) :
    l.IsChain fun a b => ¬(a = finalizer ∧ b = finalizer) := by
  induction l using List.twoStepInduction with
  | nil => exact .nil
  | singleton x => exact .singleton x
  | cons_cons x y rest _ ih' =>
    refine List.isChain_cons_cons.mpr ⟨?_, ih' y ?_⟩
    · rintro ⟨rfl, rfl⟩
      simp at h
    · exact Nat.le_trans List.count_le_count_cons h

/-- The finalizer is nowhere twice in a row, and if it is the last element it is no other one. -/
structure Removable (finalizer : String) (l : List String) : Prop where
  apart : l.IsChain fun a b => ¬(a = finalizer ∧ b = finalizer)
  last : l.getLast? = some finalizer → l.count finalizer ≤ 1

/-- The call returns, and the object has exactly the other elements in their order. -/
def Removes (x : Except Failure Finalizers) (finalizer : String) (l : List String) : Prop :=
  ∃ o, x = .ok o ∧ o.list = l.filter (· ≠ finalizer)

theorem Seen.start (o : Finalizers) : Seen o.slice o o.list o.slice.len :=
  ⟨rfl, rfl, o.valid, Nat.le_refl _⟩

theorem length_list (o : Finalizers) : o.list.length = o.slice.len := o.valid.length_elems

theorem removeFinalizer_ends (o : Finalizers) (finalizer : String)
    (hlast : ∀ x ∈ o.list.getLast?, x = z) :
    Ends (o.removeFinalizer spare finalizer) (removeSkipping finalizer z 0 o.list) := by
  have hseen : Seen o.slice o ([] ++ o.list ++ List.replicate 0 z)
      (([] : List String).length + o.list.length) := by
    simpa [length_list] using Seen.start o
  have hends := removeLoop_ends spare finalizer 0 o.list [] o hlast hseen
  simpa [removeFinalizer, List.range_eq_range', length_list] using hends

theorem Ends.removes_iff {x : Except Failure Finalizers} {r : Option (List String)} (h : Ends x r) :
    Removes x finalizer l ↔ r = some (l.filter (· ≠ finalizer)) := by
  cases r with
  | none =>
    obtain ⟨msg, hmsg⟩ := h
    refine iff_of_false ?_ (fun h => by cases h)
    rintro ⟨o, ho, -⟩
    rw [hmsg] at ho
    cases ho
  | some ys =>
    obtain ⟨o, ho, hlist⟩ := h
    rw [Option.some_inj, ← hlist]
    constructor
    · rintro ⟨o', ho', hlist'⟩
      rw [ho] at ho'
      cases ho'
      exact hlist'
    · exact fun heq => ⟨o, ho, heq⟩

theorem removeFinalizer_removes_iff (o : Finalizers) (finalizer : String) :
    Removes (o.removeFinalizer spare finalizer) finalizer o.list ↔ Removable finalizer o.list := by
  cases hlast : o.list.getLast? with
  | none =>
    have hnil : o.list = [] := List.getLast?_eq_none_iff.mp hlast
    have hends := removeFinalizer_ends spare o finalizer (z := finalizer) (by simp [hlast])
    rw [hends.removes_iff, hnil]
    exact iff_of_true (by simp [removeSkipping]) ⟨.nil, by simp⟩
  | some z =>
    have hz : ∀ x ∈ o.list.getLast?, x = z := by
      intro x hx
      rw [hlast] at hx
      exact (Option.some.inj hx).symm
    rw [(removeFinalizer_ends spare o finalizer hz).removes_iff]
    by_cases hfin : z = finalizer
    · subst hfin
      rw [removeSkipping_last_iff hz]
      exact ⟨fun h => ⟨isChain_of_count_le_one h, fun _ => h⟩, fun h => h.last hlast⟩
    · rw [removeSkipping_eq_filter_iff hfin hz]
      refine ⟨fun h => ⟨h, fun heq => ?_⟩, Removable.apart⟩
      exact absurd (Option.some.inj (hlast.symm.trans heq)) hfin

theorem finalizerExists_iff {o : Finalizers} : o.finalizerExists finalizer = true ↔
    finalizer ∈ o.list := by
  simp [finalizerExists]

theorem addFinalizer_list {o : Finalizers} (h : finalizer ∉ o.list) :
    (o.addFinalizer spare finalizer).list = o.list ++ [finalizer] := by
  rw [addFinalizer, if_neg (finalizerExists_iff.not.mpr h)]
  exact Slice.append_elems spare o.valid

/-- A finalizer that was added to the others is removed again. -/
theorem removable_append (h : finalizer ∉ l) : Removable finalizer (l ++ [finalizer]) := by
  have hcount : (l ++ [finalizer]).count finalizer = 1 := by
    rw [List.count_append, List.count_eq_zero.mpr h, List.count_singleton_self]
  exact ⟨isChain_of_count_le_one (Nat.le_of_eq hcount), fun _ => Nat.le_of_eq hcount⟩

/-- All of a finalizer is removed, and nothing else, if and only if it is nowhere twice in a row and,
where it is the last one, there is no other. What was added is removed. -/
theorem removeFinalizer_exact_iff (spare : List String) (o : Finalizers) (finalizer : String) :
    (Removes (o.removeFinalizer spare finalizer) finalizer o.list ↔ Removable finalizer o.list) ∧
    (finalizer ∉ o.list → (o.addFinalizer spare finalizer).finalizerExists finalizer = true ∧
      ∃ o', (o.addFinalizer spare finalizer).removeFinalizer spare finalizer = .ok o' ∧
        o'.list = o.list ∧ o'.finalizerExists finalizer = false) := by
  refine ⟨removeFinalizer_removes_iff spare o finalizer, fun h => ?_⟩
  have hadd := addFinalizer_list spare h
  have hfilter : (o.list ++ [finalizer]).filter (· ≠ finalizer) = o.list := by
    rw [List.filter_append, List.filter_eq_self.mpr fun a ha => ?_]
    · simp
    · exact decide_eq_true fun heq => h (heq ▸ ha)
  refine ⟨finalizerExists_iff.mpr (by simp [hadd]), ?_⟩
  obtain ⟨o', ho', hlist⟩ := (removeFinalizer_removes_iff spare (o.addFinalizer spare finalizer)
    finalizer).mpr (hadd ▸ removable_append h)
  rw [hadd, hfilter] at hlist
  refine ⟨o', ho', hlist, Bool.eq_false_iff.mpr fun hex => h ?_⟩
  exact hlist ▸ finalizerExists_iff.mp hex

end

/-- An object with a slice of its own. -/
def ofList (l : List String) : Finalizers :=
  ⟨[l], ⟨0, 0, l.length⟩, by simp [Slice.Valid, Slice.array]⟩

theorem removeFinalizer_of_two_others :
    Removes ((ofList ["a", "f", "b"]).removeFinalizer [] "f") "f" (ofList ["a", "f", "b"]).list ∧
    ∃ o', ((ofList ["a", "b"]).addFinalizer [] "f").removeFinalizer [] "f" = .ok o' ∧
      o'.list = ["a", "b"] ∧ o'.finalizerExists "f" = false :=
  ⟨(removeFinalizer_exact_iff [] (ofList ["a", "f", "b"]) "f").1.mpr ⟨by decide, by decide⟩,
    ((removeFinalizer_exact_iff [] (ofList ["a", "b"]) "f").2 (by decide)).2⟩

/-- Two finalizers at the end are out of bounds, and of two that are followed by another one stays. -/
theorem removeFinalizer_of_repeated :
    ((ofList ["f", "f"]).removeFinalizer [] "f").map list =
      .error (.panic "slice bounds out of range [2:1]") ∧
    ((ofList ["f", "f", "a"]).removeFinalizer [] "f").map list = .ok ["f", "a"] := by
  decide +kernel

end Finalizers
end K8sIpam
