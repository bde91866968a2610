import Mathlib.Data.Set.Card
import Mathlib.Data.BitVec
import K8sIpam.Lib.Window
import K8sIpam.Db.Db

/-! # What the searches of the id database find

`FindFreeRange` and `FindFreeSize` walk over the free ids of the window in ascending order. The one
notices that an id of the range is in use by the gap before a later free id, and gives its entries
back when it meets a free id behind the range; the other looks at its size after it has taken an
id. -/

namespace K8sIpam.DB
open Std Atomic

variable {w : Nat} {d : DB w} {id : BitVec w}

/-! ## The ids that are visited -/

/-- The id is in the window of the database. -/
def InWindow (d : DB w) (id : BitVec w) : Prop :=
  d.cfg.offset.toNat ≤ id.toNat ∧ id.toNat < d.cfg.offset.toNat + d.cfg.maxEntries.toNat

/-- The ids of the window that are not in the store. -/
def Free (d : DB w) (id : BitVec w) : Prop := d.InWindow id ∧ d.has id = false

instance (d : DB w) (id : BitVec w) : Decidable (d.InWindow id) :=
  inferInstanceAs (Decidable (_ ∧ _))

instance (d : DB w) (id : BitVec w) : Decidable (d.Free id) := inferInstanceAs (Decidable (_ ∧ _))

/-- An `int` can count through the window. -/
def Visitable (d : DB w) : Prop :=
  toInt64 d.cfg.offset ≤ toInt64 (d.cfg.offset + d.cfg.maxEntries)

instance (d : DB w) : Decidable d.Visitable := inferInstanceAs (Decidable (_ ≤ _))

theorem toInt64_eq (hw : w ≤ 64) (id : BitVec w) :
    toInt64 id = if id.toNat < 2 ^ 63 then (id.toNat : Int) else id.toNat - 2 ^ 64 := by
  have hlt : id.toNat < 2 ^ 64 := id.isLt.trans_le (Nat.pow_le_pow_right (by decide) hw)
  rw [toInt64, BitVec.toInt_eq_toNat_cond, BitVec.toNat_setWidth, Nat.mod_eq_of_lt hlt]
  split <;> split <;> omega

section
variable (hwrap : d.cfg.offset.toNat + d.cfg.maxEntries.toNat < 2 ^ w)
include hwrap

theorem toNat_offset_add :
    (d.cfg.offset + d.cfg.maxEntries).toNat = d.cfg.offset.toNat + d.cfg.maxEntries.toNat := by
  rw [BitVec.toNat_add, Nat.mod_eq_of_lt hwrap]

theorem toNat_lastId (hpos : 0 < d.cfg.offset.toNat + d.cfg.maxEntries.toNat) :
    d.lastId.toNat = d.cfg.offset.toNat + d.cfg.maxEntries.toNat - 1 := by
  have hsum := toNat_offset_add hwrap
  rw [lastId, Window.toNat_sub_one (by omega), hsum]

variable (hw : w ≤ 64)
include hw

/-- Only a window of 64-bit ids can be too far for an `int`. -/
theorem visitable_of_lt (h : d.cfg.offset.toNat + d.cfg.maxEntries.toNat < 2 ^ 63) :
    d.Visitable := by
  unfold Visitable
  rw [toInt64_eq hw, toInt64_eq hw, toNat_offset_add hwrap, if_pos h, if_pos (by omega)]
  omega

theorem visited_eq_ids (hv : d.Visitable) :
    d.visited = Window.ids w d.cfg.offset.toNat d.cfg.maxEntries.toNat := by
  unfold Visitable at hv
  have hpow : (2 ^ 64 : Int) = 2 ^ w * 2 ^ (64 - w) := by rw [← pow_add, Nat.add_sub_cancel' hw]
  -- the conversion to `int` and back is the identity
  have hback : ∀ i : Nat, BitVec.ofInt w (toInt64 d.cfg.offset + i) =
      BitVec.ofNat w (d.cfg.offset.toNat + i) := by
    intro i
    rw [toInt64_eq hw]
    split
    · rw [← Int.natCast_add, BitVec.ofInt_natCast]
    · apply BitVec.eq_of_toNat_eq
      have hshift : (d.cfg.offset.toNat : Int) - 2 ^ 64 + i =
          (d.cfg.offset.toNat + i : Nat) - 2 ^ w * 2 ^ (64 - w) := by push_cast; omega
      rw [hshift, BitVec.toNat_ofInt, BitVec.toNat_ofNat]
      push_cast
      rw [Int.sub_mul_emod_self_left, ← Int.natCast_add]
      exact_mod_cast Int.toNat_natCast _
  have hcount : (toInt64 (d.cfg.offset + d.cfg.maxEntries) - toInt64 d.cfg.offset).toNat =
      d.cfg.maxEntries.toNat := by
    have hlt : d.cfg.offset.toNat + d.cfg.maxEntries.toNat < 2 ^ 64 :=
      hwrap.trans_le (Nat.pow_le_pow_right (by decide) hw)
    rw [toInt64_eq hw, toInt64_eq hw, toNat_offset_add hwrap] at hv
    rw [toInt64_eq hw, toInt64_eq hw, toNat_offset_add hwrap]
    by_cases hoff : d.cfg.offset.toNat < 2 ^ 63
    · rw [if_pos hoff] at hv ⊢
      by_cases hend : d.cfg.offset.toNat + d.cfg.maxEntries.toNat < 2 ^ 63
      · rw [if_pos hend]
        omega
      · rw [if_neg hend] at hv
        omega
    · rw [if_neg hoff, if_neg (by omega)]
      omega
  unfold visited Window.ids
  rw [hcount, List.range'_eq_map_range (s := d.cfg.offset.toNat), List.map_map,
    ← List.range_eq_range']
  exact List.map_congr_left fun i _ => hback i

end

theorem visited_eq_nil (hv : ¬d.Visitable) : d.visited = [] := by
  unfold Visitable at hv
  have hcount : (toInt64 (d.cfg.offset + d.cfg.maxEntries) - toInt64 d.cfg.offset).toNat = 0 := by
    omega
  rw [visited, hcount]
  rfl

/-- The free ids of a window that is visited. -/
theorem freeIds_eq_filter (hw : w ≤ 64)
    (hwrap : d.cfg.offset.toNat + d.cfg.maxEntries.toNat < 2 ^ w) (hv : d.Visitable) :
    d.freeIds = (Window.ids w d.cfg.offset.toNat d.cfg.maxEntries.toNat).filter
      fun id => !d.has id := by
  unfold freeIds
  rw [visited_eq_ids hwrap hw hv]
  exact List.filter_congr fun id _ => by simp [has]

theorem mem_freeIds_iff (hw : w ≤ 64)
    (hwrap : d.cfg.offset.toNat + d.cfg.maxEntries.toNat < 2 ^ w) (hv : d.Visitable) :
    id ∈ d.freeIds ↔ d.Free id := by
  rw [freeIds_eq_filter hw hwrap hv, List.mem_filter, Window.mem_ids hwrap.le, Bool.not_eq_true']
  rfl

theorem freeIds_eq_nil (hv : ¬d.Visitable) : d.freeIds = [] := by
  rw [freeIds, visited_eq_nil hv]
  rfl

/-! ## The loop of a range -/

section
variable {start stop : BitVec w} {ids : List (BitVec w)} {es : List (Entry w)}
  {prev : Option (BitVec w)} {free : BitVec w → Bool}

theorem findFreeRangeLoop_skip (h : id < start) :
    findFreeRangeLoop start stop prev (id :: ids) es =
      findFreeRangeLoop start stop (some id) ids es := by
  cases prev <;> rw [findFreeRangeLoop, if_pos h]

theorem findFreeRangeLoop_start :
    findFreeRangeLoop start stop prev (start :: ids) es =
      findFreeRangeLoop start stop (some start) ids (es ++ [⟨start, ∅⟩]) := by
  cases prev <;> rw [findFreeRangeLoop, if_neg (BitVec.lt_irrefl start), if_pos rfl]

theorem findFreeRangeLoop_behind (hle : start ≤ stop) (h : stop < id) :
    findFreeRangeLoop start stop prev (id :: ids) es = .ok es := by
  cases prev <;>
    rw [findFreeRangeLoop, if_neg (by bv_omega), if_neg (by bv_omega), if_neg (by bv_omega)]

theorem findFreeRangeLoop_next (hlow : start < id) (hhigh : id ≤ stop) :
    findFreeRangeLoop start stop (some (id - 1)) (id :: ids) es =
      findFreeRangeLoop start stop (some id) ids (es ++ [⟨id, ∅⟩]) := by
  rw [findFreeRangeLoop, if_neg (by bv_omega), if_neg (by bv_omega), if_pos hhigh, if_pos rfl]

/-- An id of the range after a gap. -/
theorem findFreeRangeLoop_gap (hlow : start < id) (hhigh : id ≤ stop)
    (hgap : ∀ p ∈ prev, p ≠ id - 1) :
    ∃ e, findFreeRangeLoop start stop prev (id :: ids) es = .error e := by
  cases prev with
  | none =>
    rw [findFreeRangeLoop, if_neg (by bv_omega), if_neg (by bv_omega), if_pos hhigh]
    exact ⟨_, rfl⟩
  | some p =>
    rw [findFreeRangeLoop, if_neg (by bv_omega), if_neg (by bv_omega), if_pos hhigh,
      if_neg (hgap p rfl)]
    exact ⟨_, rfl⟩

/-- Ids before the range are passed by. -/
theorem findFreeRangeLoop_below {below : List (BitVec w)} (hbelow : ∀ id ∈ below, id < start)
    (hprev : ∀ p ∈ prev, p < start) :
    ∃ prev', (∀ p ∈ prev', p < start) ∧ findFreeRangeLoop start stop prev (below ++ ids) es =
      findFreeRangeLoop start stop prev' ids es := by
  induction below generalizing prev with
  | nil => exact ⟨prev, hprev, rfl⟩
  | cons id below ih =>
    have hid := hbelow id List.mem_cons_self
    have hprev : ∀ p ∈ some id, p < start := fun p hp => Option.mem_some.mp hp ▸ hid
    obtain ⟨prev', hprev', h⟩ := ih (fun id' hid' => hbelow id' (List.mem_cons_of_mem _ hid')) hprev
    refine ⟨prev', hprev', ?_⟩
    rw [List.cons_append, findFreeRangeLoop_skip hid, h]

/-- A free id behind the range ends the loop. -/
theorem findFreeRangeLoop_above {above : List (BitVec w)} (habove : ∀ id ∈ above, stop < id)
    (hle : start ≤ stop) :
    findFreeRangeLoop start stop prev above es = .ok (if above = [] then [] else es) := by
  cases above with
  | nil => rfl
  | cons id above =>
    rw [findFreeRangeLoop_behind hle (habove id List.mem_cons_self),
      if_neg (List.cons_ne_nil id above)]

/-- What the loop does with the ids from `a` to the end of the range. -/
def Scans (free : BitVec w → Bool) (above : List (BitVec w)) (es : List (Entry w)) (a n : Nat)
    (res : Except Failure (List (Entry w))) : Prop :=
  if (Window.ids w a n).filter free = (Window.ids w a n).takeWhile free then
    res = .ok (if above = [] then [] else es ++ ((Window.ids w a n).takeWhile free).map (⟨·, ∅⟩))
  else ∃ e, res = .error e

theorem scans_succ_of_used {a n : Nat} {above : List (BitVec w)}
    {res : Except Failure (List (Entry w))} (ha : free (BitVec.ofNat w a) = false)
    (hnil : (Window.ids w (a + 1) n).filter free = [] → res = .ok (if above = [] then [] else es))
    (hcons : ∀ id ids, (Window.ids w (a + 1) n).filter free = id :: ids → ∃ e, res = .error e) :
    Scans free above es a (n + 1) res := by
  have hneg : ¬free (BitVec.ofNat w a) = true := by rw [ha]; exact Bool.false_ne_true
  unfold Scans
  rw [Window.ids_succ, List.filter_cons_of_neg hneg, List.takeWhile_cons_of_neg hneg]
  cases hf : (Window.ids w (a + 1) n).filter free with
  | nil =>
    rw [if_pos rfl, hnil hf]
    simp
  | cons id ids =>
    rw [if_neg (List.cons_ne_nil id ids)]
    exact hcons id ids hf

theorem scans_succ_of_free {a n : Nat} {above : List (BitVec w)}
    {res : Except Failure (List (Entry w))} (ha : free (BitVec.ofNat w a) = true)
    (h : Scans free above (es ++ [⟨BitVec.ofNat w a, ∅⟩]) (a + 1) n res) :
    Scans free above es a (n + 1) res := by
  unfold Scans at h ⊢
  rw [Window.ids_succ, List.filter_cons_of_pos ha, List.takeWhile_cons_of_pos ha]
  simpa only [List.cons.injEq, true_and, List.map_cons, List.append_assoc,
    List.singleton_append] using h

/-- Behind the start of the range, an id is taken when the one before it was. -/
theorem findFreeRangeLoop_inside {b n : Nat} {above : List (BitVec w)}
    (habove : ∀ id ∈ above, stop < id) (hle : start ≤ stop) (hb : start.toNat ≤ b)
    (hstop : b + n = stop.toNat) :
    Scans free above es (b + 1) n (findFreeRangeLoop start stop (some (BitVec.ofNat w b))
      ((Window.ids w (b + 1) n).filter free ++ above) es) := by
  have hbound : stop.toNat < 2 ^ w := stop.isLt
  induction n generalizing b es with
  | zero =>
    rw [Scans, Window.ids_zero, List.filter_nil, List.takeWhile_nil, if_pos rfl, List.nil_append,
      findFreeRangeLoop_above habove hle]
    simp
  | succ n ih =>
    have hsucc : BitVec.ofNat w (b + 1) - 1 = BitVec.ofNat w b :=
      sub_eq_iff_eq_add.mpr (BitVec.ofNat_add b 1)
    have hval : (BitVec.ofNat w (b + 1)).toNat = b + 1 := Window.toNat_ofNat (by omega)
    cases hfree : free (BitVec.ofNat w (b + 1)) with
    | true =>
      refine scans_succ_of_free hfree ?_
      have hlow : start < BitVec.ofNat w (b + 1) := by rw [BitVec.lt_def, hval]; omega
      have hhigh : BitVec.ofNat w (b + 1) ≤ stop := by rw [BitVec.le_def, hval]; omega
      rw [Window.ids_succ, List.filter_cons_of_pos hfree, List.cons_append, ← hsucc,
        findFreeRangeLoop_next hlow hhigh]
      exact ih (by omega) (by omega)
    | false =>
      have hneg : ¬free (BitVec.ofNat w (b + 1)) = true := by rw [hfree]; exact Bool.false_ne_true
      rw [Window.ids_succ, List.filter_cons_of_neg hneg]
      refine scans_succ_of_used hfree (fun hnil => ?_) fun id ids hcons => ?_
      · rw [hnil, List.nil_append, findFreeRangeLoop_above habove hle]
      · have hmem : id ∈ (Window.ids w (b + 1 + 1) n).filter free := hcons ▸ List.mem_cons_self
        have hid := (Window.mem_ids (by omega)).mp (List.mem_filter.mp hmem).1
        rw [hcons, List.cons_append]
        refine findFreeRangeLoop_gap (by rw [BitVec.lt_def]; omega)
          (by rw [BitVec.le_def]; omega) ?_
        -- the free id before the gap is not the one before `id`
        rintro p ⟨⟩ hp
        rw [← hsucc, sub_left_inj] at hp
        rw [← hp, hval] at hid
        omega

/-- The loop from the start of the range on. -/
theorem findFreeRangeLoop_range {n : Nat} {above : List (BitVec w)}
    (habove : ∀ id ∈ above, stop < id) (hprev : ∀ p ∈ prev, p < start)
    (hstop : start.toNat + n = stop.toNat) :
    Scans free above [] start.toNat (n + 1) (findFreeRangeLoop start stop prev
      ((Window.ids w start.toNat (n + 1)).filter free ++ above) []) := by
  have hle : start ≤ stop := by rw [BitVec.le_def]; omega
  have hbound : stop.toNat < 2 ^ w := stop.isLt
  have hstart : BitVec.ofNat w start.toNat = start := by simp
  cases hfree : free start with
  | true =>
    rw [← hstart] at hfree
    refine scans_succ_of_free hfree ?_
    rw [Window.ids_succ, List.filter_cons_of_pos hfree, List.cons_append, hstart,
      findFreeRangeLoop_start]
    have hinside : Scans free above [⟨start, ∅⟩] (start.toNat + 1) n
        (findFreeRangeLoop start stop (some (BitVec.ofNat w start.toNat))
          ((Window.ids w (start.toNat + 1) n).filter free ++ above) [⟨start, ∅⟩]) :=
      findFreeRangeLoop_inside habove hle (Nat.le_refl start.toNat) hstop
    rw [hstart] at hinside
    exact hinside
  | false =>
    rw [← hstart] at hfree
    have hneg : ¬free (BitVec.ofNat w start.toNat) = true := by
      rw [hfree]
      exact Bool.false_ne_true
    rw [Window.ids_succ, List.filter_cons_of_neg hneg]
    refine scans_succ_of_used hfree (fun hnil => ?_) fun id ids hcons => ?_
    · rw [hnil, List.nil_append, findFreeRangeLoop_above habove hle]
    · have hmem : id ∈ (Window.ids w (start.toNat + 1) n).filter free := hcons ▸ List.mem_cons_self
      have hid := (Window.mem_ids (by omega)).mp (List.mem_filter.mp hmem).1
      rw [hcons, List.cons_append]
      refine findFreeRangeLoop_gap (by rw [BitVec.lt_def]; omega) (by rw [BitVec.le_def]; omega) ?_
      intro p hp heq
      have hlt := BitVec.lt_def.mp (hprev p hp)
      rw [← eq_sub_iff_add_eq.mp heq, Window.toNat_add_one (by omega)] at hid
      omega

end

/-! ## Ranges -/

/-- The id is one of the range. -/
def InRange (start size id : BitVec w) : Prop :=
  start.toNat ≤ id.toNat ∧ id.toNat < start.toNat + size.toNat

instance (start size id : BitVec w) : Decidable (InRange start size id) :=
  inferInstanceAs (Decidable (_ ∧ _))

/-- A search for a range succeeds exactly when none of its ids is in the store, and finds them in
ascending order. -/
structure FindsRange (d : DB w) (start size : BitVec w) : Prop where
  iff : (∃ es, d.findFreeRange start size = .ok es) ↔ ∀ id, InRange start size id → d.has id = false
  entries : ∀ es, d.findFreeRange start size = .ok es →
    es = (Window.ids w start.toNat size.toNat).map (⟨·, ∅⟩)

/-- An id of the range that is free after one that is in use. -/
def HasGap (d : DB w) (start size : BitVec w) : Prop :=
  ∃ id id', InRange start size id ∧ InRange start size id' ∧ id < id' ∧ d.has id = true ∧
    d.has id' = false

/-- The loop meets an id that tells: a free id behind the range if the range is free, and else an id
of the range that is free after one that is in use. -/
structure RangeTold (d : DB w) (start size : BitVec w) : Prop where
  visitable : d.Visitable
  free : (∀ id, InRange start size id → d.has id = false) →
    ∃ id, d.Free id ∧ start.toNat + size.toNat ≤ id.toNat
  used : (∃ id, InRange start size id ∧ d.has id = true) → d.HasGap start size

section
variable {start size : BitVec w} (hw : w ≤ 64)
  (hwrap : d.cfg.offset.toNat + d.cfg.maxEntries.toNat < 2 ^ w)
  (hstart : d.cfg.offset ≤ start) (hsize : 1 ≤ size.toNat)
  (hend : start.toNat + size.toNat - 1 < d.cfg.offset.toNat + d.cfg.maxEntries.toNat - 1)
include hw hwrap hstart hsize hend

/-- The window before, in and behind the range. -/
theorem freeIds_eq_append (hv : d.Visitable) : ∃ below above,
    d.freeIds =
        below ++ ((Window.ids w start.toNat size.toNat).filter (fun id => !d.has id) ++ above) ∧
      (∀ id ∈ below, id < start) ∧
      ∀ id, id ∈ above ↔ d.Free id ∧ start.toNat + size.toNat ≤ id.toNat := by
  have hoff := BitVec.le_def.mp hstart
  obtain ⟨m, hm⟩ := Nat.exists_eq_add_of_le hoff
  obtain ⟨n, hn⟩ : ∃ n, d.cfg.maxEntries.toNat = m + (size.toNat + n) :=
    ⟨d.cfg.maxEntries.toNat - m - size.toNat, by omega⟩
  rw [freeIds_eq_filter hw hwrap hv, hn, Window.ids_append, Window.ids_append, List.filter_append,
    List.filter_append, ← hm]
  refine ⟨_, _, rfl, fun id hid => ?_, fun id => ?_⟩
  · have hid := (Window.mem_ids (by omega)).mp (List.mem_filter.mp hid).1
    rw [BitVec.lt_def]
    omega
  · rw [List.mem_filter, Window.mem_ids (by omega), Bool.not_eq_true']
    refine ⟨fun ⟨hid, hused⟩ => ⟨⟨⟨?_, ?_⟩, hused⟩, ?_⟩, fun ⟨⟨⟨hlow, hhigh⟩, hused⟩, hid⟩ =>
      ⟨⟨?_, ?_⟩, hused⟩⟩ <;> omega

omit hw hwrap hstart hend in
theorem toNat_stop (hrange : start.toNat + size.toNat < 2 ^ w) :
    (start + size - 1).toNat = start.toNat + size.toNat - 1 := by
  have hsum : (start + size).toNat = start.toNat + size.toNat := by
    rw [BitVec.toNat_add, Nat.mod_eq_of_lt hrange]
  rw [Window.toNat_sub_one (by omega), hsum]

omit hw hstart in
/-- The bounds that the search checks. -/
theorem findFreeRange_eq_loop :
    d.findFreeRange start size = findFreeRangeLoop start (start + size - 1) none d.freeIds [] := by
  have hrange : start.toNat + size.toNat < 2 ^ w := by omega
  have hstop := toNat_stop hsize hrange
  have hlast := toNat_lastId hwrap (by omega)
  unfold findFreeRange
  dsimp only
  rw [if_neg (by rw [ge_iff_le, BitVec.le_def]; omega),
    if_neg (by rw [ge_iff_le, BitVec.le_def]; omega)]

/-- What a search returns. -/
theorem findFreeRange_scans (hv : d.Visitable) : ∃ above : List (BitVec w),
    (∀ id, id ∈ above ↔ d.Free id ∧ start.toNat + size.toNat ≤ id.toNat) ∧
      Scans (fun id => !d.has id) above [] start.toNat size.toNat (d.findFreeRange start size) := by
  obtain ⟨below, above, hfree, hbelow, habove⟩ := freeIds_eq_append hw hwrap hstart hsize hend hv
  refine ⟨above, habove, ?_⟩
  have hrange : start.toNat + size.toNat < 2 ^ w := by omega
  have hstop := toNat_stop hsize hrange
  have hnone : ∀ p ∈ (none : Option (BitVec w)), p < start := nofun
  obtain ⟨prev, hprev, hloop⟩ := findFreeRangeLoop_below hbelow hnone
  obtain ⟨n, hn⟩ := Nat.exists_eq_add_of_le' hsize
  rw [findFreeRange_eq_loop hwrap hsize hend, hfree, hloop, hn]
  refine findFreeRangeLoop_range (fun id hid => ?_) hprev (by omega)
  have := ((habove id).mp hid).2
  rw [BitVec.lt_def]
  omega

omit hw hwrap hstart hsize hend in
theorem mem_ids_inRange (h : start.toNat + size.toNat ≤ 2 ^ w) :
    id ∈ Window.ids w start.toNat size.toNat ↔ InRange start size id := Window.mem_ids h

omit hw hwrap hstart hsize hend in
theorem filter_ne_takeWhile_iff (h : start.toNat + size.toNat ≤ 2 ^ w) :
    (Window.ids w start.toNat size.toNat).filter (fun id => !d.has id) ≠
      (Window.ids w start.toNat size.toNat).takeWhile (fun id => !d.has id) ↔
    d.HasGap start size := by
  rw [Ne, Window.filter_eq_takeWhile_iff, Window.pairwise_ids_iff h]
  simp only [mem_ids_inRange h, HasGap, Bool.not_eq_true']
  push Not
  simp only [Bool.not_eq_false]
  grind

omit hw hwrap hstart hend in
theorem not_findsRange_of_nil (h : d.findFreeRange start size = .ok []) :
    ¬FindsRange d start size := by
  intro hf
  have hlen := congrArg List.length (hf.entries [] h)
  rw [List.length_map, Window.length_ids, List.length_nil] at hlen
  omega

omit hw hstart in
theorem findFreeRange_of_not_visitable (hv : ¬d.Visitable) :
    d.findFreeRange start size = .ok [] := by
  rw [findFreeRange_eq_loop hwrap hsize hend, freeIds_eq_nil hv, findFreeRangeLoop]

omit hw hwrap hstart hsize hend in
theorem takeWhile_eq_iff (h : start.toNat + size.toNat ≤ 2 ^ w) :
    (Window.ids w start.toNat size.toNat).takeWhile (fun id => !d.has id) =
      Window.ids w start.toNat size.toNat ↔ ∀ id, InRange start size id → d.has id = false := by
  simp only [List.takeWhile_eq_self_iff, mem_ids_inRange h, Bool.not_eq_true']

/-- A search for a range is exact if and only if the loop is told. -/
theorem findsRange_iff : FindsRange d start size ↔ RangeTold d start size := by
  by_cases hv : d.Visitable
  swap
  · have hnil := findFreeRange_of_not_visitable hwrap hsize hend hv
    exact iff_of_false (not_findsRange_of_nil hsize hnil) fun h => hv h.visitable
  have hrange : start.toNat + size.toNat ≤ 2 ^ w := by omega
  obtain ⟨above, habove, hscans⟩ := findFreeRange_scans hw hwrap hstart hsize hend hv
  have htold : RangeTold d start size → ¬d.HasGap start size →
      (∀ id, InRange start size id → d.has id = false) ∧ above ≠ [] := by
    intro h hgap
    have hall : ∀ id, InRange start size id → d.has id = false := fun id hid =>
      Bool.eq_false_iff.mpr fun hused => hgap (h.used ⟨id, hid, hused⟩)
    obtain ⟨id, hid⟩ := h.free hall
    exact ⟨hall, List.ne_nil_of_mem ((habove id).mpr hid)⟩
  unfold Scans at hscans
  split at hscans
  next horder =>
    have hgap : ¬d.HasGap start size := fun h => (filter_ne_takeWhile_iff hrange).mpr h horder
    split at hscans
    next hnil =>
      exact iff_of_false (not_findsRange_of_nil hsize hscans) fun h => (htold h hgap).2 hnil
    next hne =>
      rw [List.nil_append] at hscans
      constructor
      · intro h
        have hall := h.iff.mp ⟨_, hscans⟩
        obtain ⟨id, hid⟩ := List.exists_mem_of_ne_nil above hne
        refine ⟨hv, fun _ => ⟨id, (habove id).mp hid⟩, ?_⟩
        rintro ⟨id, hid, hused⟩
        rw [hall id hid] at hused
        cases hused
      · intro h
        have hall := (htold h hgap).1
        rw [(takeWhile_eq_iff hrange).mpr hall] at hscans
        exact ⟨iff_of_true ⟨_, hscans⟩ hall, fun es hes => by cases hscans.symm.trans hes; rfl⟩
  next horder =>
    have hgap : d.HasGap start size := (filter_ne_takeWhile_iff hrange).mp horder
    have hused : ¬∀ id, InRange start size id → d.has id = false := by
      intro hall
      have htake := (takeWhile_eq_iff hrange).mpr hall
      exact horder (by rw [htake, List.filter_eq_self]; exact List.takeWhile_eq_self_iff.mp htake)
    obtain ⟨e, he⟩ := hscans
    have herr : ∀ es, d.findFreeRange start size ≠ .ok es := fun es hes => by
      cases he.symm.trans hes
    refine iff_of_true ⟨iff_of_false ?_ hused, fun es hes => absurd hes (herr es)⟩
      ⟨hv, fun hall => absurd hall hused, fun _ => hgap⟩
    exact fun ⟨es, hes⟩ => herr es hes

end

/-- A database of ten ids without validations. -/
def tenIds (used : List (BitVec 16)) : DB 16 := newDB ⟨0, 10, used.map (⟨·, ∅⟩), none, none⟩

/-- A range that is free and one with an id that is in use. -/
theorem findsRange_tenIds : FindsRange (tenIds [1, 7]) 2 4 ∧ FindsRange (tenIds [1, 7]) 6 3 := by
  constructor
  · refine (findsRange_iff (by decide) (by decide) (by decide) (by decide) (by decide)).mpr
      ⟨by decide, fun _ => ⟨6, by decide⟩, ?_⟩
    rintro ⟨id, ⟨hlow, hhigh⟩, hused⟩
    have hid : id = 2 ∨ id = 3 ∨ id = 4 ∨ id = 5 := by bv_omega
    rcases hid with rfl | rfl | rfl | rfl <;> cases hused
  · exact (findsRange_iff (by decide) (by decide) (by decide) (by decide) (by decide)).mpr
      ⟨by decide, fun hall => absurd (hall 7 (by decide)) (by decide), fun _ => ⟨7, 8, by decide⟩⟩

/-- With no free id behind the range the search finds none of its ids, and with the last id of the
range in use it returns the other ones. -/
theorem not_findsRange_tenIds :
    (tenIds [6, 7, 8, 9]).findFreeRange 2 4 = .ok [] ∧ ¬FindsRange (tenIds [6, 7, 8, 9]) 2 4 ∧
    (tenIds [5]).findFreeRange 2 4 = .ok [⟨2, ∅⟩, ⟨3, ∅⟩, ⟨4, ∅⟩] ∧
    ¬FindsRange (tenIds [5]) 2 4 := by
  have hnil : (tenIds [6, 7, 8, 9]).findFreeRange 2 4 = .ok [] := rfl
  have htail : (tenIds [5]).findFreeRange 2 4 = .ok [⟨2, ∅⟩, ⟨3, ∅⟩, ⟨4, ∅⟩] := rfl
  refine ⟨hnil, not_findsRange_of_nil (by decide) hnil, htail, fun h => ?_⟩
  exact absurd (h.iff.mp ⟨_, htail⟩ 5 (by decide)) (by decide)

/-! ## Sizes -/

/-- The ids of the entries are the `n` smallest free ids, in ascending order. -/
structure SmallestFree (d : DB w) (n : Nat) (es : List (Entry w)) : Prop where
  unlabelled : ∀ e ∈ es, e.labels = ∅
  length : es.length = n
  sorted : es.Pairwise fun e e' => e.id < e'.id
  free : ∀ e ∈ es, d.Free e.id
  least : ∀ e ∈ es, ∀ id, d.Free id → (∀ e' ∈ es, e'.id ≠ id) → e.id < id

/-- A search for a number of ids succeeds exactly when there are as many free ones, finds the
smallest, and does not change the database. -/
structure FindsSize (d : DB w) (size : BitVec w) : Prop where
  iff : (∃ es, d.findFreeSize size = .ok es) ↔ size.toNat ≤ {id | d.Free id}.ncard
  entries : ∀ es, d.findFreeSize size = .ok es → d.SmallestFree size.toNat es
  unchanged : ((DbProg.findFreeSize size).run DB.handler d).2 = d

theorem findFreeSizeLoop_eq {size i : BitVec w} {ids : List (BitVec w)} {es : List (Entry w)}
    (hi : i.toNat < size.toNat) :
    findFreeSizeLoop size i ids es = if size.toNat ≤ i.toNat + ids.length
      then .ok (es ++ (ids.take (size.toNat - i.toNat)).map (⟨·, ∅⟩))
      else .error (.error ("could not find free entries that fit in size " ++
        toString size.toNat)) := by
  have hlt := size.isLt
  induction ids generalizing i es with
  | nil => rw [findFreeSizeLoop, List.length_nil, if_neg (by omega)]
  | cons id ids ih =>
    have hsucc : (i + 1).toNat = i.toNat + 1 := Window.toNat_add_one (by omega)
    obtain ⟨n, hn⟩ : ∃ n, size.toNat - i.toNat = n + 1 := Nat.exists_eq_add_of_le' (by omega)
    rw [findFreeSizeLoop, List.length_cons, hn, List.take_succ_cons]
    by_cases hdone : i + 1 ≥ size
    · have hle := BitVec.le_def.mp hdone
      have hzero : n = 0 := by omega
      rw [if_pos hdone, if_pos (by omega), hzero, List.take_zero]
      rfl
    · have hlt := BitVec.lt_def.mp (BitVec.not_le.mp hdone)
      have hrest : size.toNat - (i + 1).toNat = n := by omega
      rw [if_neg hdone, ih hlt, hrest, hsucc, Nat.add_assoc, Nat.add_comm 1, List.append_assoc]
      rfl

section
variable (hw : w ≤ 64) (hwrap : d.cfg.offset.toNat + d.cfg.maxEntries.toNat < 2 ^ w)
include hw hwrap

theorem pairwise_freeIds (hv : d.Visitable) : d.freeIds.Pairwise (· < ·) := by
  rw [freeIds_eq_filter hw hwrap hv]
  exact (Window.pairwise_ids hwrap.le).filter _

theorem ncard_free (hv : d.Visitable) : {id | d.Free id}.ncard = d.freeIds.length := by
  have hnodup : d.freeIds.Nodup := (pairwise_freeIds hw hwrap hv).imp fun h => (BitVec.ne_of_lt h)
  have hset : {id | d.Free id} = (d.freeIds.toFinset : Set (BitVec w)) := by
    ext id
    rw [List.coe_toFinset, Set.mem_ofPred_eq, Set.mem_ofPred_eq, mem_freeIds_iff hw hwrap hv]
  rw [hset, Set.ncard_coe_finset, List.toFinset_card_of_nodup hnodup]

/-- The first free ids that the loop visits are the smallest ones. -/
theorem smallestFree_take (hv : d.Visitable) {n : Nat} (hn : n ≤ d.freeIds.length) :
    d.SmallestFree n ((d.freeIds.take n).map (⟨·, ∅⟩)) where
  unlabelled := by
    intro e he
    obtain ⟨id, -, rfl⟩ := List.mem_map.mp he
    rfl
  length := by rw [List.length_map, List.length_take, Nat.min_eq_left hn]
  sorted := List.pairwise_map.mpr ((pairwise_freeIds hw hwrap hv).sublist (List.take_sublist _ _))
  free := by
    intro e he
    obtain ⟨id, hid, rfl⟩ := List.mem_map.mp he
    exact (mem_freeIds_iff hw hwrap hv).mp (List.mem_of_mem_take hid)
  least := by
    intro e he id' hfree hne
    obtain ⟨id, hid, rfl⟩ := List.mem_map.mp he
    have hid' : id' ∈ d.freeIds.drop n := by
      have hmem := (mem_freeIds_iff hw hwrap hv).mpr hfree
      rw [← List.take_append_drop n d.freeIds, List.mem_append] at hmem
      exact hmem.resolve_left fun h => hne ⟨id', ∅⟩ (List.mem_map_of_mem h) rfl
    have hsorted := pairwise_freeIds hw hwrap hv
    rw [← List.take_append_drop n d.freeIds, List.pairwise_append] at hsorted
    exact hsorted.2.2 id hid id' hid'

variable {size : BitVec w} (hsize : size < d.lastId)
include hsize

omit hw hwrap in
theorem findFreeSize_eq (hpos : 1 ≤ size.toNat) :
    d.findFreeSize size = if size.toNat ≤ d.freeIds.length
      then .ok ((d.freeIds.take size.toNat).map (⟨·, ∅⟩))
      else .error (.error ("could not find free entries that fit in size " ++
        toString size.toNat)) := by
  have hzero : (0 : BitVec w).toNat = 0 := BitVec.toNat_zero
  rw [findFreeSize, if_neg (BitVec.not_le.mpr hsize), findFreeSizeLoop_eq (by omega), hzero,
    Nat.zero_add, Nat.sub_zero, List.nil_append]

omit hw hwrap hsize in
/-- Every search that succeeds takes an id. -/
theorem findFreeSize_ne_nil : d.findFreeSize size ≠ .ok [] := by
  have hloop : ∀ (i : BitVec w) ids es, findFreeSizeLoop size i ids es ≠ .ok [] := by
    intro i ids
    induction ids generalizing i with
    | nil => exact fun es => nofun
    | cons id ids ih =>
      intro es
      rw [findFreeSizeLoop]
      split
      · simp
      · exact ih (i + 1) _
  unfold findFreeSize
  split
  · nofun
  · exact hloop 0 _ _

omit hw hwrap hsize in
theorem not_findsSize_zero (hzero : size.toNat = 0) : ¬FindsSize d size := by
  intro h
  obtain ⟨es, hes⟩ := h.iff.mpr (hzero ▸ Nat.zero_le _)
  have hnil := (h.entries es hes).length
  rw [hzero, List.length_eq_zero_iff] at hnil
  exact findFreeSize_ne_nil (hnil ▸ hes)

omit hw hwrap hsize in
theorem findsSize_of_error {e : Failure} (h : d.findFreeSize size = .error e) :
    FindsSize d size ↔ {id | d.Free id}.ncard < size.toNat := by
  have herr : ∀ es, d.findFreeSize size ≠ .ok es := fun es hes => by cases h.symm.trans hes
  constructor
  · intro hf
    refine Nat.lt_of_not_le fun hle => ?_
    obtain ⟨es, hes⟩ := hf.iff.mpr hle
    exact herr es hes
  · intro hlt
    refine ⟨iff_of_false (fun ⟨es, hes⟩ => herr es hes) hlt.not_ge,
      fun es hes => absurd hes (herr es), ?_⟩
    rw [DbProg.findFreeSize_run]

/-- The search is exact if and only if it is for at least one id, and an `int` can count through the
window or the window has fewer free ids. -/
theorem findsSize_iff : FindsSize d size ↔
    1 ≤ size.toNat ∧ (d.Visitable ∨ {id | d.Free id}.ncard < size.toNat) := by
  by_cases hpos : 1 ≤ size.toNat
  swap
  · exact iff_of_false (not_findsSize_zero (by omega)) fun h => hpos h.1
  have heq := findFreeSize_eq hsize hpos
  by_cases hv : d.Visitable
  · refine iff_of_true ?_ ⟨hpos, .inl hv⟩
    have hcard := ncard_free hw hwrap hv
    by_cases hle : size.toNat ≤ d.freeIds.length
    · rw [if_pos hle] at heq
      refine ⟨iff_of_true ⟨_, heq⟩ (hcard ▸ hle), fun es hes => ?_, ?_⟩
      · cases heq.symm.trans hes
        exact smallestFree_take hw hwrap hv hle
      · rw [DbProg.findFreeSize_run]
    · rw [if_neg hle] at heq
      exact (findsSize_of_error heq).mpr (by omega)
  · -- nothing is visited, so that the search fails
    rw [freeIds_eq_nil hv, List.length_nil, if_neg (by omega)] at heq
    rw [findsSize_of_error heq]
    exact ⟨fun hlt => ⟨hpos, .inr hlt⟩, fun h => h.2.resolve_left hv⟩

end

theorem findsSize_tenIds : FindsSize (tenIds [0, 1, 3]) 3 :=
  (findsSize_iff (by decide) (by decide) (by decide)).mpr ⟨by decide, .inl (by decide)⟩

/-- A search for no id returns one, or fails when none is free. -/
theorem not_findsSize_tenIds :
    (tenIds []).findFreeSize 0 = .ok [⟨0, ∅⟩] ∧ ¬FindsSize (tenIds []) 0 ∧
    (tenIds [0, 1, 2, 3, 4, 5, 6, 7, 8, 9]).findFreeSize 0 =
      .error (.error "could not find free entries that fit in size 0") ∧
    ¬FindsSize (tenIds [0, 1, 2, 3, 4, 5, 6, 7, 8, 9]) 0 :=
  ⟨rfl, not_findsSize_zero rfl, by decide +kernel, not_findsSize_zero rfl⟩

/-! ## One id -/

/-- `FindFreeID` answers with an entry that is not the stored one. -/
def HandsOut (d : DB w) (id : BitVec w) : Prop :=
  ∃ e, d.findFreeID id = .ok e ∧ d.store[id]? ≠ some e.labels

/-- `FindFreeID` agrees with `IterateFree` on an id. -/
structure FindsID (d : DB w) (id : BitVec w) : Prop where
  new : d.HandsOut id ↔ id ∈ d.freeIds
  stored : ∀ l, d.store[id]? = some l → d.findFreeID id = .ok ⟨id, l⟩ ∨
    ∃ e, d.findFreeID id = .error e
  outside : ¬d.InWindow id → ∃ e, d.findFreeID id = .error e

theorem findFreeID_of_lt (h : d.lastId < id) : d.findFreeID id = .error (tooBig "id" d id) :=
  if_pos h

theorem findFreeID_of_le (h : id ≤ d.lastId) : d.findFreeID id = .ok ⟨id, d.store[id]?.getD ∅⟩ :=
  if_neg (BitVec.not_lt.mpr h)

theorem handsOut_iff : d.HandsOut id ↔ id ≤ d.lastId ∧ d.has id = false := by
  unfold HandsOut
  have hstored : d.has id = false ↔ d.store[id]? = none := by
    rw [← Bool.not_eq_true, has_iff]
    simp
  constructor
  · rintro ⟨e, he, hne⟩
    have hle := (findFreeID_eq_ok he).2
    rw [findFreeID_of_le hle] at he
    cases he
    refine ⟨hle, hstored.mpr ?_⟩
    cases hl : d.store[id]? with
    | none => rfl
    | some l =>
      rw [hl] at hne
      exact absurd rfl hne
  · rintro ⟨hle, hnew⟩
    refine ⟨_, findFreeID_of_le hle, ?_⟩
    rw [hstored.mp hnew]
    nofun

/-- The two agree on an id that is not below the window, if an `int` can count through the window or
the id is not a free one of it. -/
theorem findsID_iff (hw : w ≤ 64) (hwrap : d.cfg.offset.toNat + d.cfg.maxEntries.toNat < 2 ^ w)
    (hmax : 1 ≤ d.cfg.maxEntries.toNat) :
    FindsID d id ↔ d.cfg.offset ≤ id ∧ (d.Visitable ∨ ¬d.Free id) := by
  have hlast := toNat_lastId hwrap (by omega)
  have hmem : id ∈ d.freeIds ↔ d.Visitable ∧ d.Free id := by
    by_cases hv : d.Visitable
    · simp only [mem_freeIds_iff hw hwrap hv, hv, true_and]
    · simp [freeIds_eq_nil hv, hv]
  by_cases hle : id ≤ d.lastId
  · have hok := findFreeID_of_le hle
    have hleNat := BitVec.le_def.mp hle
    by_cases hoff : d.cfg.offset ≤ id
    · have hoffNat := BitVec.le_def.mp hoff
      have hin : d.InWindow id := ⟨hoffNat, by omega⟩
      have hnew : d.HandsOut id ↔ d.Free id := by
        rw [handsOut_iff]
        exact ⟨fun h => ⟨hin, h.2⟩, fun h => ⟨hle, h.2⟩⟩
      constructor
      · intro H
        refine ⟨hoff, or_iff_not_imp_right.mpr fun hfree => ?_⟩
        exact (hmem.mp (H.new.mp (hnew.mpr (not_not.mp hfree)))).1
      · rintro ⟨-, hvis⟩
        refine ⟨?_, fun l hl => .inl ?_, fun hout => absurd hin hout⟩
        · rw [hnew, hmem]
          exact ⟨fun hfree => ⟨hvis.resolve_right (not_not.mpr hfree), hfree⟩, fun h => h.2⟩
        · rw [hok, hl]
          rfl
    · -- below the window there is an answer
      refine iff_of_false (fun H => ?_) fun h => hoff h.1
      obtain ⟨e, he⟩ := H.outside fun hin => hoff (BitVec.le_def.mpr hin.1)
      cases hok.symm.trans he
  · have herr := findFreeID_of_lt (BitVec.not_le.mp hle)
    have hgt : d.lastId.toNat < id.toNat := BitVec.lt_def.mp (BitVec.not_le.mp hle)
    have hout : ¬d.InWindow id := fun hin => by
      have := hin.2
      omega
    refine iff_of_true ⟨?_, fun l _ => .inr ⟨_, herr⟩, fun _ => ⟨_, herr⟩⟩
      ⟨BitVec.le_def.mpr (by omega), .inr fun hfree => hout hfree.1⟩
    exact iff_of_false (fun h => hle (handsOut_iff.mp h).1) fun h => hout (hmem.mp h).2.1

theorem findsID_tenIds : FindsID (tenIds [0, 1, 3]) 4 :=
  (findsID_iff (by decide) (by decide) (by decide)).mpr ⟨by decide, .inl (by decide)⟩

/-- The five ids from 10 on, of which none is stored. -/
def fiveIds : DB 16 := ⟨⟨10, 5, [], none, none⟩, ∅⟩

/-- As many 64-bit ids from 0 on as there are `int`s that are not negative. -/
def halfOfIds : DB 64 := ⟨⟨0, 2 ^ 63, [], none, none⟩, ∅⟩

/-- An id below the window is handed out, and so are the ids of a window that is not visited. -/
theorem not_findsID_below :
    fiveIds.findFreeID 3 = .ok ⟨3, ∅⟩ ∧ fiveIds.freeIds = [10, 11, 12, 13, 14] ∧
    ¬FindsID fiveIds 3 ∧
    halfOfIds.findFreeID 7 = .ok ⟨7, ∅⟩ ∧ halfOfIds.freeIds = [] ∧ ¬FindsID halfOfIds 7 := by
  have hnone : halfOfIds.freeIds = [] := freeIds_eq_nil (by decide +kernel)
  have hsome : halfOfIds.findFreeID 7 = .ok ⟨7, ∅⟩ := by decide +kernel
  refine ⟨by decide +kernel, by decide +kernel, fun H => ?_, hsome, hnone, fun H => ?_⟩
  · obtain ⟨e, he⟩ := H.outside (by decide)
    have hok : fiveIds.findFreeID 3 = .ok ⟨3, ∅⟩ := by decide +kernel
    cases hok.symm.trans he
  · have hmem := H.new.mp (handsOut_iff.mpr (by decide +kernel))
    rw [hnone] at hmem
    cases hmem

end K8sIpam.DB
