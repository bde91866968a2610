import Mathlib.Data.List.Forall2
import Mathlib.Data.List.Induction
import Mathlib.Data.List.Nodup
import Mathlib.Data.List.TakeWhile

/-! # Lists with a key for each entry

Writing an entry merges it into those of its key, or appends it if there are none. What a key holds
after any number of writes depends on the writes of that key only. -/

namespace Keyed

variable {α β κ ι : Type} [DecidableEq κ] [DecidableEq ι]

/-- The first entry of a key. -/
def get (key : α → κ) (xs : List α) (k : κ) : Option α := xs.find? fun x => key x = k

section
variable (key : α → κ) (merge : α → α → α)

def upsert (xs : List α) (new : α) : List α :=
  if key new ∈ xs.map key then xs.map fun x => if key x = key new then merge x new else x
  else xs ++ [new]

def upsertAll (xs news : List α) : List α := news.foldl (upsert key merge) xs

/-- What one key holds after the writes of it. -/
def settleAll (x : Option α) (news : List α) : Option α :=
  news.foldl (fun x new => some (x.elim new (merge · new))) x

end

variable {key : α → κ} {merge : α → α → α} {xs news : List α} {x new : α} {k : κ}

theorem get_eq_some_iff (h : (xs.map key).Nodup) : get key xs k = some x ↔ x ∈ xs ∧ key x = k := by
  induction xs with
  | nil => simp [get]
  | cons y ys ih =>
    obtain ⟨hy, hys⟩ := List.nodup_cons.mp h
    have hne : ∀ z ∈ ys, key z ≠ key y := fun z hz heq => hy (List.mem_map.mpr ⟨z, hz, heq⟩)
    unfold get at ih ⊢
    by_cases hk : key y = k
    · rw [List.find?_cons_of_pos (by simpa using hk), Option.some_inj]
      constructor
      · rintro rfl
        exact ⟨List.mem_cons_self, hk⟩
      · rintro ⟨hx, hkx⟩
        rcases List.mem_cons.mp hx with rfl | hx
        · rfl
        · exact absurd (hkx.trans hk.symm) (hne x hx)
    · rw [List.find?_cons_of_neg (by simpa using hk), ih hys, List.mem_cons]
      constructor
      · exact fun hx => ⟨.inr hx.1, hx.2⟩
      · rintro ⟨rfl | hx, hkx⟩
        · exact absurd hkx hk
        · exact ⟨hx, hkx⟩

section
variable (hmerge : ∀ x new, key x = key new → key (merge x new) = key new)
include hmerge

/-! ## Keys -/

theorem keys_upsert (xs : List α) (new : α) : (upsert key merge xs new).map key =
    if key new ∈ xs.map key then xs.map key else xs.map key ++ [key new] := by
  unfold upsert
  split
  · rw [List.map_map]
    refine List.map_congr_left fun x _ => ?_
    dsimp only [Function.comp]
    split
    next hx => rw [hmerge x new hx, hx]
    · rfl
  · rw [List.map_append, List.map_singleton]

/-- The keys that were there come first, then the new ones in the order in which they first come. -/
theorem keys_upsertAll (xs news : List α) : (upsertAll key merge xs news).map key =
    xs.map key ++ ((news.map key).filter (· ∉ xs.map key)).eraseDups := by
  induction news generalizing xs with
  | nil => simp [upsertAll]
  | cons new news ih =>
    have hstep : upsertAll key merge xs (new :: news) =
        upsertAll key merge (upsert key merge xs new) news := rfl
    rw [hstep, ih, keys_upsert hmerge, List.map_cons]
    by_cases hk : key new ∈ xs.map key
    · rw [if_pos hk, List.filter_cons_of_neg (by simpa using hk)]
    · rw [if_neg hk, List.filter_cons_of_pos (by simpa using hk), List.eraseDups_cons,
        List.append_assoc, List.singleton_append, List.filter_filter]
      congr 4
      funext a
      by_cases ha : a = key new
      · simp [ha]
      · simp only [List.mem_append, List.mem_singleton, ha, or_false, beq_eq_false_iff_ne.mpr ha,
          Bool.not_false, Bool.true_and]

theorem nodup_keys_upsertAll (h : (xs.map key).Nodup) (news : List α) :
    ((upsertAll key merge xs news).map key).Nodup := by
  unfold upsertAll
  induction news generalizing xs with
  | nil => exact h
  | cons new news ih =>
    refine ih ?_
    rw [keys_upsert hmerge]
    split
    · exact h
    next hk => exact List.nodup_append'.mpr ⟨h, List.nodup_singleton _, by simpa using hk⟩

/-! ## Entries -/

theorem get_upsert (xs : List α) (new : α) (k : κ) : get key (upsert key merge xs new) k =
    if key new = k then some ((get key xs k).elim new (merge · new)) else get key xs k := by
  unfold upsert get
  split
  next hmem =>
    have hkeep : ((fun x => decide (key x = k)) ∘ fun x =>
        if key x = key new then merge x new else x) = fun x => decide (key x = k) := by
      funext x
      dsimp only [Function.comp]
      split
      next hx => rw [hmerge x new hx, hx]
      · rfl
    rw [List.find?_map, hkeep]
    cases hfind : xs.find? fun x => decide (key x = k) with
    | none =>
      have hk : key new ≠ k := by
        rintro rfl
        obtain ⟨x, hx, hkx⟩ := List.mem_map.mp hmem
        exact absurd hkx (by simpa using List.find?_eq_none.mp hfind x hx)
      rw [if_neg hk]
      rfl
    | some x =>
      have hx : key x = k := by simpa using List.find?_some hfind
      by_cases hk : key new = k
      · rw [if_pos hk, Option.map_some, if_pos (hx.trans hk.symm)]
        rfl
      · rw [if_neg hk, Option.map_some, if_neg fun h => hk (h.symm.trans hx)]
  next hmem =>
    rw [List.find?_append]
    by_cases hk : key new = k
    · have hnone : xs.find? (fun x => decide (key x = k)) = none := by
        refine List.find?_eq_none.mpr fun x hx => ?_
        simpa using fun hkx : key x = k => hmem (List.mem_map.mpr ⟨x, hx, hkx.trans hk.symm⟩)
      rw [if_pos hk, hnone]
      simp [hk]
    · rw [if_neg hk]
      simp [hk]

theorem get_upsertAll (xs news : List α) (k : κ) : get key (upsertAll key merge xs news) k =
    settleAll merge (get key xs k) (news.filter fun new => key new = k) := by
  unfold upsertAll settleAll
  induction news generalizing xs with
  | nil => rfl
  | cons new news ih =>
    rw [List.foldl_cons, ih, get_upsert hmerge]
    by_cases hk : key new = k
    · rw [if_pos hk, List.filter_cons_of_pos (by simpa using hk), List.foldl_cons]
    · rw [if_neg hk, List.filter_cons_of_neg (by simpa using hk)]

end

/-! ## Two lists at once -/

section
variable {key' : β → ι} {merge' : β → β → β} {R : α → β → Prop} {ys news' : List β}

theorem upsert_forall₂ {new' : β} (h : List.Forall₂ R xs ys) (hnew : R new new')
    (hkey : ∀ x y, R x y → (key x = key new ↔ key' y = key' new'))
    (hmerge : ∀ x y, R x y → key x = key new → R (merge x new) (merge' y new')) :
    List.Forall₂ R (upsert key merge xs new) (upsert key' merge' ys new') := by
  have hmem : key new ∈ xs.map key ↔ key' new' ∈ ys.map key' := by
    clear hmerge
    induction h with
    | nil => simp
    | cons hxy _ ih =>
      rw [List.map_cons, List.map_cons, List.mem_cons, List.mem_cons, ih, eq_comm, hkey _ _ hxy, eq_comm]
  unfold upsert
  by_cases hk : key new ∈ xs.map key
  · rw [if_pos hk, if_pos (hmem.mp hk)]
    refine List.forall₂_map_left_iff.mpr (List.forall₂_map_right_iff.mpr (h.imp fun x y hxy => ?_))
    by_cases hx : key x = key new
    · rw [if_pos hx, if_pos ((hkey x y hxy).mp hx)]
      exact hmerge x y hxy hx
    · rw [if_neg hx, if_neg fun hy => hx ((hkey x y hxy).mpr hy)]
      exact hxy
  · rw [if_neg hk, if_neg fun hy => hk (hmem.mpr hy)]
    exact List.rel_append h (.cons hnew .nil)

/-- Entries that correspond, written into lists that correspond. -/
theorem upsertAll_forall₂ (h : List.Forall₂ R xs ys) (hnews : List.Forall₂ R news news')
    (hkey : ∀ x y new new', R x y → R new new' → (key x = key new ↔ key' y = key' new'))
    (hmerge : ∀ x y new new', R x y → R new new' → key x = key new →
      R (merge x new) (merge' y new')) :
    List.Forall₂ R (upsertAll key merge xs news) (upsertAll key' merge' ys news') := by
  unfold upsertAll
  induction hnews generalizing xs ys with
  | nil => exact h
  | cons hnew _ ih =>
    refine ih (upsert_forall₂ h hnew (fun x y hxy => hkey x y _ _ hxy hnew) ?_)
    exact fun x y hxy => hmerge x y _ _ hxy hnew

end

/-! ## Keeping what is equivalent -/

/-- An entry stays if the new one is equivalent to it. -/
def keepOr (r : α → α → Bool) (x new : α) : α := if r x new then x else new

variable {r : α → α → Bool}

theorem settleAll_append (x : Option α) (news news' : List α) :
    settleAll merge x (news ++ news') = settleAll merge (settleAll merge x news) news' :=
  List.foldl_append

theorem settleAll_toList (x : Option α) (news : List α) :
    settleAll merge none (x.toList ++ news) = settleAll merge x news := by
  cases x <;> rfl

/-- An entry stays through writes that are equivalent to it. -/
theorem settleAll_keepOr_of_forall (h : ∀ new ∈ news, r x new = true) :
    settleAll (keepOr r) (some x) news = some x := by
  unfold settleAll
  induction news with
  | nil => rfl
  | cons new news ih =>
    have hx : keepOr r x new = x := if_pos (h new List.mem_cons_self)
    rw [List.foldl_cons, Option.elim_some, hx]
    exact ih fun n hn => h n (List.mem_cons_of_mem _ hn)

/-- What is held is the first of those at the end that are equivalent to the last. -/
theorem settleAll_keepOr_none (hrefl : ∀ x, r x x = true)
    (hsymm : ∀ x y, r x y = true → r y x = true)
    (htrans : ∀ x y z, r x y = true → r y z = true → r x z = true) (xs : List α) (x : α) :
    settleAll (keepOr r) none (xs ++ [x]) = ((xs ++ [x]).reverse.takeWhile (r · x)).getLast? := by
  induction xs using List.reverseRecOn generalizing x with
  | nil => simp [settleAll, hrefl]
  | append_singleton xs y ih =>
    have hstep : settleAll (keepOr r) none (xs ++ [y] ++ [x]) =
        some ((settleAll (keepOr r) none (xs ++ [y])).elim x (keepOr r · x)) := by
      rw [settleAll_append]
      rfl
    have hrev : (xs ++ [y] ++ [x]).reverse.takeWhile (r · x) =
        x :: ((xs ++ [y]).reverse.takeWhile (r · x)) := by
      rw [List.reverse_append, List.reverse_singleton, List.singleton_append,
        List.takeWhile_cons_of_pos (p := fun z => r z x) (hrefl x)]
    have hhead : (xs ++ [y]).reverse = y :: xs.reverse := by simp
    rw [hstep, ih, hrev]
    have hne : (xs ++ [y]).reverse.takeWhile (r · y) ≠ [] := by
      rw [hhead, List.takeWhile_cons_of_pos (p := fun z => r z y) (hrefl y)]
      exact List.cons_ne_nil _ _
    obtain ⟨c, hc⟩ := Option.isSome_iff_exists.mp (List.getLast?_isSome.mpr hne)
    have hcy : r c y = true :=
      List.mem_takeWhile_imp (p := fun z => r z y) (List.mem_of_getLast? hc)
    rw [hc, Option.elim_some]
    by_cases hyx : r y x = true
    · have hpred : (fun z => r z y) = fun z => r z x := by
        funext z
        exact Bool.eq_iff_iff.mpr ⟨fun h => htrans z y x h hyx, fun h => htrans z x y h (hsymm y x hyx)⟩
      rw [keepOr, if_pos (htrans c y x hcy hyx), ← hpred, List.getLast?_cons, hc]
      rfl
    · have hcx : ¬r c x = true := fun h => hyx (htrans y c x (hsymm c y hcy) h)
      rw [keepOr, if_neg hcx, hhead, List.takeWhile_cons_of_neg (p := fun z => r z x) hyx]
      rfl

end Keyed
