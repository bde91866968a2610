import K8sIpam.Lib.Run
import Mathlib.Data.List.Nodup

/-! # Readers and writers

A lock for many readers or one writer, which admits no new reader while a writer waits, and processes
that ask for it and give it back. A process can hold the lock for reading several times. -/

namespace RWMutex

inductive Req where
  | rlock | runlock | lock | unlock
  deriving DecidableEq

variable {ι : Type} [DecidableEq ι]

/-- Who holds the lock, which writers wait for it, and what each process has still to do. A process
is among the readers as often as it holds the lock. -/
structure State (ι : Type) where
  readers : List ι
  writer : Option ι
  waiting : List ι
  todo : ι → List Req

def start (todo : ι → List Req) : State ι := ⟨[], none, [], todo⟩

/-- The next step of a process, if it can take one. A writer first waits: from then on new readers
are not admitted. -/
def step (s : State ι) (i : ι) : Option (State ι) :=
  match s.todo i with
  | [] => none
  | .rlock :: rest =>
    if s.writer = none ∧ s.waiting = [] then
      some { s with readers := i :: s.readers, todo := Function.update s.todo i rest }
    else none
  | .runlock :: rest =>
    some { s with readers := s.readers.erase i, todo := Function.update s.todo i rest }
  | .lock :: rest =>
    if i ∈ s.waiting then
      if s.writer = none ∧ s.readers = [] then
        some { s with writer := some i, waiting := s.waiting.erase i,
                      todo := Function.update s.todo i rest }
      else none
    else some { s with waiting := i :: s.waiting }
  | .unlock :: rest => some { s with writer := none, todo := Function.update s.todo i rest }

/-- A process that cannot move stays where it is. -/
def next (s : State ι) (i : ι) : State ι := (step s i).getD s

/-- There is something to do and no process can move. -/
def Stuck (s : State ι) : Prop := (∃ i, s.todo i ≠ []) ∧ ∀ i, step s i = none

/-- What a process that holds the lock `d` times for reading, or for writing, has to do: it gives
back what it holds, and once it has begun to do so it does not ask again before it has finished. -/
def Nested : Nat → Bool → List Req → Prop
  | d, w, [] => d = 0 ∧ w = false
  | d, w, .rlock :: rest => w = false ∧ Nested (d + 1) w rest
  | d, w, .runlock :: rest =>
    0 < d ∧ (1 < d → rest.head? = some .runlock) ∧ Nested (d - 1) w rest
  | d, w, .lock :: rest => d = 0 ∧ w = false ∧ Nested 0 true rest
  | d, w, .unlock :: rest => d = 0 ∧ w = true ∧ Nested 0 false rest

theorem Nested.append {d : Nat} {w : Bool} {xs ys : List Req} (hx : Nested d w xs)
    (hy : Nested 0 false ys) : Nested d w (xs ++ ys) := by
  induction xs generalizing d w with
  | nil =>
    obtain ⟨rfl, rfl⟩ := hx
    exact hy
  | cons r xs ih =>
    cases r with
    | rlock => exact ⟨hx.1, ih hx.2⟩
    | runlock =>
      refine ⟨hx.1, fun hd => ?_, ih hx.2.2⟩
      change (xs ++ ys).head? = _
      rw [List.head?_append, hx.2.1 hd]
      rfl
    | lock => exact ⟨hx.1, hx.2.1, ih hx.2.2⟩
    | unlock => exact ⟨hx.1, hx.2.1, ih hx.2.2⟩

/-- A process does not begin to wait for writing while a reader is about to ask again. -/
def Polite (s : State ι) (i : ι) : Prop :=
  (s.todo i).head? = some .lock → i ∉ s.waiting →
    ∀ j ∈ s.readers, (s.todo j).head? ≠ some .rlock

instance (s : State ι) (i : ι) : Decidable (Polite s i) := by unfold Polite; infer_instance

/-! ## The invariant -/

structure Inv (s : State ι) : Prop where
  nested : ∀ i, Nested (s.readers.count i) (decide (s.writer = some i)) (s.todo i)
  exclusive : s.writer ≠ none → s.readers = []
  waits : ∀ i ∈ s.waiting, (s.todo i).head? = some .lock
  nodup : s.waiting.Nodup
  clear : s.waiting ≠ [] → ∀ i ∈ s.readers, (s.todo i).head? ≠ some .rlock

theorem inv_start {todo : ι → List Req} (h : ∀ i, Nested 0 false (todo i)) : Inv (start todo) where
  nested i := by simpa [start] using h i
  exclusive _ := rfl
  waits _ hi := nomatch hi
  nodup := List.nodup_nil
  clear h := absurd rfl h

section
variable {s s' : State ι} {i : ι}

/-- A waiting process other than the one that moves waits on. -/
theorem Inv.waits_update (h : Inv s) {rest : List Req} {j : ι} (hj : j ∈ s.waiting) (hne : j ≠ i) :
    (Function.update s.todo i rest j).head? = some .lock := by
  rw [Function.update_of_ne hne]
  exact h.waits j hj

theorem Inv.step (h : Inv s) (hok : Polite s i) (hs : step s i = some s') : Inv s' := by
  have hi := h.nested i
  unfold RWMutex.step at hs
  cases htodo : s.todo i with
  | nil =>
    rw [htodo] at hs
    cases hs
  | cons r rest =>
    rw [htodo] at hs hi
    cases r with
    | rlock =>
      dsimp only at hs
      split at hs
      next hfree =>
        cases hs
        have hnot : i ∉ s.waiting := by rw [hfree.2]; exact List.not_mem_nil
        refine ⟨fun j => ?_, fun hw => absurd hfree.1 hw, fun j hj => ?_, h.nodup,
          fun hw => absurd hfree.2 hw⟩
        · dsimp only
          by_cases hj : j = i
          · subst hj
            rw [Function.update_self, List.count_cons_self]
            exact hi.2
          · rw [Function.update_of_ne hj, List.count_cons_of_ne (Ne.symm hj)]
            exact h.nested j
        · exact h.waits_update hj fun heq => hnot (heq ▸ hj)
      · cases hs
    | runlock =>
      cases hs
      have hnot : i ∉ s.waiting := fun hw => by
        have := h.waits i hw
        rw [htodo] at this
        cases this
      refine ⟨fun j => ?_, fun hw => ?_, fun j hj => ?_, h.nodup, fun hw j hj => ?_⟩
      · dsimp only
        by_cases hj : j = i
        · subst hj
          rw [Function.update_self, List.count_erase_self]
          exact hi.2.2
        · rw [Function.update_of_ne hj, List.count_erase_of_ne hj]
          exact h.nested j
      · rw [h.exclusive hw]
        rfl
      · exact h.waits_update hj fun heq => hnot (heq ▸ hj)
      · dsimp only at hj ⊢
        by_cases heq : j = i
        · -- it still holds the lock, so it gives it back again
          subst heq
          rw [Function.update_self]
          have hcount : 1 < s.readers.count j := by
            have := List.count_pos_iff.mpr hj
            rw [List.count_erase_self] at this
            omega
          rw [hi.2.1 hcount]
          exact nofun
        · rw [Function.update_of_ne heq]
          exact h.clear hw j (List.mem_of_mem_erase hj)
    | lock =>
      dsimp only at hs
      split at hs
      next hwait =>
        split at hs
        next hfree =>
          cases hs
          refine ⟨fun j => ?_, fun _ => hfree.2, fun j hj => ?_, h.nodup.erase i, fun _ j hj => ?_⟩
          · dsimp only
            by_cases hj : j = i
            · subst hj
              rw [Function.update_self, hfree.2]
              simpa using hi.2.2
            · have hj' := h.nested j
              rw [hfree.1] at hj'
              rw [Function.update_of_ne hj]
              simpa [Ne.symm hj] using hj'
          · obtain ⟨hne, hj⟩ := h.nodup.mem_erase_iff.mp hj
            exact h.waits_update hj hne
          · rw [hfree.2] at hj
            cases hj
        · cases hs
      next hwait =>
        cases hs
        refine ⟨h.nested, h.exclusive, fun j hj => ?_, List.nodup_cons.mpr ⟨hwait, h.nodup⟩,
          fun _ => hok (by rw [htodo]; rfl) hwait⟩
        rcases List.mem_cons.mp hj with rfl | hj
        · dsimp only
          rw [htodo]
          rfl
        · exact h.waits j hj
    | unlock =>
      cases hs
      have hw : s.writer = some i := of_decide_eq_true hi.2.1
      have hempty : s.readers = [] := h.exclusive (by rw [hw]; exact Option.some_ne_none i)
      have hnot : i ∉ s.waiting := fun hw => by
        have := h.waits i hw
        rw [htodo] at this
        cases this
      refine ⟨fun j => ?_, fun _ => hempty, fun j hj => ?_, h.nodup, fun _ j hj => ?_⟩
      · dsimp only
        by_cases hj : j = i
        · subst hj
          rw [Function.update_self, hempty]
          simpa using hi.2.2
        · have hj' := h.nested j
          rw [hw, hempty] at hj'
          rw [Function.update_of_ne hj, hempty]
          simpa [Ne.symm hj] using hj'
      · exact h.waits_update hj fun heq => hnot (heq ▸ hj)
      · dsimp only at hj
        rw [hempty] at hj
        cases hj

/-- A state that keeps the invariant is not stuck: the holder of the lock can move, or if nobody
holds it a writer that waits, or else anybody. -/
theorem Inv.not_stuck (h : Inv s) : ¬Stuck s := by
  rintro ⟨⟨i, hi⟩, hnone⟩
  have hmove : ∀ j r rest, s.todo j = r :: rest → r = .runlock ∨ r = .unlock → False := by
    intro j r rest htodo hr
    have hj := hnone j
    unfold RWMutex.step at hj
    rw [htodo] at hj
    rcases hr with rfl | rfl
    · cases hj
    · cases hj
  cases hw : s.writer with
  | some j =>
    have hj := h.nested j
    rw [h.exclusive (by rw [hw]; exact Option.some_ne_none j), hw] at hj
    cases htodo : s.todo j with
    | nil => simp [htodo, Nested] at hj
    | cons r rest =>
      rw [htodo] at hj
      cases r with
      | rlock => simp [Nested] at hj
      | runlock => exact hmove j _ rest htodo (.inl rfl)
      | lock => simp [Nested] at hj
      | unlock => exact hmove j _ rest htodo (.inr rfl)
  | none =>
    cases hr : s.readers with
    | cons j js =>
      have hmem : j ∈ s.readers := hr ▸ List.mem_cons_self
      have hj := h.nested j
      have hpos := List.count_pos_iff.mpr hmem
      cases htodo : s.todo j with
      | nil =>
        rw [htodo] at hj
        exact absurd hj.1 (by omega)
      | cons r rest =>
        rw [htodo] at hj
        cases r with
        | rlock =>
          have hwait : s.waiting = [] := by
            by_contra hwait
            refine h.clear hwait j hmem ?_
            rw [htodo]
            rfl
          have hstep := hnone j
          unfold RWMutex.step at hstep
          rw [htodo] at hstep
          dsimp only at hstep
          rw [if_pos ⟨hw, hwait⟩] at hstep
          cases hstep
        | runlock => exact hmove j _ rest htodo (.inl rfl)
        | lock => exact absurd hj.1 (by omega)
        | unlock => exact hmove j _ rest htodo (.inr rfl)
    | nil =>
      cases hwait : s.waiting with
      | cons j js =>
        have hmem : j ∈ s.waiting := hwait ▸ List.mem_cons_self
        obtain ⟨rest, htodo⟩ := List.head?_eq_some_iff.mp (h.waits j hmem)
        have hstep := hnone j
        unfold RWMutex.step at hstep
        rw [htodo] at hstep
        dsimp only at hstep
        rw [if_pos hmem, if_pos ⟨hw, hr⟩] at hstep
        cases hstep
      | nil =>
        obtain ⟨r, rest, htodo⟩ := List.exists_cons_of_ne_nil hi
        have hstep := hnone i
        unfold RWMutex.step at hstep
        rw [htodo] at hstep
        cases r with
        | rlock =>
          dsimp only at hstep
          rw [if_pos ⟨hw, hwait⟩] at hstep
          cases hstep
        | runlock => cases hstep
        | lock =>
          dsimp only at hstep
          rw [hwait, if_neg List.not_mem_nil] at hstep
          cases hstep
        | unlock => cases hstep

theorem Inv.next (h : Inv s) (hok : Polite s i) : Inv (next s i) := by
  unfold RWMutex.next
  cases hs : RWMutex.step s i with
  | none => exact h
  | some s' => exact h.step hok hs

end

/-- Processes that give back what they hold never get stuck, if none begins to wait for writing
while a reader is about to ask again. -/
theorem not_stuck_of_guarded {todo : ι → List Req} (h : ∀ i, Nested 0 false (todo i))
    {sched : List ι} (hg : Run.Guarded next Polite (start todo) sched) :
    ¬Stuck (Run.run next (start todo) sched) :=
  (hg.inv (fun _ _ h hok => h.next hok) (inv_start h)).not_stuck

end RWMutex
