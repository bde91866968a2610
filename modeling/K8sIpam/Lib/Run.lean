import Mathlib.Logic.Function.Basic

/-! # Runs of a deterministic system

A system is a step function on states; a run is the fold of the step over a list of requests. A
run is guarded when each request is taken in a state that allows it. -/

namespace Run

variable {σ ρ : Type}

/-- The state after the requests have been served in order. -/
def run (step : σ → ρ → σ) (s : σ) (rs : List ρ) : σ := rs.foldl step s

variable (step : σ → ρ → σ)

@[simp] theorem run_nil (s : σ) : run step s [] = s := rfl
@[simp] theorem run_cons (s : σ) (r : ρ) (rs : List ρ) :
    run step s (r :: rs) = run step (step s r) rs := rfl

theorem run_append (s : σ) (rs rs' : List ρ) :
    run step s (rs ++ rs') = run step (run step s rs) rs' :=
  List.foldl_append

/-- Every request of the run is taken in a state that allows it. -/
def Guarded (ok : σ → ρ → Prop) : σ → List ρ → Prop
  | _, [] => True
  | s, r :: rs => ok s r ∧ Guarded ok (step s r) rs

instance decidableGuarded (ok : σ → ρ → Prop) [∀ s r, Decidable (ok s r)] :
    ∀ s rs, Decidable (Guarded step ok s rs)
  | _, [] => .isTrue trivial
  | s, r :: rs =>
    have := decidableGuarded ok (step s r) rs
    inferInstanceAs (Decidable (ok s r ∧ Guarded step ok (step s r) rs))

variable {step} {ok ok' : σ → ρ → Prop} {I : σ → Prop} {s : σ} {rs rs' : List ρ}

theorem guarded_append :
    Guarded step ok s (rs ++ rs') ↔ Guarded step ok s rs ∧ Guarded step ok (run step s rs) rs' := by
  induction rs generalizing s with
  | nil => simp [Guarded]
  | cons r rs ih => simp [Guarded, ih, and_assoc]

theorem Guarded.mono (h : Guarded step ok s rs) (hok : ∀ s r, ok s r → ok' s r) :
    Guarded step ok' s rs := by
  induction rs generalizing s with
  | nil => trivial
  | cons r rs ih => exact ⟨hok _ _ h.1, ih h.2⟩

theorem guarded_true : Guarded step (fun _ _ => True) s rs := by
  induction rs generalizing s with
  | nil => trivial
  | cons r rs ih => exact ⟨trivial, ih⟩

/-- A fact kept by every allowed step holds at the end of every guarded run. -/
theorem Guarded.inv (keep : ∀ s r, I s → ok s r → I (step s r)) (h : Guarded step ok s rs)
    (hs : I s) : I (run step s rs) := by
  induction rs generalizing s with
  | nil => exact hs
  | cons r rs ih => exact ih h.2 (keep s r hs h.1)

/-- A fact kept by the requests of one kind holds at the end of every run of such requests. -/
theorem run_inv_of_forall_mem {P : ρ → Prop} (keep : ∀ s r, P r → I s → I (step s r))
    (hrs : ∀ r ∈ rs, P r) (hs : I s) : I (run step s rs) := by
  induction rs generalizing s with
  | nil => exact hs
  | cons r rs ih =>
    exact ih (fun r' hr' => hrs r' (List.mem_cons_of_mem _ hr'))
      (keep s r (hrs r List.mem_cons_self) hs)

/-- A fact kept by every step holds at the end of every run. -/
theorem run_inv (keep : ∀ s r, I s → I (step s r)) (hs : I s) : I (run step s rs) :=
  guarded_true.inv (fun s r hs _ => keep s r hs) hs

end Run
