import Mathlib.Data.List.Forall2

/-! # Simulation of systems that answer

A system answers each request and moves on. One system simulates another when related states give
related answers and stay related; then so do whole runs. -/

namespace Simulate

variable {σ τ ρ β γ : Type}

/-- The answers to some requests, and the state afterwards. -/
def run (step : σ → ρ → β × σ) : σ → List ρ → List β × σ
  | s, [] => ([], s)
  | s, r :: rs =>
    let x := step s r
    let y := run step x.2 rs
    (x.1 :: y.1, y.2)

theorem run_simulates {f : σ → ρ → β × σ} {g : τ → ρ → γ × τ} {R : σ → τ → Prop}
    {A : β → γ → Prop}
    (hstep : ∀ s t r, R s t → A (f s r).1 (g t r).1 ∧ R (f s r).2 (g t r).2) {s : σ} {t : τ}
    (h : R s t) (rs : List ρ) :
    List.Forall₂ A (run f s rs).1 (run g t rs).1 ∧ R (run f s rs).2 (run g t rs).2 := by
  induction rs generalizing s t with
  | nil => exact ⟨.nil, h⟩
  | cons r rs ih =>
    obtain ⟨hanswer, hnext⟩ := hstep s t r h
    obtain ⟨hrest, hend⟩ := ih hnext
    exact ⟨.cons hanswer hrest, hend⟩

end Simulate
