import Mathlib.Logic.Basic

/-! # Systems of independent components

A system serves requests, each of them for one component. When an answer depends on the state of
its component alone and changes no other, then a component answers, and ends, as if the requests to
the others had never been made. -/

namespace Independent

/-- The state of a system as its components see it. -/
structure System (σ ρ β ι : Type) (V : ι → Type) where
  step : σ → ρ → β × σ
  addr : ρ → ι
  view : (i : ι) → σ → V i

namespace System

variable {σ ρ β ι : Type} {V : ι → Type} (S : System σ ρ β ι V)

/-- The answers to some requests, each with its request, and the state afterwards. -/
def run : σ → List ρ → List (ρ × β) × σ
  | s, [] => ([], s)
  | s, r :: rs =>
    let x := S.step s r
    let y := run x.2 rs
    ((r, x.1) :: y.1, y.2)

/-- A request reads and writes its own component only. -/
structure Local : Prop where
  own : ∀ {r s s'}, S.view (S.addr r) s = S.view (S.addr r) s' →
    (S.step s r).1 = (S.step s' r).1 ∧
      S.view (S.addr r) (S.step s r).2 = S.view (S.addr r) (S.step s' r).2
  other : ∀ {r i} s, S.addr r ≠ i → S.view i (S.step s r).2 = S.view i s

variable {S} [DecidableEq ι]

/-- The requests to other components can be left out. -/
theorem Local.run_filter (h : S.Local) {i : ι} {s s' : σ} (hview : S.view i s = S.view i s')
    (rs : List ρ) :
    (S.run s rs).1.filter (fun a => S.addr a.1 = i) =
        (S.run s' (rs.filter fun r => S.addr r = i)).1 ∧
      S.view i (S.run s rs).2 = S.view i (S.run s' (rs.filter fun r => S.addr r = i)).2 := by
  induction rs generalizing s s' with
  | nil => exact ⟨rfl, hview⟩
  | cons r rs ih =>
    by_cases hr : S.addr r = i
    · obtain ⟨hanswer, hnext⟩ := h.own (r := r) (hr ▸ hview)
      obtain ⟨hrest, hend⟩ := ih (hr ▸ hnext)
      rw [List.filter_cons_of_pos (by simpa using hr)]
      simp only [run, List.filter_cons, hr, decide_true, if_true, hrest, hend, hanswer, and_self]
    · obtain ⟨hrest, hend⟩ := ih ((h.other s hr).trans hview)
      rw [List.filter_cons_of_neg (by simpa using hr)]
      simp only [run, List.filter_cons, hr, decide_false, Bool.false_eq_true, if_false, hrest, hend,
        and_self]

end System
end Independent
