import K8sIpam.Lib.Guarantee

/-! # Refinement with an oracle

A program, and a coarser one whose handler takes from an oracle what it leaves open: with some
answers of the oracle the coarser program does what the other one does. -/

namespace Atomic

variable {S S' : Sig} {ε α α' β β' σ ω φ : Type}

/-- Results that are related, or the same failure. -/
inductive Agree (A : α → β → Prop) : Except ε α → Except ε β → Prop
  | ok {a : α} {b : β} (h : A a b) : Agree A (.ok a) (.ok b)
  | error (e : ε) : Agree A (.error e) (.error e)

namespace Prog

/-- Some answers of the oracle make `q` do what `p` does; it asks for no others. What the handler of
`q` works on is the view of a state, with the answers to come. -/
def Mirrors (h : Handler S σ) (g : Handler S' ω) (view : σ → List φ → ω) (A : α → β → Prop)
    (p : Prog S ε α) (q : Prog S' ε β) (s : σ) : Prop :=
  ∃ answers y, Agree A (p.run h s).1 y ∧
    ∀ rest, q.run g (view s (answers ++ rest)) = (y, view (p.run h s).2 rest)

variable {h : Handler S σ} {g : Handler S' ω} {view : σ → List φ → ω} {A : α → β → Prop}
  {B : α' → β' → Prop} {p : Prog S ε α} {q : Prog S' ε β} {s t : σ}

theorem mirrors_lift {x : Except ε α} {y : Except ε β} (hxy : Agree A x y) :
    (lift x : Prog S ε α).Mirrors h g view A (lift y) s := by
  refine ⟨[], y, ?_, fun rest => ?_⟩
  · rwa [run_lift]
  · rw [run_lift, run_lift, List.nil_append]

theorem mirrors_ret {a : α} {b : β} (hab : A a b) :
    (.ret a : Prog S ε α).Mirrors h g view A (.ret b) s :=
  mirrors_lift (x := .ok a) (y := .ok b) (.ok hab)

theorem mirrors_fail (e : ε) : (.fail e : Prog S ε α).Mirrors h g view A (.fail e) s :=
  mirrors_lift (x := .error e) (y := .error e) (.error e)

theorem Mirrors.bind {f : α → Prog S ε α'} {f' : β → Prog S' ε β'}
    (hp : p.Mirrors h g view A q s)
    (hf : ∀ a b t, A a b → p.run h s = (.ok a, t) → (f a).Mirrors h g view B (f' b) t) :
    (p >>= f).Mirrors h g view B (q >>= f') s := by
  obtain ⟨answers, y, hagree, hrun⟩ := hp
  rcases hx : p.run h s with ⟨x, t⟩
  rw [hx] at hagree hrun
  dsimp only at hagree hrun
  cases hagree with
  | error e =>
    refine ⟨answers, .error e, ?_, fun rest => ?_⟩
    · rw [run_bind, hx]
      exact .error e
    · rw [run_bind, hrun, run_bind, hx]
  | ok hab =>
    obtain ⟨answers', y', hagree', hrun'⟩ := hf _ _ t hab hx
    refine ⟨answers ++ answers', y', ?_, fun rest => ?_⟩
    · rwa [run_bind_of_ok h hx]
    · rw [List.append_assoc, run_bind_of_ok g (hrun _), hrun', run_bind_of_ok h hx]

/-- The result of `p` is only changed. -/
theorem Mirrors.map {C : α' → β → Prop} {f : α → α'} (hp : p.Mirrors h g view A q s)
    (hf : ∀ a b, A a b → C (f a) b) : (p >>= fun a => .ret (f a)).Mirrors h g view C q s := by
  obtain ⟨answers, y, hagree, hrun⟩ := hp
  rcases hx : p.run h s with ⟨x, t⟩
  rw [hx] at hagree hrun
  refine ⟨answers, y, ?_, fun rest => ?_⟩
  · rw [run_bind, hx]
    cases hagree with
    | error e => exact .error e
    | ok hab => exact .ok (hf _ _ hab)
  · rw [hrun, run_bind, hx]
    cases x <;> rfl

/-- A first part of `p` that the view does not show. -/
theorem Mirrors.bind_left {f : α → Prog S ε α'} {q : Prog S' ε β'} {a : α}
    (hp : p.run h s = (.ok a, t)) (hview : view t = view s)
    (hf : (f a).Mirrors h g view B q t) : (p >>= f).Mirrors h g view B q s := by
  obtain ⟨answers, y, hagree, hrun⟩ := hf
  refine ⟨answers, y, ?_, fun rest => ?_⟩
  · rwa [run_bind_of_ok h hp]
  · rw [← hview, hrun, run_bind_of_ok h hp]

/-- An operation of `q` that changes nothing and asks for nothing. -/
theorem Mirrors.ask {o' : S'.Op} {k' : S'.Resp o' → Prog S' ε β} {r : S'.Resp o'}
    (hask : ∀ rest, g o' (view s rest) = (r, view s rest)) (hk : p.Mirrors h g view A (k' r) s) :
    p.Mirrors h g view A (.op o' k') s := by
  obtain ⟨answers, y, hagree, hrun⟩ := hk
  refine ⟨answers, y, hagree, fun rest => ?_⟩
  rw [run_op, hask, hrun]

/-- An operation of each, of which the one of `q` asks the oracle once. -/
theorem Mirrors.op {o : S.Op} {k : S.Resp o → Prog S ε α} {o' : S'.Op}
    {k' : S'.Resp o' → Prog S' ε β} {answer : φ} {r : S'.Resp o'}
    (hop : ∀ rest, g o' (view s (answer :: rest)) = (r, view (h o s).2 rest))
    (hk : (k (h o s).1).Mirrors h g view A (k' r) (h o s).2) :
    (Prog.op o k).Mirrors h g view A (.op o' k') s := by
  obtain ⟨answers, y, hagree, hrun⟩ := hk
  refine ⟨answer :: answers, y, hagree, fun rest => ?_⟩
  rw [List.cons_append, run_op, hop, hrun, run_op]

end Prog

/-! ## Runs without interference -/

variable {δ ι τ : Type} [DecidableEq ι] {h : Handler S σ} {env : δ → σ → σ}

/-- A handler with a state of its own that leaves every operation to `h`, after a move of the
environment of a given kind. -/
def Serves (h : Handler S σ) (env : δ → σ → σ) (D : δ → Prop) (h' : Handler S (σ × τ)) : Prop :=
  ∀ o s, ∃ d, D d ∧ (h' o s).1 = (h o (env d s.1)).1 ∧ (h' o s).2.1 = (h o (env d s.1)).2

/-- What a program does under such a handler, it does when its process alone takes steps. -/
theorem Serves.exists_schedule {D : δ → Prop} {h' : Handler S (σ × τ)} (hserves : Serves h env D h')
    (p : Prog S ε α) (s : σ × τ) (c : Conf S σ ι ε α) (i : ι) (hproc : c.proc i = p)
    (hshared : c.shared = s.1) :
    ∃ sched : List (δ × ι), (∀ e ∈ sched, D e.1 ∧ e.2 = i) ∧
      (Run.run (Conf.stepIn h env) c sched).shared = (p.run h' s).2.1 ∧
      (Run.run (Conf.stepIn h env) c sched).proc i = Prog.lift (p.run h' s).1 := by
  induction p generalizing s c with
  | ret a => exact ⟨[], List.forall_mem_nil _, hshared, hproc⟩
  | fail e => exact ⟨[], List.forall_mem_nil _, hshared, hproc⟩
  | op o k ih =>
    obtain ⟨d, hd, hresp, hstate⟩ := hserves o s
    have hserve : h o (env d c.shared) = ((h' o s).1, (h' o s).2.1) := by
      rw [hshared, hresp, hstate]
    have hstep := Team.stepIn_op hproc hserve
    obtain ⟨sched, hsched, hrun⟩ := ih (h' o s).1 (h' o s).2 (c.stepIn h env (d, i))
      (by rw [hstep]; exact Function.update_self ..) (by rw [hstep])
    exact ⟨(d, i) :: sched, List.forall_mem_cons.mpr ⟨⟨hd, rfl⟩, hsched⟩, hrun⟩

end Atomic
