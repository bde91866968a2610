import K8sIpam.Lib.Rely

/-! # Rely and guarantee

What a program achieves while others work on the same state: it relies on the others to change the
state in certain ways only, and in return guarantees something about its own operations. Programs
whose guarantees imply what the others rely on can be run in any interleaving. -/

namespace Atomic

variable {S : Sig} {ε ε' α β σ δ ι : Type}

/-! ## Failures as values, and programs that are abandoned -/

namespace Prog

/-- The program with its failure as a value. -/
def attempt : Prog S ε α → Prog S ε' (Except ε α)
  | .ret a => .ret (.ok a)
  | .fail e => .ret (.error e)
  | .op o k => .op o fun r => (k r).attempt

theorem run_attempt_bind (h : Handler S σ) (p : Prog S ε α) (f : Except ε α → Prog S ε' β) (s : σ) :
    (p.attempt >>= f).run h s = (f (p.run h s).1).run h (p.run h s).2 := by
  induction p generalizing s with
  | ret a => rfl
  | fail e => rfl
  | op o k ih => exact ih (h o s).1 (h o s).2

/-- The program, abandoned when it is about to perform one operation more than it is given. -/
def cut : Prog S ε α → Nat → Prog S ε (Option α)
  | .ret a, _ => .ret (some a)
  | .fail e, _ => .fail e
  | .op _ _, 0 => .ret none
  | .op o k, n + 1 => .op o fun r => (k r).cut n

/-- From the given state on, as long as the others keep to `R`, every operation is in `G`, and the
end of the program satisfies `Q`. -/
def Meets (h : Handler S σ) (R G : σ → σ → Prop) (Q : Except ε α → σ → Prop) :
    Prog S ε α → σ → Prop
  | .ret a, s => ∀ s', R s s' → Q (.ok a) s'
  | .fail e, s => ∀ s', R s s' → Q (.error e) s'
  | .op o k, s => ∀ s', R s s' → G s' (h o s').2 ∧ (k (h o s').1).Meets h R G Q (h o s').2

variable {h : Handler S σ} {R G : σ → σ → Prop} {Q : Except ε α → σ → Prop} {p : Prog S ε α}
  {s s' : σ}

theorem Meets.later (hp : p.Meets h R G Q s) (htrans : ∀ {s s' s''}, R s s' → R s' s'' → R s s'')
    (hs : R s s') : p.Meets h R G Q s' := by
  cases p with
  | ret a => exact fun s'' hs' => hp s'' (htrans hs hs')
  | fail e => exact fun s'' hs' => hp s'' (htrans hs hs')
  | op o k => exact fun s'' hs' => hp s'' (htrans hs hs')

theorem Meets.weaken {Q' : Except ε α → σ → Prop} (hp : p.Meets h R G Q s)
    (hQ : ∀ x s', Q x s' → Q' x s') : p.Meets h R G Q' s := by
  induction p generalizing s with
  | ret a => exact fun s' hs => hQ _ _ (hp s' hs)
  | fail e => exact fun s' hs => hQ _ _ (hp s' hs)
  | op o k ih =>
    intro s' hs
    obtain ⟨hG, hk⟩ := hp s' hs
    exact ⟨hG, ih _ hk⟩

/-- Where every step moves the state forward, the end is after the beginning. -/
theorem Meets.along {T : σ → σ → Prop} {s₀ : σ} (hp : p.Meets h R G Q s)
    (htrans : ∀ {s s' s''}, T s s' → T s' s'' → T s s'') (hR : ∀ {s s'}, R s s' → T s s')
    (hG : ∀ {s s'}, G s s' → T s s') (hs₀ : T s₀ s) :
    p.Meets h R G (fun x s' => Q x s' ∧ T s₀ s') s := by
  induction p generalizing s with
  | ret a => exact fun s' hs => ⟨hp s' hs, htrans hs₀ (hR hs)⟩
  | fail e => exact fun s' hs => ⟨hp s' hs, htrans hs₀ (hR hs)⟩
  | op o k ih =>
    intro s' hs
    obtain ⟨hop, hk⟩ := hp s' hs
    exact ⟨hop, ih _ hk (htrans hs₀ (htrans (hR hs) (hG hop)))⟩

/-- The second part starts in a state of which the first has established something. -/
theorem Meets.bind {f : α → Prog S ε β} {Q' : Except ε β → σ → Prop} (hp : p.Meets h R G Q s)
    (hrefl : ∀ s, R s s) (hok : ∀ a s', Q (.ok a) s' → (f a).Meets h R G Q' s')
    (herr : ∀ e s', Q (.error e) s' → Q' (.error e) s') : (p >>= f).Meets h R G Q' s := by
  induction p generalizing s with
  | ret a => exact hok a s (hp s (hrefl s))
  | fail e => exact fun s' hs => herr e s' (hp s' hs)
  | op o k ih =>
    intro s' hs
    obtain ⟨hG, hk⟩ := hp s' hs
    exact ⟨hG, ih _ hk⟩

/-- A failure is handled by what follows. -/
theorem Meets.attempt_bind {f : Except ε α → Prog S ε' β} {Q' : Except ε' β → σ → Prop}
    (hp : p.Meets h R G Q s) (hrefl : ∀ s, R s s)
    (hf : ∀ x s', Q x s' → (f x).Meets h R G Q' s') : (p.attempt >>= f).Meets h R G Q' s := by
  induction p generalizing s with
  | ret a => exact hf _ s (hp s (hrefl s))
  | fail e => exact hf _ s (hp s (hrefl s))
  | op o k ih =>
    intro s' hs
    obtain ⟨hG, hk⟩ := hp s' hs
    exact ⟨hG, ih _ hk⟩

/-- An abandoned program has kept its guarantee. -/
theorem Meets.cut {Q' : Except ε (Option α) → σ → Prop} (hp : p.Meets h R G Q s) (n : Nat)
    (hok : ∀ a s', Q (.ok a) s' → Q' (.ok (some a)) s')
    (herr : ∀ e s', Q (.error e) s' → Q' (.error e) s') (hnone : ∀ s', Q' (.ok none) s') :
    (p.cut n).Meets h R G Q' s := by
  induction p generalizing s n with
  | ret a => exact fun s' hs => hok a s' (hp s' hs)
  | fail e => exact fun s' hs => herr e s' (hp s' hs)
  | op o k ih =>
    cases n with
    | zero => exact fun s' _ => hnone s'
    | succ n =>
      intro s' hs
      obtain ⟨hG, hk⟩ := hp s' hs
      exact ⟨hG, ih _ hk n⟩

/-- A result that is known without performing an operation. -/
theorem Meets.lift {x : Except ε α} (hx : ∀ s', R s s' → Q x s') :
    (Prog.lift x : Prog S ε α).Meets h R G Q s := by
  cases x with
  | ok a => exact hx
  | error e => exact hx

end Prog

/-! ## Interleavings -/

/-- What each process guarantees is what the others rely on, and so is what the environment does. -/
structure Team (h : Handler S σ) (env : δ → σ → σ) (R G : ι → σ → σ → Prop) : Prop where
  refl : ∀ i s, R i s s
  trans : ∀ i {s s' s''}, R i s s' → R i s' s'' → R i s s''
  guar_refl : ∀ i s, G i s s
  guar : ∀ {i j s s'}, i ≠ j → G i s s' → R j s s'
  env_rely : ∀ i d s, R i s (env d s)

namespace Team

variable {h : Handler S σ} {env : δ → σ → σ} {R G : ι → σ → σ → Prop}
  {Q : ι → Except ε α → σ → Prop} {c : Conf S σ ι ε α}

/-- Every process meets its part. -/
def Meets (h : Handler S σ) (R G : ι → σ → σ → Prop) (Q : ι → Except ε α → σ → Prop)
    (c : Conf S σ ι ε α) : Prop :=
  ∀ i, (c.proc i).Meets h (R i) (G i) (Q i) c.shared

theorem env_meets (T : Team h env R G) (hc : Meets h R G Q c) (d : δ) :
    Meets h R G Q ⟨env d c.shared, c.proc⟩ :=
  fun j => (hc j).later (T.trans j) (T.env_rely j d _)

/-- A process that has returned has established its postcondition, and it still holds. -/
theorem returned (T : Team h env R G) (hc : Meets h R G Q c) {i : ι} {a : α}
    (hret : c.proc i = .ret a) : Q i (.ok a) c.shared := by
  have hi := hc i
  rw [hret] at hi
  exact hi c.shared (T.refl i _)

variable [DecidableEq ι]

/-- The step of a process is in its guarantee, and afterwards every process meets its part. -/
theorem step (T : Team h env R G) (hc : Meets h R G Q c) (i : ι) :
    G i c.shared (c.step h i).shared ∧ Meets h R G Q (c.step h i) := by
  have hi := hc i
  unfold Conf.step
  cases hp : c.proc i with
  | ret a => exact ⟨T.guar_refl i _, hc⟩
  | fail e => exact ⟨T.guar_refl i _, hc⟩
  | op o k =>
    rw [hp] at hi
    obtain ⟨hG, hk⟩ := hi c.shared (T.refl i _)
    refine ⟨hG, fun j => ?_⟩
    dsimp only
    by_cases hj : j = i
    · subst hj
      rw [Function.update_self]
      exact hk
    · rw [Function.update_of_ne hj]
      exact (hc j).later (T.trans j) (T.guar (Ne.symm hj) hG)

theorem stepIn_op {d : δ} {i : ι} {o : S.Op} {k : S.Resp o → Prog S ε α} {r : S.Resp o} {t : σ}
    (hp : c.proc i = .op o k) (hserve : h o (env d c.shared) = (r, t)) :
    c.stepIn h env (d, i) = ⟨t, Function.update c.proc i (k r)⟩ := by
  have hstep := Conf.step_op (h := h) (c := ⟨env d c.shared, c.proc⟩) hp
  rw [hserve] at hstep
  exact hstep

theorem stepIn (T : Team h env R G) (hc : Meets h R G Q c) (e : δ × ι) :
    G e.2 (env e.1 c.shared) (c.stepIn h env e).shared ∧ Meets h R G Q (c.stepIn h env e) :=
  T.step (T.env_meets hc e.1) e.2

theorem run (T : Team h env R G) (hc : Meets h R G Q c) (sched : List (δ × ι)) :
    Meets h R G Q (Run.run (Conf.stepIn h env) c sched) :=
  Run.run_inv (fun _ e hc => (T.stepIn hc e).2) hc

end Team
end Atomic
