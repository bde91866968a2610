import K8sIpam.Lib.Prog

/-! # Programs under interference

What a program does among others that only ever move the shared state forward in a given relation,
and with an environment that does so too between the operations. -/

namespace Atomic

variable {S : Sig} {ε α σ δ ι : Type} {h : Handler S σ} {le : σ → σ → Prop} {I : σ → Prop}

/-- However far others have moved the state before each of its operations, the program keeps the
invariant. -/
def Prog.Safe (h : Handler S σ) (le : σ → σ → Prop) (I : σ → Prop) : Prog S ε α → σ → Prop
  | .ret _, _ | .fail _, _ => True
  | .op o k, s => ∀ s', le s s' → I s' → I (h o s').2 ∧ (k (h o s').1).Safe h le I (h o s').2

/-- Every operation and the environment move the state forward. -/
structure Rely (h : Handler S σ) (env : δ → σ → σ) (le : σ → σ → Prop) (I : σ → Prop) : Prop where
  refl : ∀ s, le s s
  trans : ∀ {s s' s''}, le s s' → le s' s'' → le s s''
  op_le : ∀ o s, le s (h o s).2
  env_le : ∀ d s, le s (env d s)
  env_inv : ∀ d s, I s → I (env d s)

theorem Prog.Safe.mono {p : Prog S ε α} {s s' : σ} (hp : p.Safe h le I s)
    (htrans : ∀ {s s' s''}, le s s' → le s' s'' → le s s'') (hle : le s s') :
    p.Safe h le I s' := by
  cases p with
  | ret a => trivial
  | fail e => trivial
  | op o k => exact fun s'' hle' => hp s'' (htrans hle hle')

variable [DecidableEq ι]

/-- The environment moves, and then a process does. -/
def Conf.stepIn (h : Handler S σ) (env : δ → σ → σ) (c : Conf S σ ι ε α) (e : δ × ι) :
    Conf S σ ι ε α :=
  Conf.step h ⟨env e.1 c.shared, c.proc⟩ e.2

/-- The invariant holds and every process is safe from here on. -/
structure Conf.Safe (h : Handler S σ) (le : σ → σ → Prop) (I : σ → Prop)
    (c : Conf S σ ι ε α) : Prop where
  inv : I c.shared
  safe : ∀ i, (c.proc i).Safe h le I c.shared

variable {env : δ → σ → σ} {c : Conf S σ ι ε α}

theorem Rely.step (R : Rely h env le I) (hc : c.Safe h le I) (i : ι) :
    (c.step h i).Safe h le I := by
  have hi := hc.safe i
  unfold Conf.step
  cases hp : c.proc i with
  | ret a => exact hc
  | fail e => exact hc
  | op o k =>
    rw [hp] at hi
    obtain ⟨hinv, hk⟩ := hi c.shared (R.refl _) hc.inv
    refine ⟨hinv, fun j => ?_⟩
    dsimp only
    by_cases hj : j = i
    · subst hj
      rw [Function.update_self]
      exact hk
    · rw [Function.update_of_ne hj]
      exact (hc.safe j).mono R.trans (R.op_le o _)

theorem Rely.stepIn (R : Rely h env le I) (hc : c.Safe h le I) (e : δ × ι) :
    (c.stepIn h env e).Safe h le I := by
  apply R.step
  exact ⟨R.env_inv _ _ hc.inv, fun j => (hc.safe j).mono R.trans (R.env_le _ _)⟩

/-- Safe programs keep the invariant in every interleaving. -/
theorem Rely.run (R : Rely h env le I) (hc : c.Safe h le I) (sched : List (δ × ι)) :
    I (Run.run (Conf.stepIn h env) c sched).shared := by
  have hrun : (Run.run (Conf.stepIn h env) c sched).Safe h le I :=
    Run.run_inv (I := Conf.Safe h le I) (fun _ e hc => R.stepIn hc e) hc
  exact hrun.inv

end Atomic
