import K8sIpam.Lib.Run

/-! # Programs over atomic operations

A program is a tree of atomic operations on a shared state: it returns, fails, or performs one
operation and continues with the response. The same tree is run alone (`Prog.run`) and in
arbitrary interleavings with other trees (`Conf.run`), so a sequential fact and a concurrent
fact about a piece of code are facts about one definition. -/

namespace Atomic

/-- The operations of a shared object and the type of their responses. -/
structure Sig where
  Op : Type
  Resp : Op → Type

/-- How a call ends without a result: with an error, or with a crash of the process. -/
inductive Failure where
  | error (msg : String)
  | panic (msg : String)
  deriving DecidableEq

/-- The call ends with a crash. -/
def Crashes {α : Type} (x : Except Failure α) : Prop := ∃ msg, x = .error (.panic msg)

theorem not_crashes_ok {α : Type} {a : α} : ¬Crashes (.ok a : Except Failure α) := by
  rintro ⟨msg, h⟩
  cases h

theorem not_crashes_error {α : Type} {msg : String} :
    ¬Crashes (.error (.error msg) : Except Failure α) := by
  rintro ⟨msg', h⟩
  cases h

theorem crashes_error {α β : Type} {e : Failure} :
    Crashes (.error e : Except Failure α) ↔ Crashes (.error e : Except Failure β) := by
  simp [Crashes]

/-- A sequence of two results is a result exactly when both are. -/
theorem bind_eq_ok {ε α β : Type} {x : Except ε α} {f : α → Except ε β} {b : β} :
    x >>= f = .ok b ↔ ∃ a, x = .ok a ∧ f a = .ok b := by
  cases x with
  | error e => simp [bind, Except.bind]
  | ok a => simp [bind, Except.bind]

/-- A sequence crashes in its first part or in its second. -/
theorem crashes_bind {α β : Type} {x : Except Failure α} {f : α → Except Failure β} :
    Crashes (x >>= f) ↔ Crashes x ∨ ∃ a, x = .ok a ∧ Crashes (f a) := by
  cases x with
  | error e => simp [Crashes, bind, Except.bind]
  | ok a => simp [Crashes, bind, Except.bind]

inductive Prog (S : Sig) (ε α : Type) where
  | ret (a : α)
  | fail (e : ε)
  | op (o : S.Op) (k : S.Resp o → Prog S ε α)

/-- What an operation answers and what it does to the shared state. -/
abbrev Handler (S : Sig) (σ : Type) := (o : S.Op) → σ → S.Resp o × σ

variable {S : Sig} {ε α β γ σ : Type}

namespace Prog

def bind : Prog S ε α → (α → Prog S ε β) → Prog S ε β
  | .ret a, f => f a
  | .fail e, _ => .fail e
  | .op o k, f => .op o fun r => (k r).bind f

instance : Monad (Prog S ε) where
  pure := .ret
  bind := bind

/-- Perform one operation and return its response. -/
def perform (o : S.Op) : Prog S ε (S.Resp o) := .op o .ret

/-- A result that is known without performing an operation. -/
def lift : Except ε α → Prog S ε α
  | .ok a => .ret a
  | .error e => .fail e

@[simp] theorem lift_ok (a : α) : (lift (.ok a) : Prog S ε α) = .ret a := rfl
@[simp] theorem lift_error (e : ε) : (lift (.error e) : Prog S ε α) = .fail e := rfl

@[simp] theorem pure_eq (a : α) : (pure a : Prog S ε α) = .ret a := rfl
@[simp] theorem ret_bind (a : α) (f : α → Prog S ε β) : (.ret a : Prog S ε α) >>= f = f a := rfl
@[simp] theorem fail_bind (e : ε) (f : α → Prog S ε β) :
    (.fail e : Prog S ε α) >>= f = .fail e := rfl
@[simp] theorem op_bind (o : S.Op) (k : S.Resp o → Prog S ε α) (f : α → Prog S ε β) :
    .op o k >>= f = .op o fun r => k r >>= f := rfl
@[simp] theorem perform_bind (o : S.Op) (f : S.Resp o → Prog S ε β) :
    perform o >>= f = .op o f := rfl

theorem bind_ret (p : Prog S ε α) : (p >>= fun a => .ret a) = p := by
  induction p with
  | ret a => rfl
  | fail e => rfl
  | op o k ih => exact congrArg (Prog.op o) (funext ih)

/-- Run a program alone, from a given shared state. -/
def run (h : Handler S σ) : Prog S ε α → σ → Except ε α × σ
  | .ret a, s => (.ok a, s)
  | .fail e, s => (.error e, s)
  | .op o k, s => (k (h o s).1).run h (h o s).2

section
variable (h : Handler S σ)

@[simp] theorem run_ret (a : α) (s : σ) : (.ret a : Prog S ε α).run h s = (.ok a, s) := rfl
@[simp] theorem run_fail (e : ε) (s : σ) : (.fail e : Prog S ε α).run h s = (.error e, s) := rfl
@[simp] theorem run_op (o : S.Op) (k : S.Resp o → Prog S ε α) (s : σ) :
    (Prog.op o k).run h s = (k (h o s).1).run h (h o s).2 := rfl

@[simp] theorem run_lift (x : Except ε α) (s : σ) :
    (lift x : Prog S ε α).run h s = (x, s) := by
  cases x <;> rfl

/-- A sequence runs its first part, and its second part on what the first one leaves. -/
theorem run_bind (p : Prog S ε α) (f : α → Prog S ε β) (s : σ) :
    (p >>= f).run h s = match p.run h s with
      | (.ok a, s') => (f a).run h s'
      | (.error e, s') => (.error e, s') := by
  induction p generalizing s with
  | ret a => rfl
  | fail e => rfl
  | op o k ih => exact ih _ _

theorem run_bind_of_ok {p : Prog S ε α} {f : α → Prog S ε β} {s t : σ} {a : α}
    (hp : p.run h s = (.ok a, t)) : (p >>= f).run h s = (f a).run h t := by
  rw [run_bind, hp]

/-- A sequence succeeds exactly when both parts do. -/
theorem run_bind_ok {p : Prog S ε α} {f : α → Prog S ε β} {s s' : σ} {b : β} :
    (p >>= f).run h s = (.ok b, s') ↔
      ∃ a t, p.run h s = (.ok a, t) ∧ (f a).run h t = (.ok b, s') := by
  rw [run_bind]
  rcases hp : p.run h s with ⟨_ | a, t⟩
  · simp
  · constructor
    · exact fun hf => ⟨a, t, rfl, hf⟩
    · rintro ⟨_, _, ⟨⟩, hf⟩
      exact hf

end

/-- The operations that a run performs, with their responses. -/
def trace (h : Handler S σ) : Prog S ε α → σ → List ((o : S.Op) × S.Resp o)
  | .ret _, _ | .fail _, _ => []
  | .op o k, s => ⟨o, (h o s).1⟩ :: (k (h o s).1).trace h (h o s).2

theorem trace_bind_of_ok {h : Handler S σ} {p : Prog S ε α} {f : α → Prog S ε β} {s t : σ} {a : α}
    (hp : p.run h s = (.ok a, t)) :
    (p >>= f).trace h s = p.trace h s ++ (f a).trace h t := by
  induction p generalizing s with
  | ret b =>
    cases hp
    rfl
  | fail e => cases hp
  | op o k ih => exact congrArg (List.cons _) (ih _ hp)

@[simp] theorem trace_op (h : Handler S σ) (o : S.Op) (k : S.Resp o → Prog S ε α) (s : σ) :
    (Prog.op o k).trace h s = ⟨o, (h o s).1⟩ :: (k (h o s).1).trace h (h o s).2 := rfl

/-- Every operation the program can perform, whatever the responses, is allowed. -/
def Uses (A : S.Op → Prop) : Prog S ε α → Prop
  | .ret _ | .fail _ => True
  | .op o k => A o ∧ ∀ r, (k r).Uses A

/-- Every value the program can return, whatever the responses, satisfies `Q`. -/
def Returns (Q : α → Prop) : Prog S ε α → Prop
  | .ret a => Q a
  | .fail _ => True
  | .op _ k => ∀ r, (k r).Returns Q

theorem Uses.bind {A : S.Op → Prop} {p : Prog S ε α} {f : α → Prog S ε β}
    (hp : p.Uses A) (hf : ∀ a, (f a).Uses A) : (p >>= f).Uses A := by
  induction p with
  | ret a => exact hf a
  | fail e => trivial
  | op o k ih => exact ⟨hp.1, fun r => ih r (hp.2 r)⟩

theorem Uses.mono {A B : S.Op → Prop} {p : Prog S ε α} (hp : p.Uses A) (hAB : ∀ o, A o → B o) :
    p.Uses B := by
  induction p with
  | ret a => trivial
  | fail e => trivial
  | op o k ih => exact ⟨hAB o hp.1, fun r => ih r (hp.2 r)⟩

theorem Returns.bind {Q : β → Prop} {p : Prog S ε α} {f : α → Prog S ε β}
    (hf : ∀ a, (f a).Returns Q) : (p >>= f).Returns Q := by
  induction p with
  | ret a => exact hf a
  | fail e => trivial
  | op o k ih => exact fun r => ih r

/-- A fact kept by every allowed operation is kept by a run. -/
theorem Uses.run_inv {h : Handler S σ} {A : S.Op → Prop} {I : σ → Prop}
    (keep : ∀ o s, A o → I s → I (h o s).2) {p : Prog S ε α} (hp : p.Uses A) {s : σ} (hs : I s) :
    I (p.run h s).2 := by
  induction p generalizing s with
  | ret a => exact hs
  | fail e => exact hs
  | op o k ih => exact ih _ (hp.2 _) (keep o s hp.1 hs)

/-- What each operation keeps, a program keeps. -/
theorem run_inv {h : Handler S σ} {I : σ → Prop} (keep : ∀ o s, I s → I (h o s).2)
    (p : Prog S ε α) {s : σ} (hs : I s) : I (p.run h s).2 := by
  induction p generalizing s with
  | ret a => exact hs
  | fail e => exact hs
  | op o k ih => exact ih _ (keep o s hs)

/-- If the program fails, it leaves the shared state as it was. -/
def FailsClean (h : Handler S σ) (p : Prog S ε α) (s : σ) : Prop :=
  ∀ e s', p.run h s = (.error e, s') → s' = s

theorem FailsClean.of_ok {h : Handler S σ} {p : Prog S ε α} {s t : σ} {a : α}
    (hp : p.run h s = (.ok a, t)) : p.FailsClean h s := by
  intro e s' he
  cases hp.symm.trans he

theorem FailsClean.of_reads {h : Handler S σ} {p : Prog S ε α} {s : σ}
    (hp : (p.run h s).2 = s) : p.FailsClean h s := by
  intro e s' he
  rwa [he] at hp

/-- A first part that does not write may fail at any time. -/
theorem FailsClean.bind {h : Handler S σ} {p : Prog S ε α} {f : α → Prog S ε β} {s : σ}
    (hp : (p.run h s).2 = s) (hf : ∀ a, p.run h s = (.ok a, s) → (f a).FailsClean h s) :
    (p >>= f).FailsClean h s := by
  intro e s' he
  rw [run_bind] at he
  rcases hrun : p.run h s with ⟨e' | a, t⟩
  all_goals
    rw [hrun] at hp he
    subst hp
  · exact (Prod.mk.inj he).2.symm
  · exact hf a hrun e s' he

/-- The operation a program is about to perform. -/
def next : Prog S ε α → Option S.Op
  | .op o _ => some o
  | _ => none

@[simp] theorem next_ret (a : α) : (.ret a : Prog S ε α).next = none := rfl
@[simp] theorem next_fail (e : ε) : (.fail e : Prog S ε α).next = none := rfl
@[simp] theorem next_op (o : S.Op) (k : S.Resp o → Prog S ε α) : (Prog.op o k).next = some o := rfl

theorem Uses.next {A : S.Op → Prop} {p : Prog S ε α} {o : S.Op} (hp : p.Uses A)
    (ho : p.next = some o) : A o := by
  cases p with
  | op o' k =>
    cases ho
    exact hp.1
  | ret a => cases ho
  | fail e => cases ho

/-- The value that a finished program has returned. -/
def returned : Prog S ε α → Option α
  | .ret a => some a
  | _ => none

theorem returned_eq_some {p : Prog S ε α} {a : α} : p.returned = some a ↔ p = .ret a := by
  cases p <;> simp [returned]

end Prog

/-! ## Interleavings -/

/-- A shared state and the programs of the processes that work on it. -/
structure Conf (S : Sig) (σ ι ε α : Type) where
  shared : σ
  proc : ι → Prog S ε α

namespace Conf

variable {ι : Type} [DecidableEq ι] (h : Handler S σ)

/-- Process `i` performs its next operation; a finished process stays as it is. -/
def step (c : Conf S σ ι ε α) (i : ι) : Conf S σ ι ε α :=
  match c.proc i with
  | .ret _ | .fail _ => c
  | .op o k => ⟨(h o c.shared).2, Function.update c.proc i (k (h o c.shared).1)⟩

theorem step_op {h : Handler S σ} {c : Conf S σ ι ε α} {i : ι} {o : S.Op}
    {k : S.Resp o → Prog S ε α} (hp : c.proc i = .op o k) :
    c.step h i = ⟨(h o c.shared).2, Function.update c.proc i (k (h o c.shared).1)⟩ := by
  simp only [step, hp]

/-- The configuration after the processes have moved in the given order. -/
def run (c : Conf S σ ι ε α) (sched : List ι) : Conf S σ ι ε α := Run.run (step h) c sched

/-- Every step of the schedule is taken in a configuration that allows it. -/
def Guarded (ok : Conf S σ ι ε α → ι → Prop) (c : Conf S σ ι ε α) (sched : List ι) : Prop :=
  Run.Guarded (step h) ok c sched

instance (ok : Conf S σ ι ε α → ι → Prop) [∀ c i, Decidable (ok c i)] (c : Conf S σ ι ε α)
    (sched : List ι) : Decidable (Guarded h ok c sched) :=
  Run.decidableGuarded (step h) ok c sched

/-- Each process has an assertion about the shared state and the rest of its program, and the
programs of any two processes are compatible. -/
structure Inv (A : ι → σ → Prog S ε α → Prop) (B : Prog S ε α → Prog S ε α → Prop)
    (c : Conf S σ ι ε α) : Prop where
  holds : ∀ i, A i c.shared (c.proc i)
  compat : ∀ i j, i ≠ j → B (c.proc i) (c.proc j)

/-- An allowed step keeps the assertion of the process that moves, the assertions of the others,
and the compatibility of the one with the others. -/
structure Keeps (ok : Conf S σ ι ε α → ι → Prop) (A : ι → σ → Prog S ε α → Prop)
    (B : Prog S ε α → Prog S ε α → Prop) : Prop where
  symm : ∀ p q, B p q → B q p
  own : ∀ c i o k, Inv A B c → c.proc i = .op o k → ok c i →
    A i (h o c.shared).2 (k (h o c.shared).1)
  other : ∀ c i o k j, Inv A B c → c.proc i = .op o k → ok c i → i ≠ j →
    A j (h o c.shared).2 (c.proc j)
  pair : ∀ c i o k j, Inv A B c → c.proc i = .op o k → ok c i → i ≠ j →
    B (k (h o c.shared).1) (c.proc j)

variable {h} {ok : Conf S σ ι ε α → ι → Prop} {A : ι → σ → Prog S ε α → Prop}
  {B : Prog S ε α → Prog S ε α → Prop}

theorem Keeps.step (K : Keeps h ok A B) {c : Conf S σ ι ε α} {i : ι} (hc : Inv A B c)
    (hok : ok c i) : Inv A B (c.step h i) := by
  cases hp : c.proc i with
  | ret a => simpa only [Conf.step, hp] using hc
  | fail e => simpa only [Conf.step, hp] using hc
  | op o k =>
    rw [step_op hp]
    constructor
    · intro j
      by_cases hj : j = i
      · subst hj
        simpa only [Function.update_self] using K.own c j o k hc hp hok
      · simpa only [Function.update_of_ne hj] using K.other c i o k j hc hp hok (Ne.symm hj)
    · intro j j' hjj'
      dsimp only
      by_cases hj : j = i
      · subst hj
        rw [Function.update_self, Function.update_of_ne hjj'.symm]
        exact K.pair c j o k j' hc hp hok hjj'
      · rw [Function.update_of_ne hj]
        by_cases hj' : j' = i
        · subst hj'
          rw [Function.update_self]
          exact K.symm _ _ (K.pair c j' o k j hc hp hok hjj'.symm)
        · rw [Function.update_of_ne hj']
          exact hc.compat j j' hjj'

/-- Assertions that are kept by each allowed step hold after every allowed interleaving. -/
theorem Keeps.run (K : Keeps h ok A B) {c : Conf S σ ι ε α} {sched : List ι}
    (hc : Inv A B c) (hg : Guarded h ok c sched) : Inv A B (c.run h sched) :=
  Run.Guarded.inv (I := Inv A B) (fun _ _ hc hok => K.step hc hok) hg hc

end Conf
end Atomic
