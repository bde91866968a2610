import Mathlib.Data.List.Basic

/-! # Conditions of a resource

`apis/resource/common/v1alpha1/condition.go`, as far as the controllers of claims and of network
instances use it. The transition time of a condition is left out: no function reads it. -/

namespace K8sIpam

inductive ConditionType where
  | synced | ready
  deriving DecidableEq

inductive ConditionReason where
  | none | ready | failed | unknown | reconcileSuccess | reconcileFailure
  deriving DecidableEq

/-- The status is one of true and false here. -/
structure Condition where
  type : ConditionType
  status : Bool
  reason : ConditionReason
  message : String
  deriving DecidableEq

namespace Condition

def ready : Condition := ⟨.ready, true, .ready, ""⟩

def unknown : Condition := ⟨.ready, false, .unknown, ""⟩

def failed (msg : String) : Condition := ⟨.ready, false, .failed, msg⟩

def reconcileSuccess : Condition := ⟨.synced, true, .reconcileSuccess, ""⟩

def reconcileError (err : String) : Condition := ⟨.synced, false, .reconcileFailure, err⟩

end Condition

def getCondition (cs : List Condition) (t : ConditionType) : Condition :=
  (cs.find? fun c => c.type = t).getD ⟨t, false, .none, ""⟩

/-- Every condition of the type is replaced; without one the new condition is appended. -/
def setCondition (cs : List Condition) (new : Condition) : List Condition :=
  if cs.any fun c => c.type = new.type then
    cs.map fun c => if c.type = new.type then new else c
  else cs ++ [new]

def setConditions (cs news : List Condition) : List Condition := news.foldl setCondition cs

theorem getCondition_setCondition_self (cs : List Condition) (new : Condition) :
    getCondition (setCondition cs new) new.type = new := by
  unfold setCondition getCondition
  induction cs with
  | nil => simp
  | cons c cs ih =>
    by_cases hc : c.type = new.type
    · simp [hc]
    · simp only [List.any_cons, hc, decide_false, Bool.false_or] at ih ⊢
      split at ih
      next hany => simpa [hany, hc] using ih
      next hany => simpa [hany, hc] using ih

/-- The controllers set the ready condition last. -/
theorem getCondition_ready (cs : List Condition) (sync : Condition) {new : Condition}
    (hnew : new.type = .ready) : getCondition (setConditions cs [sync, new]) .ready = new := by
  rw [setConditions, List.foldl_cons, List.foldl_cons, List.foldl_nil, ← hnew]
  exact getCondition_setCondition_self _ _

end K8sIpam
