import K8sIpam.Lib.RWMutex

/-! # The lock of the id database

`pkg/db/db.go`: the requests that each method makes of the one `sync.RWMutex` of a database. Some
methods call others while they hold it. -/

namespace K8sIpam.Db
open RWMutex

/-- The methods of a database. A search of a range or a size that is out of bounds ends before it
looks at the store. -/
inductive Method where
  | getConfig | set | get | getByLabel | getAll | has | delete | count | iterate | iterateFree
  | findFree | findFreeID
  | findFreeRange (inBounds : Bool)
  | findFreeSize (inBounds : Bool)
  deriving DecidableEq

/-- `RLock`, what is done under it, and the deferred `RUnlock`. -/
def reading (body : List Req) : List Req := .rlock :: body ++ [.runlock]

def iterateRequests : List Req := reading []

def iterateFreeRequests : List Req := reading []

def Method.requests : Method → List Req
  | .set | .delete => [.lock, .unlock]
  | .get | .has | .count => reading []
  | .iterate => iterateRequests
  | .iterateFree => iterateFreeRequests
  | .getByLabel | .getAll => reading iterateRequests
  | .findFree => iterateFreeRequests
  | .findFreeRange inBounds | .findFreeSize inBounds => if inBounds then iterateFreeRequests else []
  | .getConfig | .findFreeID => []

variable {ι : Type} [DecidableEq ι]

/-- Callers that each make some calls, one after the other. -/
def callers (calls : ι → List Method) : State ι := start fun i => (calls i).flatMap Method.requests

theorem requests_nested (m : Method) : Nested 0 false m.requests := by
  cases m with
  | findFreeRange inBounds =>
    cases inBounds <;> simp [Method.requests, iterateFreeRequests, reading, Nested]
  | findFreeSize inBounds =>
    cases inBounds <;> simp [Method.requests, iterateFreeRequests, reading, Nested]
  | _ => simp [Method.requests, iterateRequests, iterateFreeRequests, reading, Nested]

theorem callers_nested (ms : List Method) : Nested 0 false (ms.flatMap Method.requests) := by
  induction ms with
  | nil => exact ⟨rfl, rfl⟩
  | cons m ms ih => exact (requests_nested m).append ih

/-- Any number of callers, each with any calls, in any order: they are never stuck if no `Set` or
`Delete` asks for the lock while a `GetByLabel` or `GetAll` has it and has yet to call `Iterate`. -/
theorem callers_not_stuck (calls : ι → List Method) (sched : List ι)
    (hg : Run.Guarded next Polite (callers calls) sched) :
    ¬Stuck (Run.run next (callers calls) sched) :=
  not_stuck_of_guarded (fun i => callers_nested (calls i)) hg

/-- A `GetByLabel` and a `Set`. -/
def lister : Bool → List Method
  | true => [.getByLabel]
  | false => [.set]

/-- The `Set` waits until the `GetByLabel` has called `Iterate`. -/
theorem callers_not_stuck_after_iterate :
    ¬Stuck (Run.run next (callers lister) [true, true, false, true, true, false, false]) :=
  callers_not_stuck lister _ (by decide)

/-- The `Set` asks for the lock before the `GetByLabel` calls `Iterate`. -/
theorem callers_stuck : Stuck (Run.run next (callers lister) [true, false]) := by
  refine ⟨⟨true, by decide⟩, ?_⟩
  decide

end K8sIpam.Db
