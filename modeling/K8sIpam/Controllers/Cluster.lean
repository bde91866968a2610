import K8sIpam.Controllers.Reconciler

/-! # Controllers and their backend

A resource in the API, its controller and the backend as one system: reconciles, in which calls
can fail, edits of the spec and the deletion of the resource. -/

namespace K8sIpam.Controllers
open Std Atomic Prog Backend

variable {R S Ix Req Resp T Text α : Type}

/-! ## Calls to the backend -/

/-- What becomes of a call: the backend serves it, while calls that it makes to the API can fail;
it does not arrive; or it is served and the answer is lost. -/
inductive Fate where
  | served (errs : ApiErrors)
  | unreached (msg : String)
  | unanswered (errs : ApiErrors) (msg : String)
  deriving DecidableEq

def failureText : Failure → String
  | .error msg | .panic msg => msg

def Fate.serve (call : ApiErrors → World T Text → Except Failure α × World T Text)
    (w : World T Text) : Fate → Except String α × World T Text
  | .served errs =>
    let (x, w) := call errs w
    (x.mapError failureText, w)
  | .unreached msg => (.error msg, w)
  | .unanswered errs msg => (.error msg, (call errs w).2)

/-- The client proxy: what is asked of the backend for a request of the controller. -/
structure Client (Ix Req Resp T Text : Type) where
  index : Ix → ApiErrors → World T Text → Except Failure Unit × World T Text
  claim : Req → ApiErrors → World T Text → Except Failure Resp × World T Text
  deleteClaim : Req → ApiErrors → World T Text → Except Failure Unit × World T Text

/-! ## One reconcile -/

/-- The resource in the API and the backend. -/
structure Cluster (R T Text : Type) where
  object : Option (Object R)
  world : World T Text

/-- What a reconcile meets: the calls to the API that fail, the index, and the fates of the calls
to the backend in their order. Further calls are served. -/
structure Turn where
  addFinalizer : Option String
  removeFinalizer : Option String
  updateStatus : Option String
  index : IndexView
  fates : List Fate

/-- Every call succeeds. -/
def Turn.plain : Turn := ⟨none, none, none, .ready, []⟩

def nextFate : List Fate → Fate × List Fate
  | [] => (.served noErrors, [])
  | f :: fs => (f, fs)

/-- A controller: its client proxy, its reconcile, and what an update of the status and an edit
of the spec change in a resource. -/
structure Controller (R S Ix Req Resp T Text : Type) where
  client : Client Ix Req Resp T Text
  reconcile : Object R → CtrlProg (Object R) Ix Req Resp Result
  writeStatus : (new stored : R) → R
  writeSpec : S → R → R

namespace Controller

variable (C : Controller R S Ix Req Resp T Text)

/-- A call to the backend meets the next fate. -/
def call (f : ApiErrors → World T Text → Except Failure α × World T Text)
    (s : Cluster R T Text × List Fate) : Except String α × Cluster R T Text × List Fate :=
  let (fate, fates) := nextFate s.2
  let (x, w) := fate.serve f s.1.world
  (x, { s.1 with world := w }, fates)

/-- The finalizer is only written when it is not there. A resource that is marked as deleted goes
away with its finalizer. -/
def handler (t : Turn) : Handler (ctrlSig (Object R) Ix Req Resp) (Cluster R T Text × List Fate)
  | .addFinalizer, s =>
    match s.1.object, t.addFinalizer with
    | none, _ => (.ok (), s)
    | some o, msg =>
      if o.finalizer then (.ok (), s)
      else
        match msg with
        | some msg => (.error msg, s)
        | none => (.ok (), { s.1 with object := some { o with finalizer := true } }, s.2)
  | .removeFinalizer, s =>
    match t.removeFinalizer with
    | some msg => (.error msg, s)
    | none => (.ok (), { s.1 with object := none }, s.2)
  | .updateStatus new, s =>
    match t.updateStatus with
    | some msg => (.error msg, s)
    | none =>
      (.ok (), { s.1 with object := s.1.object.map fun o =>
        { o with cr := C.writeStatus new.cr o.cr, conditions := new.conditions } }, s.2)
  | .getIndex _, s => (t.index, s)
  | .index i, s => call (C.client.index i) s
  | .claim r, s => call (C.client.claim r) s
  | .deleteClaim r, s => call (C.client.deleteClaim r) s

/-- The state of the world after a call is that of the request, or the one before it. -/
theorem call_world {f : ApiErrors → World T Text → Except Failure α × World T Text}
    {s : Cluster R T Text × List Fate} {Q : World T Text → Prop} (hw : Q s.1.world)
    (hf : ∀ errs, Q (f errs s.1.world).2) : Q (call f s).2.1.world := by
  unfold call
  rcases nextFate s.2 with ⟨fate, fates⟩
  cases fate with
  | served errs => exact hf errs
  | unreached msg => exact hw
  | unanswered errs msg => exact hf errs

/-- A call that is answered with a result has been served. -/
theorem call_ok {f : ApiErrors → World T Text → Except Failure α × World T Text}
    {s : Cluster R T Text × List Fate} {a : α} (h : (call f s).1 = .ok a) :
    ∃ errs, f errs s.1.world = (.ok a, (call f s).2.1.world) := by
  unfold call at h ⊢
  generalize nextFate s.2 = next at h ⊢
  obtain ⟨fate, fates⟩ := next
  cases fate with
  | served errs =>
    refine ⟨errs, Prod.ext ?_ rfl⟩
    dsimp only [Fate.serve] at h
    cases hx : (f errs s.1.world).1 with
    | error e =>
      rw [hx] at h
      cases h
    | ok a' =>
      rw [hx] at h
      cases h
      rfl
  | unreached msg => cases h
  | unanswered errs msg => cases h

/-! ## Runs -/

inductive Event (S : Type) where
  | reconcile (t : Turn)
  | edit (spec : S)
  | delete

/-- A resource without a finalizer is gone when it is deleted. -/
def step (s : Cluster R T Text) : Event S → Cluster R T Text
  | .reconcile t =>
    match s.object with
    | none => s
    | some o => ((C.reconcile o).run (C.handler t) (s, t.fates)).2.1
  | .edit spec =>
    { s with object := s.object.map fun o => { o with cr := C.writeSpec spec o.cr } }
  | .delete =>
    { s with object := s.object.bind fun o =>
        if o.finalizer then some { o with deleted := true } else none }

end Controller
end K8sIpam.Controllers
