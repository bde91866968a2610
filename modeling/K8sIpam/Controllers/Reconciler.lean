import K8sIpam.Api.Condition
import K8sIpam.Ipam.Reference
import K8sIpam.Ipam.Storage
import K8sIpam.Vlan.Storage

/-! # The controllers of IP claims and VLAN claims

`controllers/ipclaim` and `controllers/vlanclaim`: a reconcile as a program over the calls that it
makes, to the API and through the client proxy to the backend. The two reconcilers are one program
with parameters; where they differ is in how they compare the requested value with the one in the
status and with the one in the response. -/

namespace K8sIpam.Controllers
open Std Atomic Prog

/-! ## Calls -/

/-- A resource in the API. The finalizer is the one of its controller. -/
structure Object (R : Type) where
  cr : R
  conditions : List Condition
  deleted : Bool
  finalizer : Bool
  deriving DecidableEq

namespace Object

variable {R : Type} (o : Object R)

def isReady : Bool := (getCondition o.conditions .ready).status

def setConditions (cs : List Condition) : Object R :=
  { o with conditions := K8sIpam.setConditions o.conditions cs }

theorem isReady_setConditions (sync new : Condition) (hnew : new.type = .ready) :
    (o.setConditions [sync, new]).isReady = new.status := by
  rw [isReady, setConditions, getCondition_ready _ _ hnew]

end Object

/-- What a reconcile sees of the index of a claim. An error of the read counts as missing. -/
inductive IndexView where
  | missing | deleted | ready
  deriving DecidableEq

/-- The calls of a reconcile: `Obj` is what the status is updated from, `Ix` a request about an
index, `Req` what a claim is made for and `Resp` the response to a claim. -/
inductive CtrlOp (Obj Ix Req : Type) where
  | addFinalizer
  | removeFinalizer
  | updateStatus (o : Obj)
  | getIndex (id : ObjectReference)
  | index (i : Ix)
  | claim (r : Req)
  | deleteClaim (r : Req)
  deriving DecidableEq

variable {Obj Ix Req Resp : Type}

abbrev CtrlOp.Answer (Resp : Type) : CtrlOp Obj Ix Req → Type
  | .getIndex _ => IndexView
  | .claim _ => Except String Resp
  | _ => Except String Unit

abbrev ctrlSig (Obj Ix Req Resp : Type) : Sig := ⟨CtrlOp Obj Ix Req, CtrlOp.Answer Resp⟩

abbrev CtrlProg (Obj Ix Req Resp : Type) := Prog (ctrlSig Obj Ix Req Resp) Failure

namespace CtrlProg

def addFinalizer : CtrlProg Obj Ix Req Resp (Except String Unit) := .op .addFinalizer .ret
def removeFinalizer : CtrlProg Obj Ix Req Resp (Except String Unit) := .op .removeFinalizer .ret
def updateStatus (o : Obj) : CtrlProg Obj Ix Req Resp (Except String Unit) :=
  .op (.updateStatus o) .ret
def getIndex (id : ObjectReference) : CtrlProg Obj Ix Req Resp IndexView := .op (.getIndex id) .ret
def index (i : Ix) : CtrlProg Obj Ix Req Resp (Except String Unit) := .op (.index i) .ret
def claim (r : Req) : CtrlProg Obj Ix Req Resp (Except String Resp) := .op (.claim r) .ret
def deleteClaim (r : Req) : CtrlProg Obj Ix Req Resp (Except String Unit) := .op (.deleteClaim r) .ret

section
variable {α : Type}

@[simp] theorem addFinalizer_bind (f : Except String Unit → CtrlProg Obj Ix Req Resp α) :
    addFinalizer >>= f = .op .addFinalizer f := rfl
@[simp] theorem removeFinalizer_bind (f : Except String Unit → CtrlProg Obj Ix Req Resp α) :
    removeFinalizer >>= f = .op .removeFinalizer f := rfl
@[simp] theorem updateStatus_bind (o : Obj) (f : Except String Unit → CtrlProg Obj Ix Req Resp α) :
    updateStatus o >>= f = .op (.updateStatus o) f := rfl
@[simp] theorem getIndex_bind (id : ObjectReference) (f : IndexView → CtrlProg Obj Ix Req Resp α) :
    getIndex id >>= f = .op (.getIndex id) f := rfl
@[simp] theorem index_bind (i : Ix) (f : Except String Unit → CtrlProg Obj Ix Req Resp α) :
    index i >>= f = .op (.index i) f := rfl
@[simp] theorem claim_bind (r : Req) (f : Except String Resp → CtrlProg Obj Ix Req Resp α) :
    claim r >>= f = .op (.claim r) f := rfl
@[simp] theorem deleteClaim_bind (r : Req) (f : Except String Unit → CtrlProg Obj Ix Req Resp α) :
    deleteClaim r >>= f = .op (.deleteClaim r) f := rfl

end
end CtrlProg

/-- `ctrl.Result`; the delay is in seconds. -/
structure Result where
  requeue : Bool
  requeueAfter : Nat
  deriving DecidableEq

/-- The status is written at the end of a reconcile; an error of that is returned. -/
def finish (o : Obj) (r : Result) : CtrlProg Obj Ix Req Resp Result := do
  let res ← CtrlProg.updateStatus o
  match res with
  | .ok () => return r
  | .error msg => .fail (.error ("cannot update status: " ++ msg))

/-- The errors of a delete that a reconcile goes on after: those that mention both. -/
def tolerated (msg : String) : Bool :=
  "not ready".toList <:+: msg.toList ∧ "not found".toList <:+: msg.toList

/-! ## The reconcile of a claim -/

/-- A pointer to a value: two pointers can differ when the values are the same. -/
structure Ptr (V : Type) where
  addr : Nat
  val : V
  deriving DecidableEq

/-- The response of a claim, with the address of the value in its status. -/
structure Response (R : Type) where
  cr : R
  statusAt : Nat
  deriving DecidableEq

/-- What the reconcilers of claims differ in. -/
structure ClaimKind (R V : Type) where
  getCacheID : R → ObjectReference
  /-- The requested value, of the spec. -/
  specValue : R → Option V
  clearSpec : R → R
  /-- The claimed value, of the status. -/
  statusValue : R → Option V
  clearStatus : R → R
  takeStatus : (resp cr : R) → R
  /-- The status and the spec differ. -/
  changed : (status spec : Ptr V) → Bool
  /-- The response is not what the spec requests. -/
  refused : (resp : Option (Ptr V)) → (spec : Ptr V) → Bool

section
variable {R V : Type} (K : ClaimKind R V)

abbrev ClaimOp (R : Type) := CtrlOp (Object R) Empty R

abbrev ClaimProg (R : Type) := CtrlProg (Object R) Empty R (Response R)

/-- The resource goes away with its finalizer. -/
def removeFinalizer (o : Object R) : CtrlProg (Object R) Ix Req Resp Result := do
  let res ← CtrlProg.removeFinalizer
  match res with
  | .ok () => return ⟨false, 0⟩
  | .error msg => finish (o.setConditions [.reconcileError msg, .unknown]) ⟨true, 0⟩

/-- The claim is only deleted in the backend when the resource is ready. -/
def reconcileDeleted (o : Object R) : ClaimProg R Result :=
  if o.isReady then do
    let res ← CtrlProg.deleteClaim o.cr
    match res with
    | .error msg =>
      if tolerated msg then removeFinalizer o
      else finish (o.setConditions [.reconcileError msg, .unknown]) ⟨false, 0⟩
    | .ok () => removeFinalizer o
  else removeFinalizer o

def reconcileClaim (specAt : Nat) (o : Object R) : ClaimProg R Result := do
  let res ← CtrlProg.claim o.cr
  match res with
  | .error msg =>
    finish { o.setConditions [.reconcileSuccess, .failed msg] with cr := K.clearStatus o.cr } ⟨false, 5⟩
  | .ok resp =>
    let got := (K.statusValue resp.cr).map (⟨resp.statusAt, ·⟩)
    if (K.specValue o.cr).any fun v => K.refused got ⟨specAt, v⟩ then
      finish (o.setConditions [.reconcileSuccess, .unknown]) ⟨false, 5⟩
    else
      finish { o.setConditions [.reconcileSuccess, .ready] with cr := K.takeStatus resp.cr o.cr } ⟨false, 0⟩

/-- When the spec and the status differ, the claim is deleted first, without the value. -/
def reconcileSpec (specAt statusAt : Nat) (o : Object R) : ClaimProg R Result :=
  match K.specValue o.cr, K.statusValue o.cr with
  | some spec, some status =>
    if K.changed ⟨statusAt, status⟩ ⟨specAt, spec⟩ then do
      let res ← CtrlProg.deleteClaim (K.clearSpec o.cr)
      match res with
      | .error msg =>
        if tolerated msg then reconcileClaim K specAt o
        else
          let o := { o with cr := K.clearSpec o.cr }
          finish (o.setConditions [.reconcileError msg, .unknown]) ⟨false, 0⟩
      | .ok () => reconcileClaim K specAt o
    else reconcileClaim K specAt o
  | _, _ => reconcileClaim K specAt o

/-- The reconcile of a resource that has been read: the values in its spec and its status are at
the given addresses. -/
def reconcile (specAt statusAt : Nat) (o : Object R) : ClaimProg R Result :=
  if o.deleted then reconcileDeleted o
  else do
    let res ← CtrlProg.addFinalizer
    match res with
    | .error msg => finish (o.setConditions [.reconcileError msg, .unknown]) ⟨true, 0⟩
    | .ok () => do
      let index ← CtrlProg.getIndex (K.getCacheID o.cr)
      match index with
      | .missing =>
        finish (o.setConditions [.reconcileSuccess, .failed "index not found"]) ⟨false, 5⟩
      | .deleted =>
        finish (o.setConditions [.reconcileSuccess, .failed "index not ready"]) ⟨false, 5⟩
      | .ready => reconcileSpec K specAt statusAt o

end

/-- The reconciler of IP claims compares the status with the spec as pointers. -/
def ipClaimKind : ClaimKind Ipam.IPClaim String where
  getCacheID c := c.getCacheID
  specValue c := c.spec.pfx
  clearSpec c := { c with spec.pfx := none }
  statusValue c := c.status.pfx
  clearStatus c := { c with status := ⟨none, none⟩ }
  takeStatus resp c := { c with status := resp.status }
  changed status spec := status.addr ≠ spec.addr
  refused resp spec :=
    match resp with
    | none => true
    | some p => p.val ≠ spec.val

/-- The reconciler of VLAN claims compares the response with the spec as pointers. -/
def vlanClaimKind : ClaimKind Vlan.VLANClaim Vlan.VlanId where
  getCacheID c := getCacheID c.spec.vlanIndex
  specValue c := c.spec.vlanID
  clearSpec c := { c with spec.vlanID := none }
  statusValue c := c.status.vlanID
  clearStatus c := { c with status.vlanID := none }
  takeStatus resp c := { c with status.vlanID := resp.status.vlanID }
  changed status spec := status.val ≠ spec.val
  refused resp spec :=
    match resp with
    | none => false
    | some p => p.addr ≠ spec.addr

/-! ## Reconciles with given answers -/

/-- What the API and the backend answer during a reconcile. -/
structure Answers (R : Type) where
  addFinalizer : Except String Unit
  removeFinalizer : Except String Unit
  updateStatus : Except String Unit
  index : IndexView
  claim : Except String (Response R)
  deleteClaim : Except String Unit

section
variable {R V : Type}

def Answers.answer (a : Answers R) : (c : ClaimOp R) → c.Answer (Response R)
  | .addFinalizer => a.addFinalizer
  | .removeFinalizer => a.removeFinalizer
  | .updateStatus _ => a.updateStatus
  | .getIndex _ => a.index
  | .claim _ => a.claim
  | .deleteClaim _ => a.deleteClaim

/-- Every call is answered and recorded. -/
def Answers.handler (a : Answers R) :
    Handler (ctrlSig (Object R) Empty R (Response R)) (List (ClaimOp R)) :=
  fun c calls => (a.answer c, calls ++ [c])

/-- The calls of a reconcile. -/
def calls (K : ClaimKind R V) (a : Answers R) (specAt statusAt : Nat) (o : Object R) :
    List (ClaimOp R) :=
  ((reconcile K specAt statusAt o).run a.handler []).2

/-- The reconcile deletes nothing and reports the resource as ready. -/
def StaysReady (calls : List (ClaimOp R)) : Prop :=
  (∀ r, .deleteClaim r ∉ calls) ∧ ∃ o : Object R, .updateStatus o ∈ calls ∧ o.isReady = true

/-- A claim that is not being deleted, whose index is there, with the value `v` in its spec and its
status, and a backend that answers with `v`, at the address `respAt`. -/
structure Converged (K : ClaimKind R V) (a : Answers R) (o : Object R) (v : V) (respAt : Nat) :
    Prop where
  kept : o.deleted = false
  finalizer : a.addFinalizer = .ok ()
  index : a.index = .ready
  spec : K.specValue o.cr = some v
  status : K.statusValue o.cr = some v
  response : ∃ resp, a.claim = .ok ⟨resp, respAt⟩ ∧ K.statusValue resp = some v

variable {K : ClaimKind R V} {a : Answers R} {o : Object R} {v : V} {specAt statusAt respAt : Nat}

/-- Calls are only added. -/
theorem calls_grow {α : Type} (p : ClaimProg R α) (cs : List (ClaimOp R)) :
    ∃ cs', (p.run a.handler cs).2 = cs ++ cs' := by
  induction p generalizing cs with
  | ret a => exact ⟨[], (List.append_nil cs).symm⟩
  | fail e => exact ⟨[], (List.append_nil cs).symm⟩
  | op c k ih =>
    obtain ⟨cs', h⟩ := ih (a.answer c) (cs ++ [c])
    exact ⟨c :: cs', h.trans (List.append_cons ..).symm⟩

theorem finish_calls (o : Object R) (r : Result) (cs : List (ClaimOp R)) :
    ((finish o r : ClaimProg R Result).run a.handler cs).2 = cs ++ [.updateStatus o] := by
  rw [finish, CtrlProg.updateStatus_bind, run_op]
  dsimp only [Answers.handler, Answers.answer]
  cases a.updateStatus <;> rfl

/-- A converged claim gets to the comparison of its spec with its status. -/
theorem calls_eq (h : Converged K a o v respAt) :
    calls K a specAt statusAt o = ((reconcileSpec K specAt statusAt o).run a.handler
      [.addFinalizer, .getIndex (K.getCacheID o.cr)]).2 := by
  unfold calls reconcile
  rw [if_neg (by rw [h.kept]; exact Bool.false_ne_true), CtrlProg.addFinalizer_bind, run_op]
  dsimp only [Answers.handler, Answers.answer]
  rw [h.finalizer]
  dsimp only
  rw [CtrlProg.getIndex_bind, run_op]
  dsimp only [Answers.handler, Answers.answer]
  rw [h.index]
  rfl

/-- A converged claim that is taken for changed is deleted. -/
theorem deleteClaim_of_changed (h : Converged K a o v respAt)
    (hchanged : K.changed ⟨statusAt, v⟩ ⟨specAt, v⟩ = true) :
    .deleteClaim (K.clearSpec o.cr) ∈ calls K a specAt statusAt o := by
  rw [calls_eq h, reconcileSpec, h.spec, h.status]
  dsimp only
  rw [hchanged, if_pos rfl, CtrlProg.deleteClaim_bind, run_op]
  obtain ⟨cs', hcs⟩ := calls_grow (a := a) _ _
  rw [hcs]
  simp [Answers.handler]

/-- A converged claim that is not taken for changed is claimed again, and ready if the response is
accepted. -/
theorem calls_of_unchanged (h : Converged K a o v respAt)
    (hchanged : K.changed ⟨statusAt, v⟩ ⟨specAt, v⟩ = false) :
    ∃ o', calls K a specAt statusAt o =
        [.addFinalizer, .getIndex (K.getCacheID o.cr), .claim o.cr, .updateStatus o'] ∧
      o'.isReady = !K.refused (some ⟨respAt, v⟩) ⟨specAt, v⟩ := by
  obtain ⟨resp, hresp, hv⟩ := h.response
  rw [calls_eq h, reconcileSpec, h.spec, h.status]
  dsimp only
  rw [hchanged, if_neg Bool.false_ne_true, reconcileClaim, CtrlProg.claim_bind, run_op]
  dsimp only [Answers.handler, Answers.answer]
  rw [hresp]
  dsimp only
  rw [h.spec, hv, Option.map_some, Option.any_some]
  cases hrefused : K.refused (some ⟨respAt, v⟩) ⟨specAt, v⟩ with
  | true =>
    rw [if_pos rfl]
    exact ⟨_, finish_calls _ _ _, o.isReady_setConditions _ .unknown rfl⟩
  | false =>
    rw [if_neg Bool.false_ne_true]
    exact ⟨_, finish_calls _ _ _, o.isReady_setConditions _ .ready rfl⟩

theorem staysReady_iff (h : Converged K a o v respAt) :
    StaysReady (calls K a specAt statusAt o) ↔
      K.changed ⟨statusAt, v⟩ ⟨specAt, v⟩ = false ∧
      K.refused (some ⟨respAt, v⟩) ⟨specAt, v⟩ = false := by
  cases hchanged : K.changed ⟨statusAt, v⟩ ⟨specAt, v⟩ with
  | true =>
    refine ⟨fun hs => absurd (deleteClaim_of_changed h hchanged) (hs.1 _), fun hs => ?_⟩
    cases hs.1
  | false =>
    obtain ⟨o', hcalls, hready⟩ := calls_of_unchanged h hchanged
    rw [StaysReady, hcalls]
    simp [hready]

end

/-- The reconcile of a converged claim deletes nothing and ends ready exactly when the two pointers
that it compares are the same: for an IP claim those of the status and the spec, for a VLAN claim
those of the response and the spec. Values that have been decoded are at different addresses. -/
theorem converged_staysReady_iff (specAt statusAt respAt : Nat) :
    (∀ (a : Answers Ipam.IPClaim) (o : Object Ipam.IPClaim) (v : String),
      Converged ipClaimKind a o v respAt →
      (StaysReady (calls ipClaimKind a specAt statusAt o) ↔ statusAt = specAt)) ∧
    (∀ (a : Answers Vlan.VLANClaim) (o : Object Vlan.VLANClaim) (v : Vlan.VlanId),
      Converged vlanClaimKind a o v respAt →
      (StaysReady (calls vlanClaimKind a specAt statusAt o) ↔ respAt = specAt)) := by
  constructor
  · intro a o v h
    rw [staysReady_iff h]
    simp [ipClaimKind]
  · intro a o v h
    rw [staysReady_iff h]
    simp [vlanClaimKind]

/-- A claim that its controller has reported as ready. -/
def readyObject {R : Type} (cr : R) : Object R := ⟨cr, [.reconcileSuccess, .ready], false, true⟩

/-- Every call succeeds and the backend answers a claim with the given status. -/
def echoing {R : Type} (cr : R) (respAt : Nat) : Answers R :=
  ⟨.ok (), .ok (), .ok (), .ready, .ok ⟨cr, respAt⟩, .ok ()⟩

def convergedIPClaim : Ipam.IPClaim := (Ipam.networkClaim "a").setPrefix "10.0.0.1/24"

def convergedVLANClaim : Vlan.VLANClaim := (Vlan.sampleClaim "a" (some 100) none).setVLANID 100

/-- With the values at one address, both claims stay ready. -/
theorem converged_samples_staysReady :
    StaysReady (calls ipClaimKind (echoing convergedIPClaim 0) 0 0 (readyObject convergedIPClaim)) ∧
    StaysReady (calls vlanClaimKind (echoing convergedVLANClaim 0) 0 0
      (readyObject convergedVLANClaim)) :=
  ⟨((converged_staysReady_iff 0 0 0).1 _ _ "10.0.0.1/24"
      ⟨rfl, rfl, rfl, rfl, rfl, _, rfl, rfl⟩).mpr rfl,
    ((converged_staysReady_iff 0 0 0).2 _ _ 100 ⟨rfl, rfl, rfl, rfl, rfl, _, rfl, rfl⟩).mpr rfl⟩

/-- With the values at three addresses, the IP claim is deleted before it is claimed again, and the
VLAN claim is reported as not ready. -/
theorem converged_not_staysReady :
    convergedIPClaim.spec.pfx = some "10.0.0.1/24" ∧ convergedIPClaim.status.pfx = some "10.0.0.1/24" ∧
    calls ipClaimKind (echoing convergedIPClaim 2) 0 1 (readyObject convergedIPClaim) =
      [.addFinalizer, .getIndex ⟨"vpc", "default"⟩,
        .deleteClaim { convergedIPClaim with spec.pfx := none }, .claim convergedIPClaim,
        .updateStatus (readyObject convergedIPClaim)] ∧
    convergedVLANClaim.spec.vlanID = some 100 ∧ convergedVLANClaim.status.vlanID = some 100 ∧
    calls vlanClaimKind (echoing convergedVLANClaim 2) 0 1 (readyObject convergedVLANClaim) =
      [.addFinalizer, .getIndex ⟨"vlans", "default"⟩, .claim convergedVLANClaim,
        .updateStatus ((readyObject convergedVLANClaim).setConditions
          [.reconcileSuccess, .unknown])] := by
  decide +kernel

end K8sIpam.Controllers
