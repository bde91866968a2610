import K8sIpam.Controllers.Release

/-! # The controller of VLANs

`controllers/vlanvlan`: a VLAN names an identifier, a range or neither. Its controller compares the
identifier of the response with the one of the spec through both pointers, after the backend has
served the claim. -/

namespace K8sIpam.Controllers.VlanVlan
open Std Atomic Prog Backend

/-! ## The reconcile -/

structure VLANSpec where
  vlanIndex : ObjectReference
  vlanID : Option Vlan.VlanId
  vlanRange : Option String
  deriving DecidableEq

structure VLANStatus where
  vlanID : Option Vlan.VlanId
  deriving DecidableEq

structure VLAN where
  metadata : ObjectMeta
  spec : VLANSpec
  status : VLANStatus
  deriving DecidableEq

abbrev VlanOp := CtrlOp (Object VLAN) Empty VLAN

abbrev VlanProg := CtrlProg (Object VLAN) Empty VLAN Vlan.VLANClaim

def reconcileDeleted (o : Object VLAN) : VlanProg Result :=
  if o.isReady then do
    let res ← CtrlProg.deleteClaim o.cr
    match res with
    | .error msg =>
      if tolerated msg then removeFinalizer o
      else finish (o.setConditions [.reconcileError msg, .unknown]) ⟨false, 0⟩
    | .ok () => removeFinalizer o
  else removeFinalizer o

def nilDereference : Failure := .panic "invalid memory address or nil pointer dereference"

-- the backend has served the claim when the pointers are read
def reconcileClaim (o : Object VLAN) : VlanProg Result := do
  let res ← CtrlProg.claim o.cr
  match res with
  | .error msg => finish (o.setConditions [.reconcileSuccess, .failed msg]) ⟨false, 5⟩
  | .ok claimResp =>
    match claimResp.status.vlanID, o.cr.spec.vlanID with
    | some claimed, some requested =>
      if claimed ≠ requested then
        finish (o.setConditions [.reconcileSuccess, .unknown]) ⟨false, 5⟩
      else
        finish { o.setConditions [.reconcileSuccess, .ready] with
          cr := { o.cr with status.vlanID := o.cr.spec.vlanID } } ⟨false, 0⟩
    | _, _ => .fail nilDereference

/-- The errors of the delete of a changed identifier that a reconcile goes on after. -/
def toleratedChange (msg : String) : Bool :=
  tolerated msg && decide ("initalizing".toList <:+: msg.toList)

def reconcileSpec (o : Object VLAN) : VlanProg Result :=
  match o.cr.status.vlanID, o.cr.spec.vlanID with
  | some status, some spec =>
    if status ≠ spec then do
      let res ← CtrlProg.deleteClaim o.cr
      match res with
      | .error msg =>
        if toleratedChange msg then reconcileClaim o
        else finish (o.setConditions [.reconcileError msg, .unknown]) ⟨false, 5⟩
      | .ok () => reconcileClaim o
    else reconcileClaim o
  | _, _ => reconcileClaim o

def reconcile (o : Object VLAN) : VlanProg Result :=
  if o.deleted then reconcileDeleted o
  else do
    let res ← CtrlProg.addFinalizer
    match res with
    | .error msg => finish (o.setConditions [.reconcileError msg, .unknown]) ⟨true, 0⟩
    | .ok () => do
      let index ← CtrlProg.getIndex (getCacheID o.cr.spec.vlanIndex)
      match index with
      | .missing =>
        finish (o.setConditions [.reconcileSuccess, .failed "index not found"]) ⟨false, 5⟩
      | .deleted =>
        finish (o.setConditions [.reconcileSuccess, .failed "network-instance not ready"])
          ⟨false, 5⟩
      | .ready => reconcileSpec o

section
variable {T Text : Type} (client : Client Empty VLAN Vlan.VLANClaim T Text)

/-- What the client proxy asks for a VLAN: the labels of its spec are left out. -/
def normalizeKRM (cr : VLAN) : Vlan.VLANClaim :=
  Vlan.VLANClaim.addOwnerLabelsToCR
    { metadata := Ipam.ownedBy Vlan.vlanGVK cr.metadata
      spec := { labels := ∅, selector := none, vlanIndex := cr.spec.vlanIndex,
                vlanID := cr.spec.vlanID, vlanRange := cr.spec.vlanRange }
      status := ⟨none, none⟩ }

def vlanClient (yaml : Yaml (Store 16) Text) (order : Vlan.RestoreOrder) (refuses : NewRequirement) :
    Client Empty VLAN Vlan.VLANClaim (DB 16) Text where
  index i := nomatch i
  claim cr errs := Backend.claim (Vlan.app yaml order refuses) errs (normalizeKRM cr)
  deleteClaim cr errs := Backend.deleteClaim (Vlan.app yaml order refuses) errs (normalizeKRM cr)

def controller : Controller VLAN VLANSpec Empty VLAN Vlan.VLANClaim T Text where
  client
  reconcile
  writeStatus new stored := { stored with status := new.status }
  writeSpec spec cr := { cr with spec }

end

/-! ## VLANs without an identifier -/

/-- The calls for a VLAN without an identifier: it is claimed as it is, and never reported as
ready. -/
def Unserved (m : ObjectMeta) : VlanOp → Prop
  | .updateStatus o => o.isReady = false
  | .claim r => r.metadata = m ∧ r.spec.vlanID = none
  | .deleteClaim _ => False
  | _ => True

/-- A claim that the backend has answered with a response. -/
def answeredClaim :
    (c : VlanOp) × (ctrlSig (Object VLAN) Empty VLAN Vlan.VLANClaim).Resp c → Bool
  | ⟨.claim _, .ok _⟩ => true
  | _ => false

/-- Once its claim is answered, the reconcile ends in the panic, whatever serves its calls. -/
def PanicsOnceAnswered (p : VlanProg Result) : Prop :=
  ∀ (σ : Type) (h : Handler (ctrlSig (Object VLAN) Empty VLAN Vlan.VLANClaim) σ) (s : σ),
    (p.trace h s).any answeredClaim = true → (p.run h s).1 = .error nilDereference

theorem panics_ret (r : Result) : PanicsOnceAnswered (.ret r) := fun _ _ _ h => nomatch h

theorem panics_fail (e : Failure) : PanicsOnceAnswered (.fail e) := fun _ _ _ h => nomatch h

/-- A call that is not a claim leaves it to what follows. -/
theorem panics_op {c : VlanOp} {k : CtrlOp.Answer Vlan.VLANClaim c → VlanProg Result}
    (hc : ∀ x, answeredClaim ⟨c, x⟩ = false) (hk : ∀ x, PanicsOnceAnswered (k x)) :
    PanicsOnceAnswered (.op c k) := by
  intro σ h s hany
  rw [trace_op, List.any_cons, hc, Bool.false_or] at hany
  exact hk _ σ h _ hany

theorem panics_finish (o : Object VLAN) (res : Result) : PanicsOnceAnswered (finish o res) := by
  rw [finish, CtrlProg.updateStatus_bind]
  refine panics_op (fun _ => rfl) fun x => ?_
  cases x with
  | ok u => exact panics_ret res
  | error msg => exact panics_fail _

theorem panics_removeFinalizer (o : Object VLAN) : PanicsOnceAnswered (removeFinalizer o) := by
  rw [removeFinalizer, CtrlProg.removeFinalizer_bind]
  refine panics_op (fun _ => rfl) fun x => ?_
  cases x with
  | ok u => exact panics_ret _
  | error msg => exact panics_finish _ _

section
variable {m : ObjectMeta}

theorem finish_unserved {o : Object VLAN} (h : o.isReady = false) (res : Result) :
    (finish o res : VlanProg Result).Uses (Unserved m) := by
  refine ⟨h, fun x => ?_⟩
  cases x <;> trivial

theorem removeFinalizer_unserved (o : Object VLAN) :
    (removeFinalizer o : VlanProg Result).Uses (Unserved m) := by
  rw [removeFinalizer, CtrlProg.removeFinalizer_bind]
  refine ⟨trivial, fun x => ?_⟩
  cases x with
  | ok u => trivial
  | error msg => exact finish_unserved (o.isReady_setConditions _ _ rfl) _

end

section
variable {o : Object VLAN}

theorem reconcileSpec_eq (hid : o.cr.spec.vlanID = none) : reconcileSpec o = reconcileClaim o := by
  unfold reconcileSpec
  rw [hid]
  cases o.cr.status.vlanID <;> rfl

theorem reconcileDeleted_eq (hready : o.isReady = false) :
    reconcileDeleted o = removeFinalizer o := by
  rw [reconcileDeleted, if_neg (by rw [hready]; exact Bool.false_ne_true)]

/-- A VLAN without an identifier that is not ready is claimed, and what follows is a panic or an
error. -/
theorem reconcile_unserved (hready : o.isReady = false) (hid : o.cr.spec.vlanID = none) :
    (reconcile o).Uses (Unserved o.cr.metadata) := by
  have hclaim : (reconcileClaim o).Uses (Unserved o.cr.metadata) := by
    rw [reconcileClaim, CtrlProg.claim_bind]
    refine ⟨⟨rfl, hid⟩, fun x => ?_⟩
    cases x with
    | error msg => exact finish_unserved (o.isReady_setConditions _ _ rfl) _
    | ok resp =>
      dsimp only
      rw [hid]
      cases resp.status.vlanID <;> trivial
  unfold reconcile
  split
  · rw [reconcileDeleted_eq hready]
    exact removeFinalizer_unserved o
  · rw [CtrlProg.addFinalizer_bind]
    refine ⟨trivial, fun x => ?_⟩
    cases x with
    | error msg => exact finish_unserved (o.isReady_setConditions _ _ rfl) _
    | ok u =>
      rw [CtrlProg.getIndex_bind]
      refine ⟨trivial, fun view => ?_⟩
      cases view with
      | missing => exact finish_unserved (o.isReady_setConditions _ _ rfl) _
      | deleted => exact finish_unserved (o.isReady_setConditions _ _ rfl) _
      | ready => exact reconcileSpec_eq hid ▸ hclaim

theorem reconcile_panics (hready : o.isReady = false) (hid : o.cr.spec.vlanID = none) :
    PanicsOnceAnswered (reconcile o) := by
  have hclaim : PanicsOnceAnswered (reconcileClaim o) := by
    rw [reconcileClaim, CtrlProg.claim_bind]
    intro σ h s hany
    rw [trace_op, List.any_cons] at hany
    rw [run_op]
    rcases hresp : h (.claim o.cr) s with ⟨_ | resp, s'⟩
    · rw [hresp] at hany
      exact panics_finish _ _ σ h s' hany
    · dsimp only
      rw [hid]
      cases resp.status.vlanID <;> rfl
  unfold reconcile
  split
  · rw [reconcileDeleted_eq hready]
    exact panics_removeFinalizer o
  · rw [CtrlProg.addFinalizer_bind]
    refine panics_op (fun _ => rfl) fun x => ?_
    cases x with
    | error msg => exact panics_finish _ _
    | ok u =>
      rw [CtrlProg.getIndex_bind]
      refine panics_op (fun _ => rfl) fun view => ?_
      cases view with
      | missing => exact panics_finish _ _
      | deleted => exact panics_finish _ _
      | ready => exact reconcileSpec_eq hid ▸ hclaim

end

section
variable {T Text : Type} {client : Client Empty VLAN Vlan.VLANClaim T Text}

/-- The backend serves the claim of the VLAN with this metadata, without an identifier. -/
def ClaimServed (client : Client Empty VLAN Vlan.VLANClaim T Text) (m : ObjectMeta)
    (w w' : World T Text) : Prop :=
  ∃ r errs, r.metadata = m ∧ r.spec.vlanID = none ∧ w' = (client.claim r errs w).2

/-- The VLAN is not ready and has no identifier, and the backend has served its claims only. -/
structure Pending (client : Client Empty VLAN Vlan.VLANClaim T Text) (m : ObjectMeta)
    (w : World T Text) (s : Cluster VLAN T Text) : Prop where
  object : ∀ o, s.object = some o →
    o.isReady = false ∧ o.cr.metadata = m ∧ o.cr.spec.vlanID = none
  world : Relation.ReflTransGen (ClaimServed client m) w s.world

variable {m : ObjectMeta} {w : World T Text} {s : Cluster VLAN T Text}

theorem Pending.handler {t : Turn} (c : VlanOp) (s : Cluster VLAN T Text × List Fate)
    (hc : Unserved m c) (h : Pending client m w s.1) :
    Pending client m w ((controller client).handler t c s).2.1 := by
  cases c with
  | addFinalizer =>
    dsimp only [Controller.handler]
    cases ho : s.1.object with
    | none => exact h
    | some o =>
      dsimp only
      split
      · exact h
      · split
        · exact h
        · refine ⟨fun o' ho' => ?_, h.world⟩
          cases ho'
          exact h.object o ho
  | removeFinalizer =>
    dsimp only [Controller.handler]
    split
    · exact h
    · exact ⟨nofun, h.world⟩
  | updateStatus new =>
    dsimp only [Controller.handler]
    split
    · exact h
    · refine ⟨fun o' ho' => ?_, h.world⟩
      obtain ⟨o, ho, rfl⟩ := Option.map_eq_some_iff.mp ho'
      exact ⟨hc, (h.object o ho).2⟩
  | getIndex id => exact h
  | index i => exact nomatch i
  | claim r =>
    exact ⟨h.object, Controller.call_world (Q := Relation.ReflTransGen (ClaimServed client m) w)
      h.world fun errs => h.world.tail ⟨r, errs, hc.1, hc.2, rfl⟩⟩
  | deleteClaim r => exact hc.elim

theorem Pending.step (e : Controller.Event VLANSpec)
    (he : ∀ spec, e = .edit spec → spec.vlanID = none) (h : Pending client m w s) :
    Pending client m w ((controller client).step s e) := by
  cases e with
  | reconcile t =>
    dsimp only [Controller.step]
    split
    · exact h
    next o ho =>
      obtain ⟨hready, rfl, hid⟩ := h.object o ho
      exact (reconcile_unserved hready hid).run_inv (I := fun s : Cluster VLAN T Text × List Fate =>
        Pending client o.cr.metadata w s.1) Pending.handler h
  | edit spec =>
    refine ⟨fun o' ho' => ?_, h.world⟩
    obtain ⟨o, ho, rfl⟩ := Option.map_eq_some_iff.mp ho'
    exact ⟨(h.object o ho).1, (h.object o ho).2.1, he spec rfl⟩
  | delete =>
    refine ⟨fun o' ho' => ?_, h.world⟩
    obtain ⟨o, ho, hite⟩ := Option.bind_eq_some_iff.mp ho'
    split at hite
    · cases hite
      exact h.object o ho
    · cases hite

end

/-- A VLAN that names no identifier is never ready, whatever the backend and however its reconciles
go, and in every state that it gets to a reconcile whose claim is answered ends in a panic. So nothing
that the backend has claimed for it is given back: to the end, its deletion included, the backend sees
claims of the VLAN only. -/
theorem unnumbered_never_ready {T Text : Type} (client : Client Empty VLAN Vlan.VLANClaim T Text)
    (w : World T Text) (cr : VLAN) (hid : cr.spec.vlanID = none)
    (events : List (Controller.Event VLANSpec))
    (hevents : ∀ spec, .edit spec ∈ events → spec.vlanID = none) :
    let s := Run.run (controller client).step ⟨some (newObject cr), w⟩ events
    (∀ o, s.object = some o → o.isReady = false) ∧
      Relation.ReflTransGen (ClaimServed client cr.metadata) w s.world ∧
      ∀ o, s.object = some o → ∀ t : Turn,
        ((reconcile o).trace ((controller client).handler t) (s, t.fates)).any answeredClaim = true →
        ((reconcile o).run ((controller client).handler t) (s, t.fates)).1 =
          .error nilDereference := by
  have hstart : Pending client cr.metadata w ⟨some (newObject cr), w⟩ := by
    refine ⟨fun o ho => ?_, .refl⟩
    cases ho
    exact ⟨rfl, rfl, hid⟩
  have hend : Pending client cr.metadata w
      (Run.run (controller client).step ⟨some (newObject cr), w⟩ events) :=
    Run.run_inv_of_forall_mem (P := fun e => ∀ spec, e = .edit spec → spec.vlanID = none)
      (fun _ e he h => h.step e he) (fun _ he spec heq => hevents spec (heq ▸ he)) hstart
  refine ⟨fun o ho => (hend.object o ho).1, hend.world, fun o ho t hany => ?_⟩
  obtain ⟨hready, -, hid⟩ := hend.object o ho
  exact reconcile_panics hready hid _ _ _ hany

/-- A VLAN that leaves the identifier to the backend. -/
def unnumbered : VLAN := ⟨⟨"a", "default", ∅⟩, ⟨⟨"vlans", "default"⟩, none, none⟩, ⟨none⟩⟩

/-- It is created and reconciled, which ends in a panic, and deleted. Then it is gone, and the backend
keeps the identifier 2 for it. -/
theorem unnumbered_leaks :
    let client := vlanClient (.plain (Store 16)) .byKey fun _ _ => none
    let start : Cluster VLAN (DB 16) (Option (Store 16)) :=
      ⟨some (newObject unnumbered), vlanCluster.world⟩
    let s := Run.run (controller client).step start [.reconcile .plain, .delete, .reconcile .plain]
    ((reconcile (newObject unnumbered)).run ((controller client).handler .plain) (start, [])).1 =
        .error nilDereference ∧
      s.object.isNone = true ∧
      (s.world.cache ⟨"vlans", "default"⟩).any (fun ctx => ctx.table.has 2) = true ∧
      Relation.ReflTransGen (ClaimServed client unnumbered.metadata) vlanCluster.world s.world := by
  intro client start s
  refine ⟨?_, by decide +kernel, by decide +kernel, ?_⟩
  · refine (unnumbered_never_ready client vlanCluster.world unnumbered rfl [] (by simp)).2.2
      (newObject unnumbered) rfl .plain ?_
    decide +kernel
  · exact (unnumbered_never_ready client vlanCluster.world unnumbered rfl _ (by simp)).2.1

end K8sIpam.Controllers.VlanVlan
