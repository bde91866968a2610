import K8sIpam.Controllers.Cluster
import K8sIpam.Ipam.Delete
import K8sIpam.Vlan.Ownership

/-! # What a claim leaves behind

The controller of a claim removes the finalizer of a resource that is being deleted. Does the
backend then still hold something for it? -/

namespace K8sIpam.Controllers
open Std Atomic Prog Backend

variable {R S V T Text Lists : Type}

/-! ## The controllers of claims -/

/-- The values of a resource that has been read are at the addresses 0 and 1, the one of a response
is at 2. -/
def claimClient (app : App T Text Lists R R) (normalize : R → R) :
    Client Empty R (Response R) T Text where
  index i := nomatch i
  claim r errs w :=
    let (x, w) := Backend.claim app errs (normalize r) w
    (x.map fun cr => ⟨cr, 2⟩, w)
  deleteClaim r errs := Backend.deleteClaim app errs (normalize r)

/-- A kind of claim with its backend: `held` says that a table has an entry with given owner
labels. A delete that succeeds leaves no entry of the owner of the claim, and no delete adds one. -/
structure ClaimResource (R S V T Text Lists : Type) where
  kind : ClaimKind R V
  app : App T Text Lists R R
  normalize : R → R
  writeStatus : (new stored : R) → R
  writeSpec : S → R → R
  ownerLabels : R → Labels
  held : T → Labels → Prop
  index_clearSpec : ∀ r, app.cacheID (normalize (kind.clearSpec r)) = app.cacheID (normalize r)
  index_writeStatus : ∀ new r, app.cacheID (normalize (writeStatus new r)) = app.cacheID (normalize r)
  owner_writeStatus : ∀ new r, ownerLabels (writeStatus new r) = ownerLabels r
  owner_writeSpec : ∀ spec r, ownerLabels (writeSpec spec r) = ownerLabels r
  released : ∀ r t t', app.deleteClaim (normalize r) t = (.ok (), t') → ¬held t' (ownerLabels r)
  kept : ∀ r t own, held (app.deleteClaim (normalize r) t).2 own → held t own

namespace ClaimResource

variable (M : ClaimResource R S V T Text Lists)

def controller : Controller R S Empty R (Response R) T Text where
  client := claimClient M.app M.normalize
  reconcile := Controllers.reconcile M.kind 0 1
  writeStatus := M.writeStatus
  writeSpec := M.writeSpec

def index (r : R) : ObjectReference := M.app.cacheID (M.normalize r)

/-- An index holds an entry with the owner labels. -/
def HeldAt (own : Labels) (w : World T Text) (id : ObjectReference) : Prop :=
  ∃ ctx, w.cache id = some ctx ∧ M.held ctx.table own

instance [∀ t own, Decidable (M.held t own)] (own : Labels) (w : World T Text)
    (id : ObjectReference) : Decidable (M.HeldAt own w id) :=
  match h : w.cache id with
  | none => .isFalse fun ⟨ctx, hctx, _⟩ => by rw [h] at hctx; cases hctx
  | some ctx => decidable_of_iff (M.held ctx.table own)
      ⟨fun hheld => ⟨ctx, h, hheld⟩, fun ⟨ctx', hctx, hheld⟩ => by rw [h] at hctx; cases hctx; exact hheld⟩

/-- A reconcile that finds the deletion mark while the index holds something for the resource finds
it ready, and does not go on after an error of the delete. An edit does not move the resource to
another index while its index holds something for it. -/
def Releasing (s : Cluster R T Text) : Controller.Event S → Prop
  | .reconcile t => ∀ o, s.object = some o → o.deleted = true →
      M.HeldAt (M.ownerLabels o.cr) s.world (M.index o.cr) →
      o.isReady = true ∧ ∀ msg,
        (Controller.call (M.controller.client.deleteClaim o.cr) (s, t.fates)).1 = .error msg →
        tolerated msg = false
  | .edit spec => ∀ o, s.object = some o →
      M.HeldAt (M.ownerLabels o.cr) s.world (M.index o.cr) →
      M.index (M.writeSpec spec o.cr) = M.index o.cr
  | .delete => True

/-! ## Calls -/

variable {M} {own : Labels} {w : World T Text} {r : R} {id : ObjectReference}

/-- A change of one index says nothing about the others. -/
theorem heldAt_change {α : Type} {f : T → Except Failure α × T} {errs : ApiErrors}
    {ref : ObjectReference} (h : M.HeldAt own (change M.app errs ref f w).2 id) :
    M.HeldAt own w id ∨ id = ref ∧ ∃ t, w.cache.get ref false = .ok t ∧ M.held (f t).2 own := by
  obtain ⟨ctx, hctx, hheld⟩ := h
  rcases change_cases M.app errs ref f w with ⟨e, he⟩ | ⟨t, ht, hcache, -⟩
  · rw [he] at hctx
    exact .inl ⟨ctx, hctx, hheld⟩
  · rw [hcache] at hctx
    by_cases hid : id = ref
    · subst hid
      refine .inr ⟨rfl, t, ht, ?_⟩
      rw [Cache.put, Function.update_self] at hctx
      obtain ⟨ctx', -, rfl⟩ := Option.map_eq_some_iff.mp hctx
      exact hheld
    · rw [Cache.put, Function.update_of_ne hid] at hctx
      exact .inl ⟨ctx, hctx, hheld⟩

theorem heldAt_of_get {b : Bool} {t : T} (ht : w.cache.get id b = .ok t) (h : M.held t own) :
    M.HeldAt own w id := by
  obtain ⟨ctx, hctx, -, rfl⟩ := Cache.get_eq_ok.mp ht
  exact ⟨ctx, hctx, h⟩

/-- What is held after a delete was held before it. -/
theorem heldAt_deleteClaim {errs : ApiErrors}
    (h : M.HeldAt own (M.controller.client.deleteClaim r errs w).2 id) : M.HeldAt own w id := by
  rcases heldAt_change h with h | ⟨rfl, t, ht, hheld⟩
  · exact h
  · exact heldAt_of_get ht (M.kept r t own hheld)

/-- A claim changes its index only. -/
theorem heldAt_claim {errs : ApiErrors}
    (h : M.HeldAt own (M.controller.client.claim r errs w).2 id) :
    M.HeldAt own w id ∨ id = M.index r := by
  rcases heldAt_change h with h | ⟨h, -⟩
  · exact .inl h
  · exact .inr h

theorem not_heldAt_of_deleteClaim_ok {errs : ApiErrors} {w' : World T Text}
    (h : M.controller.client.deleteClaim r errs w = (.ok (), w')) :
    ¬M.HeldAt (M.ownerLabels r) w' (M.index r) := by
  rintro ⟨ctx, hctx, hheld⟩
  have h' : change M.app errs (M.index r) (M.app.deleteClaim (M.normalize r)) w = (.ok (), w') := h
  rcases change_cases M.app errs (M.index r) (M.app.deleteClaim (M.normalize r)) w with
    ⟨e, he⟩ | ⟨t, -, hcache, hok⟩
  · cases he.symm.trans h'
  · rw [h'] at hcache hok
    dsimp only at hcache
    rw [hcache, Cache.put, Function.update_self] at hctx
    obtain ⟨ctx', -, rfl⟩ := Option.map_eq_some_iff.mp hctx
    exact M.released r t _ (Prod.ext (hok () rfl) rfl) hheld

/-! ## The invariant -/

/-- A resource that is gone, or that never had a finalizer, has nothing in the backend; another one
has something in its index only, and keeps its finalizer until the end. -/
structure Tracked (M : ClaimResource R S V T Text Lists) (own : Labels) (s : Cluster R T Text) :
    Prop where
  gone : s.object = none → ∀ id, ¬M.HeldAt own s.world id
  fresh : ∀ o, s.object = some o → o.finalizer = false → ∀ id, ¬M.HeldAt own s.world id
  owner : ∀ o, s.object = some o → M.ownerLabels o.cr = own
  index : ∀ o, s.object = some o → ∀ id, M.HeldAt own s.world id → id = M.index o.cr
  marked : ∀ o, s.object = some o → o.deleted = true → o.finalizer = true

theorem Tracked.of_object {s : Cluster R T Text} {o : Object R} (ho : s.object = some o)
    (hown : M.ownerLabels o.cr = own)
    (hindex : ∀ id, M.HeldAt own s.world id → id = M.index o.cr)
    (hfresh : o.finalizer = false → ∀ id, ¬M.HeldAt own s.world id)
    (hmarked : o.deleted = true → o.finalizer = true) : Tracked M own s where
  gone h := by cases h.symm.trans ho
  fresh o' ho' := by cases ho.symm.trans ho'; exact hfresh
  owner o' ho' := by cases ho.symm.trans ho'; exact hown
  index o' ho' := by cases ho.symm.trans ho'; exact hindex
  marked o' ho' := by cases ho.symm.trans ho'; exact hmarked

theorem Tracked.of_gone {s : Cluster R T Text} (ho : s.object = none)
    (hnone : ∀ id, ¬M.HeldAt own s.world id) : Tracked M own s where
  gone _ := hnone
  fresh o' ho' := by cases ho.symm.trans ho'
  owner o' ho' := by cases ho.symm.trans ho'
  index o' ho' := by cases ho.symm.trans ho'
  marked o' ho' := by cases ho.symm.trans ho'

variable {s : Cluster R T Text} {o : Object R} {t : Turn} {fates : List Fate}

/-- An update of the status changes nothing of this. -/
theorem Tracked.finish (h : Tracked M own s) (new : Object R) (res : Result) :
    Tracked M own ((finish new res : ClaimProg R Result).run (M.controller.handler t) (s, fates)).2.1 := by
  rw [Controllers.finish, CtrlProg.updateStatus_bind, run_op]
  dsimp only [Controller.handler]
  cases t.updateStatus with
  | some msg => exact h
  | none =>
    dsimp only [run]
    cases ho : s.object with
    | none => exact .of_gone rfl (h.gone ho)
    | some o =>
      refine .of_object (o := { o with cr := M.writeStatus new.cr o.cr, conditions := new.conditions })
        rfl ?_ ?_ ?_ ?_
      · exact (M.owner_writeStatus _ _).trans (h.owner o ho)
      · exact fun id hid => (h.index o ho id hid).trans (M.index_writeStatus _ _).symm
      · exact h.fresh o ho
      · exact h.marked o ho

/-- The finalizer is removed when nothing is held. -/
theorem Tracked.removeFinalizer (h : Tracked M own s) (o : Object R)
    (hnone : ∀ id, ¬M.HeldAt own s.world id) :
    Tracked M own ((Controllers.removeFinalizer o : ClaimProg R Result).run
      (M.controller.handler t) (s, fates)).2.1 := by
  rw [Controllers.removeFinalizer, CtrlProg.removeFinalizer_bind, run_op]
  dsimp only [Controller.handler]
  cases t.removeFinalizer with
  | some msg => exact h.finish _ _
  | none =>
    exact .of_gone rfl hnone

/-- The reconcile of a resource that is marked as deleted. -/
theorem Tracked.reconcileDeleted (h : Tracked M own s) (ho : s.object = some o)
    (hdel : o.deleted = true) (hok : M.Releasing s (.reconcile t)) :
    Tracked M own ((reconcileDeleted o).run (M.controller.handler t) (s, t.fates)).2.1 := by
  have hguard := hok o ho hdel
  rw [h.owner o ho] at hguard
  have hnone : ¬M.HeldAt own s.world (M.index o.cr) → ∀ id, ¬M.HeldAt own s.world id :=
    fun hno id hid => hno (h.index o ho id hid ▸ hid)
  unfold Controllers.reconcileDeleted
  split
  next hready =>
    rw [CtrlProg.deleteClaim_bind, run_op]
    dsimp only [Controller.handler]
    -- what is held after the call was held before it
    have hmono : ∀ id, M.HeldAt own
        (Controller.call (M.controller.client.deleteClaim o.cr) (s, t.fates)).2.1.world id →
        M.HeldAt own s.world id :=
      Controller.call_world (Q := fun w => ∀ id, M.HeldAt own w id → M.HeldAt own s.world id)
        (fun _ hid => hid) fun errs id hid => heldAt_deleteClaim hid
    have hafter : Tracked M own
        (Controller.call (M.controller.client.deleteClaim o.cr) (s, t.fates)).2.1 :=
      .of_object ho (h.owner o ho) (fun id hid => h.index o ho id (hmono id hid))
        (fun hf id hid => h.fresh o ho hf id (hmono id hid)) (h.marked o ho)
    cases hcall : (Controller.call (M.controller.client.deleteClaim o.cr) (s, t.fates)).1 with
    | error msg =>
      dsimp only
      split
      next htol =>
        refine hafter.removeFinalizer o fun id hid => ?_
        refine hnone (fun hheld => ?_) id (hmono id hid)
        rw [(hguard hheld).2 msg hcall] at htol
        cases htol
      · exact hafter.finish _ _
    | ok u =>
      refine hafter.removeFinalizer o fun id hid => ?_
      obtain ⟨errs, hserved⟩ := Controller.call_ok hcall
      have hat := h.index o ho id (hmono id hid)
      subst hat
      exact not_heldAt_of_deleteClaim_ok hserved (h.owner o ho ▸ hid)
  next hready =>
    exact h.removeFinalizer o (hnone fun hheld => hready (hguard hheld).1)

/-! ## The reconcile of a resource that is not deleted -/

/-- The resource has its finalizer and something in its index only. -/
def Live (M : ClaimResource R S V T Text Lists) (own : Labels) (idx : ObjectReference)
    (s : Cluster R T Text × List Fate) : Prop :=
  ∃ o, s.1.object = some o ∧ o.finalizer = true ∧ M.ownerLabels o.cr = own ∧ M.index o.cr = idx ∧
    ∀ id, M.HeldAt own s.1.world id → id = idx

theorem Live.tracked {idx : ObjectReference} {s : Cluster R T Text × List Fate}
    (h : Live M own idx s) : Tracked M own s.1 := by
  obtain ⟨o, ho, hfin, hown, hidx, hheld⟩ := h
  refine .of_object ho hown (fun id hid => (hheld id hid).trans hidx.symm) (fun hf => ?_) fun _ => hfin
  cases hfin.symm.trans hf

/-- The calls that a reconcile makes once the finalizer is there. -/
def Served (M : ClaimResource R S V T Text Lists) (idx : ObjectReference) : ClaimOp R → Prop
  | .claim r | .deleteClaim r => M.index r = idx
  | .updateStatus _ | .getIndex _ => True
  | _ => False

theorem Live.call {idx : ObjectReference} {α : Type}
    {f : ApiErrors → World T Text → Except Failure α × World T Text}
    {s : Cluster R T Text × List Fate} (h : Live M own idx s)
    (hf : ∀ errs id, M.HeldAt own (f errs s.1.world).2 id → M.HeldAt own s.1.world id ∨ id = idx) :
    Live M own idx (Controller.call f s).2 := by
  obtain ⟨o, ho, hfin, hown, hidx, hheld⟩ := h
  refine ⟨o, ho, hfin, hown, hidx, ?_⟩
  refine Controller.call_world (Q := fun w => ∀ id, M.HeldAt own w id → id = idx) hheld fun errs id hid => ?_
  rcases hf errs id hid with hid | hid
  · exact hheld id hid
  · exact hid

theorem Live.handler {idx : ObjectReference} {c : ClaimOp R} {s : Cluster R T Text × List Fate}
    (hc : Served M idx c) (h : Live M own idx s) : Live M own idx (M.controller.handler t c s).2 := by
  cases c with
  | updateStatus new =>
    dsimp only [Controller.handler]
    cases t.updateStatus with
    | some msg => exact h
    | none =>
      obtain ⟨o, ho, hfin, hown, hidx, hheld⟩ := h
      refine ⟨{ o with cr := M.writeStatus new.cr o.cr, conditions := new.conditions }, ?_, hfin, ?_,
        ?_, hheld⟩
      · dsimp only
        rw [ho]
        rfl
      · exact (M.owner_writeStatus _ _).trans hown
      · exact (M.index_writeStatus _ _).trans hidx
  | getIndex id => exact h
  | claim r =>
    refine h.call fun errs id hid => (heldAt_claim hid).imp_right fun h => ?_
    exact h.trans hc
  | deleteClaim r => exact h.call fun errs id hid => .inl (heldAt_deleteClaim hid)
  | index i => exact nomatch i
  | addFinalizer => exact hc.elim
  | removeFinalizer => exact hc.elim

theorem finish_uses {A : ClaimOp R → Prop} (hA : ∀ o, A (.updateStatus o)) (o : Object R)
    (res : Result) : (Controllers.finish o res : ClaimProg R Result).Uses A := by
  refine ⟨hA o, fun x => ?_⟩
  cases x <;> trivial

theorem reconcileClaim_uses (specAt : Nat) (o : Object R) :
    (reconcileClaim M.kind specAt o).Uses (Served M (M.index o.cr)) := by
  rw [reconcileClaim, CtrlProg.claim_bind]
  refine ⟨rfl, fun x => ?_⟩
  cases x with
  | error msg => exact finish_uses (fun _ => trivial) _ _
  | ok resp =>
    dsimp only
    split
    · exact finish_uses (fun _ => trivial) _ _
    · exact finish_uses (fun _ => trivial) _ _

theorem reconcileSpec_uses (specAt statusAt : Nat) (o : Object R) :
    (reconcileSpec M.kind specAt statusAt o).Uses (Served M (M.index o.cr)) := by
  unfold reconcileSpec
  split
  · split
    · rw [CtrlProg.deleteClaim_bind]
      refine ⟨M.index_clearSpec _, fun x => ?_⟩
      cases x with
      | error msg =>
        dsimp only
        split
        · exact reconcileClaim_uses specAt o
        · exact finish_uses (fun _ => trivial) _ _
      | ok u => exact reconcileClaim_uses specAt o
    · exact reconcileClaim_uses specAt o
  · exact reconcileClaim_uses specAt o

/-- The reconcile of a resource that has its finalizer. -/
def reconcileIndexed (M : ClaimResource R S V T Text Lists) (o : Object R) :
    ClaimProg R Result := do
  let index ← CtrlProg.getIndex (M.kind.getCacheID o.cr)
  match index with
  | .missing =>
    Controllers.finish (o.setConditions [.reconcileSuccess, .failed "index not found"]) ⟨false, 5⟩
  | .deleted =>
    Controllers.finish (o.setConditions [.reconcileSuccess, .failed "index not ready"]) ⟨false, 5⟩
  | .ready => reconcileSpec M.kind 0 1 o

theorem reconcileIndexed_uses (o : Object R) :
    (reconcileIndexed M o).Uses (Served M (M.index o.cr)) := by
  refine ⟨trivial, fun index => ?_⟩
  cases index with
  | missing => exact finish_uses (fun _ => trivial) _ _
  | deleted => exact finish_uses (fun _ => trivial) _ _
  | ready => exact reconcileSpec_uses 0 1 o

theorem Tracked.reconcileLive (h : Tracked M own s) (ho : s.object = some o)
    (hlive : o.deleted = false) :
    Tracked M own ((reconcile M.kind 0 1 o).run (M.controller.handler t) (s, t.fates)).2.1 := by
  have hrest : ∀ s' : Cluster R T Text × List Fate, Live M own (M.index o.cr) s' →
      Tracked M own ((reconcileIndexed M o).run (M.controller.handler t) s').2.1 := by
    intro s' hs'
    exact (Uses.run_inv (fun c s' hc hs' => Live.handler hc hs') (reconcileIndexed_uses o)
      hs').tracked
  unfold reconcile
  rw [if_neg (by rw [hlive]; exact Bool.false_ne_true), CtrlProg.addFinalizer_bind, run_op]
  dsimp only [Controller.handler]
  rw [ho]
  dsimp only
  cases hfin : o.finalizer with
  | true =>
    rw [if_pos rfl]
    exact hrest _ ⟨o, ho, hfin, h.owner o ho, rfl, h.index o ho⟩
  | false =>
    rw [if_neg Bool.false_ne_true]
    cases t.addFinalizer with
    | some msg => exact h.finish _ _
    | none => exact hrest _ ⟨_, rfl, rfl, h.owner o ho, rfl, h.index o ho⟩

/-! ## Runs -/

theorem Tracked.step (h : Tracked M own s) {e : Controller.Event S} (hok : M.Releasing s e) :
    Tracked M own (M.controller.step s e) := by
  unfold Controller.step
  cases e with
  | reconcile t =>
    dsimp only
    cases ho : s.object with
    | none => exact h
    | some o =>
      dsimp only
      cases hdel : o.deleted with
      | true =>
        have heq : M.controller.reconcile o = Controllers.reconcileDeleted o := by
          change reconcile M.kind 0 1 o = _
          rw [reconcile, if_pos hdel]
        rw [heq]
        exact h.reconcileDeleted ho hdel hok
      | false => exact h.reconcileLive ho hdel
  | edit spec =>
    dsimp only
    cases ho : s.object with
    | none => exact .of_gone rfl (h.gone ho)
    | some o =>
      refine .of_object (o := { o with cr := M.writeSpec spec o.cr }) rfl ?_ ?_ ?_ ?_
      · exact (M.owner_writeSpec _ _).trans (h.owner o ho)
      · intro id hid
        have hidx := h.index o ho id hid
        have hguard := hok o ho
        rw [h.owner o ho] at hguard
        exact hidx.trans (hguard (hidx ▸ hid)).symm
      · exact h.fresh o ho
      · exact h.marked o ho
  | delete =>
    dsimp only
    cases ho : s.object with
    | none => exact .of_gone rfl (h.gone ho)
    | some o =>
      dsimp only [Option.bind_some]
      split
      next hfin =>
        exact .of_object (o := { o with deleted := true }) rfl (h.owner o ho) (h.index o ho)
          (h.fresh o ho) fun _ => hfin
      next hfin =>
        have hnone := h.fresh o ho (Bool.not_eq_true _ ▸ hfin)
        exact .of_gone rfl hnone

/-- From a new resource, in every run of reconciles, edits and the deletion that meets the
condition, the backend holds nothing for the resource once it is gone. -/
theorem gone_holds_nothing {events : List (Controller.Event S)} (ho : s.object = some o)
    (hdel : o.deleted = false)
    (hnew : ∀ id, ¬M.HeldAt (M.ownerLabels o.cr) s.world id)
    (hg : Run.Guarded M.controller.step M.Releasing s events)
    (hgone : (Run.run M.controller.step s events).object = none) :
    ∀ id, ¬M.HeldAt (M.ownerLabels o.cr) (Run.run M.controller.step s events).world id := by
  have hstart : Tracked M (M.ownerLabels o.cr) s :=
    .of_object ho rfl (fun id hid => absurd hid (hnew id)) (fun _ => hnew) fun h => by
      cases hdel.symm.trans h
  exact (Run.Guarded.inv (fun _ _ h hok => h.step hok) hg hstart).gone hgone

end ClaimResource

/-! ## IP claims and VLAN claims -/

def ipClaimResource (P : Ipam.Platform) (yaml : Yaml Ipam.Document Text) (order : Ipam.MapOrder) :
    ClaimResource Ipam.IPClaim Ipam.IPClaimSpec String Ipam.RibState Text Ipam.IpamLists where
  kind := ipClaimKind
  app := Ipam.app P yaml order
  normalize c := c.addOwnerLabelsToCR
  writeStatus new stored := { stored with status := new.status }
  writeSpec spec c := { c with spec }
  ownerLabels c := addOwnerLabels Ipam.ipClaimGVK c.metadata ∅
  held s own := ∃ r, s.rib.Has r ∧ HasOwner own r.labels
  index_clearSpec _ := rfl
  index_writeStatus _ _ := rfl
  owner_writeStatus _ _ := rfl
  owner_writeSpec _ _ := rfl
  released c s s' h := by
    rintro ⟨r, hr, hown⟩
    exact Ipam.deleteClaim_clears h hr (hown.congr fun _ hk => addOwnerLabels_getElem? _ _ _ _ hk)
  kept c s own := by
    rintro ⟨r, hr, hown⟩
    exact ⟨r, Ipam.deleteClaim_has hr, hown⟩

instance (P : Ipam.Platform) (yaml : Yaml Ipam.Document Text) (order : Ipam.MapOrder)
    (s : Ipam.RibState) (own : Labels) : Decidable ((ipClaimResource P yaml order).held s own) :=
  inferInstanceAs (Decidable (∃ r, s.rib.Has r ∧ HasOwner own r.labels))

def vlanClaimResource (yaml : Yaml (Store 16) Text) (order : Vlan.RestoreOrder)
    (refuses : NewRequirement) :
    ClaimResource Vlan.VLANClaim Vlan.VLANClaimSpec Vlan.VlanId (DB 16) Text Vlan.VlanLists where
  kind := vlanClaimKind
  app := Vlan.app yaml order refuses
  normalize c := c.addOwnerLabelsToCR
  writeStatus new stored := { stored with status := new.status }
  writeSpec spec c := { c with spec }
  ownerLabels c := addOwnerLabels Vlan.vlanClaimGVK c.metadata ∅
  held d own := ∃ (id : Vlan.VlanId) (l : Labels), d.store[id]? = some l ∧ HasOwner own l
  index_clearSpec _ := rfl
  index_writeStatus _ _ := rfl
  owner_writeStatus _ _ := rfl
  owner_writeSpec _ _ := rfl
  released c d d' h := by
    rintro ⟨id, l, hl, hown⟩
    exact Vlan.deleteClaim_clears h hl (hown.congr fun _ hk => addOwnerLabels_getElem? _ _ _ _ hk)
  kept c d own := by
    rintro ⟨id, l, hl, hown⟩
    rcases (Vlan.deleteClaim_run refuses d c.addOwnerLabelsToCR).2 id with hsame | ⟨-, hnone⟩
    · exact ⟨id, l, hsame.symm.trans hl, hown⟩
    · cases hnone.symm.trans hl

/-- A new IP claim or VLAN claim that the backend holds nothing for is reconciled, edited and
deleted, while calls to the API and the backend fail. Once it is gone no index holds a route, or
an entry, with its owner labels, in every run that meets the condition. -/
theorem deleted_claim_holds_nothing {Text Text' : Type} (P : Ipam.Platform)
    (yaml : Yaml Ipam.Document Text) (order : Ipam.MapOrder) (yaml' : Yaml (Store 16) Text')
    (order' : Vlan.RestoreOrder) (refuses : NewRequirement) :
    (∀ (s : Cluster Ipam.IPClaim Ipam.RibState Text) (o : Object Ipam.IPClaim)
      (events : List (Controller.Event Ipam.IPClaimSpec)),
      let M := ipClaimResource P yaml order
      s.object = some o → o.deleted = false →
      (∀ id, ¬M.HeldAt (M.ownerLabels o.cr) s.world id) →
      Run.Guarded M.controller.step M.Releasing s events →
      (Run.run M.controller.step s events).object = none →
      ∀ id, ¬M.HeldAt (M.ownerLabels o.cr) (Run.run M.controller.step s events).world id) ∧
    (∀ (s : Cluster Vlan.VLANClaim (DB 16) Text') (o : Object Vlan.VLANClaim)
      (events : List (Controller.Event Vlan.VLANClaimSpec)),
      let M := vlanClaimResource yaml' order' refuses
      s.object = some o → o.deleted = false →
      (∀ id, ¬M.HeldAt (M.ownerLabels o.cr) s.world id) →
      Run.Guarded M.controller.step M.Releasing s events →
      (Run.run M.controller.step s events).object = none →
      ∀ id, ¬M.HeldAt (M.ownerLabels o.cr) (Run.run M.controller.step s events).world id) :=
  ⟨fun _ _ _ => ClaimResource.gone_holds_nothing, fun _ _ _ => ClaimResource.gone_holds_nothing⟩

/-- A resource as a user has created it. -/
def newObject {R : Type} (cr : R) : Object R := ⟨cr, [], false, false⟩

/-- A new claim of an address in the index default/vpc, which holds an aggregate. -/
def addressCluster : Cluster Ipam.IPClaim Ipam.RibState (Option Ipam.Document) where
  object := some (newObject (Ipam.addressClaim "a"))
  world := {
    cache := Function.update (fun _ => none) ⟨"vpc", "default"⟩ (some ⟨true, Ipam.aggregateRib⟩)
    configMaps := Function.update (fun _ => none) ⟨"ipam-vpc", "default"⟩ (some ⟨none⟩) }

/-- A new VLAN claim in the index default/vlans. -/
def vlanCluster : Cluster Vlan.VLANClaim (DB 16) (Option (Store 16)) where
  object := some (newObject (Vlan.sampleClaim "a" none none))
  world := {
    cache := Function.update (fun _ => none) ⟨"vlans", "default"⟩ (some ⟨true, Vlan.new⟩)
    configMaps := Function.update (fun _ => none) ⟨"vlan-vlans", "default"⟩ (some ⟨none⟩) }

/-- Only the index of the cluster can hold something. -/
theorem not_heldAt_update {R S V T Text Lists : Type} {M : ClaimResource R S V T Text Lists}
    {own : Labels} {ref : ObjectReference} {ctx : CacheContext T}
    {cms : ObjectReference → Option (ConfigMap Text)} (h : ¬M.held ctx.table own)
    (id : ObjectReference) :
    ¬M.HeldAt own ⟨Function.update (fun _ => none) ref (some ctx), cms⟩ id := by
  rintro ⟨ctx', hctx, hheld⟩
  dsimp only at hctx
  by_cases hid : id = ref
  · subst hid
    rw [Function.update_self] at hctx
    cases hctx
    exact h hheld
  · rw [Function.update_of_ne hid] at hctx
    cases hctx

/-- Claimed, deleted and released: the two controllers leave nothing when every call succeeds. -/
theorem deleted_samples_hold_nothing :
    let M := ipClaimResource .reference (.plain Ipam.Document) .byKey
    let M' := vlanClaimResource (.plain (Store 16)) .byKey fun _ _ => none
    let events := [.reconcile .plain, .delete, .reconcile .plain]
    let events' := [.reconcile .plain, .delete, .reconcile .plain]
    (∀ id, ¬M.HeldAt (M.ownerLabels (Ipam.addressClaim "a"))
      (Run.run M.controller.step addressCluster events).world id) ∧
    (∀ id, ¬M'.HeldAt (M'.ownerLabels (Vlan.sampleClaim "a" none none))
      (Run.run M'.controller.step vlanCluster events').world id) := by
  intro M M' events events'
  constructor
  · have hobj : (Run.run M.controller.step addressCluster [.reconcile .plain, .delete]).object =
        some ⟨((Ipam.addressClaim "a").setPrefix "10.0.0.0/8").setGateway "",
          [.reconcileSuccess, .ready], true, true⟩ := by decide +kernel
    refine (deleted_claim_holds_nothing .reference (.plain Ipam.Document) .byKey
      (.plain (Store 16)) .byKey fun _ _ => none).1 addressCluster (newObject (Ipam.addressClaim "a")) events
      rfl rfl (not_heldAt_update (by decide +kernel)) ?_ (by decide +kernel)
    refine ⟨?_, trivial, ?_, trivial⟩
    · rintro o ⟨⟩ ⟨⟩
    · intro o ho _ _
      cases hobj.symm.trans ho
      refine ⟨by decide +kernel, fun msg hmsg => ?_⟩
      have hcall : (Controller.call (M.controller.client.deleteClaim
          (((Ipam.addressClaim "a").setPrefix "10.0.0.0/8").setGateway ""))
          (Run.run M.controller.step addressCluster [.reconcile .plain, .delete], [])).1 = .ok () := by
        decide +kernel
      cases hcall.symm.trans hmsg
  · have hobj : (Run.run M'.controller.step vlanCluster [.reconcile .plain, .delete]).object =
        some ⟨(Vlan.sampleClaim "a" none none).setVLANID 2,
          [.reconcileSuccess, .ready], true, true⟩ := by decide +kernel
    refine (deleted_claim_holds_nothing .reference (.plain Ipam.Document) .byKey
      (.plain (Store 16)) .byKey fun _ _ => none).2 vlanCluster (newObject (Vlan.sampleClaim "a" none none))
      events' rfl rfl (not_heldAt_update ?_) ?_ (by decide +kernel)
    · rintro ⟨id, l, hl, hown⟩
      have hall : ∀ kv ∈ Vlan.new.store.toList,
          ¬HasOwner (M'.ownerLabels (Vlan.sampleClaim "a" none none)) kv.2 := by decide +kernel
      exact hall (id, l) (ExtTreeMap.mem_toList_iff_getElem?_eq_some.mpr hl) hown
    refine ⟨?_, trivial, ?_, trivial⟩
    · rintro o ⟨⟩ ⟨⟩
    · intro o ho _ _
      cases hobj.symm.trans ho
      refine ⟨by decide +kernel, fun msg hmsg => ?_⟩
      have hcall : (Controller.call (M'.controller.client.deleteClaim
          ((Vlan.sampleClaim "a" none none).setVLANID 2))
          (Run.run M'.controller.step vlanCluster [.reconcile .plain, .delete], [])).1 = .ok () := by
        decide +kernel
      cases hcall.symm.trans hmsg

/-- The address is claimed; the next claim does not reach the backend, so that the resource is no
longer ready; then the resource is deleted. The route of the claim stays in the table. -/
theorem deleted_claim_leaks :
    let M := ipClaimResource .reference (.plain Ipam.Document) .byKey
    let s := Run.run M.controller.step addressCluster
      [.reconcile .plain, .reconcile { Turn.plain with fates := [.unreached "unavailable"] }, .delete,
        .reconcile .plain]
    s.object = none ∧
      M.HeldAt (M.ownerLabels (Ipam.addressClaim "a")) s.world ⟨"vpc", "default"⟩ := by
  exact ⟨by decide +kernel, by decide +kernel⟩

end K8sIpam.Controllers
