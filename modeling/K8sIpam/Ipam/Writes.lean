import K8sIpam.Ipam.Routes

/-! # What a request writes

Every route that a claim adds or sets, whatever it has read, carries the owner labels and the kind
of the claim and the name of a prefix around it. So does every route that requests leave in the
table. -/

namespace K8sIpam.Ipam
open Std Atomic Prog Net

variable {P : Platform} {c : IPClaim} {Q : Route → Prop}

/-- The labels of a route as a claim writes them. -/
structure WrittenBy (P : Platform) (c : IPClaim) (r : Route) : Prop where
  owner : CarriesOwner c r.labels
  kind : r.labels[nephioPrefixKindKey]? = some c.spec.kind.toString
  subnet : ∃ q : Prefix, q.Contains r.pfx ∧
    r.labels[nephioSubnetKey]? = some (q.getSubnetName P.txt)

theorem WrittenBy.of_mem_mutated {pi : Prefix} {r : Route}
    (h : r ∈ getMutatedRoutesWithLabels P.txt c pi) : WrittenBy P c r := by
  have hgw : nephioGatewayKey ≠ nephioPrefixKindKey := by decide
  have hgw' : nephioGatewayKey ≠ nephioSubnetKey := by decide
  refine ⟨carriesOwner_of_mem_mutated h, ?_, pi, contains_of_mem_mutated h, ?_⟩
  · rcases labels_of_mem_mutated h with h | h
    · rw [h, mutatedLabels_kind]
    · rw [h, ExtTreeMap.getElem?_erase, if_neg (by simpa using hgw), mutatedLabels_kind]
  · rcases labels_of_mem_mutated h with h | h
    · rw [h, mutatedLabels_subnet]
    · rw [h, ExtTreeMap.getElem?_erase, if_neg (by simpa using hgw'), mutatedLabels_subnet]

theorem WrittenBy.of_updated (route : Route) (parents : List Route) :
    WrittenBy P c ⟨route.pfx, updatedLabels P.txt c route parents⟩ :=
  ⟨updatedLabels_carriesOwner, updatedLabels_kind, updatedLabels_subnet⟩

/-- The routes that an operation writes satisfy `Q`. -/
def Writes (Q : Route → Prop) : RibOp → Prop
  | .add r | .set r => Q r
  | _ => True

/-! ## The operations of a claim -/

theorem addRoutes_uses {rs : List Route} (h : ∀ r ∈ rs, Q r) : (addRoutes rs).Uses (Writes Q) := by
  induction rs with
  | nil => trivial
  | cons r rs ih =>
    have hrs := ih fun r' hr' => h r' (List.mem_cons_of_mem _ hr')
    rw [addRoutes_cons]
    refine ⟨h r List.mem_cons_self, fun x => ?_⟩
    cases x with
    | ok u => exact hrs
    | error msg =>
      dsimp only
      split
      · exact hrs
      · trivial

/-- The gateway of a subnet is looked up by its labels. -/
theorem getGateway_uses {A : RibOp → Prop} (hA : ∀ s, A (.getByLabel s)) (t : String) :
    (getGateway P t).Uses A := by
  unfold getGateway
  split
  · trivial
  · split
    · trivial
    · refine ⟨hA _, fun rs => ?_⟩
      cases rs <;> trivial

theorem reportGateway_uses (t : String) : (reportGateway P c t).Uses (Writes Q) := by
  unfold reportGateway
  split
  · exact (getGateway_uses (fun _ => trivial) t).bind fun _ => trivial
  · trivial

theorem addRib_uses (pi : Prefix) : (addRib P c pi).Uses (Writes (WrittenBy P c)) :=
  (addRoutes_uses fun _ hr => WrittenBy.of_mem_mutated hr).bind fun _ => reportGateway_uses _

theorem deleteRoutes_uses (rs : List Route) : (deleteRoutes rs).Uses (Writes Q) := by
  induction rs with
  | nil => trivial
  | cons r rs ih => exact ⟨trivial, fun _ => ih⟩

theorem deleteChildren_uses (route : Route) : (deleteChildren c route).Uses (Writes Q) := by
  unfold deleteChildren
  exact ⟨trivial, fun _ => (deleteRoutes_uses _).bind fun _ => ⟨trivial, fun _ => trivial⟩⟩

/-- A claim reads the parents of an address before it computes its labels. -/
theorem getUpdatedLabels_uses {α : Type} (pi : Option Prefix) (route : Route)
    {f : Labels × Option Prefix → RibProg α} {A : RibOp → Prop} (hA : A (.parents route.pfx))
    (hf : ∀ parents pi', (f (updatedLabels P.txt c route parents, pi')).Uses A) :
    (getUpdatedLabels P c pi route >>= f).Uses A := by
  unfold getUpdatedLabels
  split
  · exact ⟨hA, fun parents => hf parents _⟩
  · exact hf [] pi

theorem updateRoutes_uses (initializing : Bool) (pi : Option Prefix) (routes : List Route) :
    (updateRoutes P initializing c pi routes).Uses (Writes (WrittenBy P c)) := by
  induction routes generalizing pi with
  | nil => trivial
  | cons route routes ih =>
    rw [updateRoutes]
    refine getUpdatedLabels_uses pi route trivial fun parents pi' => ?_
    dsimp only
    split
    · exact ih pi'
    · refine ⟨WrittenBy.of_updated route parents, fun _ => ?_⟩
      dsimp only
      split
      · exact (deleteChildren_uses route).bind fun _ => ih pi'
      · exact ih pi'

theorem updateRib_uses (initializing : Bool) (pi : Option Prefix) (routes : List Route) :
    (updateRib P initializing c pi routes).Uses (Writes (WrittenBy P c)) := by
  refine (updateRoutes_uses initializing pi routes).bind fun pi' => ?_
  cases routes with
  | nil => trivial
  | cons route routes => exact reportGateway_uses _

theorem getRoutesByOwner_uses : (getRoutesByOwner P c).Uses (Writes Q) := by
  unfold getRoutesByOwner
  cases c.spec.getOwnerSelector P.refuses with
  | error e => trivial
  | ok s =>
    rw [lift_ok, ret_bind, RibProg.getByLabel_bind]
    refine ⟨trivial, fun rs => ?_⟩
    dsimp only
    split <;> trivial

theorem claimFresh_uses (routes : List Route) (route : Route) :
    (claimFresh P c routes route).Uses (Writes (WrittenBy P c)) := by
  unfold claimFresh
  dsimp only
  split
  · trivial
  · rw [RibProg.getAvailablePrefixByBitLen_bind]
    refine ⟨trivial, fun available => ?_⟩
    cases available with
    | none => trivial
    | some p =>
      dsimp only
      split
      · trivial
      · exact addRib_uses _

theorem applyDynamic_uses (initializing : Bool) :
    (applyDynamic P initializing c).Uses (Writes (WrittenBy P c)) := by
  refine getRoutesByOwner_uses.bind fun owned => ?_
  cases owned with
  | cons o os => exact updateRib_uses initializing none _
  | nil =>
    dsimp only
    refine Uses.bind ?_ fun routes => ?_
    · unfold getRoutesByLabel
      split
      · trivial
      · exact ⟨trivial, fun _ => trivial⟩
    · cases routes with
      | nil => trivial
      | cons route routes =>
        dsimp only
        split
        · exact claimFresh_uses _ _
        · split
          · trivial
          · refine ⟨trivial, fun available => ?_⟩
            cases available with
            | none => exact claimFresh_uses _ _
            | some p => exact addRib_uses _

theorem applyPrefix_uses (initializing : Bool) (pi : Prefix) :
    (applyPrefix P initializing c pi).Uses (Writes (WrittenBy P c)) := by
  refine ⟨trivial, fun route => ?_⟩
  cases route with
  | none => exact addRib_uses pi
  | some r => exact getRoutesByOwner_uses.bind fun _ => updateRib_uses initializing _ _

theorem validatePrefix_uses (pi : Prefix) : (validatePrefix P c pi).Uses (Writes Q) := by
  unfold validatePrefix
  split
  · trivial
  · rw [RibProg.clone_bind]
    refine ⟨trivial, fun rib => ?_⟩
    dsimp only
    split <;> trivial

theorem checked_uses (msg : String) : (checked msg).Uses (Writes Q) := by
  unfold checked
  split <;> trivial

theorem claim_uses : (claim P c).Uses (Writes (WrittenBy P c)) := by
  unfold claim
  split
  · exact (checked_uses _).bind fun _ => applyDynamic_uses false
  · cases newPrefixInfo P _ with
    | error e => trivial
    | ok pi =>
      exact (validatePrefix_uses pi).bind fun msg =>
        (checked_uses msg).bind fun _ => applyPrefix_uses false pi

/-- The delete of a route and of those that follow it, once its children are gone. -/
def deleteRest (initializing : Bool) (c : IPClaim) (route : Route) (routes : List Route) :
    RibProg Unit := do
  let res ← RibProg.delete route
  match res with
  | .error msg => .fail (.error msg)
  | .ok () => do
    if !initializing then do
      let children ← RibProg.children route.pfx
      RibProg.handleUpdate children
    deleteOwned initializing c routes

theorem deleteOwned_cons (initializing : Bool) (route : Route) (routes : List Route) :
    deleteOwned initializing c (route :: routes) =
      if !initializing && !route.pfx.isAddressPrefix && c.isCreatePrefix then do
        deleteChildren c route
        deleteRest initializing c route routes
      else deleteRest initializing c route routes := by
  rw [deleteOwned]
  split <;> rfl

theorem delete_uses (initializing : Bool) : (delete P initializing c).Uses (Writes Q) := by
  have howned : ∀ routes, (deleteOwned initializing c routes).Uses (Writes Q) := by
    intro routes
    induction routes with
    | nil => trivial
    | cons route routes ih =>
      have hrest : (deleteRest initializing c route routes).Uses (Writes Q) := by
        refine ⟨trivial, fun res => ?_⟩
        cases res with
        | error msg => trivial
        | ok u =>
          dsimp only
          split
          · exact ⟨trivial, fun _ => ⟨trivial, fun _ => ih⟩⟩
          · exact ih
      rw [deleteOwned_cons]
      split
      · exact (deleteChildren_uses route).bind fun _ => hrest
      · exact hrest
  unfold delete
  cases c.spec.getOwnerSelector P.refuses with
  | error e => trivial
  | ok s => exact ⟨trivial, fun _ => howned _⟩

theorem deleteClaim_uses : (deleteClaim P c).Uses (Writes Q) := by
  unfold deleteClaim
  split
  · exact delete_uses false
  · cases newPrefixInfo P _ with
    | error e => trivial
    | ok pi => exact delete_uses false

/-! ## The routes of a table -/

theorem handler_has {o : RibOp} {s : RibState} (ho : Writes Q o) (hs : ∀ r, s.rib.Has r → Q r) :
    ∀ r, (handler P.nipam o s).2.rib.Has r → Q r := by
  cases o with
  | add r' =>
    intro r hr
    cases hl : s.rib[r'.pfx]? with
    | some l =>
      rw [handler_add_of_some hl] at hr
      exact hs r hr
    | none =>
      rw [handler_add_of_none hl] at hr
      rcases Rib.has_insert.mp hr with rfl | ⟨-, hr⟩
      · exact ho
      · exact hs r hr
  | set r' =>
    intro r hr
    rcases Rib.has_insert.mp hr with rfl | ⟨-, hr⟩
    · exact ho
    · exact hs r hr
  | delete r' =>
    intro r hr
    cases hl : s.rib[r'.pfx]? with
    | none =>
      simp only [handler, hl] at hr
      exact hs r hr
    | some l =>
      simp only [handler, hl] at hr
      exact hs r (Rib.has_erase.mp hr).2
  | _ => exact hs

theorem serve_has {s : RibState} {req : Request} (hs : ∀ r, s.rib.Has r → Q r)
    (hreq : ∀ c, req = .claim c → ∀ r, WrittenBy P c r → Q r) :
    ∀ r, (serve P s req).rib.Has r → Q r := by
  have hkeep : ∀ o s, Writes Q o → (∀ r, RibState.rib s |>.Has r → Q r) →
      ∀ r, (handler P.nipam o s).2.rib.Has r → Q r := fun o s ho hs => handler_has ho hs
  cases req with
  | claim c =>
    refine Uses.run_inv hkeep (claim_uses.mono fun o ho => ?_) hs
    cases o with
    | add r => exact hreq c rfl r ho
    | set r => exact hreq c rfl r ho
    | _ => trivial
  | deleteClaim c => exact Uses.run_inv hkeep deleteClaim_uses hs

/-- Every route of the table was written by a claim that was made. -/
theorem written_run {rs : List Request} {s : RibState}
    (hs : ∀ r, s.rib.Has r → Q r) (hrs : ∀ c, .claim c ∈ rs → ∀ r, WrittenBy P c r → Q r) :
    ∀ r, (Run.run (serve P) s rs).rib.Has r → Q r := by
  induction rs generalizing s with
  | nil => exact hs
  | cons req rs ih =>
    refine ih (serve_has hs fun c hc => ?_) fun c hc => hrs c (List.mem_cons_of_mem _ hc)
    exact hrs c (hc ▸ List.mem_cons_self)

theorem ribAfter_written {rs : List Request} {r : Route} (hr : (ribAfter P rs).rib.Has r) :
    ∃ c, .claim c ∈ rs ∧ WrittenBy P c r := by
  refine written_run (Q := fun r => ∃ c, .claim c ∈ rs ∧ WrittenBy P c r) ?_ ?_ r hr
  · intro r hr
    have hnone : (∅ : Rib)[r.pfx]? = some r.labels := hr
    simp at hnone
  · exact fun c hc r hw => ⟨c, hc, hw⟩

end K8sIpam.Ipam
