import K8sIpam.Lib.Oracle
import K8sIpam.Controllers.EndpointRace

/-! # A reconcile among others and a reconcile alone

The reconciles of `Race` make their requests one by one to an API server with versions; those of
`EndpointClaims` work on a list of endpoints, and each of their writes is served or fails. A
reconcile that is not interfered with and lists from the API server itself is one of the latter: a
write that meets a conflict is one of those that fail. -/

namespace K8sIpam.Interconnect.Race
open Std Atomic Atomic.Prog Versioned K8sIpam.Inv RawTopology

/-! ## One reconcile at a time -/

/-- The requests whose failures `EndpointClaims` has. -/
def isWrite : Request → Bool
  | .updateStatus _ | .other (.apiApply _) | .other .apiDelete => true
  | _ => false

def fateOf : Option Failure → Fate
  | none => .served
  | some e => .unreached e

/-- What becomes of the next request, and what is left for those after it. -/
def nextFate (r : Request) (fates : List (Option Failure)) : Fate × List (Option Failure) :=
  if isWrite r then (fateOf fates.head?.join, fates.tail) else (.served, fates)

/-- The API server when nothing comes between the requests of one reconcile. -/
def serveAlone : Handler sig (Api × List (Option Failure)) := fun r s =>
  let next := nextFate r s.2
  let x := serve r (meanwhile ⟨[], 0, next.1⟩ s.1)
  (x.1, x.2, next.2)

theorem serves_serveAlone : Serves serve meanwhile (fun d => d.edits = []) serveAlone :=
  fun r s => ⟨⟨[], 0, (nextFate r s.2).1⟩, rfl, rfl, rfl⟩

/-- The endpoints of an API server, which can all be listed. -/
def clusterOf (s : Api) : Cluster where
  endpoints := s.store.objects.map Obj.content
  nodup := by
    rw [List.map_map]
    exact s.inv.nodup
  listErr _ := none

def view (s : Api × List (Option Failure)) (fates : List (Option Failure)) : World :=
  ⟨clusterOf s.1, fates⟩

/-! ## Writes -/

/-- An update of a status is refused, or it sets the claim. -/
theorem update_contents {s : Versioned.Store Endpoint} (hs : s.Inv Endpoint.key) (o : Object) :
    (∃ e, s.update Endpoint.key o.content.key o.version (setClaimRef o.content.claimRef) =
      (.error e, s)) ∨
    ∃ s', s.update Endpoint.key o.content.key o.version (setClaimRef o.content.claimRef) =
        (.ok (), s') ∧
      s'.objects.map Obj.content =
        (s.objects.map Obj.content).map (setClaim o.content.claimRef [o.content.key]) := by
  have hset : ∀ e : Endpoint, setClaim o.content.claimRef [o.content.key] e =
      if e.key = o.content.key then setClaimRef o.content.claimRef e else e := by
    intro e
    simp [setClaim, setClaimRef]
  unfold Store.update
  cases hfind : s.find Endpoint.key o.content.key with
  | none => exact .inl ⟨_, rfl⟩
  | some cur =>
    obtain ⟨hcur, hk⟩ := Store.find_eq_some hfind
    have hkey : ∀ p ∈ s.objects, p.content.key = o.content.key → p.content = cur.content :=
      fun p hp hpk => congrArg Obj.content (hs.eq_of_key hp hcur (hpk.trans hk.symm))
    dsimp only
    split
    · exact .inl ⟨_, rfl⟩
    split
    next hsame =>
      -- the endpoint has this claim already
      refine .inr ⟨s, rfl, ?_⟩
      rw [List.map_map]
      refine List.map_congr_left fun p hp => ?_
      rw [Function.comp_apply, hset]
      split
      next hpk => rw [hkey p hp hpk, hsame]
      next => rfl
    next =>
      refine .inr ⟨_, rfl, ?_⟩
      have hv : (setClaimRef o.content.claimRef cur.content).key = o.content.key := hk
      simp only [Store.set, Store.write, List.map_map]
      refine List.map_congr_left fun p hp => ?_
      rw [Function.comp_apply, Function.comp_apply, hset, hv]
      split
      next hpk => rw [hkey p hp hpk]
      next => rfl

theorem clusterOf_updateStatus (s : Api) (o : Object) :
    (∃ e, (s.updateStatus o).1 = .error e ∧ clusterOf (s.updateStatus o).2 = clusterOf s) ∨
      (s.updateStatus o).1 = .ok () ∧
        clusterOf (s.updateStatus o).2 =
          setClaims o.content.claimRef [o.content] (clusterOf s) := by
  rcases update_contents s.inv o with ⟨e, h⟩ | ⟨s', h, hcontents⟩
  · refine .inl ⟨Api.refusal e, ?_, cluster_ext ?_ rfl⟩
    · exact congrArg (fun x => x.1.mapError Api.refusal) h
    · exact congrArg (fun x => x.2.objects.map Obj.content) h
  · refine .inr ⟨?_, cluster_ext ?_ rfl⟩
    · exact congrArg (fun x => x.1.mapError Api.refusal) h
    · exact (congrArg (fun x => x.2.objects.map Obj.content) h).trans hcontents

section
variable {s : Api × List (Option Failure)}

/-- Whatever becomes of an update, there is a fate with which its counterpart does the same. -/
theorem exists_fate_updateStatus (o : Object) (s : Api × List (Option Failure)) :
    ∃ fate, ∀ rest, Interconnect.serve (.updateStatus o.content) (view s (fate :: rest)) =
      ((serveAlone (.updateStatus o) s).1, view (serveAlone (.updateStatus o) s).2 rest) := by
  cases hfate : s.2.head?.join with
  | some e =>
    refine ⟨some e, fun rest => ?_⟩
    have hserve : serveAlone (.updateStatus o) s =
        (.error e, meanwhile ⟨[], 0, .unreached e⟩ s.1, s.2.tail) := by
      simp only [serveAlone, nextFate, isWrite, if_true, hfate]
      rfl
    rw [hserve]
    rfl
  | none =>
    have hserve : serveAlone (.updateStatus o) s =
        (((meanwhile ⟨[], 0, .served⟩ s.1).updateStatus o).1,
          ((meanwhile ⟨[], 0, .served⟩ s.1).updateStatus o).2, s.2.tail) := by
      simp only [serveAlone, nextFate, isWrite, if_true, hfate]
      rfl
    rw [hserve]
    rcases clusterOf_updateStatus (meanwhile ⟨[], 0, .served⟩ s.1) o with ⟨e, hx, hc⟩ | ⟨hx, hc⟩
    · exact ⟨some e, fun rest => Prod.ext hx.symm (congrArg (World.mk · rest) hc.symm)⟩
    · exact ⟨none, fun rest => Prod.ext hx.symm (congrArg (World.mk · rest) hc.symm)⟩

theorem exists_fate_other {r : OtherRequest} (hr : isWrite (.other r) = true)
    (s : Api × List (Option Failure)) :
    ∃ fate, ∀ rest, (view s (fate :: rest)).request id =
      ((serveAlone (.other r) s).1, view (serveAlone (.other r) s).2 rest) := by
  have hserve : serveAlone (.other r) s = ((fateOf s.2.head?.join).meet (fun s => (.ok (), s))
      (meanwhile ⟨[], 0, fateOf s.2.head?.join⟩ s.1) |>.1,
      ((fateOf s.2.head?.join).meet (fun s => ((.ok () : Except Failure Unit), s))
        (meanwhile ⟨[], 0, fateOf s.2.head?.join⟩ s.1)).2, s.2.tail) := by
    simp only [serveAlone, nextFate, hr, if_true]
    rfl
  rw [hserve]
  cases s.2.head?.join with
  | some e => exact ⟨some e, fun rest => rfl⟩
  | none => exact ⟨none, fun rest => rfl⟩

theorem updateClaims_mirrors (claimRef : Option CoreRef) (os : List Object)
    (s : Api × List (Option Failure)) :
    (updateClaims claimRef os).Mirrors serveAlone Interconnect.serve view (fun _ _ => True)
      (Interconnect.updateClaims claimRef (os.map Obj.content)) s := by
  induction os generalizing s with
  | nil => exact mirrors_ret trivial
  | cons o os ih =>
    obtain ⟨fate, hfate⟩ := exists_fate_updateStatus
      { o with content := setClaimRef claimRef o.content } s
    refine Mirrors.op hfate ?_
    cases (serveAlone (.updateStatus { o with content := setClaimRef claimRef o.content }) s).1 with
    | error e => exact mirrors_fail e
    | ok u => exact ih _

theorem tobeDeletedClaims_content (claimed selected : List Object) :
    (tobeDeletedClaims claimed selected).map Obj.content =
      Interconnect.tobeDeletedClaims (claimed.map Obj.content) (selected.map Obj.content) := by
  unfold tobeDeletedClaims Interconnect.tobeDeletedClaims
  rw [List.filter_map]
  congr 1
  refine List.filter_congr fun o _ => ?_
  simp

theorem moveClaims_mirrors (cr : CoreRef) (claimed selected : List Object)
    (s : Api × List (Option Failure)) :
    (moveClaims cr claimed selected).Mirrors serveAlone Interconnect.serve view (fun _ _ => True)
      (Interconnect.moveClaims cr (claimed.map Obj.content) (selected.map Obj.content)) s := by
  have hdelete := updateClaims_mirrors none (tobeDeletedClaims claimed selected) s
  rw [tobeDeletedClaims_content] at hdelete
  exact hdelete.bind fun _ _ t _ _ => updateClaims_mirrors (some cr) selected t

/-! ## Reads -/

theorem other_run {r : OtherRequest} (hr : isWrite (.other r) = false) :
    (other r).run serveAlone s = (.ok (), meanwhile ⟨[], 0, .served⟩ s.1, s.2) := by
  simp only [other, run_op, serveAlone, nextFate, hr, run_lift]
  rfl

theorem list_run (hs : s.1.cached = false) (topology : Option String) :
    (list topology).run serveAlone s =
      (.ok (s.1.list topology), meanwhile ⟨[], 0, .served⟩ s.1, s.2) := by
  have hread : (meanwhile ⟨[], 0, .served⟩ s.1).read = s.1.read := by
    simp [Api.read, meanwhile, hs]
  have hlist : (meanwhile ⟨[], 0, .served⟩ s.1).list topology = s.1.list topology := by
    cases topology <;> simp only [Api.list, hread]
  rw [← hlist]
  simp only [list, run_op, serveAlone, nextFate, isWrite, run_lift]
  rfl

theorem list_content (hs : s.1.cached = false) (topology : String) :
    (s.1.list (some topology)).map Obj.content = (clusterOf s.1).ofTopology topology := by
  simp only [Api.list, Api.read, hs, Cluster.ofTopology, clusterOf, List.filter_map]
  rfl

theorem getClaimedEndpoints_run (hs : s.1.cached = false) (cr : CoreRef) :
    ∃ os, (getClaimedEndpoints cr).run serveAlone s =
        (.ok os, meanwhile ⟨[], 0, .served⟩ s.1, s.2) ∧
      os.map Obj.content = Interconnect.getClaimedEndpoints (clusterOf s.1) cr := by
  refine ⟨_, run_bind_of_ok _ (list_run hs none), ?_⟩
  have hread : s.1.list none = s.1.store.objects := by
    simp [Api.list, Api.read, hs]
  rw [hread, Interconnect.getClaimedEndpoints, clusterOf, List.filter_map]
  rfl

/-- `Init` makes the inventory of the endpoints. -/
theorem init_run (hs : s.1.cached = false) (topologies : List String) {inventory : Inventory}
    {objects : List Object} (hcovers : Covers objects inventory) :
    ∃ inventory' objects' t, (init topologies inventory objects).run serveAlone s =
        (.ok (inventory', objects'), t) ∧
      initInventory (clusterOf s.1) topologies inventory = .ok inventory' ∧
      Covers objects' inventory' ∧ clusterOf t.1 = clusterOf s.1 := by
  induction topologies generalizing inventory objects s with
  | nil => exact ⟨inventory, objects, s, rfl, rfl, hcovers, rfl⟩
  | cons topology topologies ih =>
    rw [init, initInventory]
    split
    · exact ih hs hcovers
    · have hlist : listEndpointsPerTopology (clusterOf s.1) topology =
          .ok ((s.1.list (some topology)).map Obj.content) := by
        rw [list_content hs]
        rfl
      obtain ⟨inventory', objects', t, hrun, hinit, hcovers', hc⟩ :=
        ih (s := (meanwhile ⟨[], 0, .served⟩ s.1, s.2)) hs (covers_insert hcovers topology)
      refine ⟨inventory', objects', t, ?_, ?_, hcovers', hc⟩
      · rw [run_bind_of_ok _ (list_run hs (some topology))]
        exact hrun
      · rw [hlist]
        exact hinit

end

/-! ## The reconcile -/

section
variable {L : Library}

/-- The parts of the reconcile of `EndpointClaims`. -/
def Resource.populateOnce (r : Resource L) (claimedEndpoints : List Endpoint) :
    Prog requestSig Failure Unit :=
  match r with
  | .link F cr => cr.claimResources L F claimedEndpoints
  | .interconnect owner cr => populateResources owner cr claimedEndpoints

def Resource.cleanUpOnce (r : Resource L) (claimedEndpoints : List Endpoint) :
    Prog requestSig Failure Unit :=
  match r with
  | .link _ _ => Interconnect.deleteClaim claimedEndpoints
  | .interconnect _ _ => LogicalInterconnect.cleanUp claimedEndpoints

def Resource.reconcileOnce (r : Resource L) (w : World) : Interconnect.Outcome × World :=
  match r with
  | .link F cr => cr.reconcile L F w
  | .interconnect owner cr => cr.reconcile owner w

theorem Resource.reconcileOnce_eq (r : Resource L) (w : World) :
    r.reconcileOnce w = Interconnect.reconcile r.ref r.populateOnce r.cleanUpOnce w := by
  cases r <;> rfl

section
variable {r : Resource L} {w w₁ w₂ : World} {e e' : Failure}

theorem Resource.reconcileOnce_ready
    (hpopulate : (r.populateOnce (Interconnect.getClaimedEndpoints w.cluster r.ref)).run
      Interconnect.serve w = (.ok (), w₁)) : r.reconcileOnce w = (.ready, w₁) := by
  rw [r.reconcileOnce_eq, Interconnect.reconcile, hpopulate]

theorem Resource.reconcileOnce_failed
    (hpopulate : (r.populateOnce (Interconnect.getClaimedEndpoints w.cluster r.ref)).run
      Interconnect.serve w = (.error e, w₁))
    (hcleanUp : (r.cleanUpOnce (Interconnect.getClaimedEndpoints w.cluster r.ref)).run
      Interconnect.serve w₁ = (.ok (), w₂)) : r.reconcileOnce w = (.failed e, w₂) := by
  rw [r.reconcileOnce_eq, Interconnect.reconcile, hpopulate]
  dsimp only
  rw [hcleanUp]

theorem Resource.reconcileOnce_cleanUpFailed
    (hpopulate : (r.populateOnce (Interconnect.getClaimedEndpoints w.cluster r.ref)).run
      Interconnect.serve w = (.error e, w₁))
    (hcleanUp : (r.cleanUpOnce (Interconnect.getClaimedEndpoints w.cluster r.ref)).run
      Interconnect.serve w₁ = (.error e', w₂)) : r.reconcileOnce w = (.cleanUpFailed e e', w₂) := by
  rw [r.reconcileOnce_eq, Interconnect.reconcile, hpopulate]
  dsimp only
  rw [hcleanUp]

end

/-- What is done once the endpoints are selected. -/
def Resource.applyOnce (r : Resource L) (claimed : List Endpoint)
    (x : List Endpoint × Option (Resources.Objects Content)) : Prog requestSig Failure Unit :=
  Interconnect.moveClaims r.ref claimed x.1 >>= fun _ =>
    match x.2 with
    | none => .ret ()
    | some rs => .op (.apiApply rs) lift

theorem claimResources_eq (F : Fmt) (cr : Link) (hown : cr.ofInterconnect = false)
    (claimed : List Endpoint) :
    cr.claimResources L F claimed = .op .endpoints fun c =>
      lift (initInventory c cr.getTopologies ∅ >>= fun i => (Resource.link F cr : Resource L).select i)
        >>= (Resource.link F cr : Resource L).applyOnce claimed := by
  have hselect : ∀ i, (Resource.link F cr : Resource L).select i =
      linkEndpoints L F cr.ref i cr.spec.endpoints >>= fun es => pure (es, none) := fun _ => rfl
  have hclaim : cr.claimResources L F claimed = .op .endpoints fun c =>
      lift (cr.endpoints L F c) >>= Interconnect.moveClaims cr.ref claimed := by
    rw [Link.claimResources, hown]
    rfl
  rw [hclaim]
  refine congrArg (Prog.op (S := requestSig) .endpoints) (funext fun c => ?_)
  rw [Link.endpoints]
  cases initInventory c cr.getTopologies ∅ with
  | error e => rfl
  | ok inventory =>
    change lift (linkEndpoints L F cr.ref inventory cr.spec.endpoints) >>= _ =
      lift ((Resource.link F cr : Resource L).select inventory) >>= _
    rw [hselect]
    cases linkEndpoints L F cr.ref inventory cr.spec.endpoints with
    | error e => rfl
    | ok es => exact (bind_ret _).symm

theorem populateResources_eq (owner : Resources.Owner) (cr : LogicalInterconnect L)
    (claimed : List Endpoint) :
    populateResources owner cr claimed = .op .endpoints fun c =>
      lift (initInventory c cr.getTopologies ∅ >>= fun i => (Resource.interconnect owner cr).select i)
        >>= (Resource.interconnect owner cr).applyOnce claimed := by
  have hselect : ∀ i, (Resource.interconnect owner cr).select i =
      selectSides cr i cr.endpoints.zipIdx (newSelector cr.links.toNat) >>= fun result =>
        newResources owner result >>= fun rs => pure (result.endpoints, some rs) := fun _ => rfl
  refine congrArg (Prog.op (S := requestSig) .endpoints) (funext fun c => ?_)
  change lift (selectEndpoints c cr) >>= _ = _
  rw [selectEndpoints]
  cases initInventory c cr.getTopologies ∅ with
  | error e => rfl
  | ok inventory =>
    change lift (selectSides cr inventory cr.endpoints.zipIdx (newSelector cr.links.toNat)) >>= _ =
      lift ((Resource.interconnect owner cr).select inventory) >>= _
    rw [hselect]
    cases selectSides cr inventory cr.endpoints.zipIdx (newSelector cr.links.toNat) with
    | error e => rfl
    | ok result =>
      change lift (newResources owner result) >>= _ =
        lift (newResources owner result >>= fun rs => pure (result.endpoints, some rs)) >>= _
      cases newResources owner result with
      | error e => rfl
      | ok rs => rfl

/-- They have the same parts in the same order. -/
theorem Resource.populateOnce_eq (r : Resource L) (hr : r.ignored = false)
    (claimed : List Endpoint) :
    r.populateOnce claimed = .op .endpoints fun c =>
      lift (initInventory c r.getTopologies ∅ >>= fun i => r.select i) >>= r.applyOnce claimed := by
  cases r with
  | link F cr => exact claimResources_eq F cr hr claimed
  | interconnect owner cr => exact populateResources_eq owner cr claimed

variable {s : Api × List (Option Failure)}

theorem apiApply_mirrors (rs : Resources.Objects Content) (s : Api × List (Option Failure)) :
    (other (.apiApply rs)).Mirrors serveAlone Interconnect.serve view (fun _ _ => True)
      (.op (.apiApply rs) lift) s := by
  obtain ⟨fate, hfate⟩ := exists_fate_other (r := .apiApply rs) rfl s
  refine Mirrors.op hfate (mirrors_lift ?_)
  cases (serveAlone (.other (.apiApply rs)) s).1 with
  | error e => exact .error e
  | ok u => exact .ok trivial

theorem populate_mirrors (r : Resource L) (hr : r.ignored = false) (hs : s.1.cached = false)
    (claimed : List Object) :
    (r.populate claimed).Mirrors serveAlone Interconnect.serve view (fun _ _ => True)
      (r.populateOnce (claimed.map Obj.content)) s := by
  have hempty : Covers [] (∅ : Inventory) := by
    rintro e ⟨t, es, hes, -⟩
    simp at hes
  obtain ⟨inventory, objects, t, hrun, hinit, hcovers, hc⟩ := init_run hs r.getTopologies hempty
  have hview : view t = view s := funext fun rest => congrArg (World.mk · rest) hc
  have hask : ∀ rest, Interconnect.serve .endpoints (view t rest) = (clusterOf s.1, view t rest) :=
    fun rest => congrArg (·, view t rest) hc
  have hselect : (initInventory (clusterOf s.1) r.getTopologies ∅ >>= fun i => r.select i) =
      r.select inventory := by
    rw [hinit]
    rfl
  refine Mirrors.bind_left hrun hview ?_
  rw [r.populateOnce_eq hr]
  refine Mirrors.ask hask ?_
  dsimp only
  rw [hselect]
  cases hsel : r.select inventory with
  | error e => exact mirrors_fail e
  | ok x =>
    -- what is selected from the inventory is among the objects that were listed
    have hcontent : (objectsOf objects x.1).map Obj.content = x.1 :=
      objectsOf_content fun e he => hcovers e (Resource.select_selectable hsel e he).1
    have hmove := moveClaims_mirrors r.ref claimed (objectsOf objects x.1) t
    rw [hcontent] at hmove
    refine hmove.bind fun _ _ t' _ _ => ?_
    cases x.2 with
    | none => exact mirrors_ret trivial
    | some rs => exact (apiApply_mirrors rs t').map (C := fun _ _ => True) fun _ _ _ => trivial

theorem cleanUp_mirrors (r : Resource L) (claimed : List Object) (s : Api × List (Option Failure)) :
    (r.cleanUp claimed).Mirrors serveAlone Interconnect.serve view (fun _ _ => True)
      (r.cleanUpOnce (claimed.map Obj.content)) s := by
  cases r with
  | link F cr => exact updateClaims_mirrors none claimed s
  | interconnect owner cr =>
    obtain ⟨fate, hfate⟩ := exists_fate_other (r := .apiDelete) rfl s
    refine Mirrors.op hfate ?_
    cases (serveAlone (.other .apiDelete) s).1 with
    | error e => exact mirrors_fail e
    | ok u => exact updateClaims_mirrors none claimed _

/-- The ends of the two reconciles. -/
inductive SameEnd : Except Failure Outcome → Interconnect.Outcome → Prop
  | ready (os : List Object) : SameEnd (.ok (.ready os)) .ready
  | failed (e : Failure) : SameEnd (.ok .failed) (.failed e)
  | cleanUpFailed (e e' : Failure) : SameEnd (.error e') (.cleanUpFailed e e')

/-- What is done once the claimed endpoints are known. -/
theorem reconcileClaims_alone (r : Resource L) (hr : r.ignored = false) (hs : s.1.cached = false)
    (claimed : List Object)
    (hclaimed : claimed.map Obj.content = Interconnect.getClaimedEndpoints (clusterOf s.1) r.ref) :
    ∃ fates outcome, SameEnd ((reconcileClaims r claimed).run serveAlone s).1 outcome ∧
      r.reconcileOnce (view s fates) =
        (outcome, view ((reconcileClaims r claimed).run serveAlone s).2 []) := by
  let t : Api × List (Option Failure) :=
    (meanwhile ⟨[], 0, .served⟩ (meanwhile ⟨[], 0, .served⟩ s.1), s.2)
  unfold reconcileClaims
  rw [run_bind_of_ok _ (other_run rfl), run_bind_of_ok _ (other_run rfl), run_attempt_bind]
  obtain ⟨answers, y, hagree, hpopulate⟩ := populate_mirrors (s := t) r hr hs claimed
  rw [hclaimed] at hpopulate
  rcases hx : (r.populate claimed).run serveAlone t with ⟨x, t₁⟩
  rw [hx] at hagree hpopulate
  cases hagree with
  | ok _ =>
    exact ⟨answers ++ [], .ready, .ready _, Resource.reconcileOnce_ready (hpopulate [])⟩
  | error e =>
    obtain ⟨answers', y', hagree', hcleanUp⟩ := cleanUp_mirrors r claimed t₁
    rw [hclaimed] at hcleanUp
    dsimp only
    rw [run_bind]
    rcases hz : (r.cleanUp claimed).run serveAlone t₁ with ⟨z, t₂⟩
    rw [hz] at hagree' hcleanUp
    cases hagree' with
    | ok _ =>
      exact ⟨answers ++ (answers' ++ []), .failed e, .failed e,
        Resource.reconcileOnce_failed (hpopulate _) (hcleanUp [])⟩
    | error e' =>
      exact ⟨answers ++ (answers' ++ []), .cleanUpFailed e e', .cleanUpFailed e e',
        Resource.reconcileOnce_cleanUpFailed (hpopulate _) (hcleanUp [])⟩

theorem reconcile_alone (r : Resource L) (hr : r.ignored = false) (hs : s.1.cached = false) :
    ∃ fates outcome, SameEnd ((reconcile r false).run serveAlone s).1 outcome ∧
      r.reconcileOnce (view s fates) =
        (outcome, view ((reconcile r false).run serveAlone s).2 []) := by
  obtain ⟨claimed, hrun, hclaimed⟩ := getClaimedEndpoints_run hs r.ref
  have hreconcile : reconcile r false = getClaimedEndpoints r.ref >>= reconcileClaims r := by
    unfold reconcile
    rw [hr]
    rfl
  rw [hreconcile, run_bind_of_ok _ hrun]
  exact reconcileClaims_alone (s := (meanwhile ⟨[], 0, .served⟩ s.1, s.2)) r hr hs claimed hclaimed

/-- When only one resource is reconciled, nothing else touches the endpoints and its lists are
served, then for whatever becomes of its writes the two models end in the same way, with the same
endpoints. -/
theorem alone_reconcileOnce (r : Resource L) (hr : r.ignored = false) (s : Api)
    (hs : s.cached = false) (fates : List (Option Failure)) :
    ∃ sched, (∀ e ∈ sched, e.1.edits = [] ∧ e.2 = r.ref) ∧
      ∃ x outcome fates', (after s (alone ⟨r, false, none⟩) sched).proc r.ref = .ret (.ofResult x) ∧
        x = ((reconcile r false).run serveAlone (s, fates)).1 ∧ SameEnd x outcome ∧
        r.reconcileOnce ⟨clusterOf s, fates'⟩ =
          (outcome, ⟨clusterOf (after s (alone ⟨r, false, none⟩) sched).shared, []⟩) := by
  obtain ⟨fates', outcome, hend, honce⟩ := reconcile_alone (s := (s, fates)) r hr hs
  let p : Prog sig Failure Outcome := (reconcile r false).attempt >>= fun x => .ret (.ofResult x)
  have hp : p.run serveAlone (s, fates) =
      (.ok (.ofResult ((reconcile r false).run serveAlone (s, fates)).1),
        ((reconcile r false).run serveAlone (s, fates)).2) := run_attempt_bind ..
  have hproc : (system s (alone (⟨r, false, none⟩ : Item L))).proc r.ref = p := by
    have hitems : alone (⟨r, false, none⟩ : Item L) r.ref = [⟨r, false, none⟩] :=
      Function.update_self ..
    simp only [system, hitems, work]
    rfl
  obtain ⟨sched, hsched, hshared, hreturned⟩ :=
    serves_serveAlone.exists_schedule p (s, fates) _ r.ref hproc rfl
  rw [hp] at hshared hreturned
  refine ⟨sched, hsched, _, outcome, fates', hreturned, rfl, hend, ?_⟩
  unfold after
  rw [hshared]
  exact honce

end

end K8sIpam.Interconnect.Race
