import K8sIpam.Lib.Guarantee
import K8sIpam.Lib.Versioned
import K8sIpam.Controllers.EndpointClaims

/-! # Reconcilers that claim endpoints at the same time

The Links and the LogicalInterconnects are reconciled side by side, by two controllers that may be
restarted at any time. Each of them lists endpoints, perhaps from a cache that lags, and writes its
claims with one request for each endpoint. What keeps the claims apart are the resource versions:
the lease that a reconcile acquires ends after a second, whether or not the reconcile has. -/

namespace K8sIpam.Interconnect.Race
open Std Atomic Versioned K8sIpam.Inv RawTopology

/-! ## The API server -/

abbrev Object := Obj Endpoint

def setClaimRef (claimRef : Option CoreRef) (e : Endpoint) : Endpoint :=
  { e with claimRef := claimRef }

/-- What becomes of a request: it is served, it does not arrive, or its answer is lost. -/
inductive Fate where
  | served
  | unreached (e : Failure)
  | unanswered (e : Failure)
  deriving DecidableEq

/-- The endpoints, whether lists are answered from a cache, how many writes the cache is behind, and
what becomes of the next request. -/
structure Api where
  store : Versioned.Store Endpoint
  inv : store.Inv Endpoint.key
  cached : Bool
  lag : Nat
  fate : Fate

/-- The requests of the reconcilers that do not concern the endpoints. -/
inductive OtherRequest where
  | addFinalizer
  | removeFinalizer
  | acquireLease
  | apiApply (newResources : Resources.Objects Content)
  | apiDelete

inductive Request where
  | list (topology : Option String)
  | updateStatus (o : Object)
  | other (r : OtherRequest)

abbrev sig : Sig where
  Op := Request
  Resp
    | .list _ => Except Failure (List Object)
    | .updateStatus _ | .other _ => Except Failure Unit

namespace Api

def read (s : Api) : List Object :=
  if s.cached then s.store.snapshots.getD s.lag s.store.objects else s.store.objects

def list (s : Api) (topology : Option String) : List Object :=
  match topology with
  | none => s.read
  | some t => s.read.filter fun o => o.content.labels[nephioTopologyKey]? = some t

def refusal : Refusal → Failure
  | .notFound => .error "not found"
  | .conflict => .error ("the object has been modified; please apply your changes to the latest " ++
      "version and try again")

/-- An update of the status changes nothing but the status. -/
def updateStatus (s : Api) (o : Object) : Except Failure Unit × Api :=
  let x := s.store.update Endpoint.key o.content.key o.version (setClaimRef o.content.claimRef)
  (x.1.mapError refusal, { s with store := x.2, inv := s.inv.update o.content.key o.version _ })

end Api

def Fate.meet {α : Type} (call : Api → Except Failure α × Api) (s : Api) :
    Fate → Except Failure α × Api
  | .served => call s
  | .unreached e => (.error e, s)
  | .unanswered e => (.error e, (call s).2)

def serve : Handler sig Api
  | .list topology, s => s.fate.meet (fun s => (.ok (s.list topology), s)) s
  | .updateStatus o, s => s.fate.meet (fun s => s.updateStatus o) s
  | .other _, s => s.fate.meet (fun s => (.ok (), s)) s

/-- What other writers do to the endpoints: an endpoint is created, or its labels and its spec are
changed; an endpoint is deleted. -/
inductive Edit where
  | apply (e : Endpoint)
  | delete (key : String × String)

def editStore (s : Versioned.Store Endpoint) : Edit → Versioned.Store Endpoint
  | .apply e =>
    match s.find Endpoint.key e.key with
    | none => s.create (setClaimRef none e)
    | some cur => s.set Endpoint.key (setClaimRef cur.content.claimRef e)
  | .delete key => s.remove Endpoint.key key

theorem inv_editStore {s : Versioned.Store Endpoint} (hs : s.Inv Endpoint.key) (e : Edit) :
    (editStore s e).Inv Endpoint.key := by
  cases e with
  | apply e =>
    simp only [editStore]
    split
    next hfind => exact hs.create hfind
    next => exact hs.set _
  | delete key => exact hs.remove key

def Api.edit (s : Api) (e : Edit) : Api :=
  { s with store := editStore s.store e, inv := inv_editStore s.inv e }

/-- What happens between two requests of the reconcilers. -/
structure Meanwhile where
  edits : List Edit
  lag : Nat
  fate : Fate

def meanwhile (d : Meanwhile) (s : Api) : Api :=
  { d.edits.foldl Api.edit s with lag := d.lag, fate := d.fate }

/-! ## The code -/

def list (topology : Option String) : Prog sig Failure (List Object) :=
  .op (.list topology) Prog.lift

def other (r : OtherRequest) : Prog sig Failure Unit := .op (.other r) Prog.lift

def getClaimedEndpoints (cr : CoreRef) : Prog sig Failure (List Object) := do
  let os ← list none
  return os.filter fun o => o.content.wasAllocated cr

/-- The loop of `Claim` and of `DeleteClaim`. -/
def updateClaims (claimRef : Option CoreRef) : List Object → Prog sig Failure Unit
  | [] => .ret ()
  | o :: os =>
    .op (.updateStatus { o with content := setClaimRef claimRef o.content }) fun
    | .error e => .fail e
    | .ok () => updateClaims claimRef os

def claim (cr : CoreRef) (os : List Object) : Prog sig Failure Unit := updateClaims (some cr) os

def deleteClaim (os : List Object) : Prog sig Failure Unit := updateClaims none os

/-- `Init`, for the topologies that are left: the inventory, and the objects that were read. -/
def init : List String → Inventory → List Object → Prog sig Failure (Inventory × List Object)
  | [], inventory, objects => .ret (inventory, objects)
  | topology :: topologies, inventory, objects =>
    if topology ∈ inventory then init topologies inventory objects
    else do
      let os ← list (some topology)
      init topologies (inventory.insert topology (os.map Obj.content)) (objects ++ os)

/-- The objects as which endpoints were read: a topology is listed once, and its label is part of
the endpoint. -/
def objectsOf (objects : List Object) (es : List Endpoint) : List Object :=
  es.filterMap fun e => objects.find? fun o => o.content = e

def tobeDeletedClaims (claimedEndpoints selected : List Object) : List Object :=
  claimedEndpoints.filter fun cep => ¬∃ ep ∈ selected,
    cep.content.name = ep.content.name ∧ cep.content.ns = ep.content.ns

def moveClaims (cr : CoreRef) (claimedEndpoints selected : List Object) :
    Prog sig Failure Unit := do
  deleteClaim (tobeDeletedClaims claimedEndpoints selected)
  claim cr selected

/-- A resource that claims endpoints. -/
inductive Resource (L : Library) where
  | link (F : Fmt) (cr : Link)
  | interconnect (owner : Resources.Owner) (cr : LogicalInterconnect L)

namespace Resource

variable {L : Library}

def ref : Resource L → CoreRef
  | .link _ cr => cr.ref
  | .interconnect _ cr => cr.ref

def getTopologies : Resource L → List String
  | .link _ cr => cr.getTopologies
  | .interconnect _ cr => cr.getTopologies

/-- The endpoints to claim, with what is to be applied once they are. -/
def select (inventory : Inventory) :
    Resource L → Except Failure (List Endpoint × Option (Resources.Objects Content))
  | .link F cr => do
    let es ← linkEndpoints L F cr.ref inventory cr.spec.endpoints
    return (es, none)
  | .interconnect owner cr => do
    let selectionResult ← selectSides cr inventory cr.endpoints.zipIdx (newSelector cr.links.toNat)
    let rs ← newResources owner selectionResult
    return (selectionResult.endpoints, some rs)

/-- `claimResources` and `populateResources`, with the endpoints that were claimed. -/
def populate (r : Resource L) (claimedEndpoints : List Object) :
    Prog sig Failure (List Object) := do
  let (inventory, objects) ← init r.getTopologies ∅ []
  let (es, newResources) ← Prog.lift (r.select inventory)
  moveClaims r.ref claimedEndpoints (objectsOf objects es)
  match newResources with
  | none => .ret (objectsOf objects es)
  | some rs => do
    other (.apiApply rs)
    return objectsOf objects es

def cleanUp (r : Resource L) (claimedEndpoints : List Object) : Prog sig Failure Unit :=
  match r with
  | .link _ _ => deleteClaim claimedEndpoints
  | .interconnect _ _ => do
    other .apiDelete
    deleteClaim claimedEndpoints

/-- Nothing is done for the links of a logical interconnect. -/
def ignored : Resource L → Bool
  | .link _ cr => cr.ofInterconnect
  | .interconnect _ _ => false

end Resource

/-- How a reconcile ends. -/
inductive Outcome where
  | ignored
  | failed
  | deleted
  | ready (endpoints : List Object)
  deriving DecidableEq

section
variable {L : Library}

/-- The part of `Reconcile` for a resource that is being deleted. -/
def reconcileDeleted (claimedEndpoints : List Object) : Prog sig Failure Outcome := do
  deleteClaim claimedEndpoints
  other .removeFinalizer
  return .deleted

/-- The part for one that is not. The clean-up knows the endpoints as they were at the beginning. -/
def reconcileClaims (r : Resource L) (claimedEndpoints : List Object) :
    Prog sig Failure Outcome := do
  other .addFinalizer
  other .acquireLease
  let x ← (r.populate claimedEndpoints).attempt
  match x with
  | .ok endpoints => .ret (.ready endpoints)
  | .error _ => do
    r.cleanUp claimedEndpoints
    return .failed

def reconcile (r : Resource L) (wasDeleted : Bool) : Prog sig Failure Outcome :=
  if r.ignored then .ret .ignored
  else do
    let claimedEndpoints ← getClaimedEndpoints r.ref
    if wasDeleted then reconcileDeleted claimedEndpoints else reconcileClaims r claimedEndpoints

/-- A reconcile of one of the versions of a resource; the controller may be stopped after some of
its requests. -/
structure Item (L : Library) where
  resource : Resource L
  wasDeleted : Bool
  stop : Option Nat

def Item.reconcile (i : Item L) : Prog sig Failure Outcome :=
  match i.stop with
  | none => Race.reconcile i.resource i.wasDeleted
  | some n => do
    let x ← (Race.reconcile i.resource i.wasDeleted).cut n
    return x.getD .failed

def Outcome.ofResult : Except Failure Outcome → Outcome
  | .ok outcome => outcome
  | .error _ => .failed

/-- The reconciles of a resource, one after the other, and how the last of them ends. -/
def work : List (Item L) → Outcome → Prog sig Failure Outcome
  | [], last => .ret last
  | i :: is, _ => do
    let x ← i.reconcile.attempt
    work is (.ofResult x)

end

/-! ## What is selected -/

/-- The endpoint is in a list of the inventory. -/
def Listed (inventory : Inventory) (e : Endpoint) : Prop :=
  ∃ (t : String) (es : List Endpoint), inventory[t]? = some es ∧ e ∈ es

/-- The endpoint was read, and no other resource had claimed it then. -/
def Selectable (inventory : Inventory) (cr : CoreRef) (e : Endpoint) : Prop :=
  Listed inventory e ∧ e.isAllocated cr = false

section
variable {L : Library} {inventory : Inventory} {cr : CoreRef} {e : Endpoint}

theorem mem_inventory {t : String} {sel : Option L.Sel} {es : List Endpoint}
    (h : getTopologyEndpointsWithSelector L inventory t sel = .ok es) (he : e ∈ es) :
    Listed inventory e := by
  unfold getTopologyEndpointsWithSelector at h
  split at h
  · cases h
  next objs hobjs =>
    obtain ⟨seps, hseps, h⟩ := bind_eq_ok.mp h
    split at h
    · cases h
    · cases h
      unfold getSelectedObjects at hseps
      split at hseps
      · cases hseps
      · cases hseps
        have hsub := (unique_sublist [] _).subset ((L.sort_perm _).mem_iff.mp he)
        exact ⟨t, objs, hobjs, List.mem_of_mem_filter hsub⟩

theorem linkEndpoints_selectable {F : Fmt} {eps : List LinkEndpointSpec} {es : List Endpoint}
    (h : linkEndpoints L F cr inventory eps = .ok es) : ∀ e ∈ es, Selectable inventory cr e := by
  induction eps generalizing es with
  | nil =>
    cases h
    simp
  | cons ep eps ih =>
    obtain ⟨found, hfound, h⟩ := bind_eq_ok.mp h
    split at h
    next e =>
      split at h
      · cases h
      next hfree =>
        obtain ⟨rest, hrest, hret⟩ := bind_eq_ok.mp h
        cases hret
        have he : Listed inventory e := mem_inventory hfound (List.mem_singleton_self e)
        exact List.forall_mem_cons.mpr ⟨⟨he, by simpa using hfree⟩, ih hrest⟩
    · cases h

theorem topoEndpoints_listed {sel : Option L.Sel} {ts : List String} {pools pools' : Pools}
    (h : topoEndpoints inventory sel ts pools = .ok pools')
    (hpools : ∀ t, ∀ e ∈ (pools t).endpoints, Listed inventory e) :
    ∀ t, ∀ e ∈ (pools' t).endpoints, Listed inventory e := by
  induction ts generalizing pools with
  | nil =>
    cases h
    exact hpools
  | cons t ts ih =>
    obtain ⟨eps, heps, h⟩ := bind_eq_ok.mp h
    refine ih h fun t' e he => ?_
    by_cases ht : t' = t
    · subst ht
      rw [Function.update_self] at he
      exact mem_inventory heps he
    · rw [Function.update_of_ne ht] at he
      exact hpools t' e he

/-- A pick is one of the candidates, and the candidates that are left are among them. -/
theorem pickEndpoint_selectable {ep : LogicalInterconnectEndpoint L} {i : Nat} {t : String}
    {pools pools' : Pools} (h : pickEndpoint cr ep i pools = .ok (t, e, pools'))
    (hpools : ∀ t, ∀ e ∈ (pools t).endpoints, Listed inventory e) :
    Selectable inventory cr e ∧
      ∀ t, ∀ e ∈ (pools' t).endpoints, Listed inventory e := by
  obtain ⟨-, pool, htake, rfl⟩ := pickEndpoint_eq_ok.mp h
  obtain ⟨tep, hfind, heq⟩ := Option.map_eq_some_iff.mp htake
  obtain ⟨rfl, rfl⟩ := Prod.mk.inj heq
  refine ⟨⟨hpools t _ (List.mem_of_find?_eq_some hfind),
    not_isAllocated_of_suits (List.find?_some hfind)⟩, fun t' e' he' => ?_⟩
  by_cases ht : t' = t
  · subst ht
    rw [Function.update_self] at he'
    exact hpools t' e' (List.eraseP_sublist.subset he')
  · rw [Function.update_of_ne ht] at he'
    exact hpools t' e' he'

theorem addEndpoint_endpoints {links linkIdx epIdx : Nat} {t : String} {lacp : Option Bool}
    {name : Option String} {r r' : Result}
    (h : addEndpoint links t linkIdx epIdx e lacp name r = .ok r') :
    r'.endpoints = r.endpoints ++ [e] := by
  unfold addEndpoint at h
  split at h
  · cases h
  · cases h
    rfl

variable {li : LogicalInterconnect L} {r r' : Result}

theorem selectLinks_selectable {epIdx : Nat} {ep : LogicalInterconnectEndpoint L} {is : List Nat}
    {pools : Pools} (h : selectLinks li epIdx ep is pools r = .ok r')
    (hpools : ∀ t, ∀ e ∈ (pools t).endpoints, Listed inventory e)
    (hr : ∀ e ∈ r.endpoints, Selectable inventory li.ref e) :
    ∀ e ∈ r'.endpoints, Selectable inventory li.ref e := by
  induction is generalizing pools r with
  | nil =>
    cases h
    exact hr
  | cons i is ih =>
    obtain ⟨⟨t, tep, pools'⟩, hpick, h⟩ := bind_eq_ok.mp h
    obtain ⟨r₁, hadd, h⟩ := bind_eq_ok.mp h
    obtain ⟨htep, hpools'⟩ := pickEndpoint_selectable hpick hpools
    refine ih h hpools' ?_
    rw [addEndpoint_endpoints hadd]
    exact List.forall_mem_append.mpr ⟨hr, by simpa using htep⟩

theorem selectSides_selectable {sides : List (LogicalInterconnectEndpoint L × Nat)}
    (h : selectSides li inventory sides r = .ok r')
    (hr : ∀ e ∈ r.endpoints, Selectable inventory li.ref e) :
    ∀ e ∈ r'.endpoints, Selectable inventory li.ref e := by
  induction sides generalizing r with
  | nil =>
    cases h
    exact hr
  | cons side sides ih =>
    obtain ⟨pools, hpools, h⟩ := bind_eq_ok.mp h
    obtain ⟨r₁, hlinks, h⟩ := bind_eq_ok.mp h
    refine ih h (selectLinks_selectable hlinks (topoEndpoints_listed hpools ?_) hr)
    intro t e he
    cases he

theorem Resource.select_selectable {r : Resource L} {es : List Endpoint}
    {rs : Option (Resources.Objects Content)} (h : r.select inventory = .ok (es, rs)) :
    ∀ e ∈ es, Selectable inventory r.ref e := by
  cases r with
  | link F cr =>
    obtain ⟨es', hes, hret⟩ := bind_eq_ok.mp h
    cases hret
    exact linkEndpoints_selectable hes
  | interconnect owner li =>
    obtain ⟨result, hsel, h⟩ := bind_eq_ok.mp h
    obtain ⟨rs', -, hret⟩ := bind_eq_ok.mp h
    cases hret
    refine selectSides_selectable hsel fun e he => ?_
    cases he

end

/-! ## What a request does to a claim -/

/-- A reconcile of `cr` takes an endpoint that is free, or releases one that it has. -/
def Moves (cr : CoreRef) (old new : Option CoreRef) : Prop :=
  new = old ∨ old = none ∧ new = some cr ∨ old = some cr ∧ new = none

theorem Moves.of_open {cr : CoreRef} {old new : Option CoreRef} (hold : old = none ∨ old = some cr)
    (hnew : new = none ∨ new = some cr) : Moves cr old new := by
  rcases hold with rfl | rfl
  · rcases hnew with rfl | rfl
    · exact .inl rfl
    · exact .inr (.inl ⟨rfl, rfl⟩)
  · rcases hnew with rfl | rfl
    · exact .inr (.inr ⟨rfl, rfl⟩)
    · exact .inl rfl

/-- The claims of another resource are not concerned. -/
theorem Moves.iff_of_ne {cr cr' : CoreRef} (hne : cr ≠ cr') {old new : Option CoreRef}
    (h : Moves cr old new) : old = some cr' ↔ new = some cr' := by
  rcases h with rfl | ⟨rfl, rfl⟩ | ⟨rfl, rfl⟩
  · exact Iff.rfl
  · exact iff_of_false nofun fun heq => hne (Option.some.inj heq)
  · exact iff_of_false (fun heq => hne (Option.some.inj heq)) nofun

/-- What a reconcile of `cr` guarantees of its requests. -/
structure Own (cr : CoreRef) (s s' : Api) : Prop where
  cached : s'.cached = s.cached
  le : s.store.Le s'.store
  uids : s'.store.objects.map Obj.uid = s.store.objects.map Obj.uid
  moves : ∀ o' ∈ s'.store.objects, ∃ o ∈ s.store.objects,
    o.uid = o'.uid ∧ Moves cr o.content.claimRef o'.content.claimRef

/-- What a reconcile of `cr` relies on: the others do not touch its claims, and make none for it. -/
structure Others (cr : CoreRef) (s s' : Api) : Prop where
  cached : s'.cached = s.cached
  le : s.store.Le s'.store
  claims : ∀ o' ∈ s'.store.objects,
    (s.store.revision < o'.uid ∧ o'.content.claimRef ≠ some cr) ∨ ∃ o ∈ s.store.objects,
      o.uid = o'.uid ∧ (o.content.claimRef = some cr ↔ o'.content.claimRef = some cr)

section
variable {cr cr' : CoreRef} {s s' s'' : Api}

theorem Own.refl (cr : CoreRef) (s : Api) : Own cr s s :=
  ⟨rfl, .refl _, rfl, fun o ho => ⟨o, ho, rfl, .inl rfl⟩⟩

theorem Others.refl (cr : CoreRef) (s : Api) : Others cr s s :=
  ⟨rfl, .refl _, fun o ho => .inr ⟨o, ho, rfl, Iff.rfl⟩⟩

theorem Others.trans (h : Others cr s s') (h' : Others cr s' s'') : Others cr s s'' := by
  refine ⟨h'.cached.trans h.cached, h.le.trans h'.le, fun o'' ho'' => ?_⟩
  rcases h'.claims o'' ho'' with ⟨hnew, hne⟩ | ⟨o', ho', huid', hiff'⟩
  · exact .inl ⟨Nat.lt_of_le_of_lt h.le.revision hnew, hne⟩
  · rcases h.claims o' ho' with ⟨hnew, hne⟩ | ⟨o, ho, huid, hiff⟩
    · exact .inl ⟨huid' ▸ hnew, fun heq => hne (hiff'.mpr heq)⟩
    · exact .inr ⟨o, ho, huid.trans huid', hiff.trans hiff'⟩

theorem Own.others (hne : cr ≠ cr') (h : Own cr s s') : Others cr' s s' := by
  refine ⟨h.cached, h.le, fun o' ho' => ?_⟩
  obtain ⟨o, ho, huid, hmoves⟩ := h.moves o' ho'
  exact .inr ⟨o, ho, huid, hmoves.iff_of_ne hne⟩

/-- Other writers leave the claims as they are, and new endpoints have none. -/
theorem claims_editStore {s : Versioned.Store Endpoint} (hs : s.Inv Endpoint.key) (e : Edit) :
    s.Le (editStore s e) ∧ ∀ o' ∈ (editStore s e).objects,
      (s.revision < o'.uid ∧ o'.content.claimRef = none) ∨
        ∃ o ∈ s.objects, o.uid = o'.uid ∧ o.content.claimRef = o'.content.claimRef := by
  cases e with
  | apply e =>
    simp only [editStore]
    split
    next =>
      refine ⟨s.le_create _, fun o' ho' => ?_⟩
      rcases List.mem_cons.mp ho' with rfl | ho'
      · exact .inl ⟨Nat.lt_succ_self _, rfl⟩
      · exact .inr ⟨o', ho', rfl, rfl⟩
    next cur hfind =>
      refine ⟨s.le_set _, fun o' ho' => ?_⟩
      obtain ⟨o, ho, huid, hcase⟩ := Versioned.Store.mem_set ho'
      refine .inr ⟨o, ho, huid.symm, ?_⟩
      rcases hcase with ⟨hkey, hcontent, -⟩ | ⟨-, rfl⟩
      · obtain ⟨hcur, hcurkey⟩ := Versioned.Store.find_eq_some hfind
        rw [hs.eq_of_key ho hcur (hkey.trans hcurkey.symm), hcontent]
        rfl
      · rfl
  | delete key =>
    exact ⟨s.le_remove key, fun o' ho' => .inr ⟨o', List.mem_of_mem_filter ho', rfl, rfl⟩⟩

theorem others_edit (cr : CoreRef) (s : Api) (e : Edit) : Others cr s (s.edit e) := by
  obtain ⟨hle, hclaims⟩ := claims_editStore s.inv e
  refine ⟨rfl, hle, fun o' ho' => ?_⟩
  rcases hclaims o' ho' with ⟨hnew, hnone⟩ | ⟨o, ho, huid, heq⟩
  · exact .inl ⟨hnew, hnone ▸ nofun⟩
  · exact .inr ⟨o, ho, huid, heq ▸ Iff.rfl⟩

theorem others_meanwhile (cr : CoreRef) (d : Meanwhile) (s : Api) :
    Others cr s (meanwhile d s) := by
  have hedits : ∀ (es : List Edit) (s : Api), Others cr s (es.foldl Api.edit s) := by
    intro es
    induction es with
    | nil => exact .refl cr
    | cons e es ih => exact fun s => (others_edit cr s e).trans (ih _)
  have h := hedits d.edits s
  exact ⟨h.cached, h.le, h.claims⟩

theorem team : Team serve meanwhile Others Own where
  refl := .refl
  trans _ := .trans
  guar_refl := .refl
  guar := Own.others
  env_rely := others_meanwhile

end

/-! ## What the requests of a reconcile achieve -/

/-- The endpoint of this identity, if it still exists, is claimed by `cr`, or it is not. -/
def Has (cr : CoreRef) (claimed : Prop) (uid : Nat) (s : Api) : Prop :=
  uid ≤ s.store.revision ∧
    ∀ o ∈ s.store.objects, o.uid = uid → (o.content.claimRef = some cr ↔ claimed)

/-- No other endpoints than these are claimed by `cr`. -/
def Confined (cr : CoreRef) (uids : Nat → Prop) (s : Api) : Prop :=
  ∀ o ∈ s.store.objects, o.content.claimRef = some cr → uids o.uid

/-- How far the loop over the endpoints has come. -/
structure Progress (cr : CoreRef) (claimRef : Option CoreRef) (uids : Nat → Prop) (done : List Nat)
    (s : Api) : Prop where
  has : ∀ u ∈ done, Has cr (claimRef = some cr) u s
  confined : claimRef = none → Confined cr uids s

/-- The object was read, when it was not claimed by another resource. -/
def Known (cr : CoreRef) (s : Api) (o : Object) : Prop :=
  s.store.Seen o ∧ (o.content.claimRef = none ∨ o.content.claimRef = some cr)

section
variable {cr : CoreRef} {claimRef : Option CoreRef} {uids : Nat → Prop} {done : List Nat}
  {s s' : Api} {o : Object}

theorem Known.others (h : Known cr s o) (hs : Others cr s s') : Known cr s' o :=
  ⟨hs.le.seen h.1, h.2⟩

theorem Has.others {b : Prop} {u : Nat} (h : Has cr b u s) (hs : Others cr s s') :
    Has cr b u s' := by
  refine ⟨h.1.trans hs.le.revision, fun o' ho' huid => ?_⟩
  rcases hs.claims o' ho' with ⟨hnew, -⟩ | ⟨o, ho, heq, hiff⟩
  · exact absurd (huid ▸ hnew) (Nat.not_lt.mpr h.1)
  · exact hiff.symm.trans (h.2 o ho (heq.trans huid))

theorem Confined.others (h : Confined cr uids s) (hs : Others cr s s') :
    Confined cr uids s' := by
  intro o' ho' hclaim
  rcases hs.claims o' ho' with ⟨-, hne⟩ | ⟨o, ho, heq, hiff⟩
  · exact absurd hclaim hne
  · exact heq ▸ h o ho (hiff.mpr hclaim)

theorem Progress.others (h : Progress cr claimRef uids done s) (hs : Others cr s s') :
    Progress cr claimRef uids done s' :=
  ⟨fun u hu => (h.has u hu).others hs, fun hr => (h.confined hr).others hs⟩

/-- An update that is not refused has set the claim of the object that was read. -/
theorem updateStatus_cases (ho : s.store.Seen o) (claimRef : Option CoreRef) :
    ∃ x s', s.updateStatus { o with content := setClaimRef claimRef o.content } = (x, s') ∧
      s'.cached = s.cached ∧ ((∃ e, x = .error e) ∧ s'.store = s.store ∨
        x = .ok () ∧ o ∈ s.store.objects ∧ (o.content.claimRef = claimRef ∧ s'.store = s.store ∨
          s'.store = s.store.set Endpoint.key (setClaimRef claimRef o.content))) := by
  refine ⟨_, _, rfl, rfl, ?_⟩
  rcases s.inv.update_cases (f := setClaimRef claimRef) ho with
    ⟨e, heq⟩ | ⟨hmem, ⟨hsame, heq⟩ | heq⟩
  · have hstore : s.store.update Endpoint.key (setClaimRef claimRef o.content).key o.version
      (setClaimRef claimRef) = (.error e, s.store) := heq
    exact .inl ⟨⟨_, congrArg (fun x => x.1.mapError Api.refusal) hstore⟩, congrArg Prod.snd hstore⟩
  · have hstore : s.store.update Endpoint.key (setClaimRef claimRef o.content).key o.version
      (setClaimRef claimRef) = (.ok (), s.store) := heq
    refine .inr ⟨congrArg (fun x => x.1.mapError Api.refusal) hstore, hmem, .inl ⟨?_, ?_⟩⟩
    · exact (congrArg Endpoint.claimRef hsame).symm
    · exact congrArg Prod.snd hstore
  · have hstore : s.store.update Endpoint.key (setClaimRef claimRef o.content).key o.version
      (setClaimRef claimRef) = (.ok (), s.store.set Endpoint.key (setClaimRef claimRef o.content)) :=
        heq
    exact .inr ⟨congrArg (fun x => x.1.mapError Api.refusal) hstore, hmem, .inr
      (congrArg Prod.snd hstore)⟩

/-- A write of one object concerns no other. -/
theorem mem_setClaim (hs : s.store.Inv Endpoint.key) (ho : o ∈ s.store.objects) {o' : Object}
    (h : o' ∈ (s.store.set Endpoint.key (setClaimRef claimRef o.content)).objects) :
    ∃ p ∈ s.store.objects, p.uid = o'.uid ∧
      (p = o ∧ o'.content.claimRef = claimRef ∨ p ≠ o ∧ o' = p) := by
  obtain ⟨p, hp, huid, hcase⟩ := Versioned.Store.mem_set h
  refine ⟨p, hp, huid.symm, ?_⟩
  rcases hcase with ⟨hkey, hcontent, -⟩ | ⟨hkey, rfl⟩
  · exact .inl ⟨hs.eq_of_key hp ho hkey, by rw [hcontent]; rfl⟩
  · exact .inr ⟨fun heq => hkey (heq ▸ rfl), rfl⟩

theorem Own.of_store (hcached : s'.cached = s.cached) (hstore : s'.store = s.store) :
    Own cr s s' := by
  refine ⟨hcached, ?_, ?_, ?_⟩
  all_goals rw [hstore]
  · exact .refl _
  · exact (Own.refl cr s).moves

theorem Progress.of_store (h : Progress cr claimRef uids done s) (hcached : s'.cached = s.cached)
    (hstore : s'.store = s.store) : Progress cr claimRef uids done s' := by
  refine h.others ⟨hcached, ?_, ?_⟩
  all_goals rw [hstore]
  · exact .refl _
  · exact (Others.refl cr s).claims

theorem own_updateStatus (ho : Known cr s o) (hr : claimRef = none ∨ claimRef = some cr) :
    Own cr s (s.updateStatus { o with content := setClaimRef claimRef o.content }).2 := by
  obtain ⟨x, s', heq, hcached, hcase⟩ := updateStatus_cases ho.1 claimRef
  rw [heq]
  rcases hcase with ⟨-, hsame⟩ | ⟨-, hmem, ⟨-, hsame⟩ | hset⟩
  · exact .of_store hcached hsame
  · exact .of_store hcached hsame
  · refine ⟨hcached, ?_, ?_, fun o' ho' => ?_⟩
    · rw [hset]
      exact s.store.le_set _
    · rw [hset]
      exact Versioned.Store.set_uids _ _ _
    · rw [hset] at ho'
      obtain ⟨p, hp, huid, hcase⟩ := mem_setClaim s.inv hmem ho'
      refine ⟨p, hp, huid, ?_⟩
      rcases hcase with ⟨rfl, hclaim⟩ | ⟨-, rfl⟩
      · exact .of_open ho.2 (hclaim ▸ hr)
      · exact .inl rfl

/-- Once the claim is set, one endpoint more is done. -/
theorem Progress.set (h : Progress cr claimRef uids done s) (ho : o ∈ s.store.objects)
    (hr : claimRef = none ∨ claimRef = some cr)
    (hset : s'.store = s.store.set Endpoint.key (setClaimRef claimRef o.content)) :
    Progress cr claimRef uids (done ++ [o.uid]) s' := by
  have hrev : s.store.revision ≤ s'.store.revision := hset ▸ (s.store.le_set _).revision
  have hmem : ∀ o' ∈ s'.store.objects, ∃ p ∈ s.store.objects, p.uid = o'.uid ∧
      (p = o ∧ o'.content.claimRef = claimRef ∨ p ≠ o ∧ o' = p) := by
    intro o' ho'
    rw [hset] at ho'
    exact mem_setClaim s.inv ho ho'
  constructor
  · refine List.forall_mem_append.mpr ⟨fun u hu => ?_, List.forall_mem_singleton.mpr ?_⟩
    · obtain ⟨hle, hhas⟩ := h.has u hu
      refine ⟨hle.trans hrev, fun o' ho' huid => ?_⟩
      obtain ⟨p, hp, heq, ⟨-, hclaim⟩ | ⟨-, rfl⟩⟩ := hmem o' ho'
      · rw [hclaim]
      · exact hhas o' hp huid
    · refine ⟨(s.inv.uid_le (Versioned.Store.seen_of_mem ho)).trans hrev, fun o' ho' huid => ?_⟩
      obtain ⟨p, hp, heq, ⟨-, hclaim⟩ | ⟨hne, rfl⟩⟩ := hmem o' ho'
      · rw [hclaim]
      · exact absurd (s.inv.eq_of_uid hp ho huid) hne
  · rintro rfl o' ho' hclaim
    obtain ⟨p, hp, heq, ⟨-, hnone⟩ | ⟨-, rfl⟩⟩ := hmem o' ho'
    · cases hnone.symm.trans hclaim
    · exact h.confined rfl o' hp hclaim

/-- An endpoint that has the claim already is done as well. -/
theorem Progress.same (h : Progress cr claimRef uids done s) (ho : o ∈ s.store.objects)
    (hsame : o.content.claimRef = claimRef) : Progress cr claimRef uids (done ++ [o.uid]) s := by
  refine ⟨List.forall_mem_append.mpr ⟨h.has, List.forall_mem_singleton.mpr ?_⟩, h.confined⟩
  refine ⟨s.inv.uid_le (Versioned.Store.seen_of_mem ho), fun p hp huid => ?_⟩
  rw [s.inv.eq_of_uid hp ho huid, hsame]

theorem progress_updateStatus (ho : Known cr s o) (hr : claimRef = none ∨ claimRef = some cr)
    (h : Progress cr claimRef uids done s)
    (hok : (s.updateStatus { o with content := setClaimRef claimRef o.content }).1 = .ok ()) :
    Progress cr claimRef uids (done ++ [o.uid])
      (s.updateStatus { o with content := setClaimRef claimRef o.content }).2 := by
  obtain ⟨x, s', heq, hcached, hcase⟩ := updateStatus_cases ho.1 claimRef
  rw [heq] at hok ⊢
  rcases hcase with ⟨⟨e, rfl⟩, -⟩ | ⟨-, hmem, ⟨hclaim, hsame⟩ | hset⟩
  · cases hok
  · exact (h.same hmem hclaim).of_store hcached hsame
  · exact h.set hmem hr hset

/-- Whatever becomes of an update, it is one of the resource's own; if it is answered, one endpoint
more is done. -/
theorem serve_updateStatus (ho : Known cr s o) (hr : claimRef = none ∨ claimRef = some cr) :
    Own cr s (serve (.updateStatus { o with content := setClaimRef claimRef o.content }) s).2 ∧
      ((serve (.updateStatus { o with content := setClaimRef claimRef o.content }) s).1 = .ok () →
        Progress cr claimRef uids done s → Progress cr claimRef uids (done ++ [o.uid])
          (serve (.updateStatus { o with content := setClaimRef claimRef o.content }) s).2) := by
  simp only [serve]
  cases s.fate with
  | served => exact ⟨own_updateStatus ho hr, fun hok h => progress_updateStatus ho hr h hok⟩
  | unreached e => exact ⟨.refl cr s, fun hok => nomatch hok⟩
  | unanswered e => exact ⟨own_updateStatus ho hr, fun hok => nomatch hok⟩

/-- The loop keeps to its own claims, and at its end all endpoints are done. -/
theorem updateClaims_meets (hr : claimRef = none ∨ claimRef = some cr) {os : List Object}
    (hos : ∀ o ∈ os, Known cr s o) (h : Progress cr claimRef uids done s) :
    (updateClaims claimRef os).Meets serve (Others cr) (Own cr)
      (fun x s' => x = .ok () → Progress cr claimRef uids (done ++ os.map Obj.uid) s') s := by
  induction os generalizing s done with
  | nil =>
    intro s' hs _
    rw [List.map_nil, List.append_nil]
    exact h.others hs
  | cons o os ih =>
    intro s' hs
    obtain ⟨ho, hos⟩ := List.forall_mem_cons.mp hos
    obtain ⟨hown, hprogress⟩ := serve_updateStatus (ho.others hs) hr
    refine ⟨hown, ?_⟩
    cases hx : (serve (.updateStatus { o with content := setClaimRef claimRef o.content }) s').1 with
    | error e => exact fun _ _ hok => nomatch hok
    | ok u =>
      have hknown : ∀ o' ∈ os, Known cr (serve (.updateStatus { o with
          content := setClaimRef claimRef o.content }) s').2 o' :=
        fun o' ho' => ⟨hown.le.seen ((hos o' ho').others hs).1, (hos o' ho').2⟩
      have hrest := ih hknown (hprogress hx (h.others hs))
      rwa [List.append_assoc] at hrest

theorem serve_other (r : OtherRequest) (s : Api) : (serve (.other r) s).2 = s := by
  simp only [serve]
  cases s.fate <;> rfl

theorem serve_list (topology : Option String) (s : Api) : (serve (.list topology) s).2 = s := by
  simp only [serve]
  cases s.fate <;> rfl

theorem seen_of_mem_list {topology : Option String} (h : o ∈ s.list topology) : s.store.Seen o := by
  have hread : o ∈ s.read := by
    cases topology with
    | none => exact h
    | some t => exact List.mem_of_mem_filter h
  unfold Api.read at hread
  split at hread
  · rw [List.getD_eq_getElem?_getD] at hread
    cases hsnap : s.store.snapshots[s.lag]? with
    | none =>
      rw [hsnap] at hread
      exact Versioned.Store.seen_of_mem hread
    | some os =>
      rw [hsnap] at hread
      exact Versioned.Store.seen_of_snapshot hread (List.mem_of_getElem? hsnap)
  · exact Versioned.Store.seen_of_mem hread

theorem other_meets {Q : Except Failure Unit → Api → Prop} (r : OtherRequest)
    (hQ : ∀ x s', Others cr s s' → Q x s') :
    (other r).Meets serve (Others cr) (Own cr) Q s := by
  intro s' hs
  rw [serve_other]
  exact ⟨.refl cr s', Prog.Meets.lift fun s'' hs' => hQ _ s'' (hs.trans hs')⟩

/-- What a list returns was in the store, and a list that does not come from a cache has all that
the resource has claimed. -/
theorem list_meets (topology : Option String) {Q : Except Failure (List Object) → Api → Prop}
    (hok : ∀ os s', Others cr s s' → (∀ o ∈ os, s'.store.Seen o) →
      (s'.cached = false → topology = none →
        Confined cr (fun u => ∃ o ∈ os, o.uid = u ∧ o.content.claimRef = some cr) s') →
      Q (.ok os) s')
    (herr : ∀ e s', Others cr s s' → Q (.error e) s') :
    (list topology).Meets serve (Others cr) (Own cr) Q s := by
  intro s' hs
  rw [serve_list]
  refine ⟨.refl cr s', Prog.Meets.lift fun s'' hs' => ?_⟩
  have hanswer : (∃ e, (serve (.list topology) s').1 = .error e) ∨
      (serve (.list topology) s').1 = .ok (s'.list topology) := by
    simp only [serve]
    cases s'.fate with
    | served => exact .inr rfl
    | unreached e => exact .inl ⟨e, rfl⟩
    | unanswered e => exact .inl ⟨e, rfl⟩
  rcases hanswer with ⟨e, heq⟩ | heq
  · rw [heq]
    exact herr e s'' (hs.trans hs')
  · rw [heq]
    refine hok _ s'' (hs.trans hs') (fun o ho => hs'.le.seen (seen_of_mem_list ho)) ?_
    rintro hcached rfl
    refine Confined.others (s := s') (fun o ho hclaim => ⟨o, ?_, rfl, hclaim⟩) hs'
    have hread : s'.list none = s'.store.objects :=
      if_neg (hs'.cached ▸ hcached ▸ Bool.false_ne_true)
    exact hread ▸ ho

theorem getClaimedEndpoints_meets (cr : CoreRef) (s : Api) :
    (getClaimedEndpoints cr).Meets serve (Others cr) (Own cr) (fun x s' => ∀ os, x = .ok os →
      (∀ o ∈ os, Known cr s' o) ∧
        (s'.cached = false → Confined cr (fun u => u ∈ os.map Obj.uid) s')) s := by
  refine Prog.Meets.bind (list_meets (Q := fun x s' => ∀ os, x = .ok os →
    (∀ o ∈ os, s'.store.Seen o) ∧ (s'.cached = false →
      Confined cr (fun u => ∃ o ∈ os, o.uid = u ∧ o.content.claimRef = some cr) s')) none ?_ ?_)
    (.refl cr) ?_ ?_
  · rintro os s' - hseen hall _ ⟨⟩
    exact ⟨hseen, fun hcached => hall hcached rfl⟩
  · rintro e s' - _ ⟨⟩
  · rintro os s' hlist s'' hs _ ⟨⟩
    obtain ⟨hseen, hall⟩ := hlist os rfl
    refine ⟨fun o ho => ?_, fun hcached => ?_⟩
    · obtain ⟨hmem, hwas⟩ := List.mem_filter.mp ho
      exact ⟨hs.le.seen (hseen o hmem), .inr (Endpoint.wasAllocated_iff.mp hwas)⟩
    · refine Confined.others (fun o ho hclaim => ?_) hs
      obtain ⟨p, hp, huid, hclaim⟩ := hall (hs.cached ▸ hcached) o ho hclaim
      exact List.mem_map.mpr ⟨p, List.mem_filter.mpr
        ⟨hp, Endpoint.wasAllocated_iff.mpr hclaim⟩, huid⟩
  · rintro e s' - _ ⟨⟩

/-- What is in the inventory is among the objects that were read. -/
def Covers (objects : List Object) (inventory : Inventory) : Prop :=
  ∀ e, Listed inventory e → ∃ o ∈ objects, o.content = e

theorem covers_insert {objects os : List Object} {inventory : Inventory}
    (h : Covers objects inventory) (topology : String) :
    Covers (objects ++ os) (inventory.insert topology (os.map Obj.content)) := by
  rintro e ⟨t, es, hes, he⟩
  rw [ExtTreeMap.getElem?_insert] at hes
  split at hes
  · cases hes
    obtain ⟨o, ho, heq⟩ := List.mem_map.mp he
    exact ⟨o, List.mem_append_right _ ho, heq⟩
  · obtain ⟨o, ho, heq⟩ := h e ⟨t, es, hes, he⟩
    exact ⟨o, List.mem_append_left _ ho, heq⟩

theorem init_meets (cr : CoreRef) (topologies : List String) {inventory : Inventory}
    {objects : List Object} (hseen : ∀ o ∈ objects, s.store.Seen o)
    (hcovers : Covers objects inventory) :
    (init topologies inventory objects).Meets serve (Others cr) (Own cr) (fun x s' =>
      ∀ y, x = .ok y → (∀ o ∈ y.2, s'.store.Seen o) ∧ Covers y.2 y.1) s := by
  induction topologies generalizing inventory objects s with
  | nil =>
    rintro s' hs _ ⟨⟩
    exact ⟨fun o ho => hs.le.seen (hseen o ho), hcovers⟩
  | cons topology topologies ih =>
    rw [init]
    split
    · exact ih hseen hcovers
    · refine Prog.Meets.bind (list_meets (Q := fun x s' => (∀ o ∈ objects, s'.store.Seen o) ∧
        ∀ os, x = .ok os → ∀ o ∈ os, s'.store.Seen o) (some topology) ?_ ?_) (.refl cr) ?_ ?_
      · rintro os s' hs hos -
        refine ⟨fun o ho => hs.le.seen (hseen o ho), ?_⟩
        rintro _ ⟨⟩
        exact hos
      · intro e s' hs
        exact ⟨fun o ho => hs.le.seen (hseen o ho), nofun⟩
      · rintro os s' ⟨hobjects, hos⟩
        exact ih (List.forall_mem_append.mpr ⟨hobjects, hos os rfl⟩)
          (covers_insert hcovers topology)
      · rintro e s' - _ ⟨⟩

/-- The objects of the endpoints that are selected. -/
theorem objectsOf_content {objects : List Object} {es : List Endpoint}
    (h : ∀ e ∈ es, ∃ o ∈ objects, o.content = e) :
    (objectsOf objects es).map Obj.content = es := by
  induction es with
  | nil => rfl
  | cons e es ih =>
    obtain ⟨⟨o, ho, heq⟩, hes⟩ := List.forall_mem_cons.mp h
    have hfind : (objects.find? fun o => o.content = e).isSome :=
      List.find?_isSome.mpr ⟨o, ho, by simpa using heq⟩
    obtain ⟨o', ho'⟩ := Option.isSome_iff_exists.mp hfind
    have hcontent : o'.content = e := by simpa using List.find?_some ho'
    have hcons : objectsOf objects (e :: es) = o' :: objectsOf objects es :=
      List.filterMap_cons_some ho'
    rw [hcons, List.map_cons, hcontent, ih hes]

theorem mem_objectsOf {objects : List Object} {es : List Endpoint} (h : o ∈ objectsOf objects es) :
    o ∈ objects ∧ o.content ∈ es := by
  obtain ⟨e, he, hfind⟩ := List.mem_filterMap.mp h
  have heq : o.content = e := by simpa using List.find?_some hfind
  exact ⟨List.mem_of_find?_eq_some hfind, heq ▸ he⟩

theorem Known.of_le (h : Known cr s o) (hle : s.store.Le s'.store) : Known cr s' o :=
  ⟨hle.seen h.1, h.2⟩

/-- Nothing that was read is forgotten while a reconcile goes on. -/
theorem meets_later {α : Type} {p : Prog sig Failure α} {Q : Except Failure α → Api → Prop}
    (hp : p.Meets serve (Others cr) (Own cr) Q s) :
    p.Meets serve (Others cr) (Own cr)
      (fun x s' => Q x s' ∧ s.store.Le s'.store ∧ s'.cached = s.cached) s :=
  hp.along (T := fun s s' : Api => s.store.Le s'.store ∧ s'.cached = s.cached)
    (fun {_ _ _} h h' => ⟨Versioned.Store.Le.trans h.1 h'.1, Eq.trans h'.2 h.2⟩)
    (fun h => ⟨h.le, h.cached⟩)
    (fun h => ⟨h.le, h.cached⟩) ⟨.refl _, rfl⟩

theorem deleteClaim_meets (uids : Nat → Prop) {os : List Object} (hos : ∀ o ∈ os, Known cr s o)
    (hconfined : Confined cr uids s) :
    (deleteClaim os).Meets serve (Others cr) (Own cr) (fun x s' => x = .ok () →
      Confined cr uids s' ∧ ∀ o ∈ os, Has cr False o.uid s') s := by
  have hstart : Progress cr none uids [] s := ⟨nofun, fun _ => hconfined⟩
  refine (updateClaims_meets (.inl rfl) hos hstart).weaken fun x s' h hok => ?_
  obtain ⟨hhas, hconf⟩ := h hok
  refine ⟨hconf rfl, fun o ho => ?_⟩
  obtain ⟨hle, hall⟩ := hhas o.uid (List.mem_map_of_mem ho)
  exact ⟨hle, fun p hp huid => (hall p hp huid).trans (by simp)⟩

theorem claim_meets {os : List Object} (hos : ∀ o ∈ os, Known cr s o) :
    (claim cr os).Meets serve (Others cr) (Own cr) (fun x s' => x = .ok () →
      ∀ o ∈ os, Has cr True o.uid s') s := by
  have hstart : Progress cr (some cr) (fun _ => True) [] s := ⟨nofun, nofun⟩
  refine (updateClaims_meets (.inr rfl) hos hstart).weaken fun x s' h hok o ho => ?_
  obtain ⟨hle, hall⟩ := (h hok).has o.uid (List.mem_map_of_mem ho)
  exact ⟨hle, fun p hp huid => (hall p hp huid).trans (by simp)⟩

theorem moveClaims_meets {claimed selected : List Object} (hclaimed : ∀ o ∈ claimed, Known cr s o)
    (hselected : ∀ o ∈ selected, Known cr s o) :
    (moveClaims cr claimed selected).Meets serve (Others cr) (Own cr)
      (fun x s' => x = .ok () → ∀ o ∈ selected, Has cr True o.uid s') s := by
  have hreleased : ∀ o ∈ tobeDeletedClaims claimed selected, Known cr s o :=
    fun o ho => hclaimed o (List.mem_of_mem_filter ho)
  have hdelete := deleteClaim_meets (fun _ => True) hreleased fun _ _ _ => trivial
  refine (meets_later hdelete).bind (.refl cr) ?_ (fun e s' _ hok => nomatch hok)
  rintro ⟨⟩ s' ⟨-, hle, -⟩
  exact claim_meets fun o ho => (hselected o ho).of_le hle

end

/-! ## What a reconcile achieves -/

section
variable {L : Library} {cr : CoreRef} {s s' : Api} {r : Resource L} {claimed : List Object}

/-- The resource has these endpoints, and they are a selection for it. -/
structure Holds (r : Resource L) (os : List Object) (s : Api) : Prop where
  has : ∀ o ∈ os, Has r.ref True o.uid s
  selected : ∃ inventory rs, r.select inventory = .ok (os.map Obj.content, rs)

theorem Holds.others {os : List Object} (h : Holds r os s) (hs : Others r.ref s s') :
    Holds r os s' :=
  ⟨fun o ho => (h.has o ho).others hs, h.selected⟩

theorem populate_meets (r : Resource L) (hclaimed : ∀ o ∈ claimed, Known r.ref s o) :
    (r.populate claimed).Meets serve (Others r.ref) (Own r.ref)
      (fun x s' => ∀ os, x = .ok os → Holds r os s') s := by
  have hempty : Covers [] (∅ : Inventory) := by
    rintro e ⟨t, es, hes, -⟩
    simp at hes
  have hstart := init_meets (s := s) r.ref r.getTopologies (List.forall_mem_nil _) hempty
  refine (meets_later hstart).bind (.refl _) ?_ (fun e s' _ os hok => nomatch hok)
  rintro ⟨inventory, objects⟩ s₁ ⟨hinit, hle₁, -⟩
  obtain ⟨hseen, hcovers⟩ := hinit _ rfl
  dsimp only at hseen hcovers ⊢
  cases hsel : r.select inventory with
  | error e =>
    rw [Prog.lift_error, Prog.fail_bind]
    exact fun s' _ os hok => nomatch hok
  | ok y =>
    obtain ⟨es, rs⟩ := y
    rw [Prog.lift_ok, Prog.ret_bind]
    dsimp only
    have hselectable := Resource.select_selectable hsel
    have hcontent : (objectsOf objects es).map Obj.content = es :=
      objectsOf_content fun e he => hcovers e (hselectable e he).1
    have hknown : ∀ o ∈ objectsOf objects es, Known r.ref s₁ o := by
      intro o ho
      obtain ⟨hmem, hin⟩ := mem_objectsOf ho
      exact ⟨hseen o hmem, Endpoint.isAllocated_eq_false.mp (hselectable _ hin).2⟩
    refine (moveClaims_meets (fun o ho => (hclaimed o ho).of_le hle₁) hknown).bind (.refl _) ?_
      (fun e s' _ os hok => nomatch hok)
    rintro ⟨⟩ s₂ hmove
    have hholds : Holds r (objectsOf objects es) s₂ :=
      ⟨hmove rfl, inventory, rs, by rw [hcontent, hsel]⟩
    cases rs with
    | none =>
      rintro s' hs _ ⟨⟩
      exact hholds.others hs
    | some rs =>
      refine (other_meets (Q := fun _ s' => Holds r (objectsOf objects es) s') (.apiApply rs)
        fun x s' hs => hholds.others hs).bind (.refl _) ?_ (fun e s' _ os hok => nomatch hok)
      rintro ⟨⟩ s₃ hholds s' hs _ ⟨⟩
      exact hholds.others hs

/-- The clean-up keeps to the claims of the resource. -/
theorem cleanUp_meets (r : Resource L) (hclaimed : ∀ o ∈ claimed, Known r.ref s o) :
    (r.cleanUp claimed).Meets serve (Others r.ref) (Own r.ref) (fun _ _ => True) s := by
  have hdelete : ∀ s', s.store.Le s'.store →
      (deleteClaim claimed).Meets serve (Others r.ref) (Own r.ref) (fun _ _ => True) s' :=
    fun s' hle => (deleteClaim_meets (fun _ => True) (fun o ho => (hclaimed o ho).of_le hle)
      fun _ _ _ => trivial).weaken fun _ _ _ => trivial
  cases r with
  | link F cr => exact hdelete s (.refl _)
  | interconnect owner li =>
    refine (other_meets (Q := fun _ s' => s.store.Le s'.store) .apiDelete fun x s' hs => hs.le).bind
      (.refl _) ?_ (fun _ _ _ => trivial)
    exact fun _ s' hle => hdelete s' hle

/-- What a reconcile has established when it ends. -/
def Established (r : Resource L) (s : Api) : Outcome → Prop
  | .ready os => Holds r os s
  | .deleted => s.cached = false → ∀ o ∈ s.store.objects, o.content.claimRef ≠ some r.ref
  | .ignored | .failed => True

theorem Established.others {outcome : Outcome} (h : Established r s outcome)
    (hs : Others r.ref s s') : Established r s' outcome := by
  cases outcome with
  | ready os => exact Holds.others h hs
  | deleted =>
    intro hcached
    have hnone : Confined r.ref (fun _ => False) s := h (hs.cached ▸ hcached)
    exact hnone.others hs
  | ignored => trivial
  | failed => trivial

theorem reconcileDeleted_meets (hclaimed : ∀ o ∈ claimed, Known r.ref s o)
    (hconfined : s.cached = false → Confined r.ref (fun u => u ∈ claimed.map Obj.uid) s) :
    (reconcileDeleted claimed).Meets serve (Others r.ref) (Own r.ref)
      (fun x s' => ∀ outcome, x = .ok outcome → Established r s' outcome) s := by
  have hconfined' : Confined r.ref (fun u => s.cached = false → u ∈ claimed.map Obj.uid) s :=
    fun o ho hclaim hcached => hconfined hcached o ho hclaim
  have hdelete := meets_later (deleteClaim_meets _ hclaimed hconfined')
  refine hdelete.bind (.refl _) ?_ (fun e s' _ outcome hok => nomatch hok)
  rintro ⟨⟩ s₁ ⟨hdone, -, hcached⟩
  obtain ⟨hleft, hhas⟩ := hdone rfl
  -- every claim that is left is one of those that were deleted
  have hnone : Established r s₁ .deleted := by
    intro hc o ho hclaim
    obtain ⟨p, hp, huid⟩ := List.mem_map.mp (hleft o ho hclaim (hcached ▸ hc))
    exact ((hhas p hp).2 o ho huid.symm).mp hclaim
  refine (other_meets (Q := fun _ s' => Established r s' .deleted) .removeFinalizer
    fun x s' hs => hnone.others hs).bind (.refl _) ?_ (fun e s' _ outcome hok => nomatch hok)
  rintro ⟨⟩ s₂ hnone s' hs _ ⟨⟩
  exact hnone.others hs

theorem reconcileClaims_meets (r : Resource L) (hclaimed : ∀ o ∈ claimed, Known r.ref s o) :
    (reconcileClaims r claimed).Meets serve (Others r.ref) (Own r.ref)
      (fun x s' => ∀ outcome, x = .ok outcome → Established r s' outcome) s := by
  have hother : ∀ (q : OtherRequest) (s₁ : Api), (∀ o ∈ claimed, Known r.ref s₁ o) →
      (other q).Meets serve (Others r.ref) (Own r.ref)
        (fun _ s' => ∀ o ∈ claimed, Known r.ref s' o) s₁ :=
    fun q s₁ h => other_meets q fun x s' hs o ho => (h o ho).others hs
  refine (hother _ s hclaimed).bind (.refl _) ?_ (fun e s' _ outcome hok => nomatch hok)
  rintro ⟨⟩ s₁ hclaimed₁
  refine (hother _ s₁ hclaimed₁).bind (.refl _) ?_ (fun e s' _ outcome hok => nomatch hok)
  rintro ⟨⟩ s₂ hclaimed₂
  refine (meets_later (populate_meets r hclaimed₂)).attempt_bind (.refl _) ?_
  rintro x s₃ ⟨hholds, hle, -⟩
  cases x with
  | ok os =>
    rintro s' hs _ ⟨⟩
    exact (hholds os rfl).others hs
  | error e =>
    refine (cleanUp_meets r fun o ho => (hclaimed₂ o ho).of_le hle).bind (.refl _) ?_
      (fun e s' _ outcome hok => nomatch hok)
    rintro ⟨⟩ s₄ - s' hs _ ⟨⟩
    trivial

theorem reconcile_meets (r : Resource L) (wasDeleted : Bool) (s : Api) :
    (reconcile r wasDeleted).Meets serve (Others r.ref) (Own r.ref)
      (fun x s' => ∀ outcome, x = .ok outcome → Established r s' outcome) s := by
  unfold reconcile
  split
  · rintro s' hs _ ⟨⟩
    trivial
  · refine (getClaimedEndpoints_meets r.ref s).bind (.refl _) ?_
      (fun e s' _ outcome hok => nomatch hok)
    intro claimed s' hclaimed
    obtain ⟨hknown, hconfined⟩ := hclaimed claimed rfl
    cases wasDeleted with
    | true => exact reconcileDeleted_meets hknown hconfined
    | false => exact reconcileClaims_meets r hknown

theorem item_meets (i : Item L) (s : Api) :
    i.reconcile.Meets serve (Others i.resource.ref) (Own i.resource.ref)
      (fun x s' => ∀ outcome, x = .ok outcome → Established i.resource s' outcome) s := by
  unfold Item.reconcile
  have hmeets := reconcile_meets i.resource i.wasDeleted s
  cases i.stop with
  | none => exact hmeets
  | some n =>
    have hcut : ((reconcile i.resource i.wasDeleted).cut n).Meets serve (Others i.resource.ref)
        (Own i.resource.ref)
        (fun x s' => ∀ y, x = .ok y → Established i.resource s' (y.getD .failed)) s := by
      refine hmeets.cut n ?_ ?_ ?_
      · rintro outcome s' h _ ⟨⟩
        exact h outcome rfl
      · rintro e s' - _ ⟨⟩
      · rintro s' _ ⟨⟩
        trivial
    refine hcut.bind (.refl _) ?_ (fun e s' _ outcome hok => nomatch hok)
    rintro y s₁ h s' hs _ ⟨⟩
    exact (h y rfl).others hs

/-- At the end of the work on a resource, what the last reconcile has established still holds. -/
theorem work_meets {items : List (Item L)} (hitems : ∀ i ∈ items, i.resource.ref = cr)
    (last : Outcome) (s : Api) :
    (work items last).Meets serve (Others cr) (Own cr) (fun x s' => ∀ outcome, x = .ok outcome →
      ∀ i, items.getLast? = some i → Established i.resource s' outcome) s := by
  induction items generalizing last s with
  | nil => exact fun s' hs outcome hok i hi => nomatch hi
  | cons i items ih =>
    obtain ⟨rfl, hrest⟩ := List.forall_mem_cons.mp hitems
    refine (item_meets i s).attempt_bind (.refl _) ?_
    intro x s₁ hx
    have hlast : Established i.resource s₁ (.ofResult x) := by
      cases x with
      | ok outcome => exact hx outcome rfl
      | error e => trivial
    cases items with
    | nil =>
      rintro s' hs _ ⟨⟩ _ ⟨⟩
      exact hlast.others hs
    | cons j items => exact ih hrest _ s₁

/-! ## All interleavings -/

/-- The resources are reconciled again and again, side by side. -/
def system (s : Api) (items : CoreRef → List (Item L)) : Conf sig Api CoreRef Failure Outcome :=
  ⟨s, fun cr => work (items cr) .failed⟩

/-- What has come of it after some steps, between which others may have changed endpoints. -/
def after (s : Api) (items : CoreRef → List (Item L)) (sched : List (Meanwhile × CoreRef)) :
    Conf sig Api CoreRef Failure Outcome :=
  Run.run (Conf.stepIn serve meanwhile) (system s items) sched

/-- Every process works on its own resource. -/
def Sorted (items : CoreRef → List (Item L)) : Prop := ∀ cr, ∀ i ∈ items cr, i.resource.ref = cr

variable {items : CoreRef → List (Item L)}

theorem after_meets (hitems : Sorted items) (s : Api) (sched : List (Meanwhile × CoreRef)) :
    Team.Meets serve Others Own (fun cr x s' => ∀ outcome, x = .ok outcome →
      ∀ i, (items cr).getLast? = some i → Established i.resource s' outcome)
      (after s items sched) :=
  team.run (fun cr => work_meets (hitems cr) .failed s) sched

theorem cached_after (hitems : Sorted items) (s : Api) (sched : List (Meanwhile × CoreRef)) :
    (after s items sched).shared.cached = s.cached := by
  induction sched using List.reverseRecOn with
  | nil => rfl
  | append_singleton sched e ih =>
    have hstep := (team.stepIn (after_meets hitems s sched) e).1.cached
    have henv := (others_meanwhile e.2 e.1 (after s items sched).shared).cached
    have hafter : after s items (sched ++ [e]) = (after s items sched).stepIn serve meanwhile e :=
      Run.run_append ..
    rw [hafter, hstep, henv, ih]

theorem established_after (hitems : Sorted items) {sched : List (Meanwhile × CoreRef)}
    {outcome : Outcome} (hret : (after s items sched).proc cr = .ret outcome) {i : Item L}
    (hi : (items cr).getLast? = some i) :
    i.resource.ref = cr ∧ Established i.resource (after s items sched).shared outcome :=
  ⟨hitems cr i (List.mem_of_getLast? hi),
    team.returned (after_meets hitems s sched) hret outcome rfl i hi⟩

/-- Whatever the interleaving, the claim of an endpoint is only ever changed by the resource that
gets it while it is free, and by the resource that has it. -/
theorem claims_move (items : CoreRef → List (Item L)) (hitems : Sorted items) (s : Api)
    (sched : List (Meanwhile × CoreRef)) (d : Meanwhile) (cr : CoreRef) :
    let s₁ := meanwhile d (after s items sched).shared
    let s₂ := (after s items (sched ++ [(d, cr)])).shared
    s₂.store.objects.map Obj.uid = s₁.store.objects.map Obj.uid ∧
      ∀ o' ∈ s₂.store.objects, ∃ o ∈ s₁.store.objects,
        o.uid = o'.uid ∧ Moves cr o.content.claimRef o'.content.claimRef := by
  have hafter : after s items (sched ++ [(d, cr)]) =
      (after s items sched).stepIn serve meanwhile (d, cr) := Run.run_append ..
  have hown := (team.stepIn (after_meets hitems s sched) (d, cr)).1
  rw [hafter]
  exact ⟨hown.uids, hown.moves⟩

/-- An interconnect with two links. -/
def sampleItem (wasDeleted : Bool) : Item referenceLibrary :=
  ⟨.interconnect sampleOwner sampleTwoLinks, wasDeleted, none⟩

/-- Another interconnect that wants one of the same endpoints for each side. -/
def rivalRef : CoreRef := { sampleRef with name := "rival" }

def rivalItem : Item referenceLibrary :=
  ⟨.interconnect { sampleOwner with name := "rival", uid := "rival-uid" }
    { sampleOneLink with ref := rivalRef }, false, none⟩

/-- The rival is reconciled twice, and the first interconnect once before some other reconciles. -/
def contest (more : List (Item referenceLibrary)) (cr : CoreRef) : List (Item referenceLibrary) :=
  if cr = sampleRef then sampleItem false :: more
  else if cr = rivalRef then [rivalItem, rivalItem]
  else []

theorem sorted_contest {more : List (Item referenceLibrary)}
    (hmore : ∀ i ∈ more, i.resource.ref = sampleRef) : Sorted (contest more) := by
  intro cr i hi
  unfold contest at hi
  split at hi
  next hcr =>
    rcases List.mem_cons.mp hi with rfl | hi
    · exact hcr.symm
    · rw [hmore i hi, hcr]
  next =>
    split at hi
    next hcr =>
      obtain rfl : i = rivalItem := by simpa using hi
      exact hcr.symm
    next => cases hi

def freeEndpoints : List Endpoint :=
  [sampleEndpoint "a" "n1" "e1" none, sampleEndpoint "a" "n1" "e2" none,
    sampleEndpoint "a" "n2" "e3" none, sampleEndpoint "b" "n3" "e1" none,
    sampleEndpoint "b" "n4" "e2" none, sampleEndpoint "b" "n5" "e3" none]

theorem nodup_freeEndpoints : (freeEndpoints.map Endpoint.key).Nodup := by decide +kernel

def contestApi : Api where
  store := .ofList freeEndpoints
  inv := Versioned.Store.inv_ofList nodup_freeEndpoints
  cached := false
  lag := 0
  fate := .served

def turn (cr : CoreRef) (fate : Fate) : Meanwhile × CoreRef := (⟨[], 0, fate⟩, cr)

def servedTurns (cr : CoreRef) (n : Nat) : List (Meanwhile × CoreRef) :=
  List.replicate n (turn cr .served)

/-- The rival has listed the endpoints when the first interconnect claims one of them. -/
def opening : List (Meanwhile × CoreRef) := servedTurns rivalRef 5 ++ servedTurns sampleRef 6

/-- The claim of the rival meets a conflict, and its clean-up does not arrive. The first interconnect
claims the other endpoints; then the rival is reconciled again. -/
def closing : List (Meanwhile × CoreRef) :=
  turn rivalRef .served :: servedTurns sampleRef 4 ++
    turn rivalRef (.unreached (.error "timeout")) :: servedTurns rivalRef 8

theorem claims_move_sample :
    let s₁ := meanwhile ⟨[], 0, .served⟩ (after contestApi (contest []) opening).shared
    let s₂ := (after contestApi (contest []) (opening ++ [turn rivalRef .served])).shared
    s₂.store.objects.map Obj.uid = s₁.store.objects.map Obj.uid ∧
      ∀ o' ∈ s₂.store.objects, ∃ o ∈ s₁.store.objects,
        o.uid = o'.uid ∧ Moves rivalRef o.content.claimRef o'.content.claimRef :=
  claims_move (contest []) (sorted_contest (List.forall_mem_nil _)) contestApi opening
    ⟨[], 0, .served⟩ rivalRef

/-- A resource that is ready has the endpoints that were selected for it, and keeps them for as long
as it is not reconciled again. No endpoint is had by two such resources. -/
theorem ready_exclusive (items : CoreRef → List (Item L)) (hitems : Sorted items) (s : Api)
    (sched : List (Meanwhile × CoreRef)) :
    let c := after s items sched
    (∀ cr os i, c.proc cr = .ret (.ready os) → (items cr).getLast? = some i →
      Holds i.resource os c.shared) ∧
    ∀ cr cr' os os', cr ≠ cr' → c.proc cr = .ret (.ready os) → c.proc cr' = .ret (.ready os') →
      ∀ i i', (items cr).getLast? = some i → (items cr').getLast? = some i' →
        ∀ o ∈ os, ∀ o' ∈ os', ∀ p ∈ c.shared.store.objects, ¬(p.uid = o.uid ∧ p.uid = o'.uid) := by
  refine ⟨fun cr os i hret hi => (established_after hitems hret hi).2, ?_⟩
  rintro cr cr' os os' hne hret hret' i i' hi hi' o ho o' ho' p hp ⟨huid, huid'⟩
  obtain ⟨rfl, hholds⟩ := established_after hitems hret hi
  obtain ⟨rfl, hholds'⟩ := established_after hitems hret' hi'
  have hclaim := ((Holds.has hholds o ho).2 p hp huid).mpr trivial
  have hclaim' := ((Holds.has hholds' o' ho').2 p hp huid').mpr trivial
  exact hne (Option.some.inj (hclaim.symm.trans hclaim'))

/-- What the two interconnects were given, as they had listed it. -/
def contestReady : List Object :=
  [⟨sampleEndpoint "a" "n1" "e1" none, 0, 0⟩, ⟨sampleEndpoint "a" "n1" "e2" none, 1, 1⟩,
    ⟨sampleEndpoint "b" "n3" "e1" none, 3, 3⟩, ⟨sampleEndpoint "b" "n4" "e2" none, 4, 4⟩]

def rivalReady : List Object :=
  [⟨sampleEndpoint "a" "n2" "e3" none, 2, 2⟩, ⟨sampleEndpoint "b" "n5" "e3" none, 5, 5⟩]

theorem ready_exclusive_sample :
    let s := (after contestApi (contest []) (opening ++ closing)).shared
    Holds (sampleItem false).resource contestReady s ∧ Holds rivalItem.resource rivalReady s ∧
      ∀ o ∈ contestReady, ∀ o' ∈ rivalReady, ∀ p ∈ s.store.objects,
        ¬(p.uid = o.uid ∧ p.uid = o'.uid) := by
  obtain ⟨hholds, hexclusive⟩ := ready_exclusive (contest [])
    (sorted_contest (List.forall_mem_nil _)) contestApi (opening ++ closing)
  have hready : (after contestApi (contest []) (opening ++ closing)).proc sampleRef =
      .ret (.ready contestReady) := Prog.returned_eq_some.mp (by decide +kernel)
  have hready' : (after contestApi (contest []) (opening ++ closing)).proc rivalRef =
      .ret (.ready rivalReady) := Prog.returned_eq_some.mp (by decide +kernel)
  have hlast : (contest [] sampleRef).getLast? = some (sampleItem false) := rfl
  have hlast' : (contest [] rivalRef).getLast? = some rivalItem := rfl
  exact ⟨hholds _ _ _ hready hlast, hholds _ _ _ hready' hlast',
    hexclusive _ _ _ _ (by decide) hready hready' _ _ hlast hlast'⟩

/-- When lists are not answered from a cache, a resource whose deletion is done has no endpoint. -/
theorem deleted_holds_none (items : CoreRef → List (Item L)) (hitems : Sorted items) (s : Api)
    (hcached : s.cached = false) (sched : List (Meanwhile × CoreRef)) (cr : CoreRef) (i : Item L)
    (hi : (items cr).getLast? = some i)
    (hret : (after s items sched).proc cr = .ret .deleted) :
    ∀ o ∈ (after s items sched).shared.store.objects, o.content.claimRef ≠ some cr := by
  obtain ⟨rfl, hnone⟩ := established_after hitems hret hi
  exact hnone ((cached_after hitems s sched).trans hcached)

/-- The first interconnect is deleted after the contest, while the rival keeps what it has. -/
theorem deleted_holds_none_sample :
    (after contestApi (contest [sampleItem true])
        (opening ++ closing ++ servedTurns sampleRef 6)).shared.store.objects.all
      (fun o => o.content.claimRef ≠ some sampleRef) = true :=
  List.all_eq_true.mpr fun o ho => decide_eq_true
    (deleted_holds_none (contest [sampleItem true])
      (sorted_contest (List.forall_mem_singleton.mpr rfl)) contestApi rfl
      (opening ++ closing ++ servedTurns sampleRef 6) sampleRef (sampleItem true) rfl
      (Prog.returned_eq_some.mp (by decide +kernel)) o ho)

/-- One resource is reconciled, and nothing else happens. -/
def alone (i : Item L) : CoreRef → List (Item L) := Function.update (fun _ => []) i.resource.ref [i]

/-- When they are, and the cache is behind the claims of a resource, then its deletion is done while
it still has all of its endpoints. -/
theorem lagging_deletion (s : Api) (hcached : s.cached = true) (r : Resource L)
    (hr : r.ignored = false) (lag : Nat) (os : List Object)
    (hos : s.store.snapshots[lag]? = some os)
    (hnone : ∀ o ∈ os, o.content.claimRef ≠ some r.ref) :
    let turn : Meanwhile × CoreRef := (⟨[], lag, .served⟩, r.ref)
    let c := after s (alone ⟨r, true, none⟩) [turn, turn]
    c.proc r.ref = .ret .deleted ∧ c.shared.store = s.store := by
  have hread : (meanwhile ⟨[], lag, .served⟩ s).read = os := by
    simp only [meanwhile, Api.read, List.foldl_nil, hcached, if_true]
    rw [List.getD_eq_getElem?_getD, hos]
    rfl
  have hfilter : os.filter (fun o => o.content.wasAllocated r.ref) = [] := by
    refine List.filter_eq_nil_iff.mpr fun o ho hwas => hnone o ho ?_
    exact Endpoint.wasAllocated_iff.mp hwas
  have hlist : serve (.list none) (meanwhile ⟨[], lag, .served⟩ s) =
      (.ok os, meanwhile ⟨[], lag, .served⟩ s) := by rw [← hread]; rfl
  have hdeleted : reconcile r true = getClaimedEndpoints r.ref >>= reconcileDeleted := by
    unfold reconcile
    rw [hr]
    rfl
  let d : Meanwhile := ⟨[], lag, .served⟩
  let items := alone (⟨r, true, none⟩ : Item L)
  have hitems : items r.ref = [⟨r, true, none⟩] := Function.update_self ..
  -- the list has nothing for the resource, so the finalizer is removed next
  have hproc₀ : (system s items).proc r.ref = .op (.list none) fun x =>
      (((Prog.lift x : Prog sig Failure _) >>= fun os => .ret (os.filter fun o =>
        o.content.wasAllocated r.ref)) >>= reconcileDeleted).attempt >>=
          fun x => .ret (.ofResult x) := by
    simp only [system, hitems, work, Item.reconcile, hdeleted]
    rfl
  have hstep₁ := Team.stepIn_op (d := d) hproc₀ hlist
  generalize hc₁ : (system s items).stepIn serve meanwhile (d, r.ref) = c₁ at hstep₁
  have hproc₁ : c₁.proc r.ref = .op (.other .removeFinalizer) fun x =>
      ((Prog.lift x : Prog sig Failure _) >>= fun _ => .ret .deleted).attempt >>=
        fun x => .ret (.ofResult x) := by
    rw [hstep₁]
    dsimp only
    rw [Function.update_self, Prog.lift_ok, Prog.ret_bind, Prog.ret_bind, hfilter]
    rfl
  have hremove : serve (.other .removeFinalizer) (meanwhile d c₁.shared) =
      (.ok (), meanwhile d c₁.shared) := rfl
  have hstep₂ := Team.stepIn_op (d := d) hproc₁ hremove
  have hafter : after s items [(d, r.ref), (d, r.ref)] = c₁.stepIn serve meanwhile (d, r.ref) := by
    rw [← hc₁]
    rfl
  dsimp only
  rw [hafter, hstep₂, hstep₁]
  exact ⟨Function.update_self .., rfl⟩

/-- An endpoint has just been claimed. -/
def claimedStore : Versioned.Store Endpoint :=
  (Versioned.Store.ofList [sampleEndpoint "a" "n1" "e1" none]).set Endpoint.key
    (sampleEndpoint "a" "n1" "e1" (some sampleRef))

theorem inv_claimedStore : claimedStore.Inv Endpoint.key := by
  have hnodup : ([sampleEndpoint "a" "n1" "e1" none].map Endpoint.key).Nodup :=
    List.nodup_singleton _
  exact (Versioned.Store.inv_ofList hnodup).set _

def laggingApi : Api where
  store := claimedStore
  inv := inv_claimedStore
  cached := true
  lag := 0
  fate := .served

theorem lagging_deletion_sample :
    let c := after laggingApi (alone (sampleItem true))
      [(⟨[], 1, .served⟩, sampleRef), (⟨[], 1, .served⟩, sampleRef)]
    c.proc sampleRef = .ret .deleted ∧ c.shared.store = laggingApi.store :=
  lagging_deletion laggingApi rfl (sampleItem true).resource rfl 1
    [⟨sampleEndpoint "a" "n1" "e1" none, 0, 0⟩] rfl (by decide +kernel)

end

end K8sIpam.Interconnect.Race
