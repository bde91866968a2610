import K8sIpam.Controllers.Selection
import K8sIpam.Resources.Resources

/-! # Claiming endpoints

`Claim` and `DeleteClaim` of `pkg/objects/endpoint`, and the two reconcilers that use them:
`controllers/logicalinterconnect-controller` and `controllers/link-controller`. A claim is written
with one request for each endpoint. When a reconcile fails, the endpoints that were claimed before
it are released. -/

namespace K8sIpam.Interconnect
open Std Atomic K8sIpam.Inv RawTopology

/-! ## Status updates -/

/-- A Link or a LogicalEndpoint. -/
inductive Content where
  | link (spec : LinkSpec)
  | logicalEndpoint (spec : LogicalEndpointSpec)
  deriving DecidableEq

/-- What the reconcilers ask of the API server. `APIApply` and `APIDelete` concern Links and
LogicalEndpoints, and each of them is one request here. -/
inductive Request where
  | endpoints
  | updateStatus (e : Endpoint)
  | apiApply (newResources : Resources.Objects Content)
  | apiDelete

abbrev requestSig : Sig where
  Op := Request
  Resp
    | .endpoints => Cluster
    | .updateStatus _ | .apiApply _ | .apiDelete => Except Failure Unit

/-- The endpoints, and for the requests to come whether they fail. -/
structure World where
  cluster : Cluster
  fates : List (Option Failure)

def setClaim (claimRef : Option CoreRef) (keys : List (String × String)) (e : Endpoint) :
    Endpoint :=
  if e.key ∈ keys then { e with claimRef := claimRef } else e

@[simp] theorem setClaim_key (claimRef : Option CoreRef) (keys : List (String × String))
    (e : Endpoint) : (setClaim claimRef keys e).key = e.key := by
  unfold setClaim
  split <;> rfl

@[simp] theorem setClaim_claimRef (claimRef : Option CoreRef) (keys : List (String × String))
    (e : Endpoint) :
    (setClaim claimRef keys e).claimRef = if e.key ∈ keys then claimRef else e.claimRef := by
  unfold setClaim
  split <;> rfl

theorem setClaim_setClaim (claimRef : Option CoreRef) (keys keys' : List (String × String))
    (e : Endpoint) : setClaim claimRef keys' (setClaim claimRef keys e) =
      setClaim claimRef (keys ++ keys') e := by
  by_cases h : e.key ∈ keys
  · have hfirst : setClaim claimRef keys e = { e with claimRef := claimRef } := if_pos h
    have hboth : setClaim claimRef (keys ++ keys') e = { e with claimRef := claimRef } :=
      if_pos (List.mem_append_left keys' h)
    rw [hfirst, hboth, setClaim]
    split <;> rfl
  · have hfirst : setClaim claimRef keys e = e := if_neg h
    rw [hfirst]
    simp [setClaim, h]

/-- The claims of some endpoints are set. -/
def setClaims (claimRef : Option CoreRef) (es : List Endpoint) (c : Cluster) : Cluster where
  endpoints := c.endpoints.map (setClaim claimRef (es.map Endpoint.key))
  nodup := by
    have hkey : Endpoint.key ∘ setClaim claimRef (es.map Endpoint.key) = Endpoint.key :=
      funext (setClaim_key claimRef _)
    rw [List.map_map, hkey]
    exact c.nodup
  listErr := c.listErr

/-- A request that may fail: it changes nothing then. -/
def World.request (w : World) (effect : Cluster → Cluster) : Except Failure Unit × World :=
  match w.fates with
  | [] => (.ok (), ⟨effect w.cluster, []⟩)
  | none :: fates => (.ok (), ⟨effect w.cluster, fates⟩)
  | some e :: fates => (.error e, ⟨w.cluster, fates⟩)

def serve : Handler requestSig World
  | .endpoints, w => (w.cluster, w)
  | .updateStatus e, w => w.request (setClaims e.claimRef [e])
  | .apiApply _, w => w.request id
  | .apiDelete, w => w.request id

/-! ## The code -/

def getClaimedEndpoints (c : Cluster) (cr : CoreRef) : List Endpoint :=
  c.endpoints.filter fun e => e.wasAllocated cr

/-- The loop of `Claim` and of `DeleteClaim`. -/
def updateClaims (claimRef : Option CoreRef) : List Endpoint → Prog requestSig Failure Unit
  | [] => .ret ()
  | e :: es =>
    .op (.updateStatus { e with claimRef := claimRef }) fun
    | .error err => .fail err
    | .ok () => updateClaims claimRef es

def claim (cr : CoreRef) (eps : List Endpoint) : Prog requestSig Failure Unit :=
  updateClaims (some cr) eps

def deleteClaim (eps : List Endpoint) : Prog requestSig Failure Unit := updateClaims none eps

def tobeDeletedClaims (claimedEndpoints selected : List Endpoint) : List Endpoint :=
  claimedEndpoints.filter fun cep => ¬∃ ep ∈ selected, cep.name = ep.name ∧ cep.ns = ep.ns

/-- How the claims are made to be those of the selected endpoints. -/
def moveClaims (cr : CoreRef) (claimedEndpoints selected : List Endpoint) :
    Prog requestSig Failure Unit := do
  deleteClaim (tobeDeletedClaims claimedEndpoints selected)
  claim cr selected

section
variable {L : Library}

def linkGvk : GroupVersionKind := ⟨"inv.nephio.org", "v1alpha1", "Link"⟩

def logicalEndpointGvk : GroupVersionKind := ⟨"inv.nephio.org", "v1alpha1", "LogicalEndpoint"⟩

def interconnectConfig : Resources.Config := ⟨true, [linkGvk, logicalEndpointGvk]⟩

def linkName (l : LinkSpec) : Except Failure String :=
  match l.endpoints with
  | ep₀ :: ep₁ :: _ => .ok (ep₀.nodeName ++ "-" ++ ep₀.interfaceName ++ "-" ++ ep₁.nodeName ++
      "-" ++ ep₁.interfaceName)
  | _ => .error (.panic "runtime error: index out of range")

/-- The loop over the links. -/
def addLinks (owner : Resources.Owner) : List LinkSpec → Resources.Objects Content →
    Except Failure (Resources.Objects Content)
  | [], rs => .ok rs
  | l :: ls, rs => do
    let name ← linkName l
    addLinks owner ls (Resources.addNewResource interconnectConfig owner rs
      ⟨linkGvk, owner.ns, name⟩ ⟨∅, [], .link l⟩)

def addLogicalEndpoints (owner : Resources.Owner) (leps : List LogicalEndpointSpec)
    (rs : Resources.Objects Content) : Resources.Objects Content :=
  leps.zipIdx.foldl (fun rs lep => Resources.addNewResource interconnectConfig owner rs
    ⟨logicalEndpointGvk, owner.ns, owner.name ++ "-logical-ep" ++ toString lep.2⟩
    ⟨∅, [], .logicalEndpoint lep.1⟩) rs

/-- The resources of a selection. -/
def newResources (owner : Resources.Owner) (r : Result) :
    Except Failure (Resources.Objects Content) := do
  let rs ← addLinks owner r.linkSpecs ∅
  return addLogicalEndpoints owner r.logicalEndpoints rs

def populateResources (owner : Resources.Owner) (cr : LogicalInterconnect L)
    (claimedEndpoints : List Endpoint) : Prog requestSig Failure Unit := do
  let c ← Prog.perform (S := requestSig) .endpoints
  let selectionResult ← Prog.lift (selectEndpoints c cr)
  let rs ← Prog.lift (newResources owner selectionResult)
  moveClaims cr.ref claimedEndpoints selectionResult.endpoints
  .op (.apiApply rs) Prog.lift

/-- A Link with its owner references. -/
structure Link where
  ref : CoreRef
  owners : List Resources.OwnerReference
  spec : LinkSpec

def Link.getTopologies (l : Link) : List String := l.spec.endpoints.map LinkEndpointSpec.topology

/-- The logical interconnect claims the endpoints of its links itself. -/
def Link.ofInterconnect (l : Link) : Bool :=
  l.owners.any fun o => o.apiVersion = "topo.nephio.org/v1alpha1" && o.kind = "LogicalInterconnect"

/-- How `fmt` prints endpoints and claims. -/
structure Fmt where
  endpoints : List Endpoint → String
  claimRef : Option CoreRef → String

/-- The loop over the endpoints of a link, for the ones that are left. -/
def linkEndpoints (L : Library) (F : Fmt) (cr : CoreRef) (inventory : Inventory) :
    List LinkEndpointSpec → Except Failure (List Endpoint)
  | [] => .ok []
  | ep :: rest => do
    let eps ← getTopologyEndpointsWithSelector L inventory ep.topology
      (some (L.ofMatchLabels [(nephioInventoryInterfaceNameKey, ep.interfaceName),
        (nephioInventoryNodeNameKey, ep.nodeName)]))
    match eps with
    | [e] =>
      if e.isAllocated cr then
        .error (.error ("endpoint allocated by another resource: " ++ F.claimRef e.claimRef))
      else
        let es ← linkEndpoints L F cr inventory rest
        return e :: es
    | _ => .error (.error ("expecting 1 endpoint, got: " ++ toString eps.length ++ ", data: " ++
        F.endpoints eps))

/-- The endpoints that a link claims. -/
def Link.endpoints (L : Library) (F : Fmt) (c : Cluster) (cr : Link) :
    Except Failure (List Endpoint) := do
  let inventory ← initInventory c cr.getTopologies ∅
  linkEndpoints L F cr.ref inventory cr.spec.endpoints

def Link.claimResources (L : Library) (F : Fmt) (cr : Link) (claimedEndpoints : List Endpoint) :
    Prog requestSig Failure Unit :=
  if cr.ofInterconnect then .ret () else do
    let c ← Prog.perform (S := requestSig) .endpoints
    let endpoints ← Prog.lift (cr.endpoints L F c)
    moveClaims cr.ref claimedEndpoints endpoints

/-- How a reconcile ends. -/
inductive Outcome where
  | ready
  | failed (e : Failure)
  | cleanUpFailed (e e' : Failure)
  deriving DecidableEq

/-- The end of `Reconcile`: what is to be done, and if it fails the clean-up. Both know the
endpoints that were claimed at the beginning. -/
def reconcile (cr : CoreRef) (populate cleanUp : List Endpoint → Prog requestSig Failure Unit)
    (w : World) : Outcome × World :=
  let claimedEndpoints := getClaimedEndpoints w.cluster cr
  match (populate claimedEndpoints).run serve w with
  | (.ok _, w') => (.ready, w')
  | (.error e, w') =>
    match (cleanUp claimedEndpoints).run serve w' with
    | (.ok _, w'') => (.failed e, w'')
    | (.error e', w'') => (.cleanUpFailed e e', w'')

def LogicalInterconnect.cleanUp (claimedEndpoints : List Endpoint) :
    Prog requestSig Failure Unit :=
  .op .apiDelete fun
  | .error e => .fail e
  | .ok () => deleteClaim claimedEndpoints

def LogicalInterconnect.reconcile (owner : Resources.Owner) (cr : LogicalInterconnect L)
    (w : World) : Outcome × World :=
  Interconnect.reconcile cr.ref (populateResources owner cr) LogicalInterconnect.cleanUp w

def Link.reconcile (L : Library) (F : Fmt) (cr : Link) (w : World) : Outcome × World :=
  Interconnect.reconcile cr.ref (cr.claimResources L F) deleteClaim w

end

/-! ## What the updates write -/

/-- The elements whose requests come before the first one that fails. -/
def reached {α : Type} : List (Option Failure) → List α → List α
  | _, [] => []
  | [], es => es
  | none :: fates, e :: es => e :: reached fates es
  | some _ :: _, _ :: _ => []

/-- The selected endpoints whose claims are written. -/
def written (fates : List (Option Failure)) (claimedEndpoints selected : List Endpoint) :
    List Endpoint :=
  (reached fates (tobeDeletedClaims claimedEndpoints selected ++ selected)).drop
    (tobeDeletedClaims claimedEndpoints selected).length

section
variable {α : Type} {es es' : List α} {fates : List (Option Failure)}

@[simp] theorem reached_nil (fates : List (Option Failure)) : reached fates ([] : List α) = [] := by
  unfold reached
  rfl

@[simp] theorem reached_of_no_fates (es : List α) : reached [] es = es := by
  cases es with
  | nil => rfl
  | cons e es => rfl

theorem reached_sublist : (reached fates es).Sublist es := by
  fun_induction reached fates es with
  | case1 => exact .refl _
  | case2 => exact .refl _
  | case3 fates e es ih => exact ih.cons_cons e
  | case4 => exact List.nil_sublist _

theorem reached_append (h : reached fates es = es) :
    reached fates (es ++ es') = es ++ reached (fates.drop es.length) es' := by
  induction es generalizing fates with
  | nil => rfl
  | cons e es ih =>
    match fates with
    | [] => simp
    | none :: fates =>
      rw [reached, List.cons.injEq] at h
      rw [List.cons_append, reached, ih h.2]
      rfl
    | some _ :: _ => cases h

theorem reached_append_of_ne (h : reached fates es ≠ es) :
    reached fates (es ++ es') = reached fates es := by
  induction es generalizing fates with
  | nil => exact absurd (reached_nil fates) h
  | cons e es ih =>
    match fates with
    | [] => exact absurd rfl h
    | none :: fates =>
      rw [List.cons_append, reached, reached, ih fun heq => h (by rw [reached, heq])]
    | some _ :: _ => rfl

end

section
variable {c : Cluster} {claimRef : Option CoreRef} {es : List Endpoint} {w w' : World}

theorem cluster_ext {c c' : Cluster} (he : c.endpoints = c'.endpoints)
    (hl : c.listErr = c'.listErr) : c = c' := by
  cases c
  cases c'
  congr

@[simp] theorem setClaims_nil (claimRef : Option CoreRef) (c : Cluster) :
    setClaims claimRef [] c = c := by
  refine cluster_ext ?_ rfl
  exact (List.map_congr_left fun e _ => if_neg List.not_mem_nil).trans (List.map_id _)

theorem setClaims_cons (claimRef : Option CoreRef) (e : Endpoint) (es : List Endpoint)
    (c : Cluster) : setClaims claimRef es (setClaims claimRef [e] c) =
      setClaims claimRef (e :: es) c := by
  refine cluster_ext ?_ rfl
  refine List.map_map.trans (List.map_congr_left fun x _ => ?_)
  exact setClaim_setClaim claimRef [e.key] (es.map Endpoint.key) x

/-- The updates before the first one that fails are made. -/
theorem updateClaims_run (claimRef : Option CoreRef) (es : List Endpoint) (w : World) :
    ((updateClaims claimRef es).run serve w).2.cluster =
        setClaims claimRef (reached w.fates es) w.cluster ∧
      (((updateClaims claimRef es).run serve w).1 = .ok () ↔ reached w.fates es = es) ∧
      (reached w.fates es = es →
        ((updateClaims claimRef es).run serve w).2.fates = w.fates.drop es.length) := by
  induction es generalizing w with
  | nil => simp [updateClaims]
  | cons e es ih =>
    obtain ⟨c, fates⟩ := w
    match fates with
    | [] =>
      have hstep : (updateClaims claimRef (e :: es)).run serve ⟨c, []⟩ =
        (updateClaims claimRef es).run serve ⟨setClaims claimRef [e] c, []⟩ := rfl
      have hrest := ih ⟨setClaims claimRef [e] c, []⟩
      simp only [reached_of_no_fates, setClaims_cons, List.drop_nil] at hrest ⊢
      rw [hstep]
      exact ⟨hrest.1, by simpa using hrest.2.1, hrest.2.2⟩
    | none :: fates =>
      have hstep : (updateClaims claimRef (e :: es)).run serve ⟨c, none :: fates⟩ =
        (updateClaims claimRef es).run serve ⟨setClaims claimRef [e] c, fates⟩ := rfl
      have hrest := ih ⟨setClaims claimRef [e] c, fates⟩
      rw [setClaims_cons] at hrest
      rw [hstep, reached, List.cons.injEq, and_iff_right rfl]
      exact hrest
    | some err :: fates =>
      have hstep : (updateClaims claimRef (e :: es)).run serve ⟨c, some err :: fates⟩ =
        (.error err, ⟨c, fates⟩) := rfl
      rw [hstep]
      simp [reached]

/-- The claims of released endpoints are deleted first, then those of the selected ones written. -/
theorem moveClaims_run (cr : CoreRef) (claimed selected : List Endpoint) (w : World) :
    ((moveClaims cr claimed selected).run serve w).2.cluster =
      setClaims (some cr) (written w.fates claimed selected)
        (setClaims none (reached w.fates (tobeDeletedClaims claimed selected)) w.cluster) := by
  obtain ⟨hcluster, hok, hfates⟩ := updateClaims_run none (tobeDeletedClaims claimed selected) w
  unfold moveClaims written
  rw [Prog.run_bind]
  unfold deleteClaim
  rcases hrun : (updateClaims none (tobeDeletedClaims claimed selected)).run serve w with
    ⟨_ | ⟨⟩, w₁⟩
  all_goals rw [hrun] at hcluster hok hfates
  · have hne : reached w.fates (tobeDeletedClaims claimed selected) ≠
        tobeDeletedClaims claimed selected := fun heq => nomatch hok.mpr heq
    have hnil : (reached w.fates (tobeDeletedClaims claimed selected)).drop
        (tobeDeletedClaims claimed selected).length = [] :=
      List.drop_eq_nil_of_le reached_sublist.length_le
    rw [reached_append_of_ne hne, hnil, setClaims_nil]
    exact hcluster
  · have hall := hok.mp rfl
    have hclaim := (updateClaims_run (some cr) selected w₁).1
    rw [hfates hall, hcluster] at hclaim
    rw [reached_append hall, List.drop_left]
    exact hclaim

/-- No endpoint names the resource. -/
def Free (cr : CoreRef) (c : Cluster) : Prop := ∀ e ∈ c.endpoints, e.claimRef ≠ some cr

instance (cr : CoreRef) (c : Cluster) : Decidable (Free cr c) :=
  inferInstanceAs (Decidable (∀ e ∈ c.endpoints, _))

/-- Once the endpoints that were claimed at the beginning are released, those remain that were newly
claimed in between. -/
theorem free_iff {cr : CoreRef} {claims released : List Endpoint}
    (hclaims : ∀ e ∈ claims, e ∈ c.endpoints) :
    Free cr (setClaims none (getClaimedEndpoints c cr) (setClaims (some cr) claims
      (setClaims none released c))) ↔ ∀ e ∈ claims, e.wasAllocated cr = true := by
  have hclaimed : ∀ e ∈ c.endpoints, e.key ∈ (getClaimedEndpoints c cr).map Endpoint.key ↔
      e.wasAllocated cr = true := by
    intro e he
    constructor
    · intro hkey
      obtain ⟨e', he', heq⟩ := List.mem_map.mp hkey
      obtain ⟨hc, hwas⟩ := List.mem_filter.mp he'
      rwa [eq_of_key_eq c.nodup hc he heq] at hwas
    · exact fun hwas => List.mem_map_of_mem (List.mem_filter.mpr ⟨he, hwas⟩)
  have hfinal : Free cr (setClaims none (getClaimedEndpoints c cr) (setClaims (some cr) claims
      (setClaims none released c))) ↔ ∀ e ∈ c.endpoints, e.key ∈ claims.map Endpoint.key →
        e.wasAllocated cr = true := by
    simp only [Free, setClaims, List.forall_mem_map, setClaim_claimRef, setClaim_key]
    refine forall₂_congr fun e he => ?_
    by_cases hwas : e.wasAllocated cr = true
    · rw [if_pos ((hclaimed e he).mpr hwas)]
      exact iff_of_true nofun fun _ => hwas
    · rw [if_neg fun hkey => hwas ((hclaimed e he).mp hkey)]
      by_cases hkey : e.key ∈ claims.map Endpoint.key
      · rw [if_pos hkey]
        exact iff_of_false (fun hne => hne rfl) fun hall => hwas (hall hkey)
      · rw [if_neg hkey]
        refine iff_of_true ?_ fun hmem => absurd hmem hkey
        split
        · exact nofun
        · exact fun hclaim => hwas (Endpoint.wasAllocated_iff.mpr hclaim)
  rw [hfinal]
  constructor
  · exact fun h e he => h e (hclaims e he) (List.mem_map_of_mem he)
  · intro h e he hkey
    obtain ⟨e', he', heq⟩ := List.mem_map.mp hkey
    rw [← eq_of_key_eq c.nodup (hclaims e' he') he heq]
    exact h e' he'

/-- What a run has written: some claims of the resource were deleted, and then some made. -/
def Writes (cr : CoreRef) (claims : List Endpoint) (w w' : World) : Prop :=
  ∃ released, w'.cluster = setClaims (some cr) claims (setClaims none released w.cluster)

theorem written_nil (fates : List (Option Failure)) (claimed : List Endpoint) :
    written fates claimed [] = [] := by
  unfold written
  rw [List.append_nil]
  exact List.drop_eq_nil_of_le reached_sublist.length_le

theorem writes_refl (cr : CoreRef) (w : World) : Writes cr [] w w :=
  ⟨[], by rw [setClaims_nil, setClaims_nil]⟩

theorem writes_moveClaims (cr : CoreRef) (claimed selected : List Endpoint) (w : World) :
    Writes cr (written w.fates claimed selected) w
      ((moveClaims cr claimed selected).run serve w).2 :=
  ⟨_, moveClaims_run cr claimed selected w⟩

theorem request_cluster (w : World) : (w.request id).2.cluster = w.cluster := by
  unfold World.request
  split <;> rfl

theorem deleteClaim_ok {claimed : List Endpoint}
    (h : (deleteClaim claimed).run serve w = (.ok (), w')) :
    w'.cluster = setClaims none claimed w.cluster := by
  obtain ⟨hcluster, hok, -⟩ := updateClaims_run none claimed w
  unfold deleteClaim at h
  rw [h] at hcluster hok
  rw [hcluster, hok.mp rfl]

/-- A reconcile that fails was followed by the clean-up. -/
theorem reconcile_eq_failed {cr : CoreRef}
    {populate cleanUp : List Endpoint → Prog requestSig Failure Unit} {e : Failure}
    (h : reconcile cr populate cleanUp w = (.failed e, w')) :
    ∃ w₁, (populate (getClaimedEndpoints w.cluster cr)).run serve w = (.error e, w₁) ∧
      (cleanUp (getClaimedEndpoints w.cluster cr)).run serve w₁ = (.ok (), w') := by
  unfold reconcile at h
  dsimp only at h
  split at h
  · cases h
  next e₁ w₁ hpopulate =>
    split at h
    next hclean =>
      cases h
      exact ⟨w₁, hpopulate, hclean⟩
    · cases h

theorem cleanUp_ok {claimed : List Endpoint}
    (h : (LogicalInterconnect.cleanUp claimed).run serve w = (.ok (), w')) :
    w'.cluster = setClaims none claimed w.cluster := by
  unfold LogicalInterconnect.cleanUp at h
  rw [Prog.run_op] at h
  have hsame : (serve .apiDelete w).2.cluster = w.cluster := request_cluster w
  rcases hreq : serve .apiDelete w with ⟨_ | ⟨⟩, w₁⟩
  all_goals rw [hreq] at h hsame
  · cases h
  · rw [deleteClaim_ok h, hsame]

/-- What remains of the claims after a failure and its clean-up. -/
theorem free_iff_of_writes {cr : CoreRef} {claims : List Endpoint} {w₁ : World}
    (hclaims : ∀ e ∈ claims, e ∈ w.cluster.endpoints) (hwrites : Writes cr claims w w₁)
    (hclean : w'.cluster = setClaims none (getClaimedEndpoints w.cluster cr) w₁.cluster) :
    Free cr w'.cluster ↔ ∀ e ∈ claims, e.wasAllocated cr = true := by
  obtain ⟨released, hcluster⟩ := hwrites
  rw [hclean, hcluster]
  exact free_iff hclaims

theorem mem_of_mem_written {fates : List (Option Failure)} {claimed selected : List Endpoint}
    {e : Endpoint} (h : e ∈ written fates claimed selected) : e ∈ selected := by
  have hreached : (reached fates (tobeDeletedClaims claimed selected ++ selected)).Sublist
      (tobeDeletedClaims claimed selected ++ selected) := reached_sublist
  have hsub := hreached.drop (tobeDeletedClaims claimed selected).length
  rw [List.drop_left] at hsub
  exact hsub.subset h

end

/-! ## The two reconcilers -/

section
variable {L : Library}

/-- The endpoints of a selection that succeeds. -/
def LogicalInterconnect.selected (cr : LogicalInterconnect L) (c : Cluster) : List Endpoint :=
  match selectEndpoints c cr with
  | .ok r => r.endpoints
  | .error _ => []

/-- The endpoints of a link that all are found. -/
def Link.selected (L : Library) (F : Fmt) (cr : Link) (c : Cluster) : List Endpoint :=
  match cr.endpoints L F c with
  | .ok es => es
  | .error _ => []

theorem addLinks_ok (owner : Resources.Owner) (ps₀ ps₁ : List (String × Endpoint))
    (rs : Resources.Objects Content) :
    ∃ rs', addLinks owner (List.zipWith linkOfPicks ps₀ ps₁) rs = .ok rs' := by
  induction ps₀ generalizing ps₁ rs with
  | nil => exact ⟨rs, rfl⟩
  | cons p ps₀ ih =>
    cases ps₁ with
    | nil => exact ⟨rs, rfl⟩
    | cons q ps₁ => exact ih ps₁ _

/-- A selection has two endpoints for each link. -/
theorem newResources_ok {c : Cluster} {cr : LogicalInterconnect L} {r : Result}
    (h : selectEndpoints c cr = .ok r) (owner : Resources.Owner) :
    ∃ rs, newResources owner r = .ok rs := by
  obtain ⟨ep₀, ep₁, ps₀, ps₁, -, -, -, rfl⟩ := exists_sidePicks h
  obtain ⟨rs, hrs⟩ := addLinks_ok owner ps₀ ps₁ ∅
  exact ⟨_, bind_eq_ok.mpr ⟨rs, hrs, rfl⟩⟩

theorem LogicalInterconnect.mem_of_mem_selected {cr : LogicalInterconnect L} {c : Cluster}
    {e : Endpoint} (h : e ∈ cr.selected c) : e ∈ c.endpoints := by
  unfold LogicalInterconnect.selected at h
  split at h
  next r hr =>
    obtain ⟨ep, -, ps, hps, p, hp, rfl⟩ := exists_pick hr h
    exact (hps.mem_cluster hp).1
  · cases h

theorem writes_populateResources (owner : Resources.Owner) (cr : LogicalInterconnect L)
    (claimed : List Endpoint) (w : World) :
    Writes cr.ref (written w.fates claimed (cr.selected w.cluster)) w
      ((populateResources owner cr claimed).run serve w).2 := by
  unfold populateResources LogicalInterconnect.selected
  rw [Prog.perform_bind, Prog.run_op]
  have hserve : serve .endpoints w = (w.cluster, w) := rfl
  rw [hserve]
  cases hsel : selectEndpoints w.cluster cr with
  | error e =>
    rw [Prog.lift_error, Prog.fail_bind, written_nil]
    exact writes_refl cr.ref w
  | ok r =>
    obtain ⟨rs, hrs⟩ := newResources_ok hsel owner
    rw [Prog.lift_ok, Prog.ret_bind, hrs, Prog.lift_ok, Prog.ret_bind, Prog.run_bind]
    have hmove := writes_moveClaims cr.ref claimed r.endpoints w
    rcases hrun : (moveClaims cr.ref claimed r.endpoints).run serve w with ⟨_ | ⟨⟩, w₁⟩
    all_goals rw [hrun] at hmove
    · exact hmove
    · obtain ⟨released, hcluster⟩ := hmove
      refine ⟨released, ?_⟩
      rw [← hcluster]
      dsimp only
      rw [Prog.run_op, Prog.run_lift]
      exact request_cluster w₁

theorem mem_of_mem_linkEndpoints {F : Fmt} {cr : CoreRef} {c : Cluster} {inventory : Inventory}
    (hlists : Lists c inventory) {eps : List LinkEndpointSpec}
    (hmem : ∀ ep ∈ eps, ep.topology ∈ inventory) {es : List Endpoint}
    (h : linkEndpoints L F cr inventory eps = .ok es) : ∀ e ∈ es, e ∈ c.endpoints := by
  induction eps generalizing es with
  | nil =>
    cases h
    simp
  | cons ep eps ih =>
    obtain ⟨found, hfound, h⟩ := bind_eq_ok.mp h
    obtain ⟨rfl, -⟩ := (getTopologyEndpointsWithSelector_eq_ok hlists
      (hmem ep List.mem_cons_self)).mp hfound
    split at h
    next e hone =>
      split at h
      · cases h
      · obtain ⟨rest, hrest, hret⟩ := bind_eq_ok.mp h
        cases hret
        have he : e ∈ candidates L c ep.topology _ := hone ▸ List.mem_singleton_self e
        exact List.forall_mem_cons.mpr ⟨(mem_candidates he).1,
          ih (fun ep' hep' => hmem ep' (List.mem_cons_of_mem ep hep')) hrest⟩
    · cases h

theorem Link.mem_of_mem_selected {F : Fmt} {cr : Link} {c : Cluster} {e : Endpoint}
    (h : e ∈ cr.selected L F c) : e ∈ c.endpoints := by
  unfold Link.selected at h
  split at h
  next es hes =>
    obtain ⟨inventory, hinit, hes⟩ := bind_eq_ok.mp hes
    have hempty : Lists c ∅ := fun t es h => by simp at h
    obtain ⟨hlists, hmem⟩ := initInventory_eq_ok hempty hinit
    refine mem_of_mem_linkEndpoints hlists (fun ep hep => ?_) hes e h
    exact (hmem ep.topology).mpr (.inl (List.mem_map_of_mem hep))
  · cases h

theorem writes_claimResources {F : Fmt} {cr : Link} (howner : cr.ofInterconnect = false)
    (claimed : List Endpoint) (w : World) :
    Writes cr.ref (written w.fates claimed (cr.selected L F w.cluster)) w
      ((cr.claimResources L F claimed).run serve w).2 := by
  unfold Link.claimResources Link.selected
  rw [howner, if_neg Bool.false_ne_true, Prog.perform_bind, Prog.run_op]
  have hserve : serve .endpoints w = (w.cluster, w) := rfl
  rw [hserve]
  cases cr.endpoints L F w.cluster with
  | error e =>
    rw [Prog.lift_error, Prog.fail_bind, written_nil]
    exact writes_refl cr.ref w
  | ok es =>
    rw [Prog.lift_ok, Prog.ret_bind]
    exact writes_moveClaims cr.ref claimed es w

end

/-- After a reconcile that failed and cleaned up, no endpoint names the resource if and only if the
claims that were written before the failure were not new. -/
theorem failed_reconcile_free_iff (L : Library) (F : Fmt) (owner : Resources.Owner) (w w' : World)
    (e : Failure) :
    (∀ cr : LogicalInterconnect L, cr.reconcile owner w = (.failed e, w') →
      (Free cr.ref w'.cluster ↔ ∀ ep ∈ written w.fates (getClaimedEndpoints w.cluster cr.ref)
        (cr.selected w.cluster), ep.wasAllocated cr.ref = true)) ∧
    ∀ cr : Link, cr.reconcile L F w = (.failed e, w') →
      (Free cr.ref w'.cluster ↔ ∀ ep ∈ written w.fates (getClaimedEndpoints w.cluster cr.ref)
        (cr.selected L F w.cluster), ep.wasAllocated cr.ref = true) := by
  constructor
  · intro cr h
    obtain ⟨w₁, hpopulate, hclean⟩ := reconcile_eq_failed h
    have hwrites := writes_populateResources owner cr (getClaimedEndpoints w.cluster cr.ref) w
    rw [hpopulate] at hwrites
    exact free_iff_of_writes (fun ep hep => cr.mem_of_mem_selected (mem_of_mem_written hep)) hwrites
      (cleanUp_ok hclean)
  · intro cr h
    obtain ⟨w₁, hclaim, hclean⟩ := reconcile_eq_failed h
    have howner : cr.ofInterconnect = false := by
      unfold Link.claimResources at hclaim
      cases howner : cr.ofInterconnect with
      | false => rfl
      | true =>
        rw [howner, if_pos rfl] at hclaim
        cases hclaim
    have hwrites := writes_claimResources (L := L) (F := F) howner
      (getClaimedEndpoints w.cluster cr.ref) w
    rw [hclaim] at hwrites
    exact free_iff_of_writes (fun ep hep => cr.mem_of_mem_selected (mem_of_mem_written hep)) hwrites
      (deleteClaim_ok hclean)

/-- An interface with the labels by which a Link finds it. -/
def linkEndpoint (topology node interfaceName : String) : Endpoint :=
  { sampleEndpoint topology node interfaceName none with
    labels := (((∅ : Labels).insert nephioTopologyKey topology).insert
      nephioInventoryInterfaceNameKey interfaceName).insert nephioInventoryNodeNameKey node }

/-- Two free endpoints, and requests of which the one with this number fails. -/
def failingWorld (n : Nat) : World where
  cluster :=
    { endpoints := [linkEndpoint "a" "n1" "e1", linkEndpoint "b" "n2" "e1"]
      nodup := by decide +kernel
      listErr := fun _ => none }
  fates := List.replicate n none ++ [some (.error "the server has asked for the client to retry")]

def sampleLink : Link where
  ref := ⟨"inv.nephio.org/v1alpha1", "Link", "ns", "l"⟩
  owners := []
  spec := ⟨[⟨"a", "e1", "n1", none⟩, ⟨"b", "e1", "n2", none⟩]⟩

def sampleOneLink : LogicalInterconnect referenceLibrary :=
  sampleInterconnect 1 (sampleSide "a" none) (sampleSide "b" none)

def sampleOwner : Resources.Owner :=
  ⟨⟨"topo.nephio.org", "v1alpha1", "LogicalInterconnect"⟩, "ns", "li", "uid"⟩

/-- Both endpoints already have the claims of the resource. -/
def claimedWorld (cr : CoreRef) (n : Nat) : World :=
  { failingWorld n with
    cluster := setClaims (some cr) (failingWorld n).cluster.endpoints (failingWorld n).cluster }

def noFmt : Fmt := ⟨fun _ => "", fun _ => ""⟩

def retryError : Failure := .error "the server has asked for the client to retry"

/-- With claims that are not new the clean-up releases both, wherever the reconcile fails. -/
theorem failed_reconcile_free_sample :
    Free sampleRef (sampleOneLink.reconcile sampleOwner (claimedWorld sampleRef 2)).2.cluster ∧
      Free sampleLink.ref (sampleLink.reconcile referenceLibrary noFmt
        (claimedWorld sampleLink.ref 1)).2.cluster := by
  constructor
  · refine ((failed_reconcile_free_iff referenceLibrary noFmt sampleOwner
      (claimedWorld sampleRef 2) _ retryError).1 sampleOneLink (Prod.ext ?_ rfl)).mpr ?_
    · decide +kernel
    · decide +kernel
  · refine ((failed_reconcile_free_iff referenceLibrary noFmt sampleOwner
      (claimedWorld sampleLink.ref 1) _ retryError).2 sampleLink (Prod.ext ?_ rfl)).mpr ?_
    · decide +kernel
    · decide +kernel

/-- The interconnect has claimed both endpoints when its resources cannot be applied, and the link
has claimed the first one when the second update fails. The clean-up releases neither. -/
theorem claims_left_behind :
    ((sampleOneLink.reconcile sampleOwner (failingWorld 2)).1 =
        .failed (.error "the server has asked for the client to retry") ∧
      ¬Free sampleRef (sampleOneLink.reconcile sampleOwner (failingWorld 2)).2.cluster) ∧
    (sampleLink.reconcile referenceLibrary ⟨fun _ => "", fun _ => ""⟩ (failingWorld 1)).1 =
        .failed (.error "the server has asked for the client to retry") ∧
      ¬Free sampleLink.ref (sampleLink.reconcile referenceLibrary ⟨fun _ => "", fun _ => ""⟩
        (failingWorld 1)).2.cluster := by
  decide +kernel

end K8sIpam.Interconnect
