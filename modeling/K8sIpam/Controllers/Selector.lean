import K8sIpam.Lib.FirstFit
import K8sIpam.Inv.Endpoint

/-! # The endpoints of a logical interconnect

`controllers/logicalinterconnect-controller/selector.go`: for each side of a LogicalInterconnect and
each of its links the selector chooses an endpoint among those of a topology of the side. -/

namespace K8sIpam.Interconnect
open Std Atomic K8sIpam.Inv RawTopology

structure SelectorPolicy where
  nodeDiversity : Option UInt16
  deriving DecidableEq

structure LogicalInterconnectEndpoint (L : Library) where
  name : Option String
  topologies : List String
  selector : Option L.Sel
  selectorPolicy : Option SelectorPolicy

/-- The API server accepts exactly two endpoints, the two sides. -/
structure LogicalInterconnect (L : Library) where
  ref : CoreRef
  links : UInt16
  lacp : Option Bool
  endpoints : List (LogicalInterconnectEndpoint L)
  two : endpoints.length = 2

structure LogicalEndpointSpec where
  name : Option String
  lacp : Option Bool
  endpoints : List EndpointSpec
  deriving DecidableEq

structure Result where
  endpoints : List Endpoint
  logicalEndpoints : List LogicalEndpointSpec
  linkSpecs : List LinkSpec
  deriving DecidableEq

variable {L : Library}

def LogicalInterconnect.getTopologies (cr : LogicalInterconnect L) : List String :=
  cr.endpoints.flatMap LogicalInterconnectEndpoint.topologies

def newSelector (links : Nat) : Result :=
  ⟨[], List.replicate 2 ⟨none, none, []⟩, List.replicate links ⟨[]⟩⟩

def validateIndices (links linkIdx epIdx : Nat) : Option String :=
  if linkIdx ≥ links then
    some ("invalid linkIndex, got: " ++ toString linkIdx ++ ", want linkidx > 0 and < " ++
      toString links)
  else if epIdx ≥ 2 then
    some ("invalid endpointIndex, got: " ++ toString epIdx ++
      ", want endpointIndex > 0 and < 2")
  else none

/-- What a link says about one of its endpoints. -/
def linkEnd (topology : String) (ep : Endpoint) : LinkEndpointSpec :=
  ⟨topology, ep.spec.interfaceName, ep.spec.nodeName, none⟩

/-- An endpoint is filled into a link; the first one makes room for two. -/
def LinkSpec.setEnd (epIdx : Nat) (e : LinkEndpointSpec) (l : LinkSpec) : LinkSpec :=
  ⟨(if l.endpoints = [] then List.replicate 2 ⟨"", "", "", none⟩ else l.endpoints).set epIdx e⟩

def LogicalEndpointSpec.addEnd (lacp : Option Bool) (name : Option String)
    (l : LogicalEndpointSpec) (ep : Endpoint) : LogicalEndpointSpec :=
  ⟨name, lacp, l.endpoints ++ [⟨ep.spec.interfaceName, ep.spec.nodeName, none⟩]⟩

def addEndpoint (links : Nat) (topology : String) (linkIdx epIdx : Nat) (ep : Endpoint)
    (lacp : Option Bool) (name : Option String) (r : Result) : Except Failure Result :=
  match validateIndices links linkIdx epIdx with
  | some msg => .error (.error msg)
  | none => .ok
    { endpoints := r.endpoints ++ [ep]
      logicalEndpoints := r.logicalEndpoints.modify epIdx fun l => l.addEnd lacp name ep
      linkSpecs := r.linkSpecs.modify linkIdx (LinkSpec.setEnd epIdx (linkEnd topology ep)) }

/-! ## Choosing an endpoint -/

/-- The nodes that were selected in a topology, in the two slots. -/
abbrev Nodes := Fin 2 → String

instance neZeroSlots : NeZero 2 := ⟨by decide⟩

/-- The candidates of a topology that are left, and its selected nodes. -/
structure Pool where
  endpoints : List Endpoint
  nodes : Nodes

/-- The loop over the candidates stops at this one. -/
def suits (cr : CoreRef) (diversity : Bool) (nodes : Nodes) (selectedNodeIdx : Fin 2)
    (tep : Endpoint) : Bool :=
  if tep.wasAllocated cr then true
  else if nodes selectedNodeIdx ≠ "" then
    tep.spec.nodeName = nodes selectedNodeIdx && !tep.isAllocated cr
  else if diversity then tep.isNodeDiverse selectedNodeIdx nodes && !tep.isAllocated cr
  else !tep.isAllocated cr

/-- An endpoint that the resource has already does not select a node. -/
def nodesAfter (cr : CoreRef) (nodes : Nodes) (selectedNodeIdx : Fin 2) (tep : Endpoint) : Nodes :=
  if tep.wasAllocated cr then nodes
  else if nodes selectedNodeIdx ≠ "" then nodes
  else Function.update nodes selectedNodeIdx tep.spec.nodeName

def Pool.take (cr : CoreRef) (diversity : Bool) (selectedNodeIdx : Fin 2) (p : Pool) :
    Option (Endpoint × Pool) :=
  (p.endpoints.find? (suits cr diversity p.nodes selectedNodeIdx)).map fun tep =>
    (tep, ⟨p.endpoints.eraseP (suits cr diversity p.nodes selectedNodeIdx),
      nodesAfter cr p.nodes selectedNodeIdx tep⟩)

namespace LogicalInterconnectEndpoint

/-- Node diversity is asked for. -/
def diversity (ep : LogicalInterconnectEndpoint L) : Bool :=
  ep.topologies.length = 1 ∧
    ((ep.selectorPolicy.bind SelectorPolicy.nodeDiversity).any fun n => 1 < n) = true

/-- The topology of a link. -/
def topology (ep : LogicalInterconnectEndpoint L) (linkIdx : Nat) : Option String :=
  ep.topologies[linkIdx % ep.topologies.length]?

/-- With several topologies node selection does not apply. -/
def selectedNodeIdx (ep : LogicalInterconnectEndpoint L) (linkIdx : Nat) : Fin 2 :=
  if ep.topologies.length = 1 then Fin.ofNat 2 linkIdx else 0

end LogicalInterconnectEndpoint

abbrev Pools := String → Pool

def pickEndpoint (cr : CoreRef) (ep : LogicalInterconnectEndpoint L) (linkIdx : Nat)
    (pools : Pools) : Except Failure (String × Endpoint × Pools) :=
  match ep.topology linkIdx with
  | none => .error (.panic "runtime error: integer divide by zero")
  | some topology =>
    match (pools topology).take cr ep.diversity (ep.selectedNodeIdx linkIdx) with
    | none => .error (.error "no endpoints available")
    | some (tep, pool) => .ok (topology, tep, Function.update pools topology pool)

/-- The loop over the links of a side, for the ones that are left. -/
def selectLinks (cr : LogicalInterconnect L) (epIdx : Nat) (ep : LogicalInterconnectEndpoint L) :
    List Nat → Pools → Result → Except Failure Result
  | [], _, r => .ok r
  | linkIdx :: rest, pools, r => do
    let (topology, tep, pools) ← pickEndpoint cr.ref ep linkIdx pools
    let r ← addEndpoint cr.links.toNat topology linkIdx epIdx tep cr.lacp ep.name r
    selectLinks cr epIdx ep rest pools r

/-- The candidates for the topologies that are left. -/
def topoEndpoints (inventory : Inventory) (selector : Option L.Sel) :
    List String → Pools → Except Failure Pools
  | [], pools => .ok pools
  | topology :: topologies, pools => do
    let eps ← getTopologyEndpointsWithSelector L inventory topology selector
    topoEndpoints inventory selector topologies
      (Function.update pools topology ⟨eps, fun _ => ""⟩)

/-- The loop over the sides, for the ones that are left. -/
def selectSides (cr : LogicalInterconnect L) (inventory : Inventory) :
    List (LogicalInterconnectEndpoint L × Nat) → Result → Except Failure Result
  | [], r => .ok r
  | (ep, epIdx) :: rest, r => do
    let pools ← topoEndpoints inventory ep.selector ep.topologies fun _ => ⟨[], fun _ => ""⟩
    let r ← selectLinks cr epIdx ep (List.range cr.links.toNat) pools r
    selectSides cr inventory rest r

def selectEndpoints (c : Cluster) (cr : LogicalInterconnect L) : Except Failure Result := do
  let inventory ← initInventory c cr.getTopologies ∅
  selectSides cr inventory cr.endpoints.zipIdx (newSelector cr.links.toNat)

/-! ## What the links of a side take -/

/-- The endpoints that the links pick, with the topology of each. -/
def picks (cr : CoreRef) (ep : LogicalInterconnectEndpoint L) :
    List Nat → Pools → Except Failure (List (String × Endpoint))
  | [], _ => .ok []
  | linkIdx :: rest, pools => do
    let (topology, tep, pools) ← pickEndpoint cr ep linkIdx pools
    let ps ← picks cr ep rest pools
    return (topology, tep) :: ps

/-- The slots of the links that belong to a topology. -/
def slots (ep : LogicalInterconnectEndpoint L) (topology : String) (links : List Nat) :
    List (Fin 2) :=
  (links.filter fun i => ep.topology i = some topology).map ep.selectedNodeIdx

theorem slots_cons (ep : LogicalInterconnectEndpoint L) (topology : String) (i : Nat)
    (links : List Nat) : slots ep topology (i :: links) =
      if ep.topology i = some topology then ep.selectedNodeIdx i :: slots ep topology links
      else slots ep topology links := by
  unfold slots
  rw [List.filter_cons]
  by_cases ht : ep.topology i = some topology
  · simp [ht]
  · simp [ht]

/-- What was picked in a topology. -/
def picked (topology : String) (ps : List (String × Endpoint)) : List Endpoint :=
  (ps.filter fun p => p.1 = topology).map Prod.snd

theorem picked_cons (topology : String) (p : String × Endpoint) (ps : List (String × Endpoint)) :
    picked topology (p :: ps) =
      if p.1 = topology then p.2 :: picked topology ps else picked topology ps := by
  unfold picked
  rw [List.filter_cons]
  by_cases ht : p.1 = topology
  · simp [ht]
  · simp [ht]

/-- The links of a topology take from its candidates. -/
def takes (cr : CoreRef) (ep : LogicalInterconnectEndpoint L) (slots : List (Fin 2)) (p : Pool) :
    Option (List Endpoint) :=
  FirstFit.takeAll (suits cr ep.diversity) (nodesAfter cr) slots p.nodes p.endpoints

section
variable {cr : CoreRef} {ep : LogicalInterconnectEndpoint L} {linkIdx : Nat} {pools : Pools}

theorem pickEndpoint_eq_ok {topology : String} {tep : Endpoint} {pools' : Pools} :
    pickEndpoint cr ep linkIdx pools = .ok (topology, tep, pools') ↔
      ep.topology linkIdx = some topology ∧
        ∃ pool, (pools topology).take cr ep.diversity (ep.selectedNodeIdx linkIdx) =
          some (tep, pool) ∧ pools' = Function.update pools topology pool := by
  unfold pickEndpoint
  cases ep.topology linkIdx with
  | none => simp
  | some t =>
    dsimp only
    constructor
    · intro h
      split at h
      · cases h
      next tep' pool htake =>
        cases h
        exact ⟨rfl, pool, htake, rfl⟩
    · rintro ⟨⟨⟩, pool, htake, rfl⟩
      rw [htake]

theorem picks_cons {rest : List Nat} {ps : List (String × Endpoint)} :
    picks cr ep (linkIdx :: rest) pools = .ok ps ↔
      ∃ topology tep pools' ps', pickEndpoint cr ep linkIdx pools = .ok (topology, tep, pools') ∧
        picks cr ep rest pools' = .ok ps' ∧ ps = (topology, tep) :: ps' := by
  rw [picks, bind_eq_ok]
  constructor
  · rintro ⟨⟨topology, tep, pools'⟩, hpick, h⟩
    obtain ⟨ps', hps', hret⟩ := bind_eq_ok.mp h
    cases hret
    exact ⟨topology, tep, pools', ps', hpick, hps', rfl⟩
  · rintro ⟨topology, tep, pools', ps', hpick, hps', rfl⟩
    exact ⟨(topology, tep, pools'), hpick, bind_eq_ok.mpr ⟨ps', hps', rfl⟩⟩

theorem takes_cons {idx : Fin 2} {idxs : List (Fin 2)} {p : Pool} {es : List Endpoint} :
    takes cr ep (idx :: idxs) p = some es ↔ ∃ tep pool es',
      p.take cr ep.diversity idx = some (tep, pool) ∧ takes cr ep idxs pool = some es' ∧
        es = tep :: es' := by
  unfold takes Pool.take
  rw [FirstFit.takeAll_cons]
  constructor
  · rintro ⟨tep, es', hfind, hrest, rfl⟩
    exact ⟨tep, _, es', by rw [hfind]; rfl, hrest, rfl⟩
  · rintro ⟨tep, pool, es', htake, hrest, rfl⟩
    obtain ⟨tep', hfind, heq⟩ := Option.map_eq_some_iff.mp htake
    cases heq
    exact ⟨tep, es', hfind, hrest, rfl⟩

/-- Each link picks in its topology, and in each topology its links take one after the other. -/
theorem picks_eq_ok {links : List Nat} {ps : List (String × Endpoint)} :
    picks cr ep links pools = .ok ps ↔
      links.map ep.topology = ps.map (fun p => some p.1) ∧
        ∀ t, takes cr ep (slots ep t links) (pools t) = some (picked t ps) := by
  induction links generalizing pools ps with
  | nil =>
    constructor
    · intro h
      cases h
      exact ⟨rfl, fun t => rfl⟩
    · rintro ⟨hmap, -⟩
      cases List.map_eq_nil_iff.mp hmap.symm
      rfl
  | cons i links ih =>
    rw [picks_cons]
    constructor
    · rintro ⟨topology, tep, pools', ps', hpick, hps', rfl⟩
      obtain ⟨htop, pool, htake, rfl⟩ := pickEndpoint_eq_ok.mp hpick
      obtain ⟨hmap, htakes⟩ := ih.mp hps'
      refine ⟨by rw [List.map_cons, List.map_cons, htop, hmap], fun t => ?_⟩
      have ht := htakes t
      rw [slots_cons, picked_cons, htop]
      by_cases heq : topology = t
      · subst heq
        rw [Function.update_self] at ht
        rw [if_pos rfl, if_pos rfl]
        exact takes_cons.mpr ⟨tep, pool, _, htake, ht, rfl⟩
      · rw [Function.update_of_ne (Ne.symm heq)] at ht
        rw [if_neg fun h => heq (Option.some.inj h), if_neg heq]
        exact ht
    · rintro ⟨hmap, htakes⟩
      obtain _ | ⟨⟨topology, tep⟩, ps'⟩ := ps
      · cases hmap
      obtain ⟨htop, hmap⟩ := List.cons.inj hmap
      have ht := htakes topology
      rw [slots_cons, picked_cons, if_pos htop, if_pos rfl] at ht
      obtain ⟨tep', pool, es, htake, hrest, heq⟩ := takes_cons.mp ht
      obtain ⟨rfl, rfl⟩ := List.cons.inj heq
      refine ⟨topology, tep, _, ps', pickEndpoint_eq_ok.mpr ⟨htop, pool, htake, rfl⟩,
        ih.mpr ⟨hmap, fun t => ?_⟩, rfl⟩
      by_cases heq : topology = t
      · subst heq
        rw [Function.update_self]
        exact hrest
      · have ht := htakes t
        rw [slots_cons, picked_cons, htop, if_neg fun h => heq (Option.some.inj h), if_neg heq] at ht
        rw [Function.update_of_ne (Ne.symm heq)]
        exact ht

end

/-! ## What the result is filled with -/

theorem modify_append_cons {α : Type} (as bs : List α) (a : α) (f : α → α) :
    (as ++ a :: bs).modify as.length f = as ++ f a :: bs := by
  induction as with
  | nil => rfl
  | cons b as ih => exact congrArg (List.cons b) ih

/-- What the picks of a side add to a result whose last links they belong to. -/
def Result.addPicks (r : Result) (lacp : Option Bool) (name : Option String) (epIdx : Nat)
    (done todo : List LinkSpec) (ps : List (String × Endpoint)) : Result where
  endpoints := r.endpoints ++ ps.map Prod.snd
  logicalEndpoints := r.logicalEndpoints.modify epIdx fun l =>
    ps.foldl (fun l p => l.addEnd lacp name p.2) l
  linkSpecs := done ++ List.zipWith (fun l p => LinkSpec.setEnd epIdx (linkEnd p.1 p.2) l) todo ps

/-- An endpoint is added to the first link that is not done. -/
theorem addEndpoint_next {links epIdx : Nat} (hep : epIdx < 2) {done todo : List LinkSpec}
    {l : LinkSpec} {r : Result} (hr : r.linkSpecs = done ++ l :: todo) (hdone : done.length < links)
    (topology : String) (tep : Endpoint) (lacp : Option Bool) (name : Option String) :
    ∃ r₁, addEndpoint links topology done.length epIdx tep lacp name r = .ok r₁ ∧
      r₁.linkSpecs = (done ++ [LinkSpec.setEnd epIdx (linkEnd topology tep) l]) ++ todo ∧
      ∀ ps, r₁.addPicks lacp name epIdx
          (done ++ [LinkSpec.setEnd epIdx (linkEnd topology tep) l]) todo ps =
        r.addPicks lacp name epIdx done (l :: todo) ((topology, tep) :: ps) := by
  have hvalid : validateIndices links done.length epIdx = none := by
    rw [validateIndices, if_neg (by omega), if_neg (by omega)]
  refine ⟨_, by rw [addEndpoint, hvalid], ?_, fun ps => ?_⟩
  · rw [hr, modify_append_cons]
    simp
  · simp only [Result.addPicks, List.map_cons, List.append_assoc, List.singleton_append,
      List.foldl_cons, List.modify_modify_eq, List.zipWith_cons_cons]
    rfl

/-- A side is filled in link by link. -/
theorem selectLinks_eq_ok {cr : LogicalInterconnect L} {ep : LogicalInterconnectEndpoint L}
    {epIdx : Nat} (hep : epIdx < 2) {done todo : List LinkSpec} {pools : Pools} {r r' : Result}
    (hr : r.linkSpecs = done ++ todo) (hcount : done.length + todo.length = cr.links.toNat) :
    selectLinks cr epIdx ep (List.range' done.length todo.length) pools r = .ok r' ↔
      ∃ ps, picks cr.ref ep (List.range' done.length todo.length) pools = .ok ps ∧
        r' = r.addPicks cr.lacp ep.name epIdx done todo ps := by
  induction todo generalizing done pools r with
  | nil =>
    have hsame : r.addPicks cr.lacp ep.name epIdx done [] [] = r := by
      obtain ⟨endpoints, logicalEndpoints, linkSpecs⟩ := r
      simp only [Result.addPicks, List.map_nil, List.append_nil, List.foldl_nil,
        List.zipWith_nil_left] at hr ⊢
      rw [hr]
      exact congrArg₂ (Result.mk endpoints) (List.modify_id epIdx _) rfl
    constructor
    · intro h
      cases h
      exact ⟨[], rfl, hsame.symm⟩
    · rintro ⟨ps, hps, rfl⟩
      cases hps
      rw [hsame]
      rfl
  | cons l todo ih =>
    rw [List.length_cons] at hcount
    rw [List.length_cons, List.range'_succ, selectLinks]
    have hstep : ∀ topology tep, ∃ r₁, addEndpoint cr.links.toNat topology done.length epIdx tep
        cr.lacp ep.name r = .ok r₁ ∧ _ := fun topology tep =>
      addEndpoint_next hep hr (by omega) topology tep cr.lacp ep.name
    constructor
    · intro h
      obtain ⟨⟨topology, tep, pools'⟩, hpick, h⟩ := bind_eq_ok.mp h
      obtain ⟨r₁, hadd, h⟩ := bind_eq_ok.mp h
      obtain ⟨r₂, hadd', hr₂, hps⟩ := hstep topology tep
      cases hadd.symm.trans hadd'
      have hlen : done.length + 1 =
          (done ++ [LinkSpec.setEnd epIdx (linkEnd topology tep) l]).length := by simp
      rw [hlen] at h
      obtain ⟨ps, hps', rfl⟩ := (ih hr₂ (by rw [← hlen]; omega)).mp h
      refine ⟨(topology, tep) :: ps, picks_cons.mpr ⟨topology, tep, pools', ps, hpick, ?_, rfl⟩,
        hps ps⟩
      rw [hlen]
      exact hps'
    · rintro ⟨_, hall, rfl⟩
      obtain ⟨topology, tep, pools', ps, hpick, hps', rfl⟩ := picks_cons.mp hall
      obtain ⟨r₁, hadd, hr₁, hps⟩ := hstep topology tep
      refine bind_eq_ok.mpr ⟨_, hpick, bind_eq_ok.mpr ⟨r₁, hadd, ?_⟩⟩
      have hlen : done.length + 1 =
          (done ++ [LinkSpec.setEnd epIdx (linkEnd topology tep) l]).length := by simp
      rw [hlen] at hps' ⊢
      exact (ih hr₁ (by rw [← hlen]; omega)).mpr ⟨ps, hps', (hps ps).symm⟩

/-- The pools with which a side starts. -/
def sidePools (c : Cluster) (ep : LogicalInterconnectEndpoint L) : Pools := fun t =>
  if t ∈ ep.topologies then ⟨candidates L c t ep.selector, fun _ => ""⟩ else ⟨[], fun _ => ""⟩

theorem sidePools_of_mem {c : Cluster} {ep : LogicalInterconnectEndpoint L} {t : String}
    (h : t ∈ ep.topologies) : sidePools c ep t = ⟨candidates L c t ep.selector, fun _ => ""⟩ :=
  if_pos h

theorem sidePools_of_not_mem {c : Cluster} {ep : LogicalInterconnectEndpoint L} {t : String}
    (h : t ∉ ep.topologies) : sidePools c ep t = ⟨[], fun _ => ""⟩ := if_neg h

theorem topoEndpoints_eq_ok {c : Cluster} {inventory : Inventory} (hlists : Lists c inventory)
    {s : Option L.Sel} {topologies : List String} (hmem : ∀ t ∈ topologies, t ∈ inventory)
    {pools pools' : Pools} :
    topoEndpoints inventory s topologies pools = .ok pools' ↔
      (∀ t ∈ topologies, candidates L c t s ≠ []) ∧
        pools' = fun t =>
          if t ∈ topologies then ⟨candidates L c t s, fun _ => ""⟩ else pools t := by
  induction topologies generalizing pools with
  | nil =>
    constructor
    · intro h
      cases h
      exact ⟨by simp, by simp⟩
    · rintro ⟨-, rfl⟩
      simp [topoEndpoints]
  | cons topology topologies ih =>
    have hget (es : List Endpoint) : getTopologyEndpointsWithSelector L inventory topology s =
        .ok es ↔ es = candidates L c topology s ∧ es ≠ [] :=
      getTopologyEndpointsWithSelector_eq_ok hlists (hmem _ List.mem_cons_self)
    have hrest : ∀ t ∈ topologies, t ∈ inventory := fun t ht => hmem t (List.mem_cons_of_mem _ ht)
    have hpools : (fun t => if t ∈ topologies then
        (⟨candidates L c t s, fun _ => ""⟩ : Pool) else Function.update pools topology
          ⟨candidates L c topology s, fun _ => ""⟩ t) =
        fun t => if t ∈ topology :: topologies then ⟨candidates L c t s, fun _ => ""⟩
          else pools t := by
      funext t
      by_cases ht : t ∈ topologies
      · simp [ht]
      · by_cases heq : t = topology
        · subst heq
          simp
        · simp [ht, heq]
    rw [topoEndpoints, bind_eq_ok]
    constructor
    · rintro ⟨es, hes, h⟩
      obtain ⟨rfl, hne⟩ := (hget es).mp hes
      obtain ⟨hall, rfl⟩ := (ih hrest).mp h
      exact ⟨List.forall_mem_cons.mpr ⟨hne, hall⟩, hpools⟩
    · rintro ⟨hall, rfl⟩
      obtain ⟨hne, hall⟩ := List.forall_mem_cons.mp hall
      exact ⟨_, (hget _).mpr ⟨rfl, hne⟩, (ih hrest).mpr ⟨hall, hpools.symm⟩⟩

/-- The endpoints that a side picks for its links. -/
structure SidePicks (c : Cluster) (cr : LogicalInterconnect L) (ep : LogicalInterconnectEndpoint L)
    (ps : List (String × Endpoint)) : Prop where
  offered : ∀ t ∈ ep.topologies, candidates L c t ep.selector ≠ []
  picks : picks cr.ref ep (List.range cr.links.toNat) (sidePools c ep) = .ok ps

/-- A link between two picks. -/
def linkOfPicks (p q : String × Endpoint) : LinkSpec := ⟨[linkEnd p.1 p.2, linkEnd q.1 q.2]⟩

/-- The logical endpoint of the picks of a side. -/
def logicalEndpoint (cr : LogicalInterconnect L) (ep : LogicalInterconnectEndpoint L)
    (ps : List (String × Endpoint)) : LogicalEndpointSpec :=
  ps.foldl (fun l p => l.addEnd cr.lacp ep.name p.2) ⟨none, none, []⟩

/-- The result for the picks of both sides. -/
def resultOf (cr : LogicalInterconnect L) (ep₀ ep₁ : LogicalInterconnectEndpoint L)
    (ps₀ ps₁ : List (String × Endpoint)) : Result where
  endpoints := ps₀.map Prod.snd ++ ps₁.map Prod.snd
  logicalEndpoints := [logicalEndpoint cr ep₀ ps₀, logicalEndpoint cr ep₁ ps₁]
  linkSpecs := List.zipWith linkOfPicks ps₀ ps₁

section
variable {c : Cluster} {cr : LogicalInterconnect L} {ep ep₀ ep₁ : LogicalInterconnectEndpoint L}
  {ps ps₀ ps₁ : List (String × Endpoint)} {r : Result}

theorem SidePicks.length (h : SidePicks c cr ep ps) : ps.length = cr.links.toNat := by
  have hlen := congrArg List.length (picks_eq_ok.mp h.picks).1
  simpa using hlen.symm

/-- A whole side is filled in. -/
theorem selectLinks_range {epIdx : Nat} (hep : epIdx < 2) {pools : Pools} {r r' : Result}
    (hr : r.linkSpecs.length = cr.links.toNat) :
    selectLinks cr epIdx ep (List.range cr.links.toNat) pools r = .ok r' ↔
      ∃ ps, picks cr.ref ep (List.range cr.links.toNat) pools = .ok ps ∧
        r' = r.addPicks cr.lacp ep.name epIdx [] r.linkSpecs ps := by
  have hall : selectLinks cr epIdx ep (List.range' ([] : List LinkSpec).length
      r.linkSpecs.length) pools r = .ok r' ↔ _ :=
    selectLinks_eq_ok hep (List.nil_append r.linkSpecs).symm (by simpa using hr)
  rwa [List.length_nil, hr, ← List.range_eq_range'] at hall

/-- The links of both sides. -/
theorem zipWith_setEnd (h₀ : ps₀.length = cr.links.toNat) (h₁ : ps₁.length = cr.links.toNat) :
    List.zipWith (fun l q => LinkSpec.setEnd 1 (linkEnd q.1 q.2) l)
      (List.zipWith (fun l p => LinkSpec.setEnd 0 (linkEnd p.1 p.2) l)
        (List.replicate cr.links.toNat ⟨[]⟩) ps₀) ps₁ = List.zipWith linkOfPicks ps₀ ps₁ := by
  refine List.ext_getElem? fun i => ?_
  simp only [List.getElem?_zipWith, List.getElem?_replicate]
  by_cases hi : i < cr.links.toNat
  · have hi₀ : i < ps₀.length := by omega
    have hi₁ : i < ps₁.length := by omega
    rw [if_pos hi, List.getElem?_eq_getElem hi₀, List.getElem?_eq_getElem hi₁]
    rfl
  · rw [if_neg hi, List.getElem?_eq_none (l := ps₁) (by omega)]
    cases ps₀[i]? <;> rfl

/-- The links of the first side alone. -/
def firstSide (cr : LogicalInterconnect L) (ep : LogicalInterconnectEndpoint L)
    (ps : List (String × Endpoint)) : Result :=
  (newSelector cr.links.toNat).addPicks cr.lacp ep.name 0 []
    (newSelector cr.links.toNat).linkSpecs ps

theorem firstSide_linkSpecs (cr : LogicalInterconnect L) (ep : LogicalInterconnectEndpoint L)
    (ps : List (String × Endpoint)) : (firstSide cr ep ps).linkSpecs =
      List.zipWith (fun l p => LinkSpec.setEnd 0 (linkEnd p.1 p.2) l)
        (List.replicate cr.links.toNat ⟨[]⟩) ps := List.nil_append _

theorem addPicks_firstSide (h₀ : ps₀.length = cr.links.toNat) (h₁ : ps₁.length = cr.links.toNat) :
    (firstSide cr ep₀ ps₀).addPicks cr.lacp ep₁.name 1 [] (firstSide cr ep₀ ps₀).linkSpecs ps₁ =
      resultOf cr ep₀ ep₁ ps₀ ps₁ := by
  have hlinks := zipWith_setEnd h₀ h₁
  rw [← firstSide_linkSpecs cr ep₀] at hlinks
  exact congrArg (Result.mk (ps₀.map Prod.snd ++ ps₁.map Prod.snd)
    [logicalEndpoint cr ep₀ ps₀, logicalEndpoint cr ep₁ ps₁]) hlinks

/-- One side, with an inventory that has its topologies. -/
theorem selectSides_cons {inventory : Inventory} (hlists : Lists c inventory)
    (hmem : ∀ t ∈ ep.topologies, t ∈ inventory) {epIdx : Nat} (hep : epIdx < 2)
    {rest : List (LogicalInterconnectEndpoint L × Nat)} {r r' : Result}
    (hr : r.linkSpecs.length = cr.links.toNat) :
    selectSides cr inventory ((ep, epIdx) :: rest) r = .ok r' ↔
      ∃ ps, SidePicks c cr ep ps ∧ selectSides cr inventory rest
        (r.addPicks cr.lacp ep.name epIdx [] r.linkSpecs ps) = .ok r' := by
  rw [selectSides, bind_eq_ok]
  constructor
  · rintro ⟨pools, hpools, h⟩
    obtain ⟨hne, rfl⟩ := (topoEndpoints_eq_ok hlists hmem).mp hpools
    obtain ⟨r₁, hlinks, h⟩ := bind_eq_ok.mp h
    obtain ⟨ps, hps, rfl⟩ := (selectLinks_range hep hr).mp hlinks
    exact ⟨ps, ⟨hne, hps⟩, h⟩
  · rintro ⟨ps, hps, h⟩
    refine ⟨sidePools c ep, (topoEndpoints_eq_ok hlists hmem).mpr ⟨hps.offered, rfl⟩, ?_⟩
    exact bind_eq_ok.mpr ⟨_, (selectLinks_range hep hr).mpr ⟨ps, hps.picks, rfl⟩, h⟩

/-- A selection is made of the picks of its two sides. -/
theorem selectEndpoints_eq_ok (hsides : cr.endpoints = [ep₀, ep₁]) :
    selectEndpoints c cr = .ok r ↔
      (∃ inventory, initInventory c cr.getTopologies ∅ = .ok inventory) ∧
        ∃ ps₀ ps₁, SidePicks c cr ep₀ ps₀ ∧ SidePicks c cr ep₁ ps₁ ∧
          r = resultOf cr ep₀ ep₁ ps₀ ps₁ := by
  rw [selectEndpoints, bind_eq_ok, ← exists_and_right]
  refine exists_congr fun inventory => and_congr_right fun hinit => ?_
  have hempty : Lists c ∅ := fun t es h => by simp at h
  obtain ⟨hlists, hmem⟩ := initInventory_eq_ok hempty hinit
  have hin : ∀ ep ∈ cr.endpoints, ∀ t ∈ ep.topologies, t ∈ inventory := fun ep hep t ht =>
    (hmem t).mpr (.inl (List.mem_flatMap.mpr ⟨ep, hep, ht⟩))
  have hin₀ := hin ep₀ (by simp [hsides])
  have hin₁ := hin ep₁ (by simp [hsides])
  have hnew : (newSelector cr.links.toNat).linkSpecs.length = cr.links.toNat :=
    List.length_replicate
  have hfirst {ps} (h : SidePicks c cr ep₀ ps) :
      (firstSide cr ep₀ ps).linkSpecs.length = cr.links.toNat := by
    rw [firstSide_linkSpecs]
    simp [h.length]
  rw [hsides]
  constructor
  · intro h
    obtain ⟨ps₀, hps₀, h⟩ := (selectSides_cons hlists hin₀ Nat.zero_lt_two hnew).mp h
    obtain ⟨ps₁, hps₁, h⟩ := (selectSides_cons hlists hin₁ Nat.one_lt_two (hfirst hps₀)).mp h
    cases h
    exact ⟨ps₀, ps₁, hps₀, hps₁, addPicks_firstSide hps₀.length hps₁.length⟩
  · rintro ⟨ps₀, ps₁, hps₀, hps₁, rfl⟩
    refine (selectSides_cons hlists hin₀ Nat.zero_lt_two hnew).mpr ⟨ps₀, hps₀, ?_⟩
    refine (selectSides_cons hlists hin₁ Nat.one_lt_two (hfirst hps₀)).mpr ⟨ps₁, hps₁, ?_⟩
    exact congrArg Except.ok (addPicks_firstSide hps₀.length hps₁.length)

/-- The sides of a selection and their picks. -/
theorem exists_sidePicks (h : selectEndpoints c cr = .ok r) :
    ∃ ep₀ ep₁ ps₀ ps₁, cr.endpoints = [ep₀, ep₁] ∧ SidePicks c cr ep₀ ps₀ ∧
      SidePicks c cr ep₁ ps₁ ∧ r = resultOf cr ep₀ ep₁ ps₀ ps₁ := by
  obtain ⟨ep₀, ep₁, hsides⟩ := List.length_eq_two.mp cr.two
  obtain ⟨-, ps₀, ps₁, hps₀, hps₁, hr⟩ := (selectEndpoints_eq_ok hsides).mp h
  exact ⟨ep₀, ep₁, ps₀, ps₁, hsides, hps₀, hps₁, hr⟩

/-- A selected endpoint is a pick of a side. -/
theorem exists_pick (h : selectEndpoints c cr = .ok r) {e : Endpoint} (he : e ∈ r.endpoints) :
    ∃ ep ∈ cr.endpoints, ∃ ps, SidePicks c cr ep ps ∧ ∃ p ∈ ps, p.2 = e := by
  obtain ⟨ep₀, ep₁, ps₀, ps₁, hsides, hps₀, hps₁, rfl⟩ := exists_sidePicks h
  rcases List.mem_append.mp he with he | he
  · exact ⟨ep₀, by simp [hsides], ps₀, hps₀, List.mem_map.mp he⟩
  · exact ⟨ep₁, by simp [hsides], ps₁, hps₁, List.mem_map.mp he⟩

/-! ## What is selected -/

/-- The endpoint may be used on a side, in a topology. -/
structure Usable (c : Cluster) (cr : LogicalInterconnect L) (ep : LogicalInterconnectEndpoint L)
    (topology : String) (e : Endpoint) : Prop where
  claim : e.claimRef = none ∨ e.claimRef = some cr.ref
  selected : ∃ selector, L.asSelector ep.selector = .ok selector ∧ selector e.labels = true
  mem_topologies : topology ∈ ep.topologies
  mem_topology : e ∈ c.ofTopology topology

/-- Every side has a usable endpoint for each link, and the result is made of them in the order of
the links. -/
structure Selected (c : Cluster) (cr : LogicalInterconnect L) (r : Result)
    (ep₀ ep₁ : LogicalInterconnectEndpoint L) (ps₀ ps₁ : List (String × Endpoint)) : Prop where
  sides : cr.endpoints = [ep₀, ep₁]
  usable₀ : ∀ p ∈ ps₀, Usable c cr ep₀ p.1 p.2
  usable₁ : ∀ p ∈ ps₁, Usable c cr ep₁ p.1 p.2
  endpoints : r.endpoints = ps₀.map Prod.snd ++ ps₁.map Prod.snd
  linkSpecs : r.linkSpecs = List.zipWith linkOfPicks ps₀ ps₁
  logicalEndpoints : r.logicalEndpoints.map LogicalEndpointSpec.endpoints =
    [ps₀.map fun p => ⟨p.2.spec.interfaceName, p.2.spec.nodeName, none⟩,
      ps₁.map fun p => ⟨p.2.spec.interfaceName, p.2.spec.nodeName, none⟩]
  links₀ : ps₀.length = cr.links.toNat
  links₁ : ps₁.length = cr.links.toNat

theorem not_isAllocated_of_suits {cr : CoreRef} {diversity : Bool} {nodes : Nodes} {idx : Fin 2}
    {tep : Endpoint} (h : suits cr diversity nodes idx tep = true) :
    tep.isAllocated cr = false := by
  unfold suits at h
  split at h
  next hwas => exact Endpoint.isAllocated_of_wasAllocated hwas
  next =>
    split at h
    · simpa using (Bool.and_eq_true_iff.mp h).2
    · split at h
      · simpa using (Bool.and_eq_true_iff.mp h).2
      · simpa using h

theorem mem_picked {p : String × Endpoint} (h : p ∈ ps) : p.2 ∈ picked p.1 ps :=
  List.mem_map_of_mem (List.mem_filter.mpr ⟨h, by simp⟩)

theorem SidePicks.taken (h : SidePicks c cr ep ps) (t : String) :
    takes cr.ref ep (slots ep t (List.range cr.links.toNat)) (sidePools c ep t) =
      some (picked t ps) := (picks_eq_ok.mp h.picks).2 t

/-- A pick is a candidate of its topology that no other resource has. -/
theorem SidePicks.mem (h : SidePicks c cr ep ps) {p : String × Endpoint} (hp : p ∈ ps) :
    p.1 ∈ ep.topologies ∧ p.2 ∈ candidates L c p.1 ep.selector ∧
      p.2.isAllocated cr.ref = false := by
  have htakes := h.taken p.1
  have hmem := (FirstFit.subperm_of_takeAll htakes).subset (mem_picked hp)
  have hfree := FirstFit.forall_of_takeAll (P := fun e => e.isAllocated cr.ref = false)
    (fun _ _ _ _ => not_isAllocated_of_suits) htakes _ (mem_picked hp)
  unfold sidePools at hmem
  split at hmem
  next ht => exact ⟨ht, hmem, hfree⟩
  next => cases hmem

theorem SidePicks.usable (h : SidePicks c cr ep ps) {p : String × Endpoint} (hp : p ∈ ps) :
    Usable c cr ep p.1 p.2 := by
  obtain ⟨ht, hmem, hfree⟩ := h.mem hp
  obtain ⟨hc, hlabel, hsel⟩ := mem_candidates hmem
  refine ⟨Endpoint.isAllocated_eq_false.mp hfree, ?_, ht,
    List.mem_filter.mpr ⟨hc, by simpa using hlabel⟩⟩
  unfold Library.selects at hsel
  split at hsel
  · cases hsel
  next selector hselector => exact ⟨selector, hselector, hsel⟩

theorem logicalEndpoint_endpoints (cr : LogicalInterconnect L) (ep : LogicalInterconnectEndpoint L)
    (ps : List (String × Endpoint)) : (logicalEndpoint cr ep ps).endpoints =
      ps.map fun p => ⟨p.2.spec.interfaceName, p.2.spec.nodeName, none⟩ := by
  have hfold : ∀ l : LogicalEndpointSpec,
      (ps.foldl (fun l p => l.addEnd cr.lacp ep.name p.2) l).endpoints =
        l.endpoints ++ ps.map fun p => ⟨p.2.spec.interfaceName, p.2.spec.nodeName, none⟩ := by
    induction ps with
    | nil => simp
    | cons p ps ih =>
      intro l
      rw [List.foldl_cons, ih]
      simp [LogicalEndpointSpec.addEnd]
  exact hfold _

end

/-- No endpoint of another resource is taken, and the result has an endpoint of each side for each
link. -/
theorem selectEndpoints_selected (c : Cluster) (cr : LogicalInterconnect L) (r : Result)
    (h : selectEndpoints c cr = .ok r) :
    (∃ ep₀ ep₁ ps₀ ps₁, Selected c cr r ep₀ ep₁ ps₀ ps₁) ∧
      r.linkSpecs.length = cr.links.toNat := by
  obtain ⟨ep₀, ep₁, ps₀, ps₁, hsides, hps₀, hps₁, rfl⟩ := exists_sidePicks h
  refine ⟨⟨ep₀, ep₁, ps₀, ps₁, hsides, fun p => hps₀.usable, fun p => hps₁.usable, rfl, rfl, ?_,
    hps₀.length, hps₁.length⟩, ?_⟩
  · simp [resultOf, logicalEndpoint_endpoints]
  · simp [resultOf, hps₀.length, hps₁.length]

/-! ## Samples -/

def sampleRef : CoreRef := ⟨"topo.nephio.org/v1alpha1", "LogicalInterconnect", "ns", "li"⟩

/-- An interface of a node in a topology, with a claim or without. -/
def sampleEndpoint (topology node interfaceName : String) (claimRef : Option CoreRef) :
    Endpoint where
  ns := "ns"
  name := topology ++ "-" ++ node ++ "-" ++ interfaceName
  labels := (∅ : Labels).insert nephioTopologyKey topology
  spec := ⟨interfaceName, node, none⟩
  claimRef := claimRef

/-- A side in one topology that takes every endpoint, with a node diversity or without. -/
def sampleSide (topology : String) (nodeDiversity : Option UInt16) :
    LogicalInterconnectEndpoint referenceLibrary :=
  ⟨none, [topology], some ([] : List (String × String)), some ⟨nodeDiversity⟩⟩

def sampleInterconnect (links : UInt16)
    (side₀ side₁ : LogicalInterconnectEndpoint referenceLibrary) :
    LogicalInterconnect referenceLibrary := ⟨sampleRef, links, none, [side₀, side₁], rfl⟩

/-- Two topologies; in the first one the resource has an endpoint and another resource has one. -/
def sampleCluster : Cluster where
  endpoints := [sampleEndpoint "a" "n1" "e1" (some sampleRef),
    sampleEndpoint "a" "n1" "e2" (some { sampleRef with name := "other" }),
    sampleEndpoint "a" "n2" "e3" none, sampleEndpoint "b" "n3" "e1" none,
    sampleEndpoint "b" "n4" "e2" none]
  nodup := by decide +kernel
  listErr _ := none

/-- The picks of both sides in the sample. -/
def samplePicks₀ : List (String × Endpoint) :=
  [("a", sampleEndpoint "a" "n1" "e1" (some sampleRef)), ("a", sampleEndpoint "a" "n2" "e3" none)]

def samplePicks₁ : List (String × Endpoint) :=
  [("b", sampleEndpoint "b" "n3" "e1" none), ("b", sampleEndpoint "b" "n4" "e2" none)]

def sampleTwoLinks : LogicalInterconnect referenceLibrary :=
  sampleInterconnect 2 (sampleSide "a" none) (sampleSide "b" (some 2))

theorem selectEndpoints_selected_sample :
    (∃ ep₀ ep₁ ps₀ ps₁, Selected sampleCluster sampleTwoLinks
      (resultOf sampleTwoLinks (sampleSide "a" none) (sampleSide "b" (some 2)) samplePicks₀
        samplePicks₁) ep₀ ep₁ ps₀ ps₁) ∧
    (resultOf sampleTwoLinks (sampleSide "a" none) (sampleSide "b" (some 2)) samplePicks₀
      samplePicks₁).linkSpecs.length = 2 :=
  selectEndpoints_selected sampleCluster sampleTwoLinks _ (by decide +kernel)

end K8sIpam.Interconnect
