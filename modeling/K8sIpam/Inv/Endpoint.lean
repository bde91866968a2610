import Mathlib.Data.List.Sort
import K8sIpam.Controllers.RawTopology

/-! # Endpoints

`apis/inv/v1alpha1`, `pkg/objects` and `pkg/objects/endpoint`: the endpoints of a topology, the
resource that has claimed an endpoint, and the endpoints that a selector chooses. Label selectors
and `sort.Slice` belong to libraries and are parameters. -/

namespace K8sIpam.Inv
open Std Atomic RawTopology

/-- The fields of a `corev1.ObjectReference` that `getCoreRef` sets. -/
structure CoreRef where
  apiVersion : String
  kind : String
  ns : String
  name : String
  deriving DecidableEq

structure EndpointSpec where
  interfaceName : String
  nodeName : String
  lacpFallback : Option Bool
  deriving DecidableEq

structure Endpoint where
  ns : String
  name : String
  labels : Labels
  spec : EndpointSpec
  claimRef : Option CoreRef
  deriving DecidableEq

def nephioInventoryInterfaceNameKey := "inv.nephio.org/interface-name"

namespace Endpoint

/-- What identifies an endpoint. -/
def key (e : Endpoint) : String × String := (e.ns, e.name)

/-- `types.NamespacedName.String`. -/
def namespacedName (e : Endpoint) : String := e.ns ++ "/" ++ e.name

/-- Whether the endpoint differs from the nodes of the other slots. -/
def isNodeDiverse (e : Endpoint) (idx : Fin 2) (nodes : Fin 2 → String) : Bool :=
  ∀ nodeIdx, ¬(nodeIdx ≠ idx ∧ nodes nodeIdx ≠ "" ∧ nodes nodeIdx = e.spec.nodeName)

/-- Claimed by another resource. -/
def isAllocated (e : Endpoint) (cr : CoreRef) : Bool :=
  match e.claimRef with
  | none => false
  | some ref => ref ≠ cr

/-- Claimed by this resource. -/
def wasAllocated (e : Endpoint) (cr : CoreRef) : Bool :=
  match e.claimRef with
  | none => false
  | some ref => ref = cr

section
variable {e : Endpoint} {cr : CoreRef}

theorem wasAllocated_iff : e.wasAllocated cr = true ↔ e.claimRef = some cr := by
  unfold wasAllocated
  cases e.claimRef <;> simp

theorem isAllocated_eq_false : e.isAllocated cr = false ↔ e.claimRef = none ∨ e.claimRef = some cr := by
  unfold isAllocated
  cases e.claimRef <;> simp

theorem isAllocated_of_wasAllocated (h : e.wasAllocated cr = true) : e.isAllocated cr = false :=
  isAllocated_eq_false.mpr (.inr (wasAllocated_iff.mp h))

end
end Endpoint

/-- What the libraries do with label selectors and with a list that is sorted by the interface
names; `sort.Slice` looks at nothing but these. -/
structure Library where
  Sel : Type
  ofMatchLabels : List (String × String) → Sel
  /-- `metav1.LabelSelectorAsSelector`, or the text of its error. -/
  asSelector : Option Sel → Except String (Labels → Bool)
  selectorText : Option Sel → String
  sort : List Endpoint → List Endpoint
  sort_perm : ∀ es, (sort es).Perm es
  sort_sorted : ∀ es, (sort es).Pairwise fun a b => a.spec.interfaceName ≤ b.spec.interfaceName
  sort_map : ∀ (f : Endpoint → Endpoint) es,
    (∀ e, (f e).spec.interfaceName = e.spec.interfaceName) → sort (es.map f) = (sort es).map f

/-- The endpoints that the API server has, and for which topologies a listing fails. -/
structure Cluster where
  endpoints : List Endpoint
  nodup : (endpoints.map Endpoint.key).Nodup
  listErr : String → Option Failure

abbrev Inventory := ExtTreeMap String (List Endpoint)

/-- The endpoints of a topology. -/
def Cluster.ofTopology (c : Cluster) (topology : String) : List Endpoint :=
  c.endpoints.filter fun e => e.labels[nephioTopologyKey]? = some topology

def listEndpointsPerTopology (c : Cluster) (topology : String) : Except Failure (List Endpoint) :=
  match c.listErr topology with
  | some e => .error e
  | none => .ok (c.ofTopology topology)

/-- `Init`, for the topologies that are left. -/
def initInventory (c : Cluster) : List String → Inventory → Except Failure Inventory
  | [], inventory => .ok inventory
  | topology :: topologies, inventory =>
    if topology ∈ inventory then initInventory c topologies inventory
    else do
      let eps ← listEndpointsPerTopology c topology
      initInventory c topologies (inventory.insert topology eps)

/-- The first of the objects with each name, but for names that were seen before. -/
def unique : List String → List Endpoint → List Endpoint
  | _, [] => []
  | seen, e :: es =>
    if e.namespacedName ∈ seen then unique seen es
    else e :: unique (e.namespacedName :: seen) es

section
variable (L : Library)

def getSelectedObjects (objs : List Endpoint) (s : Option L.Sel) : Except Failure (List Endpoint) :=
  match L.asSelector s with
  | .error msg => .error (.error msg)
  | .ok selector => .ok (unique [] (objs.filter fun e => selector e.labels))

def getTopologyEndpointsWithSelector (inventory : Inventory) (topology : String)
    (s : Option L.Sel) : Except Failure (List Endpoint) :=
  match inventory[topology]? with
  | none => .error (.error ("topology " ++ topology ++ " not found in inventory"))
  | some objs => do
    let seps ← getSelectedObjects L objs s
    if seps = [] then
      .error (.error ("no endpoints found based on selector: " ++ L.selectorText s))
    else .ok (L.sort seps)

/-- What a selector chooses; one that the library refuses chooses nothing. -/
def Library.selects (s : Option L.Sel) (l : Labels) : Bool :=
  match L.asSelector s with
  | .error _ => false
  | .ok selector => selector l

/-- The candidates of a topology in their order. -/
def candidates (c : Cluster) (topology : String) (s : Option L.Sel) : List Endpoint :=
  L.sort (unique [] ((c.ofTopology topology).filter fun e => L.selects s e.labels))

end

/-! ## Listings -/

section
variable {c : Cluster} {topology : String} {topologies : List String}
  {inventory inventory' : Inventory}

/-- The inventory has what the API server has for its topologies. -/
def Lists (c : Cluster) (inventory : Inventory) : Prop :=
  ∀ (t : String) es, inventory[t]? = some es → es = c.ofTopology t

theorem initInventory_eq_ok (hlists : Lists c inventory)
    (h : initInventory c topologies inventory = .ok inventory') :
    Lists c inventory' ∧ ∀ t, t ∈ inventory' ↔ t ∈ topologies ∨ t ∈ inventory := by
  induction topologies generalizing inventory with
  | nil =>
    cases h
    exact ⟨hlists, by simp⟩
  | cons topology topologies ih =>
    rw [initInventory] at h
    split at h
    next hin =>
      obtain ⟨hlists', hmem⟩ := ih hlists h
      refine ⟨hlists', fun t => ?_⟩
      rw [hmem, List.mem_cons]
      constructor
      · rintro (ht | ht)
        · exact .inl (.inr ht)
        · exact .inr ht
      · rintro ((rfl | ht) | ht)
        · exact .inr hin
        · exact .inl ht
        · exact .inr ht
    next =>
      obtain ⟨eps, heps, h⟩ := bind_eq_ok.mp h
      have heps : eps = c.ofTopology topology := by
        unfold listEndpointsPerTopology at heps
        split at heps <;> cases heps
        rfl
      have hnew : Lists c (inventory.insert topology eps) := by
        intro t es hes
        rw [ExtTreeMap.getElem?_insert] at hes
        split at hes
        next ht =>
          cases hes
          rw [heps, LawfulEqCmp.compare_eq_iff_eq.mp ht]
        next => exact hlists t es hes
      obtain ⟨hlists', hmem⟩ := ih hnew h
      refine ⟨hlists', fun t => ?_⟩
      rw [hmem, ExtTreeMap.mem_insert, LawfulEqCmp.compare_eq_iff_eq, List.mem_cons, eq_comm (a := t)]
      tauto

/-- Nothing but the failures of the listings decides whether there is an inventory. -/
theorem initInventory_isOk (h : ∀ t ∈ topologies, c.listErr t = none) (inventory : Inventory) :
    ∃ inventory', initInventory c topologies inventory = .ok inventory' := by
  induction topologies generalizing inventory with
  | nil => exact ⟨inventory, rfl⟩
  | cons topology topologies ih =>
    have hrest := ih fun t ht => h t (List.mem_cons_of_mem topology ht)
    rw [initInventory]
    split
    · exact hrest inventory
    · rw [listEndpointsPerTopology, h topology List.mem_cons_self]
      exact hrest _

theorem listErr_of_initInventory (h : initInventory c topologies inventory = .ok inventory') :
    ∀ t ∈ topologies, t ∈ inventory ∨ c.listErr t = none := by
  induction topologies generalizing inventory with
  | nil => simp
  | cons topology topologies ih =>
    rw [initInventory] at h
    split at h
    next hin => exact List.forall_mem_cons.mpr ⟨.inl hin, ih h⟩
    next =>
      obtain ⟨eps, heps, h⟩ := bind_eq_ok.mp h
      have hlist : c.listErr topology = none := by
        unfold listEndpointsPerTopology at heps
        split at heps
        · cases heps
        · assumption
      refine List.forall_mem_cons.mpr ⟨.inr hlist, fun t ht => ?_⟩
      rcases ih h t ht with hin | hnone
      · rw [ExtTreeMap.mem_insert, LawfulEqCmp.compare_eq_iff_eq] at hin
        rcases hin with rfl | hin
        · exact .inr hlist
        · exact .inl hin
      · exact .inr hnone

theorem unique_sublist (seen : List String) (es : List Endpoint) : (unique seen es).Sublist es := by
  induction es generalizing seen with
  | nil => exact .refl _
  | cons e es ih =>
    rw [unique]
    split
    · exact (ih seen).cons e
    · exact (ih _).cons_cons e

/-- Only the names decide. -/
theorem unique_map {f : Endpoint → Endpoint} (hf : ∀ e, (f e).namespacedName = e.namespacedName)
    (seen : List String) (es : List Endpoint) : unique seen (es.map f) = (unique seen es).map f := by
  induction es generalizing seen with
  | nil => rfl
  | cons e es ih =>
    rw [List.map_cons, unique, unique, hf]
    split
    · exact ih seen
    · rw [ih, List.map_cons]

variable {L : Library} {s : Option L.Sel} {es : List Endpoint}

theorem candidates_eq_nil : candidates L c topology s = [] ↔
    unique [] ((c.ofTopology topology).filter fun e => L.selects s e.labels) = [] := by
  unfold candidates
  constructor
  · intro h
    have hperm := L.sort_perm (unique [] ((c.ofTopology topology).filter fun e =>
      L.selects s e.labels))
    rw [h] at hperm
    exact hperm.nil_eq.symm
  · intro h
    rw [h]
    exact (L.sort_perm []).eq_nil

/-- The endpoints of a topology in the inventory are its candidates, if there are any. -/
theorem getTopologyEndpointsWithSelector_eq_ok (hlists : Lists c inventory)
    (hmem : topology ∈ inventory) :
    getTopologyEndpointsWithSelector L inventory topology s = .ok es ↔
      es = candidates L c topology s ∧ es ≠ [] := by
  obtain ⟨objs, hobjs⟩ := Option.isSome_iff_exists.mp (ExtTreeMap.mem_iff_isSome_getElem?.mp hmem)
  rw [getTopologyEndpointsWithSelector, hobjs, hlists _ _ hobjs]
  dsimp only
  rw [getSelectedObjects]
  cases hs : L.asSelector s with
  | error msg =>
    have hnone : L.selects s = fun _ => false := by
      funext l
      rw [Library.selects, hs]
    refine iff_of_false nofun ?_
    rintro ⟨rfl, hne⟩
    refine hne (candidates_eq_nil.mpr ?_)
    rw [hnone, List.filter_false]
    rfl
  | ok selector =>
    have hsel : L.selects s = selector := by
      funext l
      rw [Library.selects, hs]
    have hnil : candidates L c topology s = [] ↔ _ := candidates_eq_nil
    rw [candidates, hsel] at hnil ⊢
    simp only [bind, Except.bind]
    constructor
    · intro h
      split at h
      · cases h
      next hne =>
        cases h
        exact ⟨rfl, fun h => hne (hnil.mp h)⟩
    · rintro ⟨rfl, hne⟩
      rw [if_neg fun h => hne (hnil.mpr h)]

theorem mem_candidates {e : Endpoint} (h : e ∈ candidates L c topology s) :
    e ∈ c.endpoints ∧ e.labels[nephioTopologyKey]? = some topology ∧
      L.selects s e.labels = true := by
  have hmem := (unique_sublist _ _).subset ((L.sort_perm _).mem_iff.mp h)
  obtain ⟨htop, hsel⟩ := List.mem_filter.mp hmem
  obtain ⟨hc, hlabel⟩ := List.mem_filter.mp htop
  exact ⟨hc, by simpa using hlabel, hsel⟩

theorem nodup_candidates : ((candidates L c topology s).map Endpoint.key).Nodup := by
  refine ((L.sort_perm _).map _).nodup_iff.mpr (c.nodup.sublist (List.Sublist.map _ ?_))
  exact (unique_sublist _ _).trans (List.filter_sublist.trans List.filter_sublist)

end

/-- Two endpoints of a list without repetitions that have one key are the same. -/
theorem eq_of_key_eq {es : List Endpoint} (h : (es.map Endpoint.key).Nodup) {a b : Endpoint}
    (ha : a ∈ es) (hb : b ∈ es) (hkey : a.key = b.key) : a = b :=
  List.inj_on_of_nodup_map h ha hb hkey

/-! ## A library -/

/-- Selectors that ask for labels, and a sort that keeps the order of equal names. -/
def referenceLibrary : Library where
  Sel := List (String × String)
  ofMatchLabels := id
  asSelector
    | none => .ok fun _ => false
    | some reqs => .ok fun l => reqs.all fun kv => l[kv.1]? = some kv.2
  selectorText _ := ""
  sort es := es.insertionSort fun a b => a.spec.interfaceName ≤ b.spec.interfaceName
  sort_perm es := List.perm_insertionSort _ es
  sort_sorted es :=
    have : Std.Total fun a b : Endpoint => a.spec.interfaceName ≤ b.spec.interfaceName :=
      ⟨fun a b => le_total _ _⟩
    have : IsTrans Endpoint fun a b => a.spec.interfaceName ≤ b.spec.interfaceName :=
      ⟨fun _ _ _ hab hbc => hab.trans hbc⟩
    List.pairwise_insertionSort _ es
  sort_map f es hf := (List.map_insertionSort _ _ f es fun a _ b _ => by rw [hf, hf]).symm

end K8sIpam.Inv
