import K8sIpam.Resources.AnyOrder

/-! # The raw topology controller

`controllers/rawtopology`: a RawTopology describes nodes and links, and the controller keeps a Node
and a Link object for each of them. -/

namespace K8sIpam.RawTopology
open Std Atomic Resources

structure Location where
  latitude : Option String
  longitude : Option String
  deriving DecidableEq

structure NodeSpec where
  provider : String
  address : Option String
  labels : Labels
  location : Option Location
  nodeConfig : Option ObjectReference
  deriving DecidableEq

structure LinkEndpointSpec where
  topology : String
  interfaceName : String
  nodeName : String
  lacpFallback : Option Bool
  deriving DecidableEq

structure LinkSpec where
  endpoints : List LinkEndpointSpec
  deriving DecidableEq

/-- What a Node or a Link is for. -/
inductive Spec where
  | node (spec : NodeSpec)
  | link (spec : LinkSpec)
  deriving DecidableEq

def Spec.isNode : Spec → Bool
  | .node _ => true
  | .link _ => false

structure CR where
  owner : Owner
  nodes : ExtTreeMap String NodeSpec
  links : List LinkSpec

def nephioTopologyKey := "inv.nephio.org/topology"
def nephioInventoryNodeNameKey := "inv.nephio.org/node-name"
def nephioProviderKey := "nephio.org/provider"

def nodeGVK : GroupVersionKind := ⟨"inv.nephio.org", "v1alpha1", "Node"⟩
def linkGVK : GroupVersionKind := ⟨"inv.nephio.org", "v1alpha1", "Link"⟩

/-- The configuration that `Setup` gives to `pkg/resources`. -/
def config : Config := ⟨true, [nodeGVK, linkGVK]⟩

/-! ## Validation -/

def epString (e : LinkEndpointSpec) : String := e.nodeName ++ ":" ++ e.interfaceName

/-- A list of strings as `%q` prints it. -/
def quoted (ss : List String) : String := "[" ++ " ".intercalate (ss.map String.quote) ++ "]"

def validateLink2Nodes (cr : CR) : Option String :=
  let invalidNodeRef :=
    ((cr.links.flatMap LinkSpec.endpoints).filter fun e => e.nodeName ∉ cr.nodes).map epString
  if invalidNodeRef = [] then none
  else some ("endpoints " ++ quoted invalidNodeRef ++ " has no node reference")

def validateLinks (cr : CR) : Option String :=
  let (_, dups) := (cr.links.flatMap LinkSpec.endpoints).foldl
    (fun (endpoints, dups) e =>
      (epString e :: endpoints, if epString e ∈ endpoints then dups ++ [epString e] else dups))
    (([], []) : List String × List String)
  if dups = [] then none
  else some ("endpoints " ++ quoted dups ++
    " appeared more than once in the links section of the topology file")

def validate (cr : CR) : Option String := (validateLink2Nodes cr).or (validateLinks cr)

/-! ## The objects of a topology -/

def nodeRef (cr : CR) (nodeName : String) : Ref := ⟨nodeGVK, cr.owner.ns, nodeName⟩

def buildNode (cr : CR) (nodeName : String) (spec : NodeSpec) : Object Spec where
  labels := ((spec.labels.insert nephioTopologyKey cr.owner.ns).insert
    nephioInventoryNodeNameKey nodeName).insert nephioProviderKey spec.provider
  owners := []
  spec := .node spec

/-- The name of a link; there is none without two endpoints. -/
def linkName (l : LinkSpec) : String :=
  match l.endpoints with
  | e₀ :: e₁ :: _ =>
    e₀.nodeName ++ "-" ++ e₀.interfaceName ++ "-" ++ e₁.nodeName ++ "-" ++ e₁.interfaceName
  | _ => ""

def linkRef (cr : CR) (l : LinkSpec) : Ref := ⟨linkGVK, cr.owner.ns, linkName l⟩

def outOfRange : Failure := .panic "runtime error: index out of range"

/-- A link has no labels. -/
def buildLink (l : LinkSpec) (topologies : String × String) : Except Failure (Object Spec) :=
  match l.endpoints with
  | e₀ :: e₁ :: es =>
    .ok { labels := ∅
          owners := []
          spec := .link ⟨{ e₀ with topology := topologies.1 } ::
            { e₁ with topology := topologies.2 } :: es⟩ }
  | _ => .error outOfRange

/-- The namespace of the node with a name among the new resources. -/
def getTopology (newResources : Objects Spec) (nodeName : String) : String :=
  newResources.toList.foldl
    (fun t ro => if ro.2.spec.isNode ∧ ro.1.name = nodeName then ro.1.ns else t) ""

def getTopologies (newResources : Objects Spec) (l : LinkSpec) : Except Failure (String × String) :=
  match l.endpoints with
  | e₀ :: e₁ :: _ => .ok (getTopology newResources e₀.nodeName, getTopology newResources e₁.nodeName)
  | _ => if newResources.toList.any (·.2.spec.isNode) then .error outOfRange else .ok ("", "")

def addNodes (cr : CR) : Objects Spec :=
  cr.nodes.toList.foldl
    (fun new nodeSpec =>
      addNewResource config cr.owner new (nodeRef cr nodeSpec.1) (buildNode cr nodeSpec.1 nodeSpec.2))
    ∅

def addLinks (cr : CR) : List LinkSpec → Objects Spec → Except Failure (Objects Spec)
  | [], new => .ok new
  | l :: ls, new => do
    let topologies ← getTopologies new l
    let link ← buildLink l topologies
    addLinks cr ls (addNewResource config cr.owner new (linkRef cr l) link)

/-- The label by which the objects of the topology are listed. -/
def matchLabels (cr : CR) : List (String × String) := [(nephioTopologyKey, cr.owner.name)]

def populateResources (orders : Orders) (cr : CR) : Prog (sig Spec) Failure Unit :=
  match validate cr with
  | some msg => .fail (.error msg)
  | none =>
    match addLinks cr cr.links (addNodes cr) with
    | .error e => .fail e
    | .ok newResources => apiApply orders config (matchLabels cr) cr.owner newResources ∅

/-! ## Convergence -/

/-- A reference for every node and link of the spec. -/
def specRefs (cr : CR) : List Ref :=
  cr.nodes.toList.map (fun nodeSpec => nodeRef cr nodeSpec.1) ++ cr.links.map (linkRef cr)

def OwnedBy (cr : CR) (o : Object Spec) : Prop := Owned config cr.owner o

instance (cr : CR) (o : Object Spec) : Decidable (OwnedBy cr o) :=
  inferInstanceAs (Decidable (Owned _ _ _))

/-- The Nodes and Links of the topology in its namespace are those of its spec, one for each of its
nodes and links. -/
def Converged (cr : CR) (objects : Objects Spec) : Prop :=
  (specRefs cr).Nodup ∧
    ∀ r : Ref, r.ns = cr.owner.ns → r.gvk ∈ config.owns →
      ((∃ o, objects[r]? = some o ∧ OwnedBy cr o) ↔ r ∈ specRefs cr)

section
variable {cr : CR} {new new' : Objects Spec} {r : Ref} {o : Object Spec}

theorem ownedBy_iff : OwnedBy cr o ↔ ∃ ref ∈ o.owners, ref.uid = cr.owner.uid := Iff.rfl

/-- Wanted objects are owned. -/
def AllOwned (cr : CR) (new : Objects Spec) : Prop := ∀ (r : Ref) o, new[r]? = some o → OwnedBy cr o

theorem mem_addNewResource {ref : Ref} :
    r ∈ addNewResource config cr.owner new ref o ↔ r = ref ∨ r ∈ new := by
  unfold addNewResource
  rw [ExtTreeMap.mem_insert, LawfulEqCmp.compare_eq_iff_eq, eq_comm]

theorem AllOwned.addNewResource {ref : Ref} (h : AllOwned cr new) :
    AllOwned cr (addNewResource config cr.owner new ref o) := by
  intro r o' hr
  unfold Resources.addNewResource at hr
  rw [ExtTreeMap.getElem?_insert] at hr
  split at hr
  · cases hr
    exact ⟨ownerReference cr.owner, List.mem_singleton_self _, rfl⟩
  · exact h r o' hr

theorem addNodes_spec (cr : CR) : AllOwned cr (addNodes cr) ∧
    ∀ r, r ∈ addNodes cr ↔ r ∈ cr.nodes.toList.map fun nodeSpec => nodeRef cr nodeSpec.1 := by
  have hfold : ∀ (l : List (String × NodeSpec)) (new : Objects Spec), AllOwned cr new →
      AllOwned cr (l.foldl (fun new nodeSpec => Resources.addNewResource config cr.owner new
        (nodeRef cr nodeSpec.1) (buildNode cr nodeSpec.1 nodeSpec.2)) new) ∧
      ∀ r, r ∈ l.foldl (fun new nodeSpec => Resources.addNewResource config cr.owner new
        (nodeRef cr nodeSpec.1) (buildNode cr nodeSpec.1 nodeSpec.2)) new ↔
          r ∈ new ∨ r ∈ l.map fun nodeSpec => nodeRef cr nodeSpec.1 := by
    intro l
    induction l with
    | nil => exact fun new h => ⟨h, by simp⟩
    | cons nodeSpec l ih =>
      intro new h
      obtain ⟨hall, hmem⟩ := ih _ h.addNewResource
      refine ⟨hall, fun r => ?_⟩
      rw [List.foldl_cons, hmem, mem_addNewResource, List.map_cons, List.mem_cons]
      tauto
  obtain ⟨hall, hmem⟩ := hfold cr.nodes.toList ∅ fun r o hr => by simp at hr
  exact ⟨hall, fun r => by rw [addNodes, hmem]; simp⟩

theorem addLinks_spec {ls : List LinkSpec} (h : addLinks cr ls new = .ok new')
    (hnew : AllOwned cr new) :
    AllOwned cr new' ∧ ∀ r, r ∈ new' ↔ r ∈ new ∨ r ∈ ls.map (linkRef cr) := by
  induction ls generalizing new with
  | nil =>
    cases h
    exact ⟨hnew, by simp⟩
  | cons l ls ih =>
    obtain ⟨topologies, -, h⟩ := bind_eq_ok.mp h
    obtain ⟨link, -, h⟩ := bind_eq_ok.mp h
    obtain ⟨hall, hmem⟩ := ih h hnew.addNewResource
    refine ⟨hall, fun r => ?_⟩
    rw [hmem, mem_addNewResource, List.map_cons, List.mem_cons]
    tauto

/-- Only the names of links can be the same. -/
theorem specRefs_nodup : (specRefs cr).Nodup ↔ (cr.links.map linkName).Nodup := by
  have hnodes : (cr.nodes.toList.map fun nodeSpec => nodeRef cr nodeSpec.1).Nodup := by
    have hkeys : (cr.nodes.toList.map Prod.fst).Nodup := by
      rw [ExtTreeMap.map_fst_toList_eq_keys]
      exact ExtTreeMap.nodup_keys
    have hmap := hkeys.map (f := nodeRef cr) fun a b hab => congrArg Ref.name hab
    rwa [List.map_map] at hmap
  have hdisjoint : (cr.nodes.toList.map fun nodeSpec => nodeRef cr nodeSpec.1).Disjoint
      (cr.links.map (linkRef cr)) := by
    intro r hnode hlink
    obtain ⟨nodeSpec, -, rfl⟩ := List.mem_map.mp hnode
    obtain ⟨l, -, hl⟩ := List.mem_map.mp hlink
    have hkind : linkGVK.kind = nodeGVK.kind := congrArg (fun r : Ref => r.gvk.kind) hl
    exact absurd hkind (by decide)
  have hlinks : (cr.links.map (linkRef cr)).Nodup ↔ (cr.links.map linkName).Nodup := by
    have hcomp : cr.links.map (linkRef cr) =
        (cr.links.map linkName).map fun n => (⟨linkGVK, cr.owner.ns, n⟩ : Ref) := by
      rw [List.map_map]
      rfl
    rw [hcomp]
    exact List.nodup_map_iff fun a b hab => congrArg Ref.name hab
  unfold specRefs
  rw [List.nodup_append', hlinks]
  exact ⟨fun h => h.2.1, fun h => ⟨hnodes, h, hdisjoint⟩⟩

theorem populateResources_ok {P : Patch Spec} {orders : Orders} {s s' : Server Spec}
    (h : (populateResources orders cr).run (handler P) s = (.ok (), s')) :
    ∃ new : Objects Spec, AllOwned cr new ∧ (∀ r, r ∈ new ↔ r ∈ specRefs cr) ∧
      (apiApply orders config (matchLabels cr) cr.owner new ∅).run (handler P) s = (.ok (), s') := by
  unfold populateResources at h
  split at h
  · cases h
  split at h
  · cases h
  next new hlinks =>
    obtain ⟨hnodes, hmemNodes⟩ := addNodes_spec cr
    obtain ⟨hall, hmem⟩ := addLinks_spec hlinks hnodes
    refine ⟨new, hall, fun r => ?_, h⟩
    rw [hmem, hmemNodes, specRefs, List.mem_append]

/-- An object that has been applied has the owners that were wanted. -/
theorem ownedBy_result {P : Patch Spec} {old : Option (Object Spec)} (h : OwnedBy cr o) :
    OwnedBy cr (P.result old o) := by
  cases old with
  | none => exact h
  | some old =>
    rw [ownedBy_iff] at h ⊢
    rw [Patch.result, P.patch_owners]
    exact h

end

/-- `populateResources` converges exactly when the links have different names and each object that
is no longer wanted has the name of the topology as its topology label. -/
theorem populateResources_converges_iff (P : Patch Spec) (orders : Orders) (cr : CR)
    (s s' : Server Spec)
    (h : (populateResources orders cr).run (handler P) s = (.ok (), s')) :
    Converged cr s'.objects ↔
      (cr.links.map linkName).Nodup ∧
      ∀ (r : Ref) o, s.objects[r]? = some o → r.ns = cr.owner.ns → r.gvk ∈ config.owns →
        OwnedBy cr o → r ∉ specRefs cr → o.labels[nephioTopologyKey]? = some cr.owner.name := by
  obtain ⟨new, hall, hnew, happly⟩ := populateResources_ok h
  obtain ⟨hin, hout⟩ := apiApply_ok happly
  unfold Converged
  rw [specRefs_nodup]
  refine and_congr_right fun _ => ⟨fun hconv r o ho hns hgvk hown hspec => ?_,
    fun hlabel r hns hgvk => ⟨?_, fun hspec => ?_⟩⟩
  · -- it would still be there
    by_contra hno
    have hleft : s'.objects[r]? = some o := by
      refine (hout r (fun hr => hspec ((hnew r).mp hr)) o).mpr ⟨ho, fun hfound => hno ?_⟩
      exact hfound.2.1 (nephioTopologyKey, cr.owner.name) (List.mem_singleton_self _)
    exact hspec ((hconv r hns hgvk).mp ⟨o, hleft, hown⟩)
  · rintro ⟨o, ho, hown⟩
    by_contra hspec
    obtain ⟨ho', hnot⟩ := (hout r (fun hr => hspec ((hnew r).mp hr)) o).mp ho
    refine hnot ⟨hgvk, ?_, hown⟩
    intro kv hkv
    rw [List.mem_singleton.mp hkv]
    exact hlabel r o ho' hns hgvk hown hspec
  · obtain ⟨o, ho⟩ := Option.isSome_iff_exists.mp
      (ExtTreeMap.mem_iff_isSome_getElem?.mp ((hnew r).mpr hspec))
    exact ⟨_, hin r o ho, ownedBy_result (hall r o ho)⟩

/-! ## A node that is taken out of the spec -/

/-- Labels are added and the rest is replaced. -/
def replacing : Patch Spec where
  patch old new := { new with labels := new.labels.foldl (fun l k v => l.insert k v) old.labels }
  patch_owners _ _ := rfl

def sampleNode : NodeSpec := ⟨"srl", none, ∅, none, none⟩

def sampleTopology (ns name : String) (nodes : List String) (links : List LinkSpec) : CR where
  owner := ⟨⟨"topo.nephio.org", "v1alpha1", "RawTopology"⟩, ns, name, "uid"⟩
  nodes := nodes.foldl (fun m n => m.insert n sampleNode) ∅
  links := links

def sampleLink : LinkSpec := ⟨[⟨"", "e1", "a", none⟩, ⟨"", "e1", "b", none⟩]⟩

/-- The API server after a topology was reconciled. -/
def reconciled (cr : CR) (s : Server Spec) : Server Spec :=
  ((populateResources ordersByKey cr).run (handler replacing) s).2

/-- The server after a first topology with a second node and some links was reconciled. -/
def withSecondNode (ns : String) (links : List LinkSpec) : Server Spec :=
  reconciled (sampleTopology ns "topo" ["a", "b"] links) ⟨∅, []⟩

/-- In a namespace that has the name of the topology a node is found and deleted. -/
theorem populateResources_converges_named :
    Converged (sampleTopology "topo" "topo" ["a"] [])
      (reconciled (sampleTopology "topo" "topo" ["a"] []) (withSecondNode "topo" [])).objects := by
  refine (populateResources_converges_iff replacing ordersByKey _ (withSecondNode "topo" []) _ ?_).mpr
    ⟨List.nodup_nil, fun r o ho _ _ _ _ => ?_⟩
  · refine Prod.ext ?_ rfl
    decide +kernel
  · have hall : ∀ ro ∈ (withSecondNode "topo" []).objects.toList,
        ro.2.labels[nephioTopologyKey]? = some "topo" := by decide +kernel
    exact hall (r, o) (ExtTreeMap.mem_toList_iff_getElem?_eq_some.mpr ho)

/-- In another namespace the node and its link stay. -/
theorem populateResources_leaves_node :
    ((populateResources ordersByKey (sampleTopology "default" "topo" ["a"] [])).run (handler replacing)
      (withSecondNode "default" [sampleLink])).1 = .ok () ∧
    ¬Converged (sampleTopology "default" "topo" ["a"] [])
      (reconciled (sampleTopology "default" "topo" ["a"] [])
        (withSecondNode "default" [sampleLink])).objects := by
  refine ⟨by decide +kernel, ?_⟩
  rintro ⟨-, hconv⟩
  have hleft : ∃ ro ∈ (reconciled (sampleTopology "default" "topo" ["a"] [])
      (withSecondNode "default" [sampleLink])).objects.toList,
      ro.1 = ⟨nodeGVK, "default", "b"⟩ ∧
        OwnedBy (sampleTopology "default" "topo" ["a"] []) ro.2 := by decide +kernel
  obtain ⟨⟨r, o⟩, hmem, rfl, hown⟩ := hleft
  have ho := ExtTreeMap.mem_toList_iff_getElem?_eq_some.mp hmem
  have hspec := (hconv ⟨nodeGVK, "default", "b"⟩ rfl (by decide)).mp ⟨o, ho, hown⟩
  revert hspec
  decide +kernel

end K8sIpam.RawTopology
