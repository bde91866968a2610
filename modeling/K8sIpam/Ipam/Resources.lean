import K8sIpam.Ipam.Backend

/-! # The resources that claims are made for

IP prefixes and network instances, and `NormalizeKRM`, which turns them and IP claims into the
claim that is sent to the backend. -/

namespace K8sIpam.Ipam
open Std Atomic Net

structure IPPrefixSpec where
  kind : PrefixKind
  networkInstance : ObjectReference
  pfx : String
  labels : Labels
  deriving DecidableEq

structure IPPrefix where
  metadata : ObjectMeta
  spec : IPPrefixSpec
  deriving DecidableEq

/-- A prefix of a network instance. -/
structure InstancePrefix where
  pfx : String
  labels : Labels
  deriving DecidableEq

structure NetworkInstanceSpec where
  prefixes : List InstancePrefix
  deriving DecidableEq

structure NetworkInstanceStatus where
  prefixes : List InstancePrefix
  deriving DecidableEq

structure NetworkInstance where
  metadata : ObjectMeta
  spec : NetworkInstanceSpec
  status : NetworkInstanceStatus
  deriving DecidableEq

def ipPrefixGVK : GroupVersionKind := ⟨"ipam.resource.nephio.org", "v1alpha1", "IPPrefix"⟩

def replaceChar (a b : Char) (s : String) : String :=
  String.ofList (s.toList.map fun c => if c = a then b else c)

def getNameFromPrefix (pfx name suffix : String) : String :=
  let s := replaceChar ':' '-' (replaceChar '/' '-' pfx ++ "-" ++ name)
  if suffix ≠ "" then s ++ "-" ++ suffix else s

def NetworkInstance.getNameFromNetworkInstancePrefix (cr : NetworkInstance) (pfx : String) : String :=
  getNameFromPrefix pfx cr.metadata.name "aggregate"

/-- The metadata of the claim of a resource: its owner is the resource. -/
def ownedBy (gvk : GroupVersionKind) (m : ObjectMeta) : ObjectMeta :=
  { m with labels := m.labels.insert nephioOwnerGvkKey (gvkToString gvk) }

/-- What a claim is made for: an IP prefix, an IP claim, or a prefix of a network instance. -/
inductive KrmObject where
  | ipPrefix (cr : IPPrefix)
  | ipClaim (cr : IPClaim)
  | networkInstance (cr : NetworkInstance) (pfx : InstancePrefix)

/-- The claim of a resource that has its prefix in its spec. -/
def buildIPClaim (metadata : ObjectMeta) (kind : PrefixKind) (networkInstance : ObjectReference)
    (pfx : String) (pi : Prefix) (labels : Labels) : IPClaim :=
  { metadata
    spec := {
      labels, selector := none, kind, networkInstance, addressFamily := none, pfx := some pfx,
      prefixLength := some (UInt8.ofNat pi.bits), createPrefix := some true }
    status := ⟨none, none⟩ }

def normalizeKRM (P : Platform) : KrmObject → Except Failure IPClaim
  | .ipPrefix cr => do
    let pi ← newPrefixInfo P cr.spec.pfx
    return (buildIPClaim (ownedBy ipPrefixGVK cr.metadata) cr.spec.kind cr.spec.networkInstance
      cr.spec.pfx pi cr.spec.labels).addOwnerLabelsToCR
  | .ipClaim cr => return cr.addOwnerLabelsToCR
  | .networkInstance cr pfx => do
    let metadata := { ownedBy networkInstanceGVK cr.metadata with
      name := cr.getNameFromNetworkInstancePrefix pfx.pfx }
    let pi ← newPrefixInfo P pfx.pfx
    return (buildIPClaim metadata .aggregate ⟨cr.metadata.name, cr.metadata.ns⟩ pfx.pfx pi
      pfx.labels).addOwnerLabelsToCR

/-! ## The owner labels of a normalized claim -/

section
variable {gvk : GroupVersionKind} {m : ObjectMeta} {l : Labels}

theorem addOwnerLabels_ownerGvk :
    (addOwnerLabels gvk m l)[nephioOwnerGvkKey]? =
      some (m.labels[nephioOwnerGvkKey]?.getD (gvkToString gvk)) := by
  simp only [addOwnerLabels, getHierOwnerLabelsFromCR, List.foldl_cons, List.foldl_nil,
    ExtTreeMap.getElem?_insert, LawfulEqCmp.compare_eq_iff_eq]
  rw [if_neg (by decide), if_neg (by decide), if_neg (by decide), if_neg (by decide),
    if_neg (by decide), if_pos trivial]

theorem addOwnerLabels_nsnName : (addOwnerLabels gvk m l)[nephioNsnNameKey]? = some m.name := by
  simp only [addOwnerLabels, getHierOwnerLabelsFromCR, List.foldl_cons, List.foldl_nil,
    ExtTreeMap.getElem?_insert, LawfulEqCmp.compare_eq_iff_eq]
  rw [if_neg (by decide), if_pos trivial]

theorem addOwnerLabels_nsnNamespace :
    (addOwnerLabels gvk m l)[nephioNsnNamespaceKey]? = some (getNamespace m.ns) := by
  simp [addOwnerLabels, getHierOwnerLabelsFromCR]

end

/-- The resource that stands in the owner labels of a normalized claim. -/
def KrmObject.owner : KrmObject → ObjectMeta
  | .ipPrefix cr => ownedBy ipPrefixGVK cr.metadata
  | .ipClaim cr => cr.metadata
  | .networkInstance cr pfx => { ownedBy networkInstanceGVK cr.metadata with
      name := cr.getNameFromNetworkInstancePrefix pfx.pfx }

theorem normalizeKRM_labels {P : Platform} {o : KrmObject} {c : IPClaim}
    (h : normalizeKRM P o = .ok c) : ∃ l, c.spec.labels = addOwnerLabels ipClaimGVK o.owner l := by
  cases o with
  | ipPrefix cr =>
    obtain ⟨pi, -, h⟩ := bind_eq_ok.mp h
    exact ⟨cr.spec.labels, (congrArg (fun c => c.spec.labels) (Except.ok.inj h)).symm⟩
  | ipClaim cr => exact ⟨cr.spec.labels, (congrArg (fun c => c.spec.labels) (Except.ok.inj h)).symm⟩
  | networkInstance cr pfx =>
    obtain ⟨pi, -, h⟩ := bind_eq_ok.mp h
    exact ⟨pfx.labels, (congrArg (fun c => c.spec.labels) (Except.ok.inj h)).symm⟩

end K8sIpam.Ipam
