import K8sIpam.Api.Meta
import K8sIpam.Ipam.Rib

/-! # IP claims

`apis/resource/ipam/v1alpha1`: the IP claim, and the labels and selectors derived from it. -/

namespace K8sIpam.Ipam
open Std Atomic Net

inductive PrefixKind where
  | network | loopback | pool | aggregate
  deriving DecidableEq

def PrefixKind.toString : PrefixKind → String
  | .network => "network"
  | .loopback => "loopback"
  | .pool => "pool"
  | .aggregate => "aggregate"

/-- Of `CreatePrefix` the backend only looks whether it is set. -/
structure IPClaimSpec extends ClaimLabels where
  kind : PrefixKind
  networkInstance : ObjectReference
  addressFamily : Option Family
  pfx : Option String
  prefixLength : Option UInt8
  createPrefix : Option Bool
  deriving DecidableEq

structure IPClaimStatus where
  pfx : Option String
  gateway : Option String
  deriving DecidableEq

structure IPClaim where
  metadata : ObjectMeta
  spec : IPClaimSpec
  status : IPClaimStatus
  deriving DecidableEq

/-- The libraries under the backend: the routing table, the texts of addresses, the check of label
requirements, and the texts that the formats give for routes and for the address of a length. -/
structure Platform where
  nipam : Nipam
  txt : NetText
  refuses : NewRequirement
  routeString : Route → String
  routesString : List Route → String
  pointerString : String

def ipClaimGVK : GroupVersionKind := ⟨"ipam.resource.nephio.org", "v1alpha1", "IPClaim"⟩

def networkInstanceGVK : GroupVersionKind :=
  ⟨"ipam.resource.nephio.org", "v1alpha1", "NetworkInstance"⟩

/-- `%v` of a map. -/
def mapString (l : Labels) : String :=
  "map[" ++ " ".intercalate (l.toList.map fun kv => kv.1 ++ ":" ++ kv.2) ++ "]"

namespace IPClaim

variable (c : IPClaim)

def getCacheID : ObjectReference := K8sIpam.getCacheID c.spec.networkInstance

def owner : List String := ownerKey c.spec.labels

def isCreatePrefix : Bool := c.spec.createPrefix.isSome

/-- The name and namespace by which children of another resource are told apart. -/
def sameNsn (l : Labels) : Bool :=
  l.get nephioNsnNameKey = c.spec.getFullLabels.get nephioNsnNameKey &&
    l.get nephioNsnNamespaceKey = c.spec.getFullLabels.get nephioNsnNamespaceKey

def getDummyLabelsFromPrefix (txt : NetText) (pi : Prefix) : Labels :=
  c.spec.getUserDefinedLabels
    |>.insert nephioPrefixKindKey c.spec.kind.toString
    |>.insert nephioSubnetKey (pi.getSubnetName txt)

def getGatewayLabelSelector (refuses : NewRequirement) (subnetString : String) :
    Except Failure Selector :=
  newSelector refuses ((∅ : Labels).insert nephioGatewayKey "true" |>.insert nephioSubnetKey subnetString)

def addOwnerLabelsToCR : IPClaim :=
  { c with spec.labels := addOwnerLabels ipClaimGVK c.metadata c.spec.labels }

def setPrefix (s : String) : IPClaim := { c with status.pfx := some s }

def setGateway (s : String) : IPClaim := { c with status.gateway := some s }

end IPClaim
end K8sIpam.Ipam
