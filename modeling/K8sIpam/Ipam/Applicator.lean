import K8sIpam.Ipam.Claim

/-! # Applying and deleting IP claims

`pkg/backend/ipam`: `applicator.go`, `apply_dynamic.go`, `apply_prefix.go` and
`delete_prefix.go` as programs over the operations of the routing table. What the applicator
keeps in its fields is passed along: the claim with its status, and the prefix information
`pi`. -/

namespace K8sIpam.Ipam
open Std Atomic Prog Net

/-! ## Routes and labels of a claim -/

section
variable (txt : NetText) (c : IPClaim) (pi : Prefix)

/-- The labels that a claim writes on its routes. -/
def mutatedLabels : Labels :=
  c.spec.getUserDefinedLabels
    |>.insert nephioPrefixKindKey c.spec.kind.toString
    |>.insert nephioAddressFamilyKey pi.getAddressFamily
    |>.insert nephioSubnetKey (pi.getSubnetName txt)

def mutateNetworkNetRoute (l : Labels) : Route := ⟨pi.getIPSubnet, l.erase nephioGatewayKey⟩

def mutateNetworIPAddressRoute (l : Labels) : Route := ⟨pi.getIPAddressPrefix, l⟩

def mutateNetworFirstAddressRoute (l : Labels) : Route :=
  ⟨pi.getFirstIPPrefix, l.erase nephioGatewayKey⟩

def mutateNetworLastAddressRoute (l : Labels) : Route :=
  ⟨pi.getLastIPPrefix, l.erase nephioGatewayKey⟩

/-- A prefix of two addresses. -/
def isPointToPoint : Bool :=
  match pi.family with
  | .ipv4 => pi.bits = 31
  | .ipv6 => pi.bits = 127

/-- The routes of a network prefix: the subnet, the address and the ends of the subnet. -/
def networkRoutes (l : Labels) : List Route :=
  if isPointToPoint pi then [mutateNetworkNetRoute pi l]
  else if pi.isNorLastNorFirst then
    [mutateNetworkNetRoute pi l, mutateNetworIPAddressRoute pi l,
      mutateNetworFirstAddressRoute pi l, mutateNetworLastAddressRoute pi l]
  else if pi.isFirst then
    [mutateNetworkNetRoute pi l, mutateNetworIPAddressRoute pi l,
      mutateNetworLastAddressRoute pi l]
  else if pi.isLast then
    [mutateNetworkNetRoute pi l, mutateNetworIPAddressRoute pi l,
      mutateNetworFirstAddressRoute pi l]
  else []

def getMutatedRoutesWithLabels : List Route :=
  let l := mutatedLabels txt c pi
  match c.spec.kind with
  | .network =>
    if c.isCreatePrefix then networkRoutes pi l else [⟨pi.getIPAddressPrefix, l⟩]
  -- `table.NewRoute` masks its prefix; the subnets and addresses above have no bits to lose
  | _ => [⟨pi.masked, l⟩]

end

section
variable (P : Platform)

/-! ## Writing the table -/

/-- The text of the first route that carries the gateway label of the subnet. -/
def getGateway (s : String) : RibProg String :=
  match P.txt.parsePrefix s with
  | .error _ => return ""
  | .ok pi =>
    match IPClaim.getGatewayLabelSelector P.refuses (pi.getSubnetName P.txt) with
    | .error _ => return ""
    | .ok selector => do
      let routes ← RibProg.getByLabel selector
      match routes with
      | r :: _ => return P.txt.addrString r.pfx.addr
      | [] => return ""

/-- An error that says that the route exists is ignored. -/
def addRoutes : List Route → RibProg Unit
  | [] => return
  | r :: rs => do
    let res ← RibProg.add r
    match res with
    | .error msg =>
      if "already exists".toList <:+: msg.toList then addRoutes rs
      else .fail (.error ("cannot add prefix: " ++ msg))
    | .ok () => addRoutes rs

theorem addRoutes_cons (r : Route) (rs : List Route) :
    addRoutes (r :: rs) = .op (.add r) fun x => match x with
      | .error msg =>
        if "already exists".toList <:+: msg.toList then addRoutes rs
        else .fail (.error ("cannot add prefix: " ++ msg))
      | .ok () => addRoutes rs := by
  rw [addRoutes]
  refine congrArg (Prog.op (S := ribSig) (.add r)) (funext fun x => ?_)
  cases x <;> rfl

/-- The gateway is reported for addresses of a network. -/
def reportGateway (c : IPClaim) (s : String) : RibProg IPClaim :=
  if c.spec.kind = .network ∧ c.isCreatePrefix = false then do
    let gateway ← getGateway P s
    return (c.setPrefix s).setGateway gateway
  else return c.setPrefix s

def addRib (c : IPClaim) (pi : Prefix) : RibProg IPClaim := do
  addRoutes (getMutatedRoutesWithLabels P.txt c pi)
  reportGateway P c (P.txt.prefixString pi)

/-- The address of a route with the length of its most specific parent. -/
def parentPrefix (route : Route) : List Route → Option Prefix
  | [] => none
  | parent :: _ => prefixFrom route.pfx.addr parent.pfx.bits

/-- The labels that a route of the claim should have. -/
def updatedLabels (txt : NetText) (c : IPClaim) (route : Route) (parents : List Route) : Labels :=
  let l := mutatedLabels txt c route.pfx
  match c.spec.kind with
  | .network =>
    if route.pfx.isAddressPrefix then
      match parentPrefix route parents with
      | none => l
      | some q =>
        let l := if route.pfx = q.getFirstIPPrefix ∨ route.pfx = q.getLastIPPrefix then
          l.erase nephioGatewayKey else l
        l.insert nephioSubnetKey (q.getSubnetName txt)
    else l.erase nephioGatewayKey
  | .pool => l.insert nephioPoolKey "true"
  | _ => l

/-- The prefix information is kept when it is not replaced. The parents of a route are only
looked up for an address of a network. -/
def getUpdatedLabels (c : IPClaim) (pi : Option Prefix) (route : Route) :
    RibProg (Labels × Option Prefix) :=
  if c.spec.kind = .network ∧ route.pfx.isAddressPrefix = true then do
    let parents ← RibProg.parents route.pfx
    return (updatedLabels P.txt c route parents, (parentPrefix route parents).or pi)
  else return (updatedLabels P.txt c route [], pi)

/-- The errors of these deletes are only logged. -/
def deleteRoutes : List Route → RibProg Unit
  | [] => return
  | r :: rs => do
    let _ ← RibProg.delete r
    deleteRoutes rs

/-- Delete the children that belong to other resources and inform their owners. -/
def deleteChildren (c : IPClaim) (route : Route) : RibProg Unit := do
  let children ← RibProg.children route.pfx
  let others := children.filter fun r => !c.sameNsn r.labels
  deleteRoutes others
  RibProg.handleUpdate others

/-- The loop of `updateRib`. The prefix information is that of the last address that was seen. -/
def updateRoutes (initializing : Bool) (c : IPClaim) :
    Option Prefix → List Route → RibProg (Option Prefix)
  | pi, [] => return pi
  | pi, route :: routes => do
    let (l, pi) ← getUpdatedLabels P c pi route
    if l = route.labels then updateRoutes initializing c pi routes
    else do
      RibProg.set ⟨route.pfx, l⟩
      if !initializing && pi.any (fun q => !q.isAddressPrefix) && c.isCreatePrefix then
        deleteChildren c route
      updateRoutes initializing c pi routes

/-- The prefix that an update reports. -/
def updatedPrefix (c : IPClaim) (pi : Option Prefix) (route : Route) : String :=
  match c.spec.kind, c.spec.pfx, pi with
  | .network, some s, _ => s
  | .network, none, some q => P.txt.prefixString q
  | _, _, _ => P.txt.prefixString route.pfx

def updateRib (initializing : Bool) (c : IPClaim) (pi : Option Prefix) (routes : List Route) :
    RibProg IPClaim := do
  let pi ← updateRoutes P initializing c pi routes
  match routes with
  | [] => .fail (.panic "index out of range [0] with length 0")
  | route :: _ => reportGateway P c (updatedPrefix P c pi route)

/-! ## Applying a claim -/

def getRoutesByOwner (c : IPClaim) : RibProg (List Route) := do
  let ownerSelector ← lift (c.spec.getOwnerSelector P.refuses)
  let routes ← RibProg.getByLabel ownerSelector
  -- the prefixes of a created network are expanded
  if routes.length > 1 ∧ ¬(c.isCreatePrefix = true ∧ c.spec.kind = .network) then
    .fail (.error ("multiple prefixes match the nsn labelselector, " ++ P.routesString routes))
  else return routes

def getRoutesByLabel (c : IPClaim) : RibProg (List Route) :=
  match c.spec.getLabelSelector P.refuses with
  | .error _ => return []
  | .ok selector => RibProg.getByLabel selector

def getPrefixLengthFromRoute (c : IPClaim) (route : Route) : Nat :=
  match c.spec.prefixLength with
  | some n => n.toNat
  | none => route.pfx.addr.bitLen

/-- The first route of the kind of the claim, or else the first aggregate (not for pools). -/
def selectAddressRoute (c : IPClaim) (routes : List Route) : Option Route :=
  let ofKind := fun k : PrefixKind => routes.find? fun r =>
    r.labels.get nephioPrefixKindKey = k.toString
  match c.spec.kind with
  | .loopback | .network => (ofKind c.spec.kind).or (ofKind .aggregate)
  | .pool => ofKind .pool
  | .aggregate => none

def getSelectedRouteWithPrefixLength (c : IPClaim) (routes : List Route) (prefixLength : Nat) :
    Option Route :=
  if prefixLength = 32 ∨ prefixLength = 128 then selectAddressRoute c routes
  else routes.find? fun r => r.pfx.bits < prefixLength

def updatePrefixInfo (c : IPClaim) (pi p : Prefix) (prefixLength : Nat) : Option Prefix :=
  if c.spec.kind = .network then
    if c.isCreatePrefix then some p else prefixFrom p.addr pi.bits
  else prefixFrom p.addr prefixLength

/-- A dynamic claim that is not a refresh: search a prefix inside a selected route. -/
def claimFresh (c : IPClaim) (routes : List Route) (route : Route) : RibProg IPClaim :=
  let prefixLength := getPrefixLengthFromRoute c route
  match getSelectedRouteWithPrefixLength c routes prefixLength with
  | none => .fail (.error ("no route found with requested prefixLength: " ++ toString prefixLength))
  | some selected => do
    let available ← RibProg.getAvailablePrefixByBitLen selected.pfx prefixLength
    match available with
    | none => .fail (.error "no free prefix found")
    | some p =>
      match updatePrefixInfo c selected.pfx p prefixLength with
      | none => .fail (.panic "invalid prefix")  -- the prefix found has the requested length
      | some pi => addRib P c pi

def applyDynamic (initializing : Bool) (c : IPClaim) : RibProg IPClaim := do
  let owned ← getRoutesByOwner P c
  match owned with
  | _ :: _ => updateRib P initializing c none owned
  | [] => do
    let routes ← getRoutesByLabel P c
    match routes with
    | [] => .fail (.error ("dynamic claim: no available routes based on the selector labels " ++
        mapString c.spec.getSelectorLabels))
    | route :: _ =>
      match c.status.pfx with
      | none => claimFresh P c routes route
      | some hint =>
        match P.txt.parsePrefix hint with
        | .error msg => .fail (.error msg)
        | .ok pi => do
          let available ← RibProg.getAvailablePrefixByBitLen pi pi.bits
          match available with
          | some _ => addRib P c pi
          | none => claimFresh P c routes route

/-- The prefix under which `applyPrefix` looks for its route. -/
def lookupPrefix (c : IPClaim) (pi : Prefix) : Prefix :=
  match c.spec.kind with
  | .network => if c.isCreatePrefix then pi.getIPSubnet else pi.getIPAddressPrefix
  | _ => pi

/-- The route that a claim with a prefix is about: the first that it adds. -/
def mainPrefix (c : IPClaim) (pi : Prefix) : Prefix :=
  match c.spec.kind with
  | .network => if c.isCreatePrefix then pi.getIPSubnet else pi.getIPAddressPrefix
  | _ => pi.masked

def applyPrefix (initializing : Bool) (c : IPClaim) (pi : Prefix) : RibProg IPClaim := do
  let route ← RibProg.get (lookupPrefix c pi)
  match route with
  | some _ => do
    let routes ← getRoutesByOwner P c
    updateRib P initializing c (some pi) routes
  | none => addRib P c pi

/-! ## Deleting a claim -/

def deleteOwned (initializing : Bool) (c : IPClaim) : List Route → RibProg Unit
  | [] => return
  | route :: routes => do
    if !initializing && !route.pfx.isAddressPrefix && c.isCreatePrefix then
      deleteChildren c route
    let res ← RibProg.delete route
    match res with
    | .error msg => .fail (.error msg)
    | .ok () => do
      if !initializing then do
        let children ← RibProg.children route.pfx
        RibProg.handleUpdate children
      deleteOwned initializing c routes

def delete (initializing : Bool) (c : IPClaim) : RibProg Unit := do
  let ownerSelector ← lift (c.spec.getOwnerSelector P.refuses)
  let routes ← RibProg.getByLabel ownerSelector
  deleteOwned initializing c routes

end
end K8sIpam.Ipam
