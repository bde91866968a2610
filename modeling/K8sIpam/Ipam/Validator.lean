import K8sIpam.Ipam.Applicator

/-! # Validating IP claims

`validator_functions.go`, `validator_dynamic.go` and `validator_prefix.go`. A validation gives a
message; the empty message accepts the claim. The same functions are registered for the four
kinds. -/

namespace K8sIpam.Ipam
open Std Atomic Prog Net

section
variable (P : Platform) (c : IPClaim)

def kindString : String := c.spec.kind.toString

def validateInputDynamic : String :=
  if c.spec.kind = .aggregate then
    "a dynamic prefix claim is not supported for: " ++ kindString c
  else if c.isCreatePrefix then
    if c.spec.prefixLength = none then
      "a dynamic prefix claimation w/o a prefix length need a prefix length to be set"
    else ""
  else if c.spec.prefixLength ≠ none then
    "a dynamic prefix claimation with prefixlength <> 0 need to set create prefix, got: " ++
      P.pointerString
  else if c.spec.kind = .aggregate ∨ c.spec.kind = .pool then
    "a dynamic claim of kind " ++ kindString c ++
      " is not supported unless prefixlength and create prefix is set"
  else ""

def validateInputPrefix (pi : Prefix) : String :=
  if (c.spec.kind = .aggregate ∨ c.spec.kind = .network) ∧ pi.isAddressPrefix = true then
    "a prefix claim for kind " ++ kindString c ++
      " is not allowed with /32 for ipv4 or /128 for ipv6 notation"
  else if c.spec.kind ≠ .network ∧ P.txt.prefixString pi.getIPSubnet ≠ P.txt.prefixString pi then
    "net <> address is not allowed for prefixkind: " ++ kindString c
  else if c.isCreatePrefix = true ∧ pi.isAddressPrefix = true then
    "create prefix is not allowed with /32 for ipv4 or /128 for ipv6, got: " ++
      P.txt.prefixString pi
  else ""

/-- `namespace/name` of the resource that a route is for. -/
def nsnString (l : Labels) : String :=
  l.get nephioNsnNamespaceKey ++ "/" ++ l.get nephioNsnNameKey

def validatePrefixOwner (route : Route) : String :=
  if ownerKey route.labels ≠ c.owner then
    "cannot create prefix duplicate by owner gvk " ++ route.labels.get nephioOwnerGvkKey ++
      ", owner nsn " ++ route.labels.get nephioOwnerNsnNamespaceKey ++ "/" ++
      route.labels.get nephioOwnerNsnNameKey ++ " with nsn " ++ nsnString route.labels
  else ""

def routeKind (route : Route) : String := route.labels.get nephioPrefixKindKey

def validateChildrenExist (route : Route) : String :=
  match c.spec.kind with
  | .network =>
    if routeKind route ≠ PrefixKind.network.toString then
      "a child prefix of a " ++ kindString c ++ " prefix, can be of the same kind"
    else
      let onlyAddress := fun len : String =>
        "a child prefix of a " ++ kindString c ++ " prefix, can only be an address prefix (/" ++
          len ++ "), got: " ++ P.txt.prefixString route.pfx
      match route.pfx.family with
      | .ipv4 => if route.pfx.bits ≠ 32 then onlyAddress "32" else ""
      | .ipv6 => if route.pfx.bits ≠ 128 then onlyAddress "128" else ""
  | .aggregate => ""
  | _ => "a more specific prefix was already claimed " ++ nsnString route.labels ++
      ", nesting not allowed for " ++ kindString c

def validateNoParentExist (ownerGvk : String) : String :=
  if ownerGvk = gvkToString networkInstanceGVK then "" else "an aggregate prefix is required"

def validateParentExist (route : Route) (pi : Prefix) : String :=
  let agg := PrefixKind.aggregate.toString
  match c.spec.kind with
  | .aggregate =>
    if routeKind route ≠ agg then
      "nesting aggregate prefixes with anything other than an aggregate prefix is not allowed, prefix nested with " ++
        nsnString route.labels
    else ""
  | .loopback =>
    if routeKind route ≠ agg ∧ routeKind route ≠ PrefixKind.loopback.toString then
      "nesting loopback prefixes with anything other than an aggregate/loopback prefix is not allowed, prefix nested with " ++
        nsnString route.labels
    -- the source checks an address once more
    else if pi.isAddressPrefix = true ∧ routeKind route ≠ agg ∧
        routeKind route ≠ PrefixKind.loopback.toString then
      "nesting loopback prefixes only possible with address (/32, /128) based prefixes, got " ++
        P.txt.prefixString pi
    else if pi.isAddressPrefix = false ∧ routeKind route ≠ agg then
      "nesting (none /32, /128)loopback prefixes only possible with aggregate prefixes, got " ++
        P.routeString route
    else ""
  | .network =>
    if c.isCreatePrefix then
      if routeKind route ≠ agg then
        "nesting network prefixes with anything other than an aggregate prefix is not allowed, prefix nested with " ++
          nsnString route.labels ++ " of kind " ++ routeKind route
      else ""
    else if routeKind route ≠ PrefixKind.network.toString then
      "cannot create network prefix w/o parent network prefix, got " ++ nsnString route.labels ++
        " of kind " ++ routeKind route
    else ""
  | .pool =>
    if routeKind route ≠ agg ∧ routeKind route ≠ PrefixKind.pool.toString then
      "nesting loopback prefixes with anything other than an aggregate/pool prefix is not allowed, prefix nested with " ++
        nsnString route.labels
    else ""

/-- The longest of the routes; the first of them when there are several. -/
def findParent (route : Route) (routes : List Route) : Route :=
  routes.foldl (fun best r => if r.pfx.bits > best.pfx.bits then r else best) route

/-- The checks of a route that is already in the table. -/
def validateExisting (rib : Rib) (pi : Prefix) (route : Route) : String :=
  if c.isCreatePrefix then validatePrefixOwner c route
  else if c.spec.kind = .network then
    if routeKind route ≠ PrefixKind.network.toString then
      "an address based prefix kind can only have parent prefix kind, got: " ++ routeKind route
    else
      match getRoute rib pi.getIPAddressPrefix with
      | none => ""
      | some address => validatePrefixOwner c address
  else validatePrefixOwner c route

/-- The checks of a route that is not in the table, made on a copy of the table in which it is. -/
def validateNew (rib : Rib) (pi : Prefix) : String :=
  let dryrunRib := rib.insert pi.getIPSubnet (c.getDummyLabelsFromPrefix P.txt pi)
  let children := P.nipam.children dryrunRib pi.getIPSubnet
  let msg := match children with
    | child :: _ => validateChildrenExist P c child
    | [] => ""
  if msg ≠ "" then msg
  else
    match P.nipam.parents dryrunRib pi.getIPSubnet with
    | [] => validateNoParentExist (c.spec.getUserDefinedLabels.get nephioOwnerGvkKey)
    | parent :: parents => validateParentExist P c (findParent parent parents) pi

/-- The table is read once: the rest works on the copy. -/
def validatePrefix (pi : Prefix) : RibProg String :=
  if validateInputPrefix P c pi ≠ "" then return validateInputPrefix P c pi
  else do
    let rib ← RibProg.clone
    match getRoute rib pi.getIPSubnet with
    | some route => return validateExisting c rib pi route
    | none => return validateNew P c rib pi

/-! ## Accepted claims -/

variable {P c} {pi : Prefix} {route : Route}

theorem validatePrefixOwner_eq_empty :
    validatePrefixOwner c route = "" ↔ ownerKey route.labels = c.owner := by
  unfold validatePrefixOwner
  split
  · simp_all
  · simp_all

theorem validateInputPrefix_eq_empty :
    validateInputPrefix P c pi = "" ↔
      ¬((c.spec.kind = .aggregate ∨ c.spec.kind = .network) ∧ pi.isAddressPrefix = true) ∧
      ¬(c.spec.kind ≠ .network ∧ P.txt.prefixString pi.getIPSubnet ≠ P.txt.prefixString pi) ∧
      ¬(c.isCreatePrefix = true ∧ pi.isAddressPrefix = true) := by
  unfold validateInputPrefix
  split
  · simp_all
  · split
    · simp_all
    · split
      · simp_all
      · simp_all

/-- Only a prefix of a network may have another address than that of its subnet. -/
theorem getIPSubnet_eq_of_accepted (h : validateInputPrefix P c pi = "")
    (hk : c.spec.kind ≠ .network) : pi.getIPSubnet = pi := by
  obtain ⟨-, hnet, -⟩ := validateInputPrefix_eq_empty.mp h
  by_contra hne
  exact hnet ⟨hk, fun htext => hne (P.txt.prefixString_injective htext)⟩

theorem lookupPrefix_of_accepted (h : validateInputPrefix P c pi = "") :
    lookupPrefix c pi = mainPrefix c pi := by
  unfold lookupPrefix mainPrefix
  split
  · rfl
  next hk => exact (getIPSubnet_eq_of_accepted h hk).symm

/-- An address of a network is accepted when its network is there and the address is its own. -/
theorem validateExisting_address {rib : Rib} {l : Labels} (hk : c.spec.kind = .network)
    (hc : c.isCreatePrefix = false) (hl : rib[pi.getIPAddressPrefix]? = some l) :
    validateExisting c rib pi route = "" ↔
      routeKind route = PrefixKind.network.toString ∧ ownerKey l = c.owner := by
  unfold validateExisting
  rw [if_neg (by rw [hc]; exact Bool.false_ne_true), if_pos hk, getRoute, hl]
  split
  next hkind => simp_all
  next hkind =>
    dsimp only [Option.map_some]
    rw [validatePrefixOwner_eq_empty]
    exact ⟨fun h => ⟨not_not.mp hkind, h⟩, fun h => h.2⟩

theorem validateExisting_other {rib : Rib}
    (h : ¬(c.spec.kind = .network ∧ c.isCreatePrefix = false)) :
    validateExisting c rib pi route = "" ↔ ownerKey route.labels = c.owner := by
  unfold validateExisting
  split
  · exact validatePrefixOwner_eq_empty
  next hc =>
    rw [if_neg fun hk => h ⟨hk, Bool.not_eq_true _ ▸ hc⟩]
    exact validatePrefixOwner_eq_empty

end
end K8sIpam.Ipam
