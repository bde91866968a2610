import K8sIpam.Ipam.Reference
import K8sIpam.Ipam.Update
import K8sIpam.Ipam.Writes

/-! # The gateway of a claim

A gateway is found by the name of a subnet in the labels of a route. Every route that requests leave
in the table has the name of a subnet around it, and a name stands for one subnet. -/

namespace K8sIpam.Ipam
open Std Atomic Prog Net

variable {P : Platform} {c c' : IPClaim} {s' : RibState}

/-- A gateway in the status is the address of a route that is labelled as a gateway, in the subnet
of the prefix in the status. -/
def GatewayInSubnet (P : Platform) (c' : IPClaim) (rib : Rib) : Prop :=
  ∀ g, c'.status.gateway = some g → g ≠ "" → ∃ t pi r, c'.status.pfx = some t ∧
    P.txt.parsePrefix t = .ok pi ∧ rib.Has r ∧ r.labels[nephioGatewayKey]? = some "true" ∧
    g = P.txt.addrString r.pfx.addr ∧ r.pfx.addr ∈ pi.masked.addrs

/-- Every route has the name of a subnet around it. -/
def SubnetNamed (P : Platform) (rib : Rib) : Prop :=
  ∀ r, rib.Has r → ∃ q : Prefix, q.Contains r.pfx ∧
    r.labels[nephioSubnetKey]? = some (q.getSubnetName P.txt)

theorem subnetNamed_ribAfter (rs : List Request) : SubnetNamed P (ribAfter P rs).rib := by
  intro r hr
  obtain ⟨c, -, hw⟩ := ribAfter_written hr
  exact hw.subnet

theorem gatewaySelector_matches {name : String} {sel : Selector} {l : Labels}
    (hsel : IPClaim.getGatewayLabelSelector P.refuses name = .ok sel) (hm : sel.Matches l = true) :
    l[nephioGatewayKey]? = some "true" ∧ l[nephioSubnetKey]? = some name := by
  rw [newSelector_eq_ok hsel, Selector.matches_iff] at hm
  have hne : nephioSubnetKey ≠ nephioGatewayKey := by decide
  constructor
  · refine hm _ _ ?_
    rw [ExtTreeMap.getElem?_insert, if_neg (by simpa using hne)]
    simp
  · exact hm _ _ (by simp)

/-- The gateway that is found for a prefix is in its subnet. -/
theorem gatewayAt_in_subnet {rib : Rib} {t : String} (htxt : P.txt.Dashless)
    (hrib : SubnetNamed P rib) (hg : gatewayAt P rib t ≠ "") :
    ∃ pi r, P.txt.parsePrefix t = .ok pi ∧ rib.Has r ∧
      r.labels[nephioGatewayKey]? = some "true" ∧
      gatewayAt P rib t = P.txt.addrString r.pfx.addr ∧ r.pfx.addr ∈ pi.masked.addrs := by
  unfold gatewayAt at hg ⊢
  cases hpi : P.txt.parsePrefix t with
  | error msg => simp [hpi] at hg
  | ok pi =>
    rw [hpi] at hg
    dsimp only at hg ⊢
    cases hsel : IPClaim.getGatewayLabelSelector P.refuses (pi.getSubnetName P.txt) with
    | error e => simp [hsel] at hg
    | ok sel =>
      rw [hsel] at hg
      dsimp only at hg ⊢
      cases hroutes : P.nipam.getByLabel rib sel with
      | nil => simp [hroutes] at hg
      | cons r rs =>
        obtain ⟨hr, hm⟩ := P.nipam.mem_getByLabel.mp (hroutes ▸ List.mem_cons_self (a := r))
        obtain ⟨hgateway, hname⟩ := gatewaySelector_matches hsel hm
        obtain ⟨q, hq, hname'⟩ := hrib r hr
        have hmasked : q.masked = pi.masked := by
          refine Prefix.masked_eq_of_getSubnetName_eq htxt ?_
          exact Option.some.inj (hname'.symm.trans hname)
        refine ⟨pi, r, rfl, hr, hgateway, rfl, ?_⟩
        rw [← hmasked]
        exact (q.masked_contains.trans hq).subset r.pfx.addr_mem

/-- In every run of claims and deletes from an empty table: a claim of a network that succeeds
reports no gateway, or one in its subnet that the table has. A claim that creates its network must
come without a gateway in its status. -/
theorem reported_gateway_in_subnet (htxt : P.txt.Dashless) (rs : List Request)
    (hk : c.spec.kind = .network) (hecho : c.isCreatePrefix = true → c.status.gateway.getD "" = "")
    (h : (claim P c).run (handler P.nipam) (ribAfter P rs) = (.ok c', s')) :
    GatewayInSubnet P c' s'.rib := by
  have hnamed : SubnetNamed P s'.rib := by
    have hafter : s' = ribAfter P (rs ++ [.claim c]) := by
      rw [ribAfter, Run.run_append]
      exact (congrArg Prod.snd h).symm
    rw [hafter]
    exact subnetNamed_ribAfter _
  obtain ⟨t, rfl⟩ := claim_reported h
  intro g hg hne
  unfold reported at hg
  split at hg
  next hnet =>
    cases hg
    obtain ⟨pi, r, hpi, hr, hlabel, haddr, hmem⟩ := gatewayAt_in_subnet htxt hnamed hne
    exact ⟨t, pi, r, reported_pfx P _ _ _, hpi, hr, hlabel, haddr, hmem⟩
  next hnet =>
    -- the status of the request is sent back
    have hcreate : c.isCreatePrefix = true := by
      by_contra hno
      exact hnet ⟨hk, Bool.eq_false_iff.mpr hno⟩
    have hg' : c.status.gateway = some g := hg
    have hempty := hecho hcreate
    rw [hg'] at hempty
    exact absurd hempty hne

/-- A network whose address is the gateway of its subnet. -/
def gatewayNetwork (name : String) : IPClaim :=
  { networkClaim name with
    spec.labels := (networkClaim name).spec.labels.insert nephioGatewayKey "true" }

/-- A claim of an address of a network. -/
def hostClaim (name : String) : IPClaim :=
  sampleClaim ipClaimGVK name .network none none none (ofKind .network)

/-- The network of `gatewayNetwork`, and no host in it. -/
def networkRib : RibState :=
  ribAfter .reference [.claim sampleAggregate, .claim (gatewayNetwork "n")]

/-- A host claims an address in a table with a network and its gateway. -/
def hostRun : Except Failure IPClaim × RibState :=
  (claim .reference (hostClaim "a")).run (handler Nipam.reference) networkRib

/-- The gateway of the network is reported to the host. -/
theorem reported_gateway_of_network :
    hostRun.1 = .ok (((hostClaim "a").setPrefix "10.0.0.254/24").setGateway "10.0.0.1") ∧
    GatewayInSubnet .reference (((hostClaim "a").setPrefix "10.0.0.254/24").setGateway "10.0.0.1")
      hostRun.2.rib := by
  have hok : hostRun.1 = .ok (((hostClaim "a").setPrefix "10.0.0.254/24").setGateway "10.0.0.1") := by
    decide +kernel
  have hrun : hostRun = (.ok (((hostClaim "a").setPrefix "10.0.0.254/24").setGateway "10.0.0.1"),
    hostRun.2) := Prod.ext hok rfl
  exact ⟨hok, reported_gateway_in_subnet netText_dashless
    [.claim sampleAggregate, .claim (gatewayNetwork "n")] rfl (by decide) hrun⟩

/-- A created network comes with a gateway in its status. -/
def echoRun : Except Failure IPClaim × RibState :=
  (claim .reference ((networkClaim "a").setGateway "192.168.0.1")).run (handler Nipam.reference)
    (ribAfter .reference [.claim sampleAggregate])

/-- It gets the gateway back. -/
theorem reported_gateway_echoed :
    echoRun.1 = .ok (((networkClaim "a").setGateway "192.168.0.1").setPrefix "10.0.0.1/24") ∧
      ¬GatewayInSubnet .reference
        (((networkClaim "a").setGateway "192.168.0.1").setPrefix "10.0.0.1/24") echoRun.2.rib := by
  have hall : echoRun.1 = .ok (((networkClaim "a").setGateway "192.168.0.1").setPrefix "10.0.0.1/24") ∧
      ∀ r ∈ Reference.routes echoRun.2.rib, "192.168.0.1" ≠ netText.addrString r.pfx.addr := by
    decide +kernel
  constructor
  · exact hall.1
  · intro h
    obtain ⟨-, -, r, -, -, hr, -, haddr, -⟩ := h "192.168.0.1" rfl (by decide)
    exact hall.2 r (Reference.mem_routes.mpr hr) haddr

end K8sIpam.Ipam
