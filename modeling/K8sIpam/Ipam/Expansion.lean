import K8sIpam.Ipam.Reference
import K8sIpam.Ipam.Update

/-! # Claims with a prefix own what they expand to

The validation looks at the subnet or at one address, but a created network adds its address and
the ends of the subnet as well. A claim owns them all, and leaves the routes of others as they
are, when none of them is another owner's and an update finds all of them there. The routes that a
created network expands to are these and no others, and each is there once. -/

namespace K8sIpam.Ipam
open Std Atomic Prog Net

variable {P : Platform} {s s' : RibState} {rib : Rib} {c c' : IPClaim} {pi : Prefix}

/-- The prefixes that the claim expands to are free or its own; if its route is there, they all
are, and the update of the routes of its owner deletes nothing. -/
structure Expandable (P : Platform) (rib : Rib) (c : IPClaim) (pi : Prefix) : Prop where
  own : ∀ r ∈ getMutatedRoutesWithLabels P.txt c pi, ∀ l ∈ rib[r.pfx]?, ownerKey l = c.owner
  complete : rib[lookupPrefix c pi]?.isSome = true →
    ∀ r ∈ getMutatedRoutesWithLabels P.txt c pi, rib[r.pfx]?.isSome = true
  keeps : rib[lookupPrefix c pi]?.isSome = true →
    ∀ sel ∈ (c.spec.getOwnerSelector P.refuses).toOption,
      KeepsChildren P rib c (P.nipam.getByLabel rib sel)

instance (P : Platform) (rib : Rib) (c : IPClaim) (pi : Prefix) : Decidable (Expandable P rib c pi) :=
  decidable_of_iff (_ ∧ _ ∧ _)
    ⟨fun h => ⟨h.1, h.2.1, h.2.2⟩, fun h => ⟨h.own, h.complete, h.keeps⟩⟩

/-- Adding routes changes none that is there. -/
theorem addAll_frame {rs : List Route} {owner : List String}
    (hrs : ∀ r ∈ rs, ownerKey r.labels = owner) :
    Owned.Frame ownerKey owner (fun p : Prefix => rib[p]?) (fun p => (addAll rib rs)[p]?) := by
  intro p l hl
  dsimp only
  rw [addAll_getElem?]
  cases hp : rib[p]? with
  | some l' => rfl
  | none =>
    constructor
    · intro h
      cases h
    · intro h
      obtain ⟨r, hr, rfl⟩ := Option.map_eq_some_iff.mp h
      exact absurd (hrs r (List.mem_of_find?_eq_some hr)) hl

/-- The routes are there after they have been added, under the labels of the owner if those that
were there had them. -/
theorem addAll_held_all {rs : List Route} {owner : List String}
    (hrs : ∀ r ∈ rs, ownerKey r.labels = owner)
    (hown : ∀ r ∈ rs, ∀ l ∈ rib[r.pfx]?, ownerKey l = owner) :
    ∀ r ∈ rs, ∃ l, (addAll rib rs)[r.pfx]? = some l ∧ ownerKey l = owner := by
  intro r hr
  rw [addAll_getElem?]
  cases hp : rib[r.pfx]? with
  | some l => exact ⟨l, rfl, hown r hr l hp⟩
  | none =>
    have hfind : (rs.find? fun r' => r'.pfx = r.pfx).isSome = true :=
      List.find?_isSome.mpr ⟨r, hr, by simp⟩
    obtain ⟨r', hr'⟩ := Option.isSome_iff_exists.mp hfind
    exact ⟨r'.labels, by rw [hr']; rfl, hrs r' (List.mem_of_find?_eq_some hr')⟩

/-- A claim with a prefix that succeeds owns every prefix it expands to, and changes no route of
another owner, in every table in which the prefixes are free or its own. -/
theorem static_claim_owns_expansion (P : Platform) (s s' : RibState) (c c' : IPClaim) (pi : Prefix)
    (initializing : Bool)
    (hrun : (applyPrefix P initializing c pi).run (handler P.nipam) s = (.ok c', s'))
    (hexp : Expandable P s.rib c pi) :
    (∀ r ∈ getMutatedRoutesWithLabels P.txt c pi,
      ∃ l, s'.rib[r.pfx]? = some l ∧ ownerKey l = c.owner) ∧
    Owned.Frame ownerKey c.owner (fun p : Prefix => s.rib[p]?) (fun p => s'.rib[p]?) := by
  have howner : ∀ r ∈ getMutatedRoutesWithLabels P.txt c pi, ownerKey r.labels = c.owner :=
    fun r hr => ownerKey_of_mem_mutated hr
  rcases applyPrefix_ok hrun with ⟨-, rfl, -⟩ | ⟨hmain, sel, hsel, -, -, hall, -⟩
  · exact ⟨addAll_held_all howner hexp.own, addAll_frame howner⟩
  · have hrel : Relabelled c.owner s.rib s'.rib := by
      refine hall.relabelled .refl (fun o ho => ?_) (hexp.keeps hmain sel (by rw [hsel]; rfl))
      obtain ⟨ho, hm⟩ := P.nipam.mem_getByLabel.mp ho
      exact ⟨ho, ClaimLabels.ownerKey_of_matches hsel hm⟩
    refine ⟨fun r hr => hrel.held ?_, hrel.frame⟩
    obtain ⟨l, hl⟩ := Option.isSome_iff_exists.mp (hexp.complete hmain r hr)
    exact ⟨l, hl, hexp.own r hr l hl⟩

/-- The network is created in an aggregate that has no other routes. -/
theorem static_claim_owns_new_network :
    (∀ r ∈ getMutatedRoutesWithLabels netText (networkClaim "a") (samplePrefix 1 24),
      ∃ l, ((applyPrefix .reference false (networkClaim "a") (samplePrefix 1 24)).run
        (handler .reference) (ribAfter .reference [.claim sampleAggregate])).2.rib[r.pfx]? =
          some l ∧ ownerKey l = (networkClaim "a").owner) ∧
    Owned.Frame ownerKey (networkClaim "a").owner
      (fun p : Prefix => (ribAfter .reference [.claim sampleAggregate]).rib[p]?)
      (fun p => ((applyPrefix .reference false (networkClaim "a") (samplePrefix 1 24)).run
        (handler .reference) (ribAfter .reference [.claim sampleAggregate])).2.rib[p]?) :=
  static_claim_owns_expansion .reference (ribAfter .reference [.claim sampleAggregate]) _
    (networkClaim "a") ((networkClaim "a").setPrefix "10.0.0.1/24") (samplePrefix 1 24) false
    (Prod.ext (by decide +kernel) rfl) (by decide +kernel)

/-- The table after the network instance has its aggregate and `b` has an address in it. -/
def sharedRib : RibState := ribAfter .reference [.claim sampleAggregate, .claim (addressClaim "b")]

/-- The claim of `a` for the network is accepted and succeeds, but the first address that it
expands to stays with `b`. -/
theorem expansion_held_by_other :
    ((validatePrefix .reference (networkClaim "a") (samplePrefix 1 24)).run (handler .reference)
      sharedRib).1 = .ok "" ∧
    ((applyPrefix .reference false (networkClaim "a") (samplePrefix 1 24)).run (handler .reference)
      sharedRib).1 = .ok ((networkClaim "a").setPrefix "10.0.0.1/24") ∧
    samplePrefix 0 32 ∈
      (getMutatedRoutesWithLabels netText (networkClaim "a") (samplePrefix 1 24)).map Route.pfx ∧
    (((applyPrefix .reference false (networkClaim "a") (samplePrefix 1 24)).run
      (handler .reference) sharedRib).2.rib[samplePrefix 0 32]?).map ownerKey =
        some (addressClaim "b").owner ∧
    (addressClaim "b").owner ≠ (networkClaim "a").owner := by
  exact ⟨by decide +kernel, by decide +kernel, by decide +kernel, by decide +kernel, by decide⟩

/-! ## The routes of a created network -/

section
variable {txt : NetText} {r : Route} {l : Labels}

/-- A network of more than two addresses: the subnet, the address, and the ends that are not the
address. -/
theorem networkRoutes_pfx (hp2p : isPointToPoint pi = false) (hbits : pi.bits < pi.addr.bitLen) :
    (networkRoutes pi l).map Route.pfx = pi.masked :: .single pi.addr ::
      ([pi.firstAddr, pi.lastAddr].filter (· ≠ pi.addr)).map .single := by
  have hends := Prefix.firstAddr_ne_lastAddr hbits
  unfold networkRoutes
  rw [hp2p, if_neg Bool.false_ne_true]
  by_cases hfirst : pi.firstAddr = pi.addr
  · have hlast : pi.lastAddr ≠ pi.addr := fun h => hends (hfirst.trans h.symm)
    simp [Prefix.isNorLastNorFirst, Prefix.isFirst, hfirst, hlast, mutateNetworkNetRoute,
      mutateNetworIPAddressRoute, mutateNetworLastAddressRoute, Prefix.getIPSubnet,
      Prefix.getIPAddressPrefix, Prefix.getLastIPPrefix]
  · by_cases hlast : pi.lastAddr = pi.addr
    · simp [Prefix.isNorLastNorFirst, Prefix.isFirst, Prefix.isLast, hfirst, hlast,
        mutateNetworkNetRoute, mutateNetworIPAddressRoute, mutateNetworFirstAddressRoute,
        Prefix.getIPSubnet, Prefix.getIPAddressPrefix, Prefix.getFirstIPPrefix]
    · simp [Prefix.isNorLastNorFirst, Prefix.isFirst, Prefix.isLast, hfirst, hlast,
        mutateNetworkNetRoute, mutateNetworIPAddressRoute, mutateNetworFirstAddressRoute,
        mutateNetworLastAddressRoute, Prefix.getIPSubnet, Prefix.getIPAddressPrefix,
        Prefix.getFirstIPPrefix, Prefix.getLastIPPrefix]

theorem networkRoutes_pfx_pointToPoint (hp2p : isPointToPoint pi = true) :
    (networkRoutes pi l).map Route.pfx = [pi.masked] := by
  rw [networkRoutes, if_pos hp2p]
  rfl

/-- The subnet is no address. -/
theorem masked_ne_single (hbits : pi.bits < pi.addr.bitLen) {a : Addr}
    (ha : a.family = pi.family) : pi.masked ≠ .single a := by
  intro h
  have hlen : pi.masked.bits = a.bitLen := congrArg Prefix.bits h
  have hsame : a.bitLen = pi.addr.bitLen := congrArg Family.bitLen ha
  rw [Prefix.masked_bits] at hlen
  omega

theorem networkRoutes_nodup (hbits : pi.bits < pi.addr.bitLen) :
    ((networkRoutes pi l).map Route.pfx).Nodup := by
  cases hp2p : isPointToPoint pi with
  | true =>
    rw [networkRoutes_pfx_pointToPoint hp2p]
    exact List.nodup_singleton _
  | false =>
    rw [networkRoutes_pfx hp2p hbits]
    have hends : [pi.firstAddr, pi.lastAddr].Nodup := by simp [Prefix.firstAddr_ne_lastAddr hbits]
    have hfamily : ∀ a ∈ [pi.firstAddr, pi.lastAddr], a.family = pi.family := by
      intro a ha
      simp only [List.mem_cons, List.not_mem_nil, or_false] at ha
      rcases ha with rfl | rfl <;> rfl
    refine List.nodup_cons.mpr ⟨?_, List.nodup_cons.mpr ⟨?_, ?_⟩⟩
    · intro hmem
      rcases List.mem_cons.mp hmem with h | hmem
      · exact masked_ne_single hbits rfl h
      · obtain ⟨a, ha, h⟩ := List.mem_map.mp hmem
        exact masked_ne_single hbits (hfamily a (List.mem_of_mem_filter ha)) h.symm
    · intro hmem
      obtain ⟨a, ha, h⟩ := List.mem_map.mp hmem
      obtain rfl : a = pi.addr := Prefix.single_injective h
      simp at ha
    · exact (hends.filter _).map Prefix.single_injective

theorem mem_networkRoutes_pfx (hp2p : isPointToPoint pi = false)
    (hbits : pi.bits < pi.addr.bitLen) (q : Prefix) :
    q ∈ (networkRoutes pi l).map Route.pfx ↔ q = pi.masked ∨ q = .single pi.addr ∨
      q = .single pi.firstAddr ∨ q = .single pi.lastAddr := by
  rw [networkRoutes_pfx hp2p hbits]
  by_cases hfirst : pi.firstAddr = pi.addr
  · have hlast : pi.lastAddr ≠ pi.addr :=
      fun h => Prefix.firstAddr_ne_lastAddr hbits (hfirst.trans h.symm)
    simp [hfirst, hlast]
  · by_cases hlast : pi.lastAddr = pi.addr
    · simp only [ne_eq, hfirst, hlast, not_false_eq_true, not_true_eq_false, decide_true,
        decide_false, List.filter_cons_of_pos, List.filter_cons_of_neg, Bool.false_eq_true,
        List.filter_nil, List.map_cons, List.map_nil, List.mem_cons, List.not_mem_nil, or_false]
      tauto
    · simp [hfirst, hlast]

/-- The name of a route of the network is in the map of the subnet. -/
theorem isPrefixPresentInSubnetMap_of_mem (h : r ∈ networkRoutes pi l) :
    pi.isPrefixPresentInSubnetMap txt (txt.prefixString r.pfx) = true := by
  unfold Prefix.isPrefixPresentInSubnetMap
  rcases mem_networkRoutes h with rfl | ⟨-, rfl | rfl | rfl⟩
  · simp [mutateNetworkNetRoute]
  · simp [mutateNetworIPAddressRoute]
  · simp [mutateNetworFirstAddressRoute]
  · simp [mutateNetworLastAddressRoute]

/-- Only the route of the address has the gateway label. -/
theorem gateway_of_mem_networkRoutes (h : r ∈ networkRoutes pi l)
    (hgw : r.labels[nephioGatewayKey]?.isSome = true) : r.pfx = .single pi.addr := by
  rcases mem_networkRoutes h with rfl | ⟨-, rfl | rfl | rfl⟩
  · simp [mutateNetworkNetRoute] at hgw
  · rfl
  · simp [mutateNetworFirstAddressRoute] at hgw
  · simp [mutateNetworLastAddressRoute] at hgw

/-- A label that is not the gateway label is the one that the claim writes. -/
theorem label_of_mem_networkRoutes (h : r ∈ networkRoutes pi l) {k : String}
    (hk : k ≠ nephioGatewayKey) : r.labels[k]? = l[k]? := by
  rcases labels_of_mem_networkRoutes h with h | h
  · rw [h]
  · rw [h, ExtTreeMap.getElem?_erase, if_neg (by simpa using hk.symm)]

theorem mutatedLabels_family :
    (mutatedLabels txt c pi)[nephioAddressFamilyKey]? = some pi.getAddressFamily := by
  have hsub : nephioSubnetKey ≠ nephioAddressFamilyKey := by decide
  simp only [mutatedLabels, ExtTreeMap.getElem?_insert, LawfulEqCmp.compare_eq_iff_eq, hsub,
    if_false, if_true]

/-- The keys that the backend overwrites. -/
def systemKeys : List String := [nephioPrefixKindKey, nephioAddressFamilyKey, nephioSubnetKey]

theorem mutatedLabels_user {k : String} (hk : k ∉ systemKeys) :
    (mutatedLabels txt c pi)[k]? = c.spec.getUserDefinedLabels[k]? := by
  simp only [systemKeys, List.mem_cons, List.not_mem_nil, or_false, not_or] at hk
  obtain ⟨hkind, hfam, hsub⟩ := hk
  simp only [mutatedLabels, ExtTreeMap.getElem?_insert, LawfulEqCmp.compare_eq_iff_eq, Ne.symm hkind,
    Ne.symm hfam, Ne.symm hsub, if_false]

/-- What a created network expands to, stated for the list of its routes. -/
structure ExactExpansion (txt : NetText) (c : IPClaim) (pi : Prefix) (rs : List Route) : Prop where
  /-- A prefix of two addresses has the subnet only. -/
  twoAddresses : pi.family = .ipv4 ∧ pi.bits = 31 ∨ pi.family = .ipv6 ∧ pi.bits = 127 →
    rs.map Route.pfx = [pi.masked]
  nodup : (rs.map Route.pfx).Nodup
  prefixes : ¬(pi.family = .ipv4 ∧ pi.bits = 31 ∨ pi.family = .ipv6 ∧ pi.bits = 127) →
    ∀ q, q ∈ rs.map Route.pfx ↔ q = pi.masked ∨ q = .single pi.addr ∨
      q = .single pi.firstAddr ∨ q = .single pi.lastAddr
  inside : ∀ r ∈ rs, pi.masked.Contains r.pfx
  present : ∀ r ∈ rs, pi.isPrefixPresentInSubnetMap txt (txt.prefixString r.pfx) = true
  user : ∀ r ∈ rs, ∀ k, k ≠ nephioGatewayKey → k ∉ systemKeys →
    r.labels[k]? = c.spec.getUserDefinedLabels[k]?
  kind : ∀ r ∈ rs, r.labels[nephioPrefixKindKey]? = some PrefixKind.network.toString
  family : ∀ r ∈ rs, r.labels[nephioAddressFamilyKey]? = some pi.getAddressFamily
  subnet : ∀ r ∈ rs, r.labels[nephioSubnetKey]? = some (pi.getSubnetName txt)
  gateway : ∀ r ∈ rs, r.labels[nephioGatewayKey]?.isSome = true → r.pfx = .single pi.addr

theorem isPointToPoint_eq_true_iff : isPointToPoint pi = true ↔
    pi.family = .ipv4 ∧ pi.bits = 31 ∨ pi.family = .ipv6 ∧ pi.bits = 127 := by
  unfold isPointToPoint
  cases pi.family <;> simp

/-- The expansion of a created network is exact, for every prefix that is no address. -/
theorem network_expansion_exact (txt : NetText) (c : IPClaim) (pi : Prefix)
    (hkind : c.spec.kind = .network) (hcreate : c.isCreatePrefix = true)
    (hbits : pi.bits < pi.addr.bitLen) :
    ExactExpansion txt c pi (getMutatedRoutesWithLabels txt c pi) := by
  have hroutes : getMutatedRoutesWithLabels txt c pi = networkRoutes pi (mutatedLabels txt c pi) := by
    simp [getMutatedRoutesWithLabels, hkind, hcreate]
  rw [hroutes]
  exact
    { twoAddresses := fun h => networkRoutes_pfx_pointToPoint (isPointToPoint_eq_true_iff.mpr h)
      nodup := networkRoutes_nodup hbits
      prefixes := fun h => mem_networkRoutes_pfx
        (by rwa [← isPointToPoint_eq_true_iff, Bool.not_eq_true] at h) hbits
      inside := fun r hr => pi.masked_contains.trans (contains_of_mem_networkRoutes hr)
      present := fun r hr => isPrefixPresentInSubnetMap_of_mem hr
      user := fun r hr k hgw hk =>
        (label_of_mem_networkRoutes hr hgw).trans (mutatedLabels_user hk)
      kind := fun r hr => by
        rw [label_of_mem_networkRoutes hr (by decide), mutatedLabels_kind, hkind]
      family := fun r hr => by
        rw [label_of_mem_networkRoutes hr (by decide), mutatedLabels_family]
      subnet := fun r hr => by
        rw [label_of_mem_networkRoutes hr (by decide), mutatedLabels_subnet]
      gateway := fun r hr => gateway_of_mem_networkRoutes hr }

theorem network_expansion_of_sample :
    ExactExpansion netText (networkClaim "a") (samplePrefix 1 24)
      (getMutatedRoutesWithLabels netText (networkClaim "a") (samplePrefix 1 24)) :=
  network_expansion_exact netText (networkClaim "a") (samplePrefix 1 24) rfl rfl (by decide)

end
end K8sIpam.Ipam
