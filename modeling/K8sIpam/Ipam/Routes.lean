import K8sIpam.Ipam.Backend

/-! # The routes of a claim

The routes that a claim expands to lie inside its prefix and carry its owner labels; the first
of them is the one that the claim is about. -/

namespace K8sIpam.Ipam
open Std Atomic Prog Net

section
variable {txt : NetText} {c : IPClaim} {pi : Prefix} {r : Route} {l : Labels}

/-- The labels have the owner labels of the claim, those that are missing included. -/
def CarriesOwner (c : IPClaim) (l : Labels) : Prop := ∀ k ∈ ownerKeys, l[k]? = c.spec.labels[k]?

namespace CarriesOwner

theorem insert (h : CarriesOwner c l) {k v : String} (hk : k ∉ ownerKeys) :
    CarriesOwner c (l.insert k v) := by
  intro a ha
  rw [ExtTreeMap.getElem?_insert, if_neg, h a ha]
  rw [LawfulEqCmp.compare_eq_iff_eq]
  exact fun hka => hk (hka ▸ ha)

theorem erase (h : CarriesOwner c l) {k : String} (hk : k ∉ ownerKeys) :
    CarriesOwner c (l.erase k) := by
  intro a ha
  rw [ExtTreeMap.getElem?_erase, if_neg, h a ha]
  rw [LawfulEqCmp.compare_eq_iff_eq]
  exact fun hka => hk (hka ▸ ha)

theorem ownerKey_eq (h : CarriesOwner c l) : ownerKey l = c.owner :=
  ownerKey_eq_iff.mpr fun k hk => congrArg (Option.getD · "") (h k hk)

end CarriesOwner

theorem mutatedLabels_carriesOwner : CarriesOwner c (mutatedLabels txt c pi) :=
  .insert (.insert (.insert (fun _ _ => rfl) (by decide)) (by decide)) (by decide)

theorem mutatedLabels_kind :
    (mutatedLabels txt c pi)[nephioPrefixKindKey]? = some c.spec.kind.toString := by
  have hfam : nephioAddressFamilyKey ≠ nephioPrefixKindKey := by decide
  have hsub : nephioSubnetKey ≠ nephioPrefixKindKey := by decide
  simp only [mutatedLabels, ExtTreeMap.getElem?_insert, LawfulEqCmp.compare_eq_iff_eq, hfam, hsub,
    if_false, if_true]

theorem mutatedLabels_subnet :
    (mutatedLabels txt c pi)[nephioSubnetKey]? = some (pi.getSubnetName txt) := by
  simp [mutatedLabels]

theorem mem_networkRoutes (h : r ∈ networkRoutes pi l) :
    r = mutateNetworkNetRoute pi l ∨ isPointToPoint pi = false ∧
      (r = mutateNetworIPAddressRoute pi l ∨ r = mutateNetworFirstAddressRoute pi l ∨
        r = mutateNetworLastAddressRoute pi l) := by
  unfold networkRoutes at h
  split at h
  · exact .inl (List.mem_singleton.mp h)
  next hp =>
    rw [Bool.not_eq_true] at hp
    split at h
    · simp only [List.mem_cons, List.not_mem_nil, or_false] at h
      tauto
    · split at h
      · simp only [List.mem_cons, List.not_mem_nil, or_false] at h
        tauto
      · split at h
        · simp only [List.mem_cons, List.not_mem_nil, or_false] at h
          tauto
        · cases h

theorem isPointToPoint_iff : isPointToPoint pi = true ↔ pi.bits + 1 = pi.addr.bitLen := by
  unfold isPointToPoint Addr.bitLen
  cases hf : pi.addr.family <;> simp [Prefix.family, hf, Family.bitLen]

/-- The first and the last address of a network have routes. -/
theorem ends_mem_networkRoutes (hp2p : isPointToPoint pi = false) (l : Labels) :
    (∃ r ∈ networkRoutes pi l, r.pfx = .single pi.firstAddr) ∧
      ∃ r ∈ networkRoutes pi l, r.pfx = .single pi.lastAddr := by
  unfold networkRoutes
  rw [hp2p, if_neg Bool.false_ne_true]
  have hfirst : (mutateNetworFirstAddressRoute pi l).pfx = .single pi.firstAddr := rfl
  have hlast : (mutateNetworLastAddressRoute pi l).pfx = .single pi.lastAddr := rfl
  split
  · exact ⟨⟨_, by simp, hfirst⟩, ⟨_, by simp, hlast⟩⟩
  next hnor =>
    split
    next h =>
      have heq : pi.firstAddr = pi.addr := by simpa [Prefix.isFirst] using h
      refine ⟨⟨mutateNetworIPAddressRoute pi l, by simp, ?_⟩, ⟨_, by simp, hlast⟩⟩
      rw [heq]
      rfl
    next hnf =>
      split
      next h =>
        have heq : pi.lastAddr = pi.addr := by simpa [Prefix.isLast] using h
        refine ⟨⟨_, by simp, hfirst⟩, ⟨mutateNetworIPAddressRoute pi l, by simp, ?_⟩⟩
        rw [heq]
        rfl
      next hnl => simp [Prefix.isNorLastNorFirst, hnf, hnl] at hnor

theorem contains_of_mem_networkRoutes (h : r ∈ networkRoutes pi l) : pi.Contains r.pfx := by
  rcases mem_networkRoutes h with rfl | ⟨-, rfl | rfl | rfl⟩
  · exact pi.contains_masked
  · exact Prefix.contains_single pi.addr_mem
  · exact Prefix.contains_single pi.firstAddr_mem
  · exact Prefix.contains_single pi.lastAddr_mem

/-- The subnet comes first; an address is the first, the last or neither of them. -/
theorem networkRoutes_eq_cons (pi : Prefix) (l : Labels) :
    ∃ rs, networkRoutes pi l = mutateNetworkNetRoute pi l :: rs := by
  unfold networkRoutes
  split
  · exact ⟨_, rfl⟩
  · split
    · exact ⟨_, rfl⟩
    · split
      · exact ⟨_, rfl⟩
      · split
        · exact ⟨_, rfl⟩
        · next h₁ h₂ h₃ => simp [Prefix.isNorLastNorFirst, h₂, h₃] at h₁

theorem mainPrefix_eq_subnet (c : IPClaim) (pi : Prefix)
    (h : ¬(c.spec.kind = .network ∧ c.isCreatePrefix = false)) :
    mainPrefix c pi = pi.getIPSubnet := by
  unfold mainPrefix
  split
  next hk => rw [if_pos (by simpa [hk] using h)]
  · rfl

theorem contains_mainPrefix (c : IPClaim) (pi : Prefix) : pi.Contains (mainPrefix c pi) := by
  unfold mainPrefix
  split
  · split
    · exact pi.contains_masked
    · exact Prefix.contains_single pi.addr_mem
  · exact pi.contains_masked

theorem contains_of_mem_mutated (h : r ∈ getMutatedRoutesWithLabels txt c pi) :
    pi.Contains r.pfx := by
  unfold getMutatedRoutesWithLabels at h
  dsimp only at h
  split at h
  · split at h
    · exact contains_of_mem_networkRoutes h
    · rw [List.mem_singleton.mp h]
      exact Prefix.contains_single pi.addr_mem
  · rw [List.mem_singleton.mp h]
    exact pi.contains_masked

/-- The labels of the routes are those of the claim, without the gateway label or not. -/
theorem labels_of_mem_networkRoutes (h : r ∈ networkRoutes pi l) :
    r.labels = l ∨ r.labels = l.erase nephioGatewayKey := by
  rcases mem_networkRoutes h with rfl | ⟨-, rfl | rfl | rfl⟩
  · exact .inr rfl
  · exact .inl rfl
  · exact .inr rfl
  · exact .inr rfl

theorem labels_of_mem_mutated (h : r ∈ getMutatedRoutesWithLabels txt c pi) :
    r.labels = mutatedLabels txt c pi ∨
      r.labels = (mutatedLabels txt c pi).erase nephioGatewayKey := by
  unfold getMutatedRoutesWithLabels at h
  dsimp only at h
  split at h
  · split at h
    · exact labels_of_mem_networkRoutes h
    · exact .inl (List.mem_singleton.mp h ▸ rfl)
  · exact .inl (List.mem_singleton.mp h ▸ rfl)

theorem carriesOwner_of_mem_mutated (h : r ∈ getMutatedRoutesWithLabels txt c pi) :
    CarriesOwner c r.labels := by
  rcases labels_of_mem_mutated h with h | h
  · exact h ▸ mutatedLabels_carriesOwner
  · exact h ▸ mutatedLabels_carriesOwner.erase (by decide)

theorem ownerKey_of_mem_mutated (h : r ∈ getMutatedRoutesWithLabels txt c pi) :
    ownerKey r.labels = c.owner :=
  (carriesOwner_of_mem_mutated h).ownerKey_eq

theorem mutated_eq_cons (txt : NetText) (c : IPClaim) (pi : Prefix) :
    ∃ l rs, getMutatedRoutesWithLabels txt c pi = ⟨mainPrefix c pi, l⟩ :: rs := by
  unfold getMutatedRoutesWithLabels mainPrefix
  dsimp only
  split
  · split
    · obtain ⟨rs, hrs⟩ := networkRoutes_eq_cons pi (mutatedLabels txt c pi)
      exact ⟨_, rs, hrs⟩
    · exact ⟨_, _, rfl⟩
  · exact ⟨_, _, rfl⟩

/-- Only a created network has several routes. -/
theorem mutated_singleton (txt : NetText) (pi : Prefix)
    (h : ¬(c.isCreatePrefix = true ∧ c.spec.kind = .network)) :
    ∃ r, getMutatedRoutesWithLabels txt c pi = [r] := by
  unfold getMutatedRoutesWithLabels
  dsimp only
  split
  next hk =>
    have hc : ¬c.isCreatePrefix = true := fun hc => h ⟨hc, hk⟩
    rw [if_neg hc]
    exact ⟨_, rfl⟩
  · exact ⟨_, rfl⟩

/-- The routes lie in the first of them; the others are addresses. -/
theorem inside_main_of_mem_mutated (h : r ∈ getMutatedRoutesWithLabels txt c pi) :
    (mainPrefix c pi).Contains r.pfx ∧ (r.pfx = mainPrefix c pi ∨ ∃ a, r.pfx = .single a) := by
  by_cases hnet : c.isCreatePrefix = true ∧ c.spec.kind = .network
  · have hmain : mainPrefix c pi = pi.masked := by simp [mainPrefix, hnet, Prefix.getIPSubnet]
    have hroutes : getMutatedRoutesWithLabels txt c pi =
        networkRoutes pi (mutatedLabels txt c pi) := by simp [getMutatedRoutesWithLabels, hnet]
    rw [hmain]
    refine ⟨pi.masked_contains.trans (contains_of_mem_mutated h), ?_⟩
    rcases mem_networkRoutes (hroutes ▸ h) with rfl | ⟨-, rfl | rfl | rfl⟩
    · exact .inl rfl
    · exact .inr ⟨_, rfl⟩
    · exact .inr ⟨_, rfl⟩
    · exact .inr ⟨_, rfl⟩
  · obtain ⟨l, rs, hcons⟩ := mutated_eq_cons txt c pi
    obtain ⟨r', hr'⟩ := mutated_singleton txt pi hnet
    rw [hr', List.cons.injEq] at hcons
    rw [hr', List.mem_singleton, hcons.1] at h
    rw [h]
    exact ⟨.refl _, .inl rfl⟩

/-- A claim that has other routes than its main one is a created network of several addresses. -/
theorem network_of_mem_mutated (hr : r ∈ getMutatedRoutesWithLabels txt c pi)
    (hne : r.pfx ≠ mainPrefix c pi) :
    c.spec.kind = .network ∧ c.isCreatePrefix = true ∧ isPointToPoint pi = false ∧
      pi.bits < pi.addr.bitLen := by
  by_cases hnet : c.isCreatePrefix = true ∧ c.spec.kind = .network
  · have hmain : mainPrefix c pi = pi.masked := by simp [mainPrefix, hnet, Prefix.getIPSubnet]
    obtain ⟨hin, hmain' | ⟨a, ha⟩⟩ := inside_main_of_mem_mutated hr
    · exact absurd hmain' hne
    · rw [ha] at hin hne
      have hstrict : pi.masked.StrictlyContains (.single a) := by
        rw [hmain] at hin hne
        exact (hin.eq_or_strictlyContains (by simp) (by simp)).resolve_left (Ne.symm hne)
      have hbits : pi.bits < pi.addr.bitLen := by
        have hlt : pi.bits < a.bitLen := hstrict.1
        rwa [show a.bitLen = pi.addr.bitLen from congrArg Family.bitLen hstrict.2.1.symm] at hlt
      refine ⟨hnet.2, hnet.1, ?_, hbits⟩
      have hr' : r ∈ networkRoutes pi (mutatedLabels txt c pi) := by
        simpa [getMutatedRoutesWithLabels, hnet] using hr
      rcases mem_networkRoutes hr' with rfl | ⟨hp2p, -⟩
      · exact absurd ha (fun h => hne (h ▸ hmain.symm))
      · exact hp2p
  · obtain ⟨l, rs, hcons⟩ := mutated_eq_cons txt c pi
    obtain ⟨r', hr'⟩ := mutated_singleton txt pi hnet
    rw [hr', List.cons.injEq] at hcons
    rw [hr', List.mem_singleton, hcons.1] at hr
    exact absurd (hr ▸ rfl) hne

/-! ## Labels of an update -/

/-- What an update writes: the labels of the claim for the route, without the gateway label or
not, with another subnet for an address, or with the pool label. -/
theorem updatedLabels_cases (txt : NetText) (c : IPClaim) (route : Route) (parents : List Route) :
    ∃ l, (l = mutatedLabels txt c route.pfx ∨
        l = (mutatedLabels txt c route.pfx).erase nephioGatewayKey) ∧
      (updatedLabels txt c route parents = l ∨
        updatedLabels txt c route parents = l.insert nephioPoolKey "true" ∨
        ∃ q, route.pfx.isAddressPrefix = true ∧ parentPrefix route parents = some q ∧
          updatedLabels txt c route parents = l.insert nephioSubnetKey (q.getSubnetName txt)) := by
  unfold updatedLabels
  dsimp only
  split
  · split
    next haddr =>
      split
      · exact ⟨_, .inl rfl, .inl rfl⟩
      next q hq =>
        refine ⟨_, ?_, .inr (.inr ⟨q, haddr, hq, rfl⟩)⟩
        split
        · exact .inr rfl
        · exact .inl rfl
    · exact ⟨_, .inr rfl, .inl rfl⟩
  · exact ⟨_, .inl rfl, .inr (.inl rfl)⟩
  · exact ⟨_, .inl rfl, .inl rfl⟩

variable {route : Route} {parents : List Route}

theorem updatedLabels_carriesOwner : CarriesOwner c (updatedLabels txt c route parents) := by
  obtain ⟨l, hl, h⟩ := updatedLabels_cases txt c route parents
  have hcarries : CarriesOwner c l := by
    rcases hl with rfl | rfl
    · exact mutatedLabels_carriesOwner
    · exact mutatedLabels_carriesOwner.erase (by decide)
  rcases h with h | h | ⟨q, -, -, h⟩
  · exact h ▸ hcarries
  · exact h ▸ hcarries.insert (by decide)
  · exact h ▸ hcarries.insert (by decide)

theorem updatedLabels_kind :
    (updatedLabels txt c route parents)[nephioPrefixKindKey]? = some c.spec.kind.toString := by
  have hgw : nephioGatewayKey ≠ nephioPrefixKindKey := by decide
  have hpool : nephioPoolKey ≠ nephioPrefixKindKey := by decide
  have hsub : nephioSubnetKey ≠ nephioPrefixKindKey := by decide
  obtain ⟨l, hl, h⟩ := updatedLabels_cases txt c route parents
  have hkind : l[nephioPrefixKindKey]? = some c.spec.kind.toString := by
    rcases hl with rfl | rfl
    · exact mutatedLabels_kind
    · rw [ExtTreeMap.getElem?_erase, if_neg (by simpa using hgw), mutatedLabels_kind]
  rcases h with h | h | ⟨q, -, -, h⟩
  · rw [h, hkind]
  · rw [h, ExtTreeMap.getElem?_insert, if_neg (by simpa using hpool), hkind]
  · rw [h, ExtTreeMap.getElem?_insert, if_neg (by simpa using hsub), hkind]

/-- The length of a parent, put to the address of a route. -/
theorem parentPrefix_contains {q : Prefix} (haddr : route.pfx.isAddressPrefix = true)
    (h : parentPrefix route parents = some q) : q.Contains route.pfx := by
  cases parents with
  | nil => cases h
  | cons parent _ =>
    rw [parentPrefix, prefixFrom_eq_some] at h
    have hin : q.Contains (.single route.pfx.addr) := Prefix.contains_single (h.1 ▸ ⟨rfl, .refl ..⟩)
    rwa [← Prefix.eq_single_of_isAddressPrefix haddr] at hin

/-- The subnet label of an update names a prefix around the route. -/
theorem updatedLabels_subnet : ∃ q : Prefix, q.Contains route.pfx ∧
    (updatedLabels txt c route parents)[nephioSubnetKey]? = some (q.getSubnetName txt) := by
  have hgw : nephioGatewayKey ≠ nephioSubnetKey := by decide
  have hpool : nephioPoolKey ≠ nephioSubnetKey := by decide
  obtain ⟨l, hl, h⟩ := updatedLabels_cases txt c route parents
  have hsub : l[nephioSubnetKey]? = some (route.pfx.getSubnetName txt) := by
    rcases hl with rfl | rfl
    · exact mutatedLabels_subnet
    · rw [ExtTreeMap.getElem?_erase, if_neg (by simpa using hgw), mutatedLabels_subnet]
  rcases h with h | h | ⟨q, haddr, hq, h⟩
  · exact ⟨route.pfx, .refl _, by rw [h, hsub]⟩
  · refine ⟨route.pfx, .refl _, ?_⟩
    rw [h, ExtTreeMap.getElem?_insert, if_neg (by simpa using hpool), hsub]
  · exact ⟨q, parentPrefix_contains haddr hq, by rw [h]; simp⟩

end

section
variable {c : IPClaim} {pi : Prefix}

/-- The route of a prefix that the search has found lies inside it. -/
theorem updatePrefixInfo_contains {s p : Prefix} {b : Nat} (hb : p.bits = b)
    (h : updatePrefixInfo c s p b = some pi) : p.Contains (mainPrefix c pi) := by
  subst hb
  unfold updatePrefixInfo at h
  split at h
  next hkind =>
    split at h
    next hcreate =>
      cases h
      exact contains_mainPrefix c _
    next hcreate =>
      have haddr : pi.addr = p.addr := by
        unfold prefixFrom at h
        split at h <;> cases h
        rfl
      have hmain : mainPrefix c pi = Prefix.single p.addr := by
        simp [mainPrefix, hkind, hcreate, Prefix.getIPAddressPrefix, haddr]
      exact hmain ▸ Prefix.contains_single p.addr_mem
  next hkind =>
    unfold prefixFrom at h
    rw [dif_pos p.le] at h
    cases h
    exact contains_mainPrefix c p

theorem mem_of_getSelectedRoute {routes : List Route} {b : Nat} {r : Route}
    (h : getSelectedRouteWithPrefixLength c routes b = some r) : r ∈ routes := by
  unfold getSelectedRouteWithPrefixLength at h
  split at h
  · unfold selectAddressRoute at h
    dsimp only at h
    split at h
    · rcases Option.or_eq_some_iff.mp h with h | ⟨-, h⟩ <;> exact List.mem_of_find?_eq_some h
    · rcases Option.or_eq_some_iff.mp h with h | ⟨-, h⟩ <;> exact List.mem_of_find?_eq_some h
    · exact List.mem_of_find?_eq_some h
    · cases h
  · exact List.mem_of_find?_eq_some h

end

/-- The selector of the claim matches the labels. -/
def Selects (P : Platform) (c : IPClaim) (l : Labels) : Prop :=
  ∃ sel, c.spec.getLabelSelector P.refuses = .ok sel ∧ sel.Matches l = true

instance (P : Platform) (c : IPClaim) (l : Labels) : Decidable (Selects P c l) :=
  match h : c.spec.getLabelSelector P.refuses with
  | .error _ => .isFalse fun ⟨s, hs, _⟩ => by rw [h] at hs; cases hs
  | .ok sel => decidable_of_iff (sel.Matches l = true)
      ⟨fun hm => ⟨sel, h, hm⟩, fun ⟨s, hs, hm⟩ => by rw [h] at hs; cases hs; exact hm⟩

/-- No route carries the owner labels of the claim. -/
def OwnsNothing (P : Platform) (rib : Rib) (c : IPClaim) : Prop :=
  ∀ s, c.spec.getOwnerSelector P.refuses = .ok s → P.nipam.getByLabel rib s = []

instance (P : Platform) (rib : Rib) (c : IPClaim) : Decidable (OwnsNothing P rib c) :=
  match h : c.spec.getOwnerSelector P.refuses with
  | .error _ => .isTrue fun s hs => by rw [h] at hs; cases hs
  | .ok s => decidable_of_iff (P.nipam.getByLabel rib s = [])
      ⟨fun hnil s' hs' => by rw [h] at hs'; cases hs'; exact hnil, fun hown => hown s h⟩

/-- The owner of the claim has no route. -/
def WithoutRoutes (P : Platform) (rib : Rib) (c : IPClaim) : Prop :=
  ∃ own ∈ (c.spec.getOwnerSelector P.refuses).toOption, P.nipam.getByLabel rib own = []

instance (P : Platform) (rib : Rib) (c : IPClaim) : Decidable (WithoutRoutes P rib c) :=
  inferInstanceAs (Decidable (∃ own ∈ (c.spec.getOwnerSelector P.refuses).toOption, _))

theorem withoutRoutes_iff {P : Platform} {rib : Rib} {c : IPClaim} :
    WithoutRoutes P rib c ↔
      ∃ own, c.spec.getOwnerSelector P.refuses = .ok own ∧ P.nipam.getByLabel rib own = [] := by
  unfold WithoutRoutes
  cases c.spec.getOwnerSelector P.refuses with
  | error e => simp [Except.toOption]
  | ok own => simp [Except.toOption]

/-! ## What a claim reports -/

/-- The route that the reported prefix stands for: for an address of a network the address
itself, reported with the length of its network. -/
def reportedRoute (txt : NetText) (c : IPClaim) : Option Prefix :=
  match c.status.pfx with
  | none => none
  | some s =>
    match txt.parsePrefix s with
    | .ok pi => some (mainPrefix c pi)
    | .error _ => none

section
variable {P : Platform} {c : IPClaim} {pi : Prefix}

theorem reportedRoute_setPrefix :
    reportedRoute P.txt (c.setPrefix (P.txt.prefixString pi)) = some (mainPrefix c pi) := by
  simp only [reportedRoute, IPClaim.setPrefix, P.txt.parse_prefixString]
  rfl

end
end K8sIpam.Ipam
