import K8sIpam.Ipam.Effects
import K8sIpam.Ipam.Reference

/-! # A fresh dynamic claim

The search of a dynamic claim picks one of the routes that it selects and one length, and looks for a
free prefix of this length in this route. What it finds is disjoint from the rest of the table; but
it does not look into another route. -/

namespace K8sIpam.Ipam
open Std Atomic Prog Net

variable {P : Platform} {s s' : RibState} {rib : Rib} {c c' : IPClaim} {S : Route} {L : Nat}
  {p pi : Prefix}

/-- The route and the length that are picked depend on the table only. -/
theorem Picked.unique {S' : Route} {L' : Nat} (h : Picked P rib c S L) (h' : Picked P rib c S' L') :
    S = S' ∧ L = L' := by
  obtain ⟨sel, route, routes, hsel, hroutes, rfl, hpick⟩ := h.pick
  obtain ⟨sel', route', routes', hsel', hroutes', rfl, hpick'⟩ := h'.pick
  cases hsel.symm.trans hsel'
  cases hroutes.symm.trans hroutes'
  cases hpick.symm.trans hpick'
  exact ⟨rfl, rfl⟩

/-! ## What is granted -/

/-- The prefix `p` is granted in the route `S`: earlier routes are kept, the new ones are in `p`, have
the owner and have `p` among them, and `p` overlaps only `S` and what is around `S`. -/
structure FreshlyGranted (P : Platform) (rib rib' : Rib) (c c' : IPClaim) (S : Route) (L : Nat)
    (p : Prefix) : Prop where
  bits : p.bits = L
  inside : S.pfx.Contains p
  kept : ∀ r, rib.Has r → rib'.Has r
  added : ∀ r, rib'.Has r → ¬rib.Has r → p.Contains r.pfx ∧ CarriesOwner c r.labels
  itself : rib[p]? = none ∧ rib'[p]?.isSome = true
  disjoint : ∀ r, rib.Has r → r.pfx.Overlaps p → r.pfx.Contains S.pfx
  status : ∃ q, c'.status.pfx = some (P.txt.prefixString q) ∧ q.addr = p.addr

/-- What is found is what is claimed, but for an address of a network, which keeps the length of
the network. -/
theorem updatePrefixInfo_cases (h : updatePrefixInfo c S.pfx p p.bits = some pi) :
    pi.addr = p.addr ∧ (pi = p ∨ c.spec.kind = .network ∧ c.isCreatePrefix = false) := by
  unfold updatePrefixInfo at h
  split at h
  next hkind =>
    split at h
    · cases h
      exact ⟨rfl, .inl rfl⟩
    next hcreate => exact ⟨(prefixFrom_eq_some.mp h).1, .inr ⟨hkind, Bool.not_eq_true _ ▸ hcreate⟩⟩
  · rw [prefixFrom_self] at h
    cases h
    exact ⟨rfl, .inl rfl⟩

/-- The routes of a claim for an address of a network. -/
theorem mutated_address (hk : c.spec.kind = .network) (hc : c.isCreatePrefix = false) :
    getMutatedRoutesWithLabels P.txt c pi = [⟨.single pi.addr, mutatedLabels P.txt c pi⟩] := by
  simp [getMutatedRoutesWithLabels, hk, hc, Prefix.getIPAddressPrefix]

theorem mutated_inside {r : Route} (hpi : updatePrefixInfo c S.pfx p p.bits = some pi)
    (hr : r ∈ getMutatedRoutesWithLabels P.txt c pi) : p.Contains r.pfx := by
  obtain ⟨haddr, rfl | ⟨hk, hc⟩⟩ := updatePrefixInfo_cases hpi
  · exact contains_of_mem_mutated hr
  · rw [mutated_address hk hc, List.mem_singleton] at hr
    rw [hr, haddr]
    exact Prefix.contains_single p.addr_mem

/-- The prefix that is found is the route that the claim is about, unless it is longer than one
address where the claim is for one. -/
theorem mainPrefix_found (hpi : updatePrefixInfo c S.pfx p p.bits = some pi) (hmask : p.masked = p)
    (hlen : c.spec.kind = .network → c.isCreatePrefix = false → p.isAddressPrefix = true) :
    mainPrefix c pi = p := by
  obtain ⟨haddr, rfl | ⟨hk, hc⟩⟩ := updatePrefixInfo_cases hpi
  · unfold mainPrefix
    split
    next hk =>
      split
      · exact hmask
      next hc =>
        exact (Prefix.eq_single_of_isAddressPrefix (hlen hk (Bool.not_eq_true _ ▸ hc))).symm
    · exact hmask
  · have hsingle := Prefix.eq_single_of_isAddressPrefix (hlen hk hc)
    simp only [mainPrefix, hk, hc, Prefix.getIPAddressPrefix, haddr]
    exact hsingle.symm

/-- The prefixes that the table offers strictly inside a route are not in it and overlap only what
is around the route. -/
theorem available_disjoint (hp : P.nipam.getAvailablePrefixByBitLen rib S.pfx L = some p)
    (hlt : S.pfx.bits < L) {r : Route} (hr : rib.Has r) (hover : r.pfx.Overlaps p) :
    r.pfx.Contains S.pfx := by
  obtain ⟨hb, -, hin, hfree⟩ := P.nipam.available hp
  have hstrict : S.pfx.StrictlyContains p := ⟨hb ▸ hlt, hin⟩
  rcases hover with hrp | hpr
  · rcases Nat.lt_or_ge S.pfx.bits r.pfx.bits with hbits | hbits
    · have hSr : S.pfx.StrictlyContains r.pfx := ⟨hbits, hin.nested hrp hbits.le⟩
      exact absurd (.inr hrp) (hfree r hr hSr)
    · exact hrp.nested hin hbits
  · exact absurd (.inl hpr) (hfree r hr (hstrict.trans_contains hpr))

/-- A claim without a hint of an owner without routes gets what the search finds. -/
theorem applyDynamic_fresh {b : Bool} (hown : OwnsNothing P s.rib c) (hhint : c.status.pfx = none)
    (hpick : Picked P s.rib c S L)
    (h : (applyDynamic P b c).run (handler P.nipam) s = (.ok c', s')) :
    ∃ p pi, P.nipam.getAvailablePrefixByBitLen s.rib S.pfx L = some p ∧
      updatePrefixInfo c S.pfx p L = some pi ∧
      (addRib P c pi).run (handler P.nipam) s = (.ok c', s') := by
  obtain ⟨pi, hchosen, hadd⟩ := applyDynamic_ok hown h
  cases hchosen with
  | hint t p ht =>
    rw [hhint] at ht
    cases ht
  | search S' L' p hpick' hp hpi =>
    obtain ⟨rfl, rfl⟩ := hpick.unique hpick'
    exact ⟨p, pi, hp, hpi, hadd⟩

/-- A fresh claim is granted a prefix of the requested length in the route that is picked, exactly
when the length is that of an address of the route if the claim is for an address of a network. -/
theorem fresh_claim_granted_iff (P : Platform) (s s' : RibState) (c c' : IPClaim) (S : Route) (L : Nat)
    (initializing : Bool) (hown : OwnsNothing P s.rib c) (hhint : c.status.pfx = none)
    (hrun : (applyDynamic P initializing c).run (handler P.nipam) s = (.ok c', s'))
    (hpick : Picked P s.rib c S L) (hlt : S.pfx.bits < L) :
    (∃ p, FreshlyGranted P s.rib s'.rib c c' S L p) ↔
      (c.spec.kind = .network → c.isCreatePrefix = false → L = S.pfx.family.bitLen) := by
  obtain ⟨p, pi, hp, hpi, hadd⟩ := applyDynamic_fresh hown hhint hpick hrun
  rw [addRib_run] at hadd
  cases hadd
  obtain ⟨rfl, hmask, hin, -⟩ := P.nipam.available hp
  constructor
  · rintro ⟨q, hq⟩ hk hc
    -- the only route that is added is for one address
    obtain ⟨hnone, hsome⟩ := hq.itself
    obtain ⟨l, hl⟩ := Option.isSome_iff_exists.mp hsome
    rcases has_of_has_addAll (r := ⟨q, l⟩) hl with hhas | ⟨-, hmem⟩
    · cases hnone.symm.trans hhas
    · rw [mutated_address hk hc, List.mem_singleton] at hmem
      have hsingle : q = .single pi.addr := congrArg Route.pfx hmem
      have hfamily : S.pfx.family = q.family := hq.inside.1
      rw [← hq.bits, hfamily, hsingle]
      rfl
  · intro hlen
    have hmain : mainPrefix c pi = p := by
      refine mainPrefix_found hpi hmask fun hk hc => ?_
      rw [Prefix.isAddressPrefix_iff, hlen hk hc, hin.1]
      rfl
    have habsent := P.nipam.available_free hp hlt (.refl p)
    refine ⟨p, rfl, hin, fun r hr => ?_, fun r hr hnot => ?_, ⟨habsent, ?_⟩,
      fun r hr hover => available_disjoint hp hlt hr hover, pi, reported_pfx .., ?_⟩
    · have hr' : s.rib[r.pfx]? = some r.labels := hr
      rw [Rib.Has, addAll_getElem?, hr']
      rfl
    · rcases has_of_has_addAll hr with hhas | ⟨-, hmem⟩
      · exact absurd hhas hnot
      · exact ⟨mutated_inside hpi hmem, carriesOwner_of_mem_mutated hmem⟩
    · obtain ⟨l, hl, -⟩ := has_main_addAll P (hmain ▸ habsent)
      rw [hmain] at hl
      rw [hl]
      rfl
    · exact (updatePrefixInfo_cases hpi).1

/-- The prefix 2001::/b. -/
def sampleIPv6 (b : Fin 129) : Prefix :=
  ⟨⟨.ipv6, 0x2001 * 2 ^ 112, by decide⟩, b, Nat.le_of_lt_succ b.isLt⟩

/-- A claim of an address that selects all routes. -/
def anyAddressClaim (kind : PrefixKind) : IPClaim :=
  sampleClaim ipClaimGVK "a" kind none none none (some ∅)

theorem fresh_claim_granted_loopback :
    ∃ p, FreshlyGranted .reference aggregateRib.rib
      ((applyDynamic .reference false (anyAddressClaim .loopback)).run (handler .reference)
        aggregateRib).2.rib (anyAddressClaim .loopback)
      ((anyAddressClaim .loopback).setPrefix "10.0.0.0/32")
      ⟨samplePrefix 0 8, kindLabels .aggregate⟩ 32 p :=
  (fresh_claim_granted_iff .reference aggregateRib _ (anyAddressClaim .loopback) _ _ 32 false
    (by decide +kernel) rfl (Prod.ext (by decide +kernel) rfl)
    ⟨_, ⟨samplePrefix 0 8, kindLabels .aggregate⟩, [], rfl, by decide +kernel, rfl, by decide +kernel⟩
    (by decide)).mpr nofun

/-- The aggregate 10.0.0.0/8 and the network 2001::/16, in this order. -/
def dualStackRib : RibState :=
  ⟨aggregateRib.rib.insert (sampleIPv6 16) (kindLabels .network), []⟩

def dualStackRun : Except Failure IPClaim × RibState :=
  (applyDynamic .reference false (anyAddressClaim .network)).run (handler .reference) dualStackRib

/-- The length is that of an IPv4 address and the route is one of IPv6: the claim succeeds and no
route of the length is added. -/
theorem fresh_claim_dual_stack :
    validateInputDynamic .reference (anyAddressClaim .network) = "" ∧
    OwnsNothing .reference dualStackRib.rib (anyAddressClaim .network) ∧
    Picked .reference dualStackRib.rib (anyAddressClaim .network)
      ⟨sampleIPv6 16, kindLabels .network⟩ 32 ∧
    (∃ c', dualStackRun.1 = .ok c') ∧
    ∀ c' p, ¬FreshlyGranted .reference dualStackRib.rib dualStackRun.2.rib
      (anyAddressClaim .network) c' ⟨sampleIPv6 16, kindLabels .network⟩ 32 p := by
  refine ⟨by decide, by decide +kernel, ?_, ?_, fun c' p hp => ?_⟩
  · exact ⟨_, ⟨samplePrefix 0 8, kindLabels .aggregate⟩, [⟨sampleIPv6 16, kindLabels .network⟩], rfl,
      by decide +kernel, rfl, by decide +kernel⟩
  · exact ⟨((anyAddressClaim .network).setPrefix (netText.prefixString (sampleIPv6 16))).setGateway "",
      by decide +kernel⟩
  · have hnone : ∀ kv ∈ dualStackRun.2.rib.toList, kv.1.bits = 32 →
        dualStackRib.rib[kv.1]? ≠ none := by decide +kernel
    obtain ⟨l, hl⟩ := Option.isSome_iff_exists.mp hp.itself.2
    exact hnone (p, l) (ExtTreeMap.mem_toList_iff_getElem?_eq_some.mpr hl) hp.bits hp.itself.1

end K8sIpam.Ipam
