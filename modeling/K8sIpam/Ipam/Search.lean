import K8sIpam.Ipam.Fresh
import K8sIpam.Ipam.Gateway
import K8sIpam.Ipam.Hint

/-! # When the search finds a prefix

A dynamic claim takes its length from the first route that it selects and then looks into one route
only, so that it can fail while another route has room. A hint is tested as the whole network that
it is reported with, so that it can be missed while its address is free. -/

namespace K8sIpam.Ipam
open Std Atomic Prog Net

variable {P : Platform} {s s' : RibState} {rib : Rib} {c c' : IPClaim} {S route : Route}
  {routes : List Route} {L : Nat} {p pi h : Prefix} {sel : Selector} {b : Bool}

/-! ## The candidate -/

/-- The first route of a list that has a property. -/
def First (q : Route → Prop) (routes : List Route) (r : Route) : Prop :=
  ∃ xs ys, routes = xs ++ r :: ys ∧ q r ∧ ∀ x ∈ xs, ¬q x

theorem find?_eq_some_iff_first {q : Route → Prop} [DecidablePred q] :
    routes.find? (fun r => q r) = some S ↔ First q routes S := by
  rw [List.find?_eq_some_iff_append]
  simp only [decide_eq_true_eq, Bool.not_eq_true', decide_eq_false_iff_not, First]
  constructor
  · rintro ⟨hq, xs, ys, heq, hall⟩
    exact ⟨xs, ys, heq, hq, hall⟩
  · rintro ⟨xs, ys, heq, hq, hall⟩
    exact ⟨hq, xs, ys, heq, hall⟩

/-- The route that the search looks into. Lengths of 32 and 128 are taken for those of addresses,
whatever the family. -/
inductive Candidate (c : IPClaim) (routes : List Route) (L : Nat) (S : Route) : Prop where
  | shorter (hL : ¬(L = 32 ∨ L = 128)) (h : First (fun r => r.pfx.bits < L) routes S)
  | ofKind (hL : L = 32 ∨ L = 128) (hk : c.spec.kind ≠ .aggregate)
      (h : First (fun r => routeKind r = c.spec.kind.toString) routes S)
  | aggregate (hL : L = 32 ∨ L = 128) (hk : c.spec.kind = .loopback ∨ c.spec.kind = .network)
      (hnone : ∀ r ∈ routes, routeKind r ≠ c.spec.kind.toString)
      (h : First (fun r => routeKind r = PrefixKind.aggregate.toString) routes S)

theorem selectAddressRoute_eq_some : selectAddressRoute c routes = some S ↔
    c.spec.kind ≠ .aggregate ∧ First (fun r => routeKind r = c.spec.kind.toString) routes S ∨
      (c.spec.kind = .loopback ∨ c.spec.kind = .network) ∧
        (∀ r ∈ routes, routeKind r ≠ c.spec.kind.toString) ∧
        First (fun r => routeKind r = PrefixKind.aggregate.toString) routes S := by
  have hor : ∀ k : PrefixKind, ((routes.find? fun r => routeKind r = k.toString).or
      (routes.find? fun r => routeKind r = PrefixKind.aggregate.toString)) = some S ↔
      First (fun r => routeKind r = k.toString) routes S ∨
        (∀ r ∈ routes, routeKind r ≠ k.toString) ∧
          First (fun r => routeKind r = PrefixKind.aggregate.toString) routes S := by
    intro k
    rw [Option.or_eq_some_iff, find?_eq_some_iff_first, find?_eq_some_iff_first, List.find?_eq_none]
    simp only [decide_eq_true_eq, ne_eq]
  unfold selectAddressRoute
  cases hk : c.spec.kind with
  | network => exact (hor .network).trans (by simp)
  | loopback => exact (hor .loopback).trans (by simp)
  | pool => exact find?_eq_some_iff_first.trans (by simp [routeKind])
  | aggregate => simp

theorem getSelectedRoute_eq_some :
    getSelectedRouteWithPrefixLength c routes L = some S ↔ Candidate c routes L S := by
  unfold getSelectedRouteWithPrefixLength
  split
  next hL =>
    rw [selectAddressRoute_eq_some]
    constructor
    · rintro (⟨hk, hfirst⟩ | ⟨hk, hnone, hfirst⟩)
      · exact .ofKind hL hk hfirst
      · exact .aggregate hL hk hnone hfirst
    · rintro (⟨hL', -⟩ | ⟨-, hk, hfirst⟩ | ⟨-, hk, hnone, hfirst⟩)
      · exact absurd hL hL'
      · exact .inl ⟨hk, hfirst⟩
      · exact .inr ⟨hk, hnone, hfirst⟩
  next hL =>
    rw [find?_eq_some_iff_first]
    constructor
    · exact .shorter hL
    · rintro (⟨-, hfirst⟩ | ⟨hL', -⟩ | ⟨hL', -⟩)
      · exact hfirst
      · exact absurd hL' hL
      · exact absurd hL' hL

/-! ## Success -/

/-- The claim succeeds. -/
def Succeeds (P : Platform) (initializing : Bool) (s : RibState) (c : IPClaim) : Prop :=
  ∃ c' s', (applyDynamic P initializing c).run (handler P.nipam) s = (.ok c', s')

/-- A route that the claim selects and may be in is shorter than the length that it asks for, and
has a free prefix of that length. -/
structure HasRoom (P : Platform) (rib : Rib) (c : IPClaim) (r : Route) : Prop where
  has : rib.Has r
  selects : Selects P c r.labels
  shorter : r.pfx.bits < getPrefixLengthFromRoute c r
  free : ∃ p ∈ P.nipam.getAvailablePrefixByBitLen rib r.pfx (getPrefixLengthFromRoute c r),
    validateParentExist P c r p = ""

/-- With the length that the first of the selected routes gives, there is a candidate, and it has a
free prefix of that length. -/
def CandidateHasRoom (P : Platform) (rib : Rib) (c : IPClaim) : Prop :=
  ∃ sel route routes S, c.spec.getLabelSelector P.refuses = .ok sel ∧
    P.nipam.getByLabel rib sel = route :: routes ∧
    Candidate c (route :: routes) (getPrefixLengthFromRoute c route) S ∧
    (P.nipam.getAvailablePrefixByBitLen rib S.pfx (getPrefixLengthFromRoute c route)).isSome = true

theorem succeeds_iff (hown : WithoutRoutes P s.rib c) (hhint : c.status.pfx = none) :
    Succeeds P b s c ↔ CandidateHasRoom P s.rib c := by
  constructor
  · rintro ⟨c', s', hrun⟩
    obtain ⟨pi, -, ⟨-, text, ht, -⟩ | ⟨S, L, p, hsearch, hp, -⟩⟩ := (applyDynamic_new_ok hown).mp hrun
    · rw [hhint] at ht
      cases ht
    · obtain ⟨sel, route, routes, hsel, hroutes, rfl, hcand⟩ := hsearch.picked.pick
      refine ⟨sel, route, routes, S, hsel, hroutes, getSelectedRoute_eq_some.mp hcand, ?_⟩
      rw [hp]
      rfl
  · rintro ⟨sel, route, routes, S, hsel, hroutes, hcand, hfree⟩
    obtain ⟨p, hp⟩ := Option.isSome_iff_exists.mp hfree
    obtain ⟨hb, -, hin, -⟩ := P.nipam.available hp
    obtain ⟨pi, hpi⟩ := updatePrefixInfo_isSome (c := c) hin
    have hsearch : Searched P s.rib c S (getPrefixLengthFromRoute c route) :=
      ⟨fun _ ht => (nomatch hhint.symm.trans ht),
        ⟨sel, route, routes, hsel, hroutes, rfl, getSelectedRoute_eq_some.mpr hcand⟩⟩
    exact ⟨_, _, (applyDynamic_new_ok hown).mpr
      ⟨pi, addRib_run P c pi s, .inr ⟨S, _, p, hsearch, hp, hb ▸ hpi⟩⟩⟩

/-- A claim succeeds whenever some route has room, exactly if its candidate has room whenever some
route has. -/
theorem fresh_claim_succeeds_iff (P : Platform) (s : RibState) (c : IPClaim) (initializing : Bool)
    (hown : WithoutRoutes P s.rib c) (hhint : c.status.pfx = none) :
    ((∃ r, HasRoom P s.rib c r) → Succeeds P initializing s c) ↔
      ((∃ r, HasRoom P s.rib c r) → CandidateHasRoom P s.rib c) := by
  rw [succeeds_iff hown hhint]

/-- A pool of 16 addresses in an aggregate. -/
def poolOf16 : IPClaim :=
  sampleClaim ipClaimGVK "a" .pool none (some 28) (some true) (ofKind .aggregate)

theorem fresh_claim_succeeds_pool :
    Succeeds .reference false aggregateRib poolOf16 := by
  refine (fresh_claim_succeeds_iff .reference aggregateRib poolOf16 false (by decide +kernel) rfl).mpr
    (fun _ => ?_) ⟨⟨samplePrefix 0 8, kindLabels .aggregate⟩, ?_⟩
  · refine ⟨_, ⟨samplePrefix 0 8, kindLabels .aggregate⟩, [], ⟨samplePrefix 0 8, kindLabels .aggregate⟩,
      rfl, by decide +kernel, .shorter (by decide) ⟨[], [], rfl, by decide, nofun⟩, by decide +kernel⟩
  · exact ⟨Rib.has_iff_mem_toList.mpr (by decide +kernel), by decide +kernel, by decide,
      samplePrefix 0 28, by decide +kernel, by decide⟩

/-- The aggregate 10.0.0.0/27 with two pools that fill it, and the aggregate 10.0.0.64/27. -/
def fullAggregateRib : RibState :=
  ⟨((((∅ : Rib).insert (samplePrefix 0 27) (kindLabels .aggregate)).insert
    (samplePrefix 0 28) (kindLabels .pool)).insert (samplePrefix 16 28) (kindLabels .pool)).insert
    (samplePrefix 64 27) (kindLabels .aggregate), []⟩

/-- The second aggregate has room, and the claim fails. -/
theorem fresh_claim_exhausted :
    validateInputDynamic .reference poolOf16 = "" ∧
    WithoutRoutes .reference fullAggregateRib.rib poolOf16 ∧
    HasRoom .reference fullAggregateRib.rib poolOf16 ⟨samplePrefix 64 27, kindLabels .aggregate⟩ ∧
    ((applyDynamic .reference false poolOf16).run (handler .reference) fullAggregateRib).1 =
      .error (.error "no free prefix found") := by
  refine ⟨by decide, by decide +kernel, ⟨Rib.has_iff_mem_toList.mpr ?_, ?_, ?_,
    samplePrefix 64 28, ?_, ?_⟩, ?_⟩
  all_goals decide +kernel

/-! ## Hints -/

/-- No route lies strictly inside the hint; or the best free block of the route that the claim
searches in begins with the address of the hint, and the hint has the length that is reported. -/
def HintFound (rib : Rib) (c : IPClaim) (S : Route) (L : Nat) (h : Prefix) : Prop :=
  (∀ r, rib.Has r → ¬h.StrictlyContains r.pfx) ∨
    (∃ B, rib.BestBlock S.pfx L B ∧ B.addr = h.addr) ∧
      h.bits = if c.spec.kind = .network then S.pfx.bits else L

theorem updatePrefixInfo_address (hc : c.isCreatePrefix = false) :
    updatePrefixInfo c S.pfx p L = some pi ↔
      pi.addr = p.addr ∧ pi.bits = if c.spec.kind = .network then S.pfx.bits else L := by
  unfold updatePrefixInfo
  split
  · rw [hc]
    exact prefixFrom_eq_some
  · exact prefixFrom_eq_some

/-- A claim for an address gets the prefix back that it hints at, exactly when the network of the
hint has no routes or its address is where the search looks first. -/
theorem hint_honoured_iff (P : Platform) (s : RibState) (c : IPClaim) (S : Route) (L : Nat)
    (h : Prefix) (initializing : Bool) (hfit : P.nipam.BestFit) (hc : c.isCreatePrefix = false)
    (hown : WithoutRoutes P s.rib c) (hhint : c.status.pfx = some (P.txt.prefixString h))
    (hpick : Picked P s.rib c S L) :
    (∃ c' s', (applyDynamic P initializing c).run (handler P.nipam) s = (.ok c', s') ∧
      c'.status.pfx = c.status.pfx) ↔ HintFound s.rib c S L h := by
  have hreads : ∀ text g, c.status.pfx = some text → P.txt.parsePrefix text = .ok g → g = h := by
    intro text g ht hparse
    cases hhint.symm.trans ht
    rw [P.txt.parse_prefixString] at hparse
    exact (Except.ok.inj hparse).symm
  have hoffered : (P.nipam.getAvailablePrefixByBitLen s.rib h h.bits).isSome = true ↔
      ∀ r, s.rib.Has r → ¬h.StrictlyContains r.pfx := hfit.complete.isSome_self_iff
  constructor
  · rintro ⟨c', s', hrun, hsame⟩
    obtain ⟨pi, hadd, ⟨-, text, ht, hparse, hsome⟩ | ⟨S', L', p, hsearch, hp, hpi⟩⟩ :=
      (applyDynamic_new_ok hown).mp hrun
    · rw [hreads text pi ht hparse] at hsome
      exact .inl (hoffered.mp hsome)
    · obtain ⟨rfl, rfl⟩ := hpick.unique hsearch.picked
      rw [addRib_run] at hadd
      cases hadd
      rw [reported_pfx, hhint, Option.some.injEq] at hsame
      obtain rfl := P.txt.prefixString_injective hsame
      obtain ⟨haddr, hbits⟩ := (updatePrefixInfo_address hc).mp hpi
      exact .inr ⟨hfit.exists_addr_iff.mp ⟨p, hp, haddr.symm⟩, hbits⟩
  · intro hfound
    refine ⟨_, _, (applyDynamic_new_ok hown).mpr ⟨h, addRib_run P c h s, ?_⟩,
      (reported_pfx ..).trans hhint.symm⟩
    obtain ⟨sel, route, routes, hsel, hroutes, -, -⟩ := hpick.pick
    cases hfree : P.nipam.getAvailablePrefixByBitLen s.rib h h.bits with
    | some g =>
      exact .inl ⟨⟨route, sel, routes, hsel, hroutes⟩, _, hhint, P.txt.parse_prefixString h,
        by rw [hfree]; rfl⟩
    | none =>
      rcases hfound with hnone | ⟨hblock, hbits⟩
      · have hsome := hoffered.mpr hnone
        rw [hfree] at hsome
        cases hsome
      · obtain ⟨p, hp, haddr⟩ := hfit.exists_addr_iff.mpr hblock
        refine .inr ⟨S, L, p, ⟨fun text ht => ⟨h, ?_, hfree⟩, hpick⟩, hp,
          (updatePrefixInfo_address hc).mpr ⟨haddr.symm, hbits⟩⟩
        cases hhint.symm.trans ht
        exact P.txt.parse_prefixString h

/-- A hint at a free address of the aggregate. -/
theorem hint_honoured_loopback :
    ∃ c' s', (applyDynamic .reference false (hintClaim "a" "10.0.0.7/32")).run (handler .reference)
      aggregateRib = (.ok c', s') ∧ c'.status.pfx = (hintClaim "a" "10.0.0.7/32").status.pfx :=
  (hint_honoured_iff .reference aggregateRib (hintClaim "a" "10.0.0.7/32")
    ⟨samplePrefix 0 8, kindLabels .aggregate⟩ 32 (samplePrefix 7 32) false Nipam.reference_bestFit rfl
    (by decide +kernel) (by decide +kernel)
    ⟨_, ⟨samplePrefix 0 8, kindLabels .aggregate⟩, [], rfl, by decide +kernel, rfl,
      by decide +kernel⟩).mpr (.inl fun _ _ => Prefix.single_not_strictlyContains (samplePrefix 7 32).addr)

/-- The host `b` gets the address 10.0.0.2 after `a` got 10.0.0.254. In a table without hosts, where
10.0.0.2 is free in the network that the claim selects, it does not get it back. -/
theorem hint_missed :
    ((claim .reference (hostClaim "b")).run (handler .reference)
      (serve .reference networkRib (.claim (hostClaim "a")))).1 =
        .ok (((hostClaim "b").setPrefix "10.0.0.2/24").setGateway "10.0.0.1") ∧
    WithoutRoutes .reference networkRib.rib ((hostClaim "b").setPrefix "10.0.0.2/24") ∧
    networkRib.rib[samplePrefix 2 32]? = none ∧
    ((hostClaim "b").spec.getLabelSelector Platform.reference.refuses).toOption.bind (fun sel =>
      (getSelectedRouteWithPrefixLength (hostClaim "b")
        (Reference.getByLabel networkRib.rib sel) 32).map Route.pfx) = some (samplePrefix 0 24) ∧
    (samplePrefix 0 24).Contains (samplePrefix 2 32) ∧
    ((applyDynamic .reference false ((hostClaim "b").setPrefix "10.0.0.2/24")).run
      (handler .reference) networkRib).1 =
        .ok (((hostClaim "b").setPrefix "10.0.0.254/24").setGateway "10.0.0.1") := by
  decide +kernel

end K8sIpam.Ipam
