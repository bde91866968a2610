import K8sIpam.Ipam.Again

/-! # The address family of a claim

The backend does not look at the address family of a claim. What is reported has the family of the
route of the owner that it is made up from, of the hint, or of the route that the search picks; and
without a prefix length, the search takes the length of addresses from the first route that the
claim selects. -/

namespace K8sIpam.Ipam
open Std Atomic Prog Net

variable {P : Platform} {s s' : RibState} {rib : Rib} {c c' : IPClaim} {b : Bool} {S route : Route}
  {L : Nat} {f : Family} {p pi : Prefix}

/-- The claim reports a prefix of the family. -/
def ReportsFamily (P : Platform) (c : IPClaim) (f : Family) : Prop :=
  ∃ q : Prefix, c.status.pfx = some (P.txt.prefixString q) ∧ q.family = f

/-- A dynamic claim that succeeds reports a prefix of its address family; without an address family,
a search is for an address of the family of the route that it looks into. -/
structure RespectsFamily (P : Platform) (initializing : Bool) (s : RibState) (c : IPClaim) :
    Prop where
  status : ∀ f, c.spec.addressFamily = some f → ∀ c' s',
    (applyDynamic P initializing c).run (handler P.nipam) s = (.ok c', s') → ReportsFamily P c' f
  length : c.spec.addressFamily = none → WithoutRoutes P s.rib c →
    ∀ S L, Searched P s.rib c S L → L = S.pfx.addr.bitLen

/-- What the claim reports is made from prefixes of the family: the route of its owner that is
reported, the hint that it is given, and the route that it finds a prefix in. -/
structure FamilyGiven (P : Platform) (rib : Rib) (c : IPClaim) (f : Family) : Prop where
  owned : ∀ sel, c.spec.getOwnerSelector P.refuses = .ok sel →
    MayOwn c (P.nipam.getByLabel rib sel) →
    ∀ o, updatedRoute rib c (P.nipam.getByLabel rib sel) = some o → o.pfx.family = f
  hint : WithoutRoutes P rib c → (∃ route, FirstSelected P rib c route) →
    ∀ h, Offered P rib c h → h.family = f
  search : WithoutRoutes P rib c → ∀ S L, Searched P rib c S L →
    (P.nipam.getAvailablePrefixByBitLen rib S.pfx L).isSome = true → S.pfx.family = f

/-- The length of a search is that of the addresses of the route that it looks into: the first route
that the claim selects is of the same family, or the prefix length is given so. -/
def LengthGiven (P : Platform) (rib : Rib) (c : IPClaim) : Prop :=
  WithoutRoutes P rib c → ∀ route S L, FirstSelected P rib c route → Searched P rib c S L →
    match c.spec.prefixLength with
    | none => route.pfx.family = S.pfx.family
    | some n => n.toNat = S.pfx.addr.bitLen

/-! ## What is reported -/

theorem reportsFamily_iff {c' : IPClaim} (h : c'.status.pfx = some (P.txt.prefixString pi)) :
    ReportsFamily P c' f ↔ pi.family = f := by
  constructor
  · rintro ⟨q, hq, hf⟩
    rw [h, Option.some.injEq] at hq
    rwa [P.txt.prefixString_injective hq]
  · exact fun hf => ⟨pi, h, hf⟩

theorem addRib_reportsFamily (h : (addRib P c pi).run (handler P.nipam) s = (.ok c', s')) :
    ReportsFamily P c' f ↔ pi.family = f := by
  rw [addRib_run] at h
  cases h
  exact reportsFamily_iff (reported_pfx P _ c _)

theorem updatePrefixInfo_family (hp : P.nipam.getAvailablePrefixByBitLen rib S.pfx L = some p)
    (hpi : updatePrefixInfo c S.pfx p L = some pi) : pi.family = S.pfx.family := by
  obtain ⟨hb, -, hin, -⟩ := P.nipam.available hp
  subst hb
  exact (congrArg Addr.family (updatePrefixInfo_cases hpi).1).trans hin.1.symm

/-- The owner has routes. -/
theorem applyDynamic_owned_family {sel : Selector} (hdyn : c.spec.pfx = none)
    (hsel : c.spec.getOwnerSelector P.refuses = .ok sel)
    (hmay : MayOwn c (P.nipam.getByLabel s.rib sel)) {o : Route}
    (ho : updatedRoute s.rib c (P.nipam.getByLabel s.rib sel) = some o) :
    ∃ c' s', (applyDynamic P b c).run (handler P.nipam) s = (.ok c', s') ∧
      ∀ f, ReportsFamily P c' f ↔ o.pfx.family = f := by
  cases hos : P.nipam.getByLabel s.rib sel with
  | nil =>
    rw [hos] at ho
    unfold updatedRoute at ho
    split at ho <;> cases ho
  | cons o₀ os =>
    have hhas : ∀ r ∈ o₀ :: os, s.rib.Has r := fun r hr =>
      (P.nipam.mem_getByLabel.mp (hos ▸ hr)).1
    obtain ⟨q, s', hupd, haddr⟩ := updateRib_reports (P := P) b hdyn hhas
    rw [hos] at ho hmay
    rw [ho, Option.map_some, Option.some.injEq] at haddr
    refine ⟨_, s', (applyDynamic_owned hsel hos hmay).trans hupd, fun f => ?_⟩
    rw [reportsFamily_iff (reported_pfx P _ c _)]
    exact iff_of_eq (congrArg (· = f) (congrArg Addr.family haddr.symm))

theorem updatedRoute_isSome (rib : Rib) (c : IPClaim) {os : List Route} (h : os ≠ []) :
    ∃ o, updatedRoute rib c os = some o := by
  obtain ⟨o, os, rfl⟩ := List.exists_cons_of_ne_nil h
  unfold updatedRoute
  split
  · cases lastParented rib (o :: os) <;> exact ⟨_, rfl⟩
  · exact ⟨o, rfl⟩

/-- A claim that succeeds reports a prefix of the family, exactly if what it is made from is. -/
theorem familyGiven_iff (hdyn : c.spec.pfx = none) :
    (∀ c' s', (applyDynamic P b c).run (handler P.nipam) s = (.ok c', s') → ReportsFamily P c' f) ↔
      FamilyGiven P s.rib c f := by
  constructor
  · intro h
    refine ⟨fun sel hsel hmay o ho => ?_, fun hnew hsel g hg => ?_,
      fun hnew S L hsearch hsome => ?_⟩
    · obtain ⟨c', s', hrun, hfam⟩ := applyDynamic_owned_family (P := P) (b := b) hdyn hsel hmay ho
      exact (hfam f).mp (h c' s' hrun)
    · have hadd := addRib_run P c g s
      exact (addRib_reportsFamily hadd).mp
        (h _ _ ((applyDynamic_new_ok hnew).mpr ⟨g, hadd, .inl ⟨hsel, hg⟩⟩))
    · obtain ⟨p, hp⟩ := Option.isSome_iff_exists.mp hsome
      obtain ⟨hb, -, hin, -⟩ := P.nipam.available hp
      obtain ⟨pi, hpi⟩ := updatePrefixInfo_isSome (c := c) hin
      rw [hb] at hpi
      have hadd := addRib_run P c pi s
      rw [← updatePrefixInfo_family hp hpi]
      exact (addRib_reportsFamily hadd).mp
        (h _ _ ((applyDynamic_new_ok hnew).mpr ⟨pi, hadd, .inr ⟨S, L, p, hsearch, hp, hpi⟩⟩))
  · intro h c' s' hrun
    obtain ⟨sel, hsel, -, ⟨hnil, -⟩ | ⟨hne, hmay, -⟩⟩ := applyDynamic_cases hrun
    · have hnew : WithoutRoutes P s.rib c := withoutRoutes_iff.mpr ⟨sel, hsel, hnil⟩
      obtain ⟨pi, hadd, ⟨hfirst, hoff⟩ | ⟨S, L, p, hsearch, hp, hpi⟩⟩ :=
        (applyDynamic_new_ok hnew).mp hrun
      · exact (addRib_reportsFamily hadd).mpr (h.hint hnew hfirst pi hoff)
      · rw [addRib_reportsFamily hadd, updatePrefixInfo_family hp hpi]
        exact h.search hnew S L hsearch (by rw [hp]; rfl)
    · obtain ⟨o, ho⟩ := updatedRoute_isSome s.rib c hne
      obtain ⟨c'', s'', hrun', hfam⟩ :=
        applyDynamic_owned_family (P := P) (b := b) hdyn hsel hmay ho
      cases hrun.symm.trans hrun'
      exact (hfam f).mpr (h.owned sel hsel hmay o ho)

/-! ## The length of a search -/

theorem bitLen_injective : Function.Injective Family.bitLen := by
  intro f g h
  cases f <;> cases g
  · rfl
  · cases h
  · cases h
  · rfl

theorem getPrefixLengthFromRoute_eq_iff :
    getPrefixLengthFromRoute c route = S.pfx.addr.bitLen ↔
      match c.spec.prefixLength with
      | none => route.pfx.family = S.pfx.family
      | some n => n.toNat = S.pfx.addr.bitLen := by
  unfold getPrefixLengthFromRoute
  cases c.spec.prefixLength with
  | none => exact bitLen_injective.eq_iff
  | some n => exact Iff.rfl

theorem lengthGiven_iff :
    (WithoutRoutes P rib c → ∀ S L, Searched P rib c S L → L = S.pfx.addr.bitLen) ↔
      LengthGiven P rib c := by
  unfold LengthGiven
  refine forall_congr' fun _ => ⟨fun h route S L hfirst hsearch => ?_, fun h S L hsearch => ?_⟩
  · rw [← getPrefixLengthFromRoute_eq_iff, ← h S L hsearch]
    obtain ⟨sel, routes, hsel, hroutes⟩ := hfirst
    obtain ⟨sel', route', routes', hsel', hroutes', hL, -⟩ := hsearch.picked.pick
    cases hsel.symm.trans hsel'
    cases hroutes.symm.trans hroutes'
    exact hL.symm
  · obtain ⟨sel, route, routes, hsel, hroutes, hL, -⟩ := hsearch.picked.pick
    rw [hL, getPrefixLengthFromRoute_eq_iff]
    exact h route S L ⟨sel, routes, hsel, hroutes⟩ hsearch

/-- The address family of a dynamic claim is respected exactly if the table and the hint happen to
give it: nothing else is looked at. -/
theorem respectsFamily_iff (P : Platform) (s : RibState) (c : IPClaim) (initializing : Bool)
    (hdyn : c.spec.pfx = none) :
    RespectsFamily P initializing s c ↔
      (∀ f, c.spec.addressFamily = some f → FamilyGiven P s.rib c f) ∧
        (c.spec.addressFamily = none → LengthGiven P s.rib c) := by
  constructor
  · exact fun h => ⟨fun f hf => (familyGiven_iff hdyn).mp (h.status f hf),
      fun hnone => lengthGiven_iff.mp (h.length hnone)⟩
  · exact fun h => ⟨fun f hf => (familyGiven_iff hdyn).mpr (h.1 f hf),
      fun hnone => lengthGiven_iff.mpr (h.2 hnone)⟩

/-- A claim of an address of the family for a loopback. -/
def familyClaim (f : Family) : IPClaim :=
  { anyAddressClaim .loopback with
    spec := { (anyAddressClaim .loopback).spec with addressFamily := some f } }

theorem respectsFamily_ipv4 : RespectsFamily .reference false dualStackRib (familyClaim .ipv4) := by
  have hpick : Picked .reference dualStackRib.rib (familyClaim .ipv4)
      ⟨samplePrefix 0 8, kindLabels .aggregate⟩ 32 :=
    ⟨_, ⟨samplePrefix 0 8, kindLabels .aggregate⟩, [⟨sampleIPv6 16, kindLabels .network⟩], rfl,
      by decide +kernel, rfl, by decide +kernel⟩
  refine (respectsFamily_iff .reference dualStackRib (familyClaim .ipv4) false rfl).mpr ⟨?_, nofun⟩
  rintro f ⟨⟩
  refine ⟨fun sel hsel _ o ho => ?_, fun _ _ h hoff => ?_, fun _ S L hsearch _ => ?_⟩
  · have hown : OwnsNothing .reference dualStackRib.rib (familyClaim .ipv4) := by decide +kernel
    rw [hown sel hsel] at ho
    cases ho
  · obtain ⟨text, ht, -⟩ := hoff
    cases ht
  · obtain ⟨rfl, rfl⟩ := hsearch.picked.unique hpick
    rfl

/-- A claim of an IPv6 address is given one of IPv4; and a claim of an address of any family looks
for a prefix of the length 32 in an IPv6 route. -/
theorem family_not_respected :
    (∃ r, dualStackRib.rib.Has r ∧ r.pfx.family = .ipv4) ∧
    (∃ r, dualStackRib.rib.Has r ∧ r.pfx.family = .ipv6) ∧
    validateInputDynamic .reference (familyClaim .ipv6) = "" ∧
    ((applyDynamic .reference false (familyClaim .ipv6)).run (handler .reference)
      dualStackRib).1 = .ok ((familyClaim .ipv6).setPrefix "10.0.0.0/32") ∧
    ¬RespectsFamily .reference false dualStackRib (familyClaim .ipv6) ∧
    validateInputDynamic .reference (anyAddressClaim .network) = "" ∧
    Searched .reference dualStackRib.rib (anyAddressClaim .network)
      ⟨sampleIPv6 16, kindLabels .network⟩ 32 ∧
    ¬RespectsFamily .reference false dualStackRib (anyAddressClaim .network) := by
  have hrun : ((applyDynamic .reference false (familyClaim .ipv6)).run (handler .reference)
      dualStackRib).1 = .ok ((familyClaim .ipv6).setPrefix "10.0.0.0/32") := by decide +kernel
  have hsearch : Searched .reference dualStackRib.rib (anyAddressClaim .network)
      ⟨sampleIPv6 16, kindLabels .network⟩ 32 :=
    ⟨nofun, _, ⟨samplePrefix 0 8, kindLabels .aggregate⟩, [⟨sampleIPv6 16, kindLabels .network⟩],
      rfl, by decide +kernel, rfl, by decide +kernel⟩
  refine ⟨by decide +kernel, by decide +kernel, by decide, hrun, fun h => ?_, by decide, hsearch,
    fun h => ?_⟩
  · have hf := h.status .ipv6 rfl _ _ (Prod.ext hrun rfl)
    have hpi : ((familyClaim .ipv6).setPrefix "10.0.0.0/32").status.pfx =
        some (Platform.reference.txt.prefixString (samplePrefix 0 32)) := by decide +kernel
    exact absurd ((reportsFamily_iff hpi).mp hf) (by decide)
  · exact absurd (h.length rfl (by decide +kernel) _ _ hsearch) (by decide)

end K8sIpam.Ipam
