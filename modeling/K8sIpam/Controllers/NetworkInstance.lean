import K8sIpam.Controllers.Cluster
import K8sIpam.Ipam.Single
import K8sIpam.Backend.Failure
import K8sIpam.Backend.Restart

/-! # The controller of network instances

`controllers/ipnetworkinstance`: the prefixes of a network instance are claimed as aggregates, and
those that the status records and the spec no longer has are deleted. -/

namespace K8sIpam.Controllers
open Std Atomic Prog Backend Net
open Ipam (NetworkInstance InstancePrefix NetworkInstanceSpec IPClaim Platform Document MapOrder
  IpamLists RibState Rib Route normalizeKRM)

/-! ## The reconcile -/

inductive IndexRequest where
  | create (cr : NetworkInstance)
  | delete (cr : NetworkInstance)

/-- A claim is made for a prefix of the instance. -/
structure PrefixRequest where
  cr : NetworkInstance
  pfx : InstancePrefix

abbrev InstanceOp := CtrlOp (Object NetworkInstance) IndexRequest PrefixRequest

abbrev InstanceProg := CtrlProg (Object NetworkInstance) IndexRequest PrefixRequest IPClaim

/-- Claim the prefixes one after the other; the status records them when all are claimed. -/
def reconcilePrefixes (o : Object NetworkInstance) : List InstancePrefix → InstanceProg Result
  | [] =>
    finish { o.setConditions [.reconcileSuccess, .ready] with
      cr := { o.cr with status.prefixes := o.cr.spec.prefixes } } ⟨false, 0⟩
  | p :: ps => do
    let res ← CtrlProg.claim ⟨o.cr, p⟩
    match res with
    | .error msg => finish (o.setConditions [.reconcileSuccess, .failed msg]) ⟨false, 5⟩
    | .ok resp =>
      if resp.status.pfx ≠ some p.pfx then
        finish (o.setConditions [.reconcileSuccess, .unknown]) ⟨false, 5⟩
      else reconcilePrefixes o ps

/-- Delete the recorded prefixes that the spec does not have, and go on to those of the spec. -/
def reconcileRemoved (o : Object NetworkInstance) : List InstancePrefix → InstanceProg Result
  | [] => reconcilePrefixes o o.cr.spec.prefixes
  | p :: ps =>
    if p.pfx ∈ o.cr.spec.prefixes.map InstancePrefix.pfx then reconcileRemoved o ps
    else do
      let res ← CtrlProg.deleteClaim ⟨o.cr, p⟩
      match res with
      | .error msg =>
        if tolerated msg then reconcileRemoved o ps
        else finish (o.setConditions [.reconcileError msg, .failed msg]) ⟨false, 0⟩
      | .ok () => reconcileRemoved o ps

def reconcileInstance (o : Object NetworkInstance) : InstanceProg Result :=
  if o.deleted then do
    let res ← CtrlProg.index (.delete o.cr)
    match res with
    | .error msg => finish (o.setConditions [.reconcileError msg, .unknown]) ⟨true, 0⟩
    | .ok () => removeFinalizer o
  else do
    let res ← CtrlProg.addFinalizer
    match res with
    | .error msg => finish (o.setConditions [.reconcileError msg, .unknown]) ⟨true, 0⟩
    | .ok () => do
      let res ← CtrlProg.index (.create o.cr)
      match res with
      | .error msg => finish (o.setConditions [.reconcileError msg, .failed msg]) ⟨true, 0⟩
      | .ok () => reconcileRemoved o o.cr.status.prefixes

def instanceIndex (m : ObjectMeta) : ObjectReference := getCacheID ⟨m.name, m.ns⟩

section
variable {Text : Type} (P : Platform) (yaml : Yaml Document Text) (order : MapOrder)
  (lists : IpamLists)

/-- What the client proxy asks of the backend. A claim that cannot be normalized is not sent. -/
def instanceClient : Client IndexRequest PrefixRequest IPClaim RibState Text where
  index i errs w :=
    match i with
    | .create cr => Backend.createIndex (Ipam.app P yaml order) errs (instanceIndex cr.metadata) lists w
    | .delete cr => Backend.deleteIndex (Ipam.app P yaml order) errs (instanceIndex cr.metadata) w
  claim r errs w :=
    match normalizeKRM P (.networkInstance r.cr r.pfx) with
    | .error e => (.error e, w)
    | .ok c => Backend.claim (Ipam.app P yaml order) errs c w
  deleteClaim r errs w :=
    match normalizeKRM P (.networkInstance r.cr r.pfx) with
    | .error e => (.error e, w)
    | .ok c => Backend.deleteClaim (Ipam.app P yaml order) errs c w

def instanceController : Controller NetworkInstance NetworkInstanceSpec IndexRequest PrefixRequest
    IPClaim RibState Text where
  client := instanceClient P yaml order lists
  reconcile := reconcileInstance
  writeStatus new stored := { stored with status := new.status }
  writeSpec spec cr := { cr with spec }

end

/-! ## The routes of an instance -/

section
variable (P : Platform) (m : ObjectMeta)

/-- The owner labels of the claim for a prefix of an instance. -/
def prefixOwner (s : String) : Labels :=
  addOwnerLabels Ipam.ipClaimGVK { Ipam.ownedBy Ipam.networkInstanceGVK m with
    name := Ipam.getNameFromPrefix s m.name "aggregate" } ∅

/-- The labels are those of a route that an instance claims for a prefix. -/
def InstanceOwned (l : Labels) : Prop := ∃ s, HasOwner (prefixOwner m s) l

/-- The route is the one that the instance claims for the prefix text. -/
def StandsFor (s : String) (r : Route) : Prop :=
  P.txt.parsePrefix s = .ok r.pfx ∧ HasOwner (prefixOwner m s) r.labels

instance (s : String) (r : Route) : Decidable (StandsFor P m s r) :=
  inferInstanceAs (Decidable (_ ∧ _))

/-- Every route of the instance stands for one of the texts. -/
def Listed (texts : List String) (rib : Rib) : Prop :=
  ∀ r, rib.Has r → InstanceOwned m r.labels → ∃ s ∈ texts, StandsFor P m s r

end

section
variable {P : Platform} {m : ObjectMeta} {cr : NetworkInstance} {p : InstancePrefix} {c c' : IPClaim}
  {texts texts' : List String} {s s' : RibState}

theorem Listed.mono {rib : Rib} (h : Listed P m texts rib) (hsub : ∀ s ∈ texts, s ∈ texts') :
    Listed P m texts' rib := by
  intro r hr hown
  obtain ⟨s, hs, hstands⟩ := h r hr hown
  exact ⟨s, hsub s hs, hstands⟩

/-- The claim for a prefix of an instance. -/
structure ClaimOf (P : Platform) (cr : NetworkInstance) (p : InstancePrefix) (c : IPClaim) : Prop where
  kind : c.spec.kind = .aggregate
  pfx : c.spec.pfx = some p.pfx
  parses : ∃ pi, P.txt.parsePrefix p.pfx = .ok pi
  index : c.getCacheID = instanceIndex cr.metadata
  owner : ∀ l, HasOwner c.spec.labels l ↔ HasOwner (prefixOwner cr.metadata p.pfx) l
  complete : ∀ k ∈ ownerKeys, c.spec.labels[k]?.isSome = true

theorem ClaimOf.ne_network (h : ClaimOf P cr p c) : c.spec.kind ≠ .network := by
  rw [h.kind]
  exact nofun

theorem ClaimOf.of_normalize (h : normalizeKRM P (.networkInstance cr p) = .ok c) :
    ClaimOf P cr p c := by
  obtain ⟨pi, hpi, h⟩ := bind_eq_ok.mp h
  have hparse : P.txt.parsePrefix p.pfx = .ok pi := by
    unfold Ipam.newPrefixInfo at hpi
    cases hparse : P.txt.parsePrefix p.pfx with
    | error msg =>
      rw [hparse] at hpi
      cases hpi
    | ok pi' =>
      rw [hparse] at hpi
      cases hpi
      rfl
  obtain rfl := Except.ok.inj h
  refine ⟨rfl, rfl, ⟨pi, hparse⟩, rfl, fun l => ?_, fun k hk => addOwnerLabels_isSome _ _ _ hk⟩
  exact ⟨fun hl => hl.congr fun k hk => addOwnerLabels_getElem? _ _ _ _ hk,
    fun hl => hl.congr fun k hk => addOwnerLabels_getElem? _ _ _ _ hk⟩

theorem ClaimOf.hasOwner (h : ClaimOf P cr p c) {l : Labels} (hl : Ipam.CarriesOwner c l) :
    HasOwner (prefixOwner cr.metadata p.pfx) l := by
  refine (h.owner l).mp fun k hk => ?_
  obtain ⟨v, hv⟩ := Option.isSome_iff_exists.mp (h.complete k hk)
  rw [hl k hk, hv, Labels.get_of_getElem? hv]

/-- A claim for a listed prefix keeps the routes of the instance listed. -/
theorem ClaimOf.claim_listed (h : ClaimOf P cr p c) (hp : p.pfx ∈ texts)
    (hrun : (Ipam.claim P c).run (Ipam.handler P.nipam) s = (.ok c', s'))
    (hs : Listed P cr.metadata texts s.rib) : Listed P cr.metadata texts s'.rib := by
  obtain ⟨pi, hpi⟩ := h.parses
  obtain ⟨q, l, hw⟩ := Ipam.claim_prefix_writesOne h.ne_network h.pfx hpi hrun
  intro r hr hown
  by_cases hq : r.pfx = q
  · have hlabels : r.labels = l := by
      have hr' : s'.rib[r.pfx]? = some r.labels := hr
      rw [hq, hw.stored] at hr'
      exact (Option.some.inj hr').symm
    cases hw.subject with
    | asked hpfx hparse =>
      cases h.pfx.symm.trans hpfx
      exact ⟨p.pfx, hp, hq ▸ hparse, hlabels ▸ h.hasOwner hw.owner⟩
    | @owned _ l₀ _ hl₀ hown₀ =>
      -- the route had the owner labels of the claim, so it was listed
      have hown₁ := (h.owner l₀).mp hown₀
      obtain ⟨s₀, hs₀, hparse, hown₂⟩ := hs ⟨q, l₀⟩ hl₀ ⟨p.pfx, hown₁⟩
      refine ⟨s₀, hs₀, by rw [hq]; exact hparse, ?_⟩
      exact hown₁.agree hown₂ (hlabels ▸ h.hasOwner hw.owner)
  · exact hs r (hw.old r hr hq) hown

/-- A claim that reports its prefix has the route of it. -/
theorem ClaimOf.claim_stands (h : ClaimOf P cr p c)
    (hrun : (Ipam.claim P c).run (Ipam.handler P.nipam) s = (.ok c', s'))
    (hresp : c'.status.pfx = some p.pfx) :
    ∃ r, s'.rib.Has r ∧ StandsFor P cr.metadata p.pfx r := by
  obtain ⟨pi, hpi⟩ := h.parses
  obtain ⟨q, l, hw⟩ := Ipam.claim_prefix_writesOne h.ne_network h.pfx hpi hrun
  have htext : p.pfx = P.txt.prefixString q := Option.some.inj (hresp.symm.trans hw.reported)
  exact ⟨⟨q, l⟩, hw.stored, htext ▸ P.txt.parse_prefixString q, h.hasOwner hw.owner⟩

/-- The prefix of the second text strictly contains the one of the first. -/
def Covers (P : Platform) (inner outer : String) : Prop :=
  ∃ p q, P.txt.parsePrefix inner = .ok p ∧ P.txt.parsePrefix outer = .ok q ∧ q.StrictlyContains p

/-- It keeps the routes of the prefixes that it does not cover. -/
theorem ClaimOf.claim_keeps (h : ClaimOf P cr p c) {t : String}
    (hrun : (Ipam.claim P c).run (Ipam.handler P.nipam) s = (.ok c', s'))
    (hresp : c'.status.pfx = some p.pfx) (hcover : ¬Covers P t p.pfx)
    (ht : ∃ r, s.rib.Has r ∧ StandsFor P cr.metadata t r) :
    ∃ r, s'.rib.Has r ∧ StandsFor P cr.metadata t r := by
  obtain ⟨pi, hpi⟩ := h.parses
  obtain ⟨q, l, hw⟩ := Ipam.claim_prefix_writesOne h.ne_network h.pfx hpi hrun
  obtain ⟨r, hr, hparse, hown⟩ := ht
  have htext : p.pfx = P.txt.prefixString q := Option.some.inj (hresp.symm.trans hw.reported)
  have hq : P.txt.parsePrefix p.pfx = .ok q := htext ▸ P.txt.parse_prefixString q
  by_cases hrq : r.pfx = q
  · refine ⟨⟨q, l⟩, hw.stored, hrq ▸ hparse, ?_⟩
    have hr' : s.rib[q]? = some r.labels := hrq ▸ hr
    cases hw.subject with
    | asked _ _ hnone => cases hnone.symm.trans hr'
    | owned _ hl₀ hown₀ =>
      cases hl₀.symm.trans hr'
      exact ((h.owner _).mp hown₀).agree hown (h.hasOwner hw.owner)
  · exact ⟨r, hw.keep r hr hrq fun hin => hcover ⟨r.pfx, q, hparse, hq, hin⟩, hparse, hown⟩

theorem delete_listed (hs : Listed P m texts s.rib) :
    Listed P m texts ((Ipam.deleteClaim P c).run (Ipam.handler P.nipam) s).2.rib :=
  fun r hr => hs r (Ipam.deleteClaim_has hr)

/-- A delete that succeeds takes a prefix off the list. -/
theorem ClaimOf.delete_drops (h : ClaimOf P cr p c)
    (hrun : (Ipam.deleteClaim P c).run (Ipam.handler P.nipam) s = (.ok (), s'))
    (hs : Listed P cr.metadata (p.pfx :: texts) s.rib) : Listed P cr.metadata texts s'.rib := by
  intro r hr hown
  have hhas : s.rib.Has r := ((Ipam.deleteClaim_ok hrun).mp hr).1
  obtain ⟨t, ht, hstands⟩ := hs r hhas hown
  rcases List.mem_cons.mp ht with rfl | ht
  · exact absurd ((h.owner _).mpr hstands.2) (Ipam.deleteClaim_clears hrun hr)
  · exact ⟨t, ht, hstands⟩

end
end K8sIpam.Controllers
