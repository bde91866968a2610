import K8sIpam.Ipam.Delete
import K8sIpam.Ipam.Reference

/-! # A delete and the routes inside

A claim that creates prefixes deletes with each of its routes the routes of other resources inside.
It finds its own routes by its owner labels, but tells other resources by the labels in which its
selector overrides them. -/

namespace K8sIpam.Ipam
open Std Atomic Prog Net

variable {P : Platform} {c : IPClaim} {s s' t : RibState} {rib : Rib} {o r : Route}
  {os os' : List Route} {l : Labels} {sel : Selector}

/-- The name and the namespace of the resource that the labels are for. -/
def nsn (l : Labels) : String × String := (l.get nephioNsnNameKey, l.get nephioNsnNamespaceKey)

theorem sameNsn_iff : c.sameNsn l = true ↔ nsn l = nsn c.spec.getFullLabels := by
  simp [IPClaim.sameNsn, nsn]

theorem nsn_of_hasOwner (h : HasOwner c.spec.labels l) : nsn l = nsn c.spec.labels := by
  unfold nsn
  rw [Labels.get_of_getElem? (h nephioNsnNameKey (by decide)),
    Labels.get_of_getElem? (h nephioNsnNamespaceKey (by decide))]

/-- A route of another resource inside a route of the claim. -/
def ForeignInside (rib : Rib) (c : IPClaim) (r : Route) : Prop :=
  c.isCreatePrefix = true ∧ rib.Has r ∧ nsn r.labels ≠ nsn c.spec.labels ∧
    ∃ o, rib.Has o ∧ HasOwner c.spec.labels o.labels ∧ o.pfx.isAddressPrefix = false ∧
      o.pfx.StrictlyContains r.pfx

/-- The loop over the routes of the claim comes to the route `o`, and what comes before its delete
removes the route. -/
def RemovedInside (P : Platform) (s : RibState) (c : IPClaim) (r : Route) : Prop :=
  ∃ sel before o after t, c.spec.getOwnerSelector P.refuses = .ok sel ∧
    P.nipam.getByLabel s.rib sel = before ++ o :: after ∧
    (deleteOwned false c before).run (handler P.nipam) s = (.ok (), t) ∧
    t.rib.Has r ∧ ¬((clearInside c o).run (handler P.nipam) t).2.rib.Has r

/-- The delete has sent an update with the route to the watchers. -/
def Informed (s s' : RibState) (r : Route) : Prop :=
  ∃ us rs, s'.updates = s.updates ++ us ∧ rs ∈ us ∧ r ∈ rs

/-- A delete removes the routes of its owner and those of other resources inside, and informs the
owners of these. -/
structure DeletesForeign (P : Platform) (s : RibState) (c : IPClaim) : Prop where
  removed : ∀ r, RemovedInside P s c r ↔ ForeignInside s.rib c r
  own : ∀ r, RemovedInside P s c r → ¬HasOwner c.spec.labels r.labels
  informed : ∀ r, RemovedInside P s c r →
    Informed s ((delete P false c).run (handler P.nipam) s).2 r
  result : ∀ s', (delete P false c).run (handler P.nipam) s = (.ok (), s') → ∀ r,
    s'.rib.Has r ↔ s.rib.Has r ∧ ¬HasOwner c.spec.labels r.labels ∧ ¬ForeignInside s.rib c r

/-- The labels of the claim tell the routes inside its own ones apart: its owner labels can be
selected by, if there is something to delete; and the selector of a claim that creates prefixes does
not name another resource, unless no route inside belongs to this resource or to the one of the
claim. -/
structure TellsApart (refuses : NewRequirement) (rib : Rib) (c : IPClaim) : Prop where
  accepted : (∃ r, ForeignInside rib c r) → ∃ sel, c.spec.getOwnerSelector refuses = .ok sel
  apart : c.isCreatePrefix = true → (∃ sel, c.spec.getOwnerSelector refuses = .ok sel) →
    nsn c.spec.getFullLabels ≠ nsn c.spec.labels →
    ∀ o r, rib.Has o → HasOwner c.spec.labels o.labels → o.pfx.isAddressPrefix = false →
      rib.Has r → o.pfx.StrictlyContains r.pfx →
      nsn r.labels ≠ nsn c.spec.labels ∧ nsn r.labels ≠ nsn c.spec.getFullLabels

/-! ## The routes that go with a route -/

/-- Updates that have been sent are not taken back. -/
theorem run_updates {α : Type} (p : RibProg α) (t : RibState) :
    ∃ us, (p.run (handler P.nipam) t).2.updates = t.updates ++ us := by
  refine Prog.run_inv (I := fun t' : RibState => ∃ us, t'.updates = t.updates ++ us) ?_ p
    ⟨[], (List.append_nil _).symm⟩
  rintro o t' ⟨us, hus⟩
  cases o with
  | handleUpdate rs => exact ⟨us ++ [rs], by rw [← List.append_assoc, ← hus]; rfl⟩
  | add r | delete r =>
    dsimp only [handler]
    split <;> exact ⟨us, hus⟩
  | _ => exact ⟨us, hus⟩

theorem RemovedInside.goesWith (h : RemovedInside P s c r) :
    s.rib.Has r ∧ ∃ o, s.rib.Has o ∧ HasOwner c.spec.labels o.labels ∧ GoesWith c o r := by
  obtain ⟨sel, before, o, after, t, hsel, hlist, hrun, hr, hgone⟩ := h
  obtain ⟨u, hclear, hu, -⟩ := clearInside_run (P := P) (c := c) o t
  rw [hclear, hu] at hgone
  have ho : o ∈ P.nipam.getByLabel s.rib sel := hlist ▸ List.mem_append_right _ List.mem_cons_self
  obtain ⟨hhas, hown⟩ := (mem_owned hsel).mp ho
  refine ⟨((deleteOwned_ok hrun).mp hr).1, o, hhas, hown, ?_⟩
  by_contra hno
  exact hgone ⟨hr, hno⟩

theorem removedInside_of_first (hsel : c.spec.getOwnerSelector P.refuses = .ok sel)
    (hlist : P.nipam.getByLabel s.rib sel = o :: os) (hr : s.rib.Has r) (hgoes : GoesWith c o r) :
    RemovedInside P s c r := by
  obtain ⟨t, hclear, ht, -⟩ := clearInside_run (P := P) (c := c) o s
  refine ⟨sel, [], o, os, s, hsel, hlist, rfl, hr, ?_⟩
  rw [hclear, ht]
  exact fun hkept => hkept.2 hgoes

theorem RemovedInside.informed (h : RemovedInside P s c r) :
    Informed s ((delete P false c).run (handler P.nipam) s).2 r := by
  obtain ⟨sel, before, o, after, t, hsel, hlist, hrun, hr, hgone⟩ := h
  obtain ⟨u, hclear, hu, hinform⟩ := clearInside_run (P := P) (c := c) o t
  rw [hclear, hu] at hgone
  have hgoes : GoesWith c o r := by
    by_contra hno
    exact hgone ⟨hr, hno⟩
  obtain ⟨rs, hrs, hmem⟩ := hinform r hr hgoes
  have hbefore := run_updates (P := P) (deleteOwned false c before) s
  have hafter := run_updates (P := P) (deleteRest false c o after) u
  rw [hrun] at hbefore
  obtain ⟨us, hus⟩ := hbefore
  obtain ⟨us', hus'⟩ := hafter
  unfold delete
  rw [hsel, lift_ok, ret_bind, run_getByLabel, hlist, deleteOwned_append hrun,
    deleteOwned_cons_clear, run_bind_of_ok _ hclear]
  refine ⟨us ++ [rs] ++ us', rs, ?_, by simp, hmem⟩
  rw [hus', hrs, hus]
  simp

theorem getOwnerSelector_of_delete (h : (delete P false c).run (handler P.nipam) s = (.ok (), s')) :
    ∃ sel, c.spec.getOwnerSelector P.refuses = .ok sel := by
  cases hsel : c.spec.getOwnerSelector P.refuses with
  | ok sel => exact ⟨sel, rfl⟩
  | error e =>
    rw [delete, hsel] at h
    cases h

/-! ## Labels that tell apart -/

/-- For the routes inside a route of the claim, the full labels of the claim say the same as its
own. -/
theorem TellsApart.goesWith_iff (h : TellsApart P.refuses rib c)
    (hsel : c.spec.getOwnerSelector P.refuses = .ok sel) (ho : rib.Has o)
    (hown : HasOwner c.spec.labels o.labels) (hr : rib.Has r) :
    GoesWith c o r ↔ c.isCreatePrefix = true ∧ nsn r.labels ≠ nsn c.spec.labels ∧
      o.pfx.isAddressPrefix = false ∧ o.pfx.StrictlyContains r.pfx := by
  have hsame : c.isCreatePrefix = true → o.pfx.isAddressPrefix = false →
      o.pfx.StrictlyContains r.pfx →
      (c.sameNsn r.labels = false ↔ nsn r.labels ≠ nsn c.spec.labels) := by
    intro hc haddr hin
    rw [← Bool.not_eq_true, sameNsn_iff]
    by_cases hfull : nsn c.spec.getFullLabels = nsn c.spec.labels
    · rw [hfull]
    · obtain ⟨hne, hne'⟩ := h.apart hc ⟨sel, hsel⟩ hfull o r ho hown haddr hr hin
      exact iff_of_true hne' hne
  constructor
  · rintro ⟨hc, haddr, hin, hns⟩
    exact ⟨hc, (hsame hc haddr hin).mp hns, haddr, hin⟩
  · rintro ⟨hc, hns, haddr, hin⟩
    exact ⟨hc, haddr, hin, (hsame hc haddr hin).mpr hns⟩

section
variable (h : TellsApart P.refuses s.rib c) (hsel : c.spec.getOwnerSelector P.refuses = .ok sel)
include h hsel

theorem TellsApart.foreignInside_iff (hr : s.rib.Has r) :
    ForeignInside s.rib c r ↔ ∃ o ∈ P.nipam.getByLabel s.rib sel, GoesWith c o r := by
  constructor
  · rintro ⟨hc, -, hns, o, ho, hown, haddr, hin⟩
    refine ⟨o, (mem_owned hsel).mpr ⟨ho, hown⟩, ?_⟩
    exact (h.goesWith_iff hsel ho hown hr).mpr ⟨hc, hns, haddr, hin⟩
  · rintro ⟨o, ho, hgoes⟩
    obtain ⟨ho, hown⟩ := (mem_owned hsel).mp ho
    obtain ⟨hc, hns, haddr, hin⟩ := (h.goesWith_iff hsel ho hown hr).mp hgoes
    exact ⟨hc, hr, hns, o, ho, hown, haddr, hin⟩

/-- No route of the claim goes with another one. -/
theorem TellsApart.own_stays (ho : o ∈ P.nipam.getByLabel s.rib sel)
    (hr : r ∈ P.nipam.getByLabel s.rib sel) : ¬GoesWith c o r := by
  obtain ⟨hr, hown⟩ := (mem_owned hsel).mp hr
  intro hgoes
  exact ((h.foreignInside_iff hsel hr).mpr ⟨o, ho, hgoes⟩).2.2.1 (nsn_of_hasOwner hown)

/-- A route that goes with routes of the claim is removed with the first of them. -/
theorem TellsApart.removedInside (hr : s.rib.Has r) (hforeign : ForeignInside s.rib c r) :
    RemovedInside P s c r := by
  obtain ⟨o', ho', hgoes'⟩ := (h.foreignInside_iff hsel hr).mp hforeign
  have hfind : ((P.nipam.getByLabel s.rib sel).find? fun o => GoesWith c o r).isSome = true :=
    List.find?_isSome.mpr ⟨o', ho', by simpa using hgoes'⟩
  obtain ⟨o, hfind⟩ := Option.isSome_iff_exists.mp hfind
  obtain ⟨hgoes, before, after, hlist, hbefore⟩ := List.find?_eq_some_iff_append.mp hfind
  have hmem : ∀ o ∈ before, o ∈ P.nipam.getByLabel s.rib sel := fun o ho =>
    hlist ▸ List.mem_append_left _ ho
  have hnodup : before.Nodup :=
    (List.nodup_append.mp (hlist ▸ P.nipam.nodup_getByLabel s.rib sel)).1
  obtain ⟨t, hrun⟩ := deleteOwned_completes (P := P)
    (fun o ho => ((mem_owned hsel).mp (hmem o ho)).1) hnodup
    (fun o ho o' ho' => h.own_stays hsel (hmem o ho) (hmem o' ho'))
  have ht : t.rib.Has r := by
    refine (deleteOwned_ok hrun).mpr ⟨hr, fun o ho => ⟨fun hp => ?_, ?_⟩⟩
    · obtain ⟨hhas, hown⟩ := (mem_owned hsel).mp (hmem o ho)
      obtain rfl := hhas.unique hr hp
      exact hforeign.2.2.1 (nsn_of_hasOwner hown)
    · simpa using hbefore o ho
  obtain ⟨u, hclear, hu, -⟩ := clearInside_run (P := P) (c := c) o t
  refine ⟨sel, before, o, after, t, hsel, hlist, hrun, ht, ?_⟩
  rw [hclear, hu]
  exact fun hkept => hkept.2 (by simpa using hgoes)

end

theorem TellsApart.deletesForeign (h : TellsApart P.refuses s.rib c) : DeletesForeign P s c := by
  have hremoved : ∀ r, RemovedInside P s c r ↔ ForeignInside s.rib c r := by
    intro r
    constructor
    · intro hrem
      obtain ⟨hr, o, ho, hown, hgoes⟩ := hrem.goesWith
      obtain ⟨sel, -, -, -, -, hsel, -⟩ := hrem
      exact (h.foreignInside_iff hsel hr).mpr ⟨o, (mem_owned hsel).mpr ⟨ho, hown⟩, hgoes⟩
    · intro hforeign
      obtain ⟨sel, hsel⟩ := h.accepted ⟨r, hforeign⟩
      exact h.removedInside hsel hforeign.2.1 hforeign
  refine ⟨hremoved, fun r hrem hown => ?_, fun r hrem => hrem.informed, fun s' hrun r => ?_⟩
  · exact ((hremoved r).mp hrem).2.2.1 (nsn_of_hasOwner hown)
  · obtain ⟨sel, hsel⟩ := getOwnerSelector_of_delete hrun
    rw [delete_ok hrun]
    refine and_congr_right fun hr => ?_
    rw [h.foreignInside_iff hsel hr]
    constructor
    · intro hno
      refine ⟨fun hown => (hno r hr hown).1 rfl, ?_⟩
      rintro ⟨o, ho, hgoes⟩
      obtain ⟨ho, hown⟩ := (mem_owned hsel).mp ho
      exact (hno o ho hown).2 hgoes
    · rintro ⟨hnot, hno⟩ o ho hown
      refine ⟨fun hp => hnot ((ho.unique hr hp) ▸ hown), fun hgoes => ?_⟩
      exact hno ⟨o, (mem_owned hsel).mpr ⟨ho, hown⟩, hgoes⟩

/-- A delete removes, in whatever order the routes of its owner are listed, what it should exactly
when its labels tell apart. -/
theorem deletesForeign_iff (P : Platform) (s : RibState) (c : IPClaim) :
    (∀ N : Nipam, DeletesForeign { P with nipam := N } s c) ↔ TellsApart P.refuses s.rib c := by
  constructor
  · intro h
    refine ⟨?_, ?_⟩
    · rintro ⟨r, hforeign⟩
      obtain ⟨sel, -, -, -, -, hsel, -⟩ := ((h P.nipam).removed r).mpr hforeign
      exact ⟨sel, hsel⟩
    · rintro hc ⟨sel, hsel⟩ hfull o r ho hown haddr hr hin
      constructor
      · -- a route of the same resource goes with a route that is listed first
        intro hns
        have hother : c.sameNsn r.labels = false := Bool.eq_false_iff.mpr fun hsame =>
          hfull ((sameNsn_iff.mp hsame).symm.trans hns)
        have hgoes : GoesWith c o r := ⟨hc, haddr, hin, hother⟩
        have hlist : (P.nipam.labelledFirst o).getByLabel s.rib sel =
            o :: (P.nipam.getByLabel s.rib sel).erase o :=
          if_pos ((mem_owned hsel).mpr ⟨ho, hown⟩)
        have hremoved : RemovedInside { P with nipam := P.nipam.labelledFirst o } s c r :=
          removedInside_of_first hsel hlist hr hgoes
        exact (((h _).removed r).mp hremoved).2.2.1 hns
      · -- a route of the resource that the selector names goes with no route
        intro hns
        have hforeign : ForeignInside s.rib c r :=
          ⟨hc, hr, fun heq => hfull (hns.symm.trans heq), o, ho, hown, haddr, hin⟩
        obtain ⟨-, o', -, -, hgoes⟩ := (((h P.nipam).removed r).mpr hforeign).goesWith
        exact absurd (sameNsn_iff.mpr hns) (Bool.eq_false_iff.mp hgoes.2.2.2)
  · intro h N
    have hN : TellsApart ({ P with nipam := N } : Platform).refuses s.rib c := h
    exact hN.deletesForeign

/-- A claim that creates a network and selects by the name of another resource. -/
def linkPrefixClaim : IPClaim :=
  sampleClaim ipClaimGVK "link" .network (some "10.0.0.1/24") none (some true)
    (some ((∅ : Labels).insert nephioNsnNameKey "vpc"))

/-- The table in which the claim has its four routes. -/
def linkPrefixRib : RibState :=
  ribAfter .reference [.claim sampleAggregate, .claim linkPrefixClaim]

/-- The addresses of the network are taken for routes of another resource and removed with it, so
that they are missing when it is their turn. -/
theorem not_deletesForeign :
    ((delete .reference false linkPrefixClaim).run (handler .reference) linkPrefixRib).1 =
      .error (.error "prefix 10.0.0.0/32 not found") ∧
    ¬DeletesForeign .reference linkPrefixRib linkPrefixClaim := by
  refine ⟨by decide +kernel, fun h => ?_⟩
  have hown : ∃ r, linkPrefixRib.rib.Has r ∧ (samplePrefix 0 24).StrictlyContains r.pfx ∧
      linkPrefixClaim.sameNsn r.labels = false ∧
      HasOwner linkPrefixClaim.spec.labels r.labels := by decide +kernel
  obtain ⟨r, hr, hin, hns, hown⟩ := hown
  let owned := Reference.getByLabel linkPrefixRib.rib ⟨linkPrefixClaim.spec.ownerRequirements⟩
  have hfirst : owned.head?.map Route.pfx = some (samplePrefix 0 24) := by decide +kernel
  obtain ⟨o, ho, hpfx⟩ := Option.map_eq_some_iff.mp hfirst
  obtain ⟨os, hlist⟩ := List.head?_eq_some_iff.mp ho
  have hgoes : GoesWith linkPrefixClaim o r := ⟨rfl, by rw [hpfx]; decide, hpfx ▸ hin, hns⟩
  exact h.own r (removedInside_of_first rfl hlist hr hgoes) hown

end K8sIpam.Ipam
