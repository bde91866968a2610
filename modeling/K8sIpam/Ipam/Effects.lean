import K8sIpam.Ipam.Routes

/-! # What the applicator does to the table

One lemma for each function of the applicator says how it runs alone: what it returns and which
table it leaves. -/

namespace K8sIpam.Ipam
open Std Atomic Prog Net

/-- The table after those of the routes have been added that were not there. -/
def addAll (rib : Rib) (rs : List Route) : Rib :=
  rs.foldl (fun rib r => if r.pfx ∈ rib then rib else rib.insert r.pfx r.labels) rib

/-- The table without the prefixes of the routes. -/
def eraseAll (rib : Rib) (rs : List Route) : Rib :=
  rs.foldl (fun rib r => if r.pfx ∈ rib then rib.erase r.pfx else rib) rib

section
variable {rib : Rib} {p : Prefix} {l : Labels}

theorem mem_of_getElem?_eq_some (h : rib[p]? = some l) : p ∈ rib :=
  ExtTreeMap.isSome_getElem?_iff_mem.mp (by rw [h]; rfl)

theorem not_mem_of_getElem?_eq_none (h : rib[p]? = none) : p ∉ rib := by
  rw [← ExtTreeMap.isSome_getElem?_iff_mem, h]
  exact Bool.false_ne_true

/-- A prefix that is there keeps its labels, another one gets those of the first route for it. -/
theorem addAll_getElem? (rib : Rib) (rs : List Route) (p : Prefix) :
    (addAll rib rs)[p]? = rib[p]?.or ((rs.find? fun r => r.pfx = p).map Route.labels) := by
  induction rs generalizing rib with
  | nil => simp [addAll]
  | cons r rs ih =>
    rw [addAll, List.foldl_cons]
    refine (ih _).trans ?_
    by_cases hp : r.pfx = p
    · subst hp
      split
      next h =>
        obtain ⟨l, hl⟩ := Option.isSome_iff_exists.mp (ExtTreeMap.isSome_getElem?_iff_mem.mpr h)
        rw [hl]
        rfl
      next h => simp [ExtTreeMap.getElem?_eq_none h]
    · rw [List.find?_cons_of_neg (by simpa using hp)]
      split
      · rfl
      · rw [ExtTreeMap.getElem?_insert, if_neg (by simpa using hp)]

theorem has_of_has_addAll {rs : List Route} {r : Route} (h : Rib.Has (addAll rib rs) r) :
    rib.Has r ∨ rib[r.pfx]? = none ∧ r ∈ rs := by
  have h' : (addAll rib rs)[r.pfx]? = some r.labels := h
  rw [addAll_getElem?] at h'
  cases hp : rib[r.pfx]? with
  | some l =>
    rw [hp] at h'
    exact .inl (hp.trans h')
  | none =>
    rw [hp] at h'
    obtain ⟨r', hr', hl⟩ := Option.map_eq_some_iff.mp h'
    have hpfx : r'.pfx = r.pfx := by simpa using List.find?_some hr'
    have heq : r' = r := by
      cases r
      cases r'
      cases hpfx
      cases hl
      rfl
    exact .inr ⟨rfl, heq ▸ List.mem_of_find?_eq_some hr'⟩

theorem addAll_isSome (rib : Rib) {rs : List Route} {r : Route} (hr : r ∈ rs) :
    (addAll rib rs)[r.pfx]?.isSome = true := by
  rw [addAll_getElem?]
  cases rib[r.pfx]? with
  | some l => rfl
  | none =>
    have hsome : (rs.find? fun r' => r'.pfx = r.pfx).isSome = true :=
      List.find?_isSome.mpr ⟨r, hr, by simp⟩
    obtain ⟨r', hr'⟩ := Option.isSome_iff_exists.mp hsome
    rw [hr']
    rfl

theorem eraseAll_getElem? (rib : Rib) (rs : List Route) (p : Prefix) :
    (eraseAll rib rs)[p]? = if ∃ r ∈ rs, r.pfx = p then none else rib[p]? := by
  induction rs generalizing rib with
  | nil => simp [eraseAll]
  | cons r rs ih =>
    rw [eraseAll, List.foldl_cons]
    refine (ih _).trans ?_
    by_cases hp : r.pfx = p
    · subst hp
      have hnone : (if r.pfx ∈ rib then rib.erase r.pfx else rib)[r.pfx]? = none := by
        split
        · simp
        next h => exact ExtTreeMap.getElem?_eq_none h
      rw [hnone]
      simp
    · have hsame : (if r.pfx ∈ rib then rib.erase r.pfx else rib)[p]? = rib[p]? := by
        split
        · rw [ExtTreeMap.getElem?_erase, if_neg (by simpa using hp)]
        · rfl
      rw [hsame]
      simp [hp]

end

section
variable (P : Platform)

theorem addRoutes_run (rs : List Route) (s : RibState) :
    (addRoutes rs).run (handler P.nipam) s = (.ok (), { s with rib := addAll s.rib rs }) := by
  induction rs generalizing s with
  | nil => rfl
  | cons r rs ih =>
    rw [addRoutes_cons, run_op, addAll, List.foldl_cons]
    cases h : s.rib[r.pfx]? with
    | some l =>
      rw [handler_add_of_some h, if_pos (mem_of_getElem?_eq_some h)]
      simp only [if_pos (P.nipam.alreadyExists_contains r.pfx)]
      exact ih s
    | none =>
      rw [handler_add_of_none h, if_neg (not_mem_of_getElem?_eq_none h)]
      exact ih _

/-- The route of a prefix that is not in the table is there after the routes have been added. -/
theorem has_main_addAll {rib : Rib} {c : IPClaim} {pi : Prefix}
    (hfree : rib[mainPrefix c pi]? = none) :
    ∃ l, (addAll rib (getMutatedRoutesWithLabels P.txt c pi))[mainPrefix c pi]? = some l ∧
      CarriesOwner c l := by
  obtain ⟨l, rs, hrs⟩ := mutated_eq_cons P.txt c pi
  refine ⟨l, ?_, carriesOwner_of_mem_mutated (r := ⟨_, l⟩) (hrs ▸ List.mem_cons_self)⟩
  rw [addAll_getElem?, hfree, hrs]
  simp

theorem addAll_held {rib : Rib} {c : IPClaim} {pi : Prefix}
    (hfree : rib[mainPrefix c pi]? = none) :
    ∃ l, (addAll rib (getMutatedRoutesWithLabels P.txt c pi))[mainPrefix c pi]? = some l ∧
      ownerKey l = c.owner := by
  obtain ⟨l, hl, hc⟩ := has_main_addAll P hfree
  exact ⟨l, hl, hc.ownerKey_eq⟩

/-- The gateway of the network of a prefix. -/
def gatewayAt (rib : Rib) (s : String) : String :=
  match P.txt.parsePrefix s with
  | .error _ => ""
  | .ok pi =>
    match IPClaim.getGatewayLabelSelector P.refuses (pi.getSubnetName P.txt) with
    | .error _ => ""
    | .ok selector =>
      match P.nipam.getByLabel rib selector with
      | r :: _ => P.txt.addrString r.pfx.addr
      | [] => ""

theorem getGateway_run (t : String) (s : RibState) :
    (getGateway P t).run (handler P.nipam) s = (.ok (gatewayAt P s.rib t), s) := by
  unfold getGateway gatewayAt
  cases P.txt.parsePrefix t with
  | error msg => rfl
  | ok pi =>
    dsimp only
    cases IPClaim.getGatewayLabelSelector P.refuses (pi.getSubnetName P.txt) with
    | error e => rfl
    | ok selector =>
      dsimp only
      rw [run_getByLabel]
      cases P.nipam.getByLabel s.rib selector <;> rfl

/-- The claim with the status that is reported for a prefix. -/
def reported (rib : Rib) (c : IPClaim) (t : String) : IPClaim :=
  if c.spec.kind = .network ∧ c.isCreatePrefix = false then
    (c.setPrefix t).setGateway (gatewayAt P rib t)
  else c.setPrefix t

theorem reportGateway_run (c : IPClaim) (t : String) (s : RibState) :
    (reportGateway P c t).run (handler P.nipam) s = (.ok (reported P s.rib c t), s) := by
  unfold reportGateway reported
  split
  · rw [run_bind_of_ok _ (getGateway_run P t s)]
    rfl
  · rfl

theorem reported_pfx (rib : Rib) (c : IPClaim) (t : String) :
    (reported P rib c t).status.pfx = some t := by
  unfold reported
  split <;> rfl

theorem addRib_run (c : IPClaim) (pi : Prefix) (s : RibState) :
    (addRib P c pi).run (handler P.nipam) s =
      (.ok (reported P (addAll s.rib (getMutatedRoutesWithLabels P.txt c pi)) c
        (P.txt.prefixString pi)),
        { s with rib := addAll s.rib (getMutatedRoutesWithLabels P.txt c pi) }) := by
  unfold addRib
  rw [run_bind_of_ok _ (addRoutes_run P _ s), reportGateway_run]

/-! ## The prefix of a dynamic claim -/

/-- What the search for a prefix works on: the routes that the claim selects, the length and the
route it picks. -/
structure Picked (rib : Rib) (c : IPClaim) (selected : Route) (b : Nat) : Prop where
  pick : ∃ sel route routes, c.spec.getLabelSelector P.refuses = .ok sel ∧
    P.nipam.getByLabel rib sel = route :: routes ∧ b = getPrefixLengthFromRoute c route ∧
    getSelectedRouteWithPrefixLength c (route :: routes) b = some selected

/-- The prefixes that a dynamic claim of an owner without routes can get: the one it hints at, or
one that it finds. -/
inductive Chosen (rib : Rib) (c : IPClaim) (pi : Prefix) : Prop where
  | hint (t : String) (p : Prefix) (ht : c.status.pfx = some t) (hpi : P.txt.parsePrefix t = .ok pi)
      (hp : P.nipam.getAvailablePrefixByBitLen rib pi pi.bits = some p)
  | search (selected : Route) (b : Nat) (p : Prefix) (hpick : Picked P rib c selected b)
      (hp : P.nipam.getAvailablePrefixByBitLen rib selected.pfx b = some p)
      (hpi : updatePrefixInfo c selected.pfx p b = some pi)

/-- The first of the routes that a claim selects. -/
def FirstSelected (P : Platform) (rib : Rib) (c : IPClaim) (route : Route) : Prop :=
  ∃ sel routes, c.spec.getLabelSelector P.refuses = .ok sel ∧
    P.nipam.getByLabel rib sel = route :: routes

/-- The prefix that a claim hints at is free. -/
def Offered (P : Platform) (rib : Rib) (c : IPClaim) (h : Prefix) : Prop :=
  ∃ text, c.status.pfx = some text ∧ P.txt.parsePrefix text = .ok h ∧
    (P.nipam.getAvailablePrefixByBitLen rib h h.bits).isSome = true

/-- A claim that is not given the prefix that it hints at searches in the route `S` with the
length `L`. -/
structure Searched (P : Platform) (rib : Rib) (c : IPClaim) (S : Route) (L : Nat) : Prop where
  refused : ∀ text, c.status.pfx = some text →
    ∃ h, P.txt.parsePrefix text = .ok h ∧ P.nipam.getAvailablePrefixByBitLen rib h h.bits = none
  picked : Picked P rib c S L

/-! ## Updates -/

theorem updatedLabels_of_not {c : IPClaim} {route : Route} (ps qs : List Route)
    (h : ¬(c.spec.kind = .network ∧ route.pfx.isAddressPrefix = true)) :
    updatedLabels P.txt c route ps = updatedLabels P.txt c route qs := by
  unfold updatedLabels
  dsimp only
  split
  next hk =>
    have haddr : ¬route.pfx.isAddressPrefix = true := fun ha => h ⟨hk, ha⟩
    rw [if_neg haddr, if_neg haddr]
  · rfl
  · rfl

/-- The prefix information after the labels of a route have been made. -/
def updatedInfo (rib : Rib) (c : IPClaim) (pi : Option Prefix) (route : Route) : Option Prefix :=
  if c.spec.kind = .network ∧ route.pfx.isAddressPrefix = true then
    (parentPrefix route (P.nipam.parents rib route.pfx)).or pi
  else pi

theorem getUpdatedLabels_run (c : IPClaim) (pi : Option Prefix) (route : Route) (s : RibState) :
    (getUpdatedLabels P c pi route).run (handler P.nipam) s =
      (.ok (updatedLabels P.txt c route (P.nipam.parents s.rib route.pfx),
        updatedInfo P s.rib c pi route), s) := by
  unfold getUpdatedLabels updatedInfo
  split
  · rfl
  next h =>
    rw [updatedLabels_of_not P [] (P.nipam.parents s.rib route.pfx) h]
    rfl

theorem deleteRoutes_run (rs : List Route) (s : RibState) :
    (deleteRoutes rs).run (handler P.nipam) s = (.ok (), { s with rib := eraseAll s.rib rs }) := by
  induction rs generalizing s with
  | nil => rfl
  | cons r rs ih =>
    rw [deleteRoutes, RibProg.delete_bind, run_op, ih, eraseAll, eraseAll, List.foldl_cons]
    cases h : s.rib[r.pfx]? with
    | some l => simp only [handler, h, if_pos (mem_of_getElem?_eq_some h)]
    | none => simp only [handler, h, if_neg (not_mem_of_getElem?_eq_none h)]

/-- The children of a route that belong to other resources. -/
def foreignChildren (rib : Rib) (c : IPClaim) (p : Prefix) : List Route :=
  (P.nipam.children rib p).filter fun r => !c.sameNsn r.labels

theorem deleteChildren_run (c : IPClaim) (route : Route) (s : RibState) :
    (deleteChildren c route).run (handler P.nipam) s =
      (.ok (), ⟨eraseAll s.rib (foreignChildren P s.rib c route.pfx),
        s.updates ++ [foreignChildren P s.rib c route.pfx]⟩) := by
  unfold deleteChildren
  rw [run_children]
  exact run_bind_of_ok _ (deleteRoutes_run P _ s)

/-! ## Claims -/

section
variable {P} {c c' : IPClaim} {s s' : RibState} {sel : Selector} {route S : Route}
  {routes : List Route} {b : Bool} {p pi : Prefix}

/-- The owner selector finds the routes that carry the owner of the claim. -/
theorem mem_owned {rib : Rib} {o : Route} (hsel : c.spec.getOwnerSelector P.refuses = .ok sel) :
    o ∈ P.nipam.getByLabel rib sel ↔ rib.Has o ∧ HasOwner c.spec.labels o.labels := by
  rw [P.nipam.mem_getByLabel, ClaimLabels.ownerSelector_matches hsel]
  rfl

theorem ownerKey_of_hasOwner {l : Labels} (h : HasOwner c.spec.labels l) : ownerKey l = c.owner :=
  ownerKey_eq_iff.mpr fun k hk => Labels.get_of_getElem? (h k hk)

theorem Picked.selects {rib : Rib} {selected : Route} {n : Nat} (h : Picked P rib c selected n) :
    rib.Has selected ∧ Selects P c selected.labels := by
  obtain ⟨sel, route, routes, hsel, hroutes, -, hpick⟩ := h.pick
  obtain ⟨hhas, hm⟩ := P.nipam.mem_getByLabel.mp (hroutes ▸ mem_of_getSelectedRoute hpick)
  exact ⟨hhas, sel, hsel, hm⟩

/-- The routes of an owner can be several for a created network only. -/
theorem getRoutesByOwner_ok {owned : List Route} :
    (getRoutesByOwner P c).run (handler P.nipam) s = (.ok owned, s') ↔
      s' = s ∧ ∃ own, c.spec.getOwnerSelector P.refuses = .ok own ∧
        owned = P.nipam.getByLabel s.rib own ∧
        (owned.length ≤ 1 ∨ c.isCreatePrefix = true ∧ c.spec.kind = .network) := by
  unfold getRoutesByOwner
  cases hown : c.spec.getOwnerSelector P.refuses with
  | error e => simp
  | ok own =>
    rw [lift_ok, ret_bind, run_getByLabel]
    by_cases hmany : (P.nipam.getByLabel s.rib own).length > 1 ∧
      ¬(c.isCreatePrefix = true ∧ c.spec.kind = .network)
    · rw [if_pos hmany]
      constructor
      · intro h
        cases h
      · rintro ⟨-, own', ⟨⟩, rfl, hlen | hnet⟩
        · exact absurd hmany.1 (Nat.not_lt.mpr hlen)
        · exact absurd hnet hmany.2
    · rw [if_neg hmany]
      constructor
      · intro h
        cases h
        refine ⟨rfl, own, rfl, rfl, ?_⟩
        by_contra hnot
        rw [not_or] at hnot
        exact hmany ⟨Nat.not_le.mp hnot.1, hnot.2⟩
      · rintro ⟨rfl, own', ⟨⟩, rfl, -⟩
        rfl

theorem WithoutRoutes.getRoutesByOwner (hown : WithoutRoutes P s.rib c) :
    (getRoutesByOwner P c).run (handler P.nipam) s = (.ok [], s) := by
  obtain ⟨own, hsel, hnil⟩ := withoutRoutes_iff.mp hown
  exact getRoutesByOwner_ok.mpr ⟨rfl, own, hsel, hnil.symm, .inl (Nat.zero_le 1)⟩

theorem updatePrefixInfo_isSome (hin : S.pfx.Contains p) :
    ∃ pi, updatePrefixInfo c S.pfx p p.bits = some pi := by
  unfold updatePrefixInfo
  split
  · split
    · exact ⟨p, rfl⟩
    · have hle : S.pfx.bits ≤ p.addr.bitLen := hin.2.1.trans p.le
      exact ⟨⟨p.addr, S.pfx.bits, hle⟩, by rw [prefixFrom, dif_pos hle]⟩
  · exact ⟨p, prefixFrom_self p⟩

/-- What is found is added. -/
theorem claimFresh_run_of_available
    (hpick : getSelectedRouteWithPrefixLength c routes (getPrefixLengthFromRoute c route) = some S)
    (hp : P.nipam.getAvailablePrefixByBitLen s.rib S.pfx (getPrefixLengthFromRoute c route) = some p) :
    ∃ pi, updatePrefixInfo c S.pfx p (getPrefixLengthFromRoute c route) = some pi ∧
      (claimFresh P c routes route).run (handler P.nipam) s = (addRib P c pi).run (handler P.nipam) s := by
  obtain ⟨hb, -, hin, -⟩ := P.nipam.available hp
  obtain ⟨pi, hpi⟩ := updatePrefixInfo_isSome (c := c) hin
  rw [hb] at hpi
  refine ⟨pi, hpi, ?_⟩
  unfold claimFresh
  dsimp only
  rw [hpick]
  dsimp only
  rw [run_getAvailablePrefixByBitLen, hp]
  dsimp only
  rw [hpi]

theorem claimFresh_eq_ok :
    (claimFresh P c routes route).run (handler P.nipam) s = (.ok c', s') ↔
      ∃ S p pi, getSelectedRouteWithPrefixLength c routes (getPrefixLengthFromRoute c route) = some S ∧
        P.nipam.getAvailablePrefixByBitLen s.rib S.pfx (getPrefixLengthFromRoute c route) = some p ∧
        updatePrefixInfo c S.pfx p (getPrefixLengthFromRoute c route) = some pi ∧
        (addRib P c pi).run (handler P.nipam) s = (.ok c', s') := by
  constructor
  · intro hrun
    unfold claimFresh at hrun
    dsimp only at hrun
    split at hrun
    · cases hrun
    next S hpick =>
      rw [run_getAvailablePrefixByBitLen] at hrun
      split at hrun
      · cases hrun
      next p hp =>
        split at hrun
        · cases hrun
        next pi hpi => exact ⟨S, p, pi, hpick, hp, hpi, hrun⟩
  · rintro ⟨S, p, pi, hpick, hp, hpi, hadd⟩
    obtain ⟨pi', hpi', hrun⟩ := claimFresh_run_of_available hpick hp
    cases hpi.symm.trans hpi'
    rw [hrun, hadd]

theorem claimFresh_eq_ok_picked (hsel : c.spec.getLabelSelector P.refuses = .ok sel)
    (hroutes : P.nipam.getByLabel s.rib sel = route :: routes) :
    (claimFresh P c (route :: routes) route).run (handler P.nipam) s = (.ok c', s') ↔
      ∃ S L p pi, Picked P s.rib c S L ∧
        P.nipam.getAvailablePrefixByBitLen s.rib S.pfx L = some p ∧
        updatePrefixInfo c S.pfx p L = some pi ∧
        (addRib P c pi).run (handler P.nipam) s = (.ok c', s') := by
  rw [claimFresh_eq_ok]
  constructor
  · rintro ⟨S, p, pi, hpick, hp, hpi, hadd⟩
    exact ⟨S, _, p, pi, ⟨sel, route, routes, hsel, hroutes, rfl, hpick⟩, hp, hpi, hadd⟩
  · rintro ⟨S, L, p, pi, ⟨sel', route', routes', hsel', hroutes', rfl, hpick⟩, hp, hpi, hadd⟩
    cases hsel.symm.trans hsel'
    cases hroutes.symm.trans hroutes'
    exact ⟨S, p, pi, hpick, hp, hpi, hadd⟩

section
variable (hown : WithoutRoutes P s.rib c)
include hown

theorem applyDynamic_run_new (hsel : c.spec.getLabelSelector P.refuses = .ok sel)
    (hroutes : P.nipam.getByLabel s.rib sel = route :: routes) :
    (applyDynamic P b c).run (handler P.nipam) s =
      match c.status.pfx with
      | none => (claimFresh P c (route :: routes) route).run (handler P.nipam) s
      | some text =>
        match P.txt.parsePrefix text with
        | .error msg => (.error (.error msg), s)
        | .ok h =>
          match P.nipam.getAvailablePrefixByBitLen s.rib h h.bits with
          | some _ => (addRib P c h).run (handler P.nipam) s
          | none => (claimFresh P c (route :: routes) route).run (handler P.nipam) s := by
  unfold applyDynamic
  rw [run_bind_of_ok _ hown.getRoutesByOwner]
  unfold getRoutesByLabel
  dsimp only
  rw [hsel]
  dsimp only
  rw [run_getByLabel, hroutes]
  dsimp only
  cases c.status.pfx with
  | none => rfl
  | some text =>
    dsimp only
    cases P.txt.parsePrefix text with
    | error msg => rfl
    | ok h =>
      dsimp only
      rw [run_getAvailablePrefixByBitLen]
      cases P.nipam.getAvailablePrefixByBitLen s.rib h h.bits <;> rfl

/-- A claim that selects no route fails. -/
theorem firstSelected_of_ok (hrun : (applyDynamic P b c).run (handler P.nipam) s = (.ok c', s')) :
    ∃ route, FirstSelected P s.rib c route := by
  unfold applyDynamic at hrun
  rw [run_bind_of_ok _ hown.getRoutesByOwner] at hrun
  unfold getRoutesByLabel at hrun
  dsimp only at hrun
  cases hsel : c.spec.getLabelSelector P.refuses with
  | error e =>
    rw [hsel] at hrun
    cases hrun
  | ok sel =>
    rw [hsel] at hrun
    dsimp only at hrun
    rw [run_getByLabel] at hrun
    cases hroutes : P.nipam.getByLabel s.rib sel with
    | nil =>
      rw [hroutes] at hrun
      cases hrun
    | cons route routes => exact ⟨route, sel, routes, hsel, hroutes⟩

/-- A claim of an owner without routes is given the prefix that it hints at, if that is free, and
otherwise one that it finds. -/
theorem applyDynamic_new_ok :
    (applyDynamic P b c).run (handler P.nipam) s = (.ok c', s') ↔
      ∃ pi, (addRib P c pi).run (handler P.nipam) s = (.ok c', s') ∧
        ((∃ route, FirstSelected P s.rib c route) ∧ Offered P s.rib c pi ∨
          ∃ S L p, Searched P s.rib c S L ∧
            P.nipam.getAvailablePrefixByBitLen s.rib S.pfx L = some p ∧
            updatePrefixInfo c S.pfx p L = some pi) := by
  constructor
  · intro hrun
    obtain ⟨route, sel, routes, hsel, hroutes⟩ := firstSelected_of_ok hown hrun
    rw [applyDynamic_run_new hown hsel hroutes] at hrun
    cases hhint : c.status.pfx with
    | none =>
      rw [hhint] at hrun
      obtain ⟨S, L, p, pi, hpick, hp, hpi, hadd⟩ := (claimFresh_eq_ok_picked hsel hroutes).mp hrun
      exact ⟨pi, hadd, .inr ⟨S, L, p, ⟨fun _ ht => (nomatch hhint.symm.trans ht), hpick⟩, hp, hpi⟩⟩
    | some text =>
      rw [hhint] at hrun
      dsimp only at hrun
      cases hparse : P.txt.parsePrefix text with
      | error msg =>
        rw [hparse] at hrun
        cases hrun
      | ok h =>
        rw [hparse] at hrun
        dsimp only at hrun
        cases hfree : P.nipam.getAvailablePrefixByBitLen s.rib h h.bits with
        | some g =>
          rw [hfree] at hrun
          exact ⟨h, hrun, .inl ⟨⟨route, sel, routes, hsel, hroutes⟩, text, hhint, hparse,
            by rw [hfree]; rfl⟩⟩
        | none =>
          rw [hfree] at hrun
          obtain ⟨S, L, p, pi, hpick, hp, hpi, hadd⟩ := (claimFresh_eq_ok_picked hsel hroutes).mp hrun
          refine ⟨pi, hadd, .inr ⟨S, L, p, ⟨fun text' ht => ?_, hpick⟩, hp, hpi⟩⟩
          cases hhint.symm.trans ht
          exact ⟨h, hparse, hfree⟩
  · rintro ⟨pi, hadd, ⟨⟨route, sel, routes, hsel, hroutes⟩, text, hhint, hparse, hsome⟩ |
      ⟨S, L, p, hsearch, hp, hpi⟩⟩
    · obtain ⟨g, hg⟩ := Option.isSome_iff_exists.mp hsome
      rw [applyDynamic_run_new hown hsel hroutes, hhint]
      dsimp only
      rw [hparse]
      dsimp only
      rw [hg]
      exact hadd
    · obtain ⟨sel, route, routes, hsel, hroutes, -, -⟩ := hsearch.picked.pick
      have hfresh := (claimFresh_eq_ok_picked hsel hroutes).mpr
        ⟨S, L, p, pi, hsearch.picked, hp, hpi, hadd⟩
      rw [applyDynamic_run_new hown hsel hroutes]
      cases hhint : c.status.pfx with
      | none => exact hfresh
      | some text =>
        obtain ⟨h, hparse, hnone⟩ := hsearch.refused text hhint
        dsimp only
        rw [hparse]
        dsimp only
        rw [hnone]
        exact hfresh

end

/-- The selector of a claim that succeeds is accepted. -/
theorem OwnsNothing.withoutRoutes (hnew : OwnsNothing P s.rib c)
    (hrun : (applyDynamic P b c).run (handler P.nipam) s = (.ok c', s')) :
    WithoutRoutes P s.rib c := by
  unfold applyDynamic at hrun
  obtain ⟨owned, t, howned, -⟩ := (run_bind_ok _).mp hrun
  obtain ⟨-, own, hsel, -, -⟩ := getRoutesByOwner_ok.mp howned
  exact ⟨own, by rw [hsel]; rfl, hnew own hsel⟩

/-- A dynamic claim of an owner without routes succeeds by adding the routes of a chosen
prefix. -/
theorem applyDynamic_ok (hown : OwnsNothing P s.rib c)
    (h : (applyDynamic P b c).run (handler P.nipam) s = (.ok c', s')) :
    ∃ pi, Chosen P s.rib c pi ∧ (addRib P c pi).run (handler P.nipam) s = (.ok c', s') := by
  obtain ⟨pi, hadd, ⟨-, text, ht, hparse, hsome⟩ | ⟨S, L, p, hsearch, hp, hpi⟩⟩ :=
    (applyDynamic_new_ok (hown.withoutRoutes h)).mp h
  · obtain ⟨g, hg⟩ := Option.isSome_iff_exists.mp hsome
    exact ⟨pi, .hint text g ht hparse hg, hadd⟩
  · exact ⟨pi, .search S L p hsearch.picked hp hpi, hadd⟩

/-- The message of the validation of a claim with a prefix. -/
def validateMsg (P : Platform) (rib : Rib) (c : IPClaim) (pi : Prefix) : String :=
  if validateInputPrefix P c pi ≠ "" then validateInputPrefix P c pi
  else
    match getRoute rib pi.getIPSubnet with
    | some route => validateExisting c rib pi route
    | none => validateNew P c rib pi

theorem validatePrefix_run (pi : Prefix) :
    (validatePrefix P c pi).run (handler P.nipam) s = (.ok (validateMsg P s.rib c pi), s) := by
  unfold validatePrefix validateMsg
  split
  · rfl
  · rw [run_clone]
    cases getRoute s.rib pi.getIPSubnet <;> rfl

theorem validateInput_of_msg {rib : Rib} {pi : Prefix} (h : validateMsg P rib c pi = "") :
    validateInputPrefix P c pi = "" := by
  unfold validateMsg at h
  split at h
  · exact h
  next hin => exact not_not.mp hin

theorem checked_run (msg : String) (f : Unit → RibProg IPClaim) :
    (checked msg >>= f).run (handler P.nipam) s = (.ok c', s') ↔
      msg = "" ∧ (f ()).run (handler P.nipam) s = (.ok c', s') := by
  unfold checked
  by_cases hmsg : msg = ""
  · subst hmsg
    exact ⟨fun h => ⟨rfl, h⟩, fun h => h.2⟩
  · rw [if_pos hmsg]
    constructor
    · intro h
      cases h
    · exact fun h => absurd h.1 hmsg

theorem claim_dynamic_ok (hpfx : c.spec.pfx = none) :
    (claim P c).run (handler P.nipam) s = (.ok c', s') ↔ validateInputDynamic P c = "" ∧
      (applyDynamic P false c).run (handler P.nipam) s = (.ok c', s') := by
  unfold claim
  rw [hpfx]
  exact checked_run _ _

/-- The prefix of a claim that succeeds can be read. -/
theorem claim_parses {t : String} (hpfx : c.spec.pfx = some t)
    (h : (claim P c).run (handler P.nipam) s = (.ok c', s')) :
    ∃ pi, P.txt.parsePrefix t = .ok pi := by
  unfold claim at h
  rw [hpfx] at h
  dsimp only at h
  cases hpi : P.txt.parsePrefix t with
  | ok pi => exact ⟨pi, rfl⟩
  | error msg =>
    rw [newPrefixInfo, hpi] at h
    cases h

theorem claim_prefix_ok {t : String} {pi : Prefix} (hpfx : c.spec.pfx = some t)
    (hpi : P.txt.parsePrefix t = .ok pi) :
    (claim P c).run (handler P.nipam) s = (.ok c', s') ↔ validateMsg P s.rib c pi = "" ∧
      (applyPrefix P false c pi).run (handler P.nipam) s = (.ok c', s') := by
  unfold claim
  rw [hpfx]
  dsimp only
  rw [newPrefixInfo, hpi, lift_ok, ret_bind, run_bind_of_ok _ (validatePrefix_run pi)]
  exact checked_run _ _

end

end
end K8sIpam.Ipam
