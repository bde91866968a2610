import K8sIpam.Ipam.Gateway
import K8sIpam.Ipam.Unchanged

/-! # Reading a claim back

`getter.go` and `GetClaim`: the claim is looked up by the selector of the user, where `Claim` looks
it up by the labels of its owner. Does the one return what the other has reported? -/

namespace K8sIpam.Ipam
open Std Atomic Prog Net

section
variable (P : Platform)

/-- The first route that the selector of the claim finds. A claim that finds nothing keeps its
status. -/
def getIPClaim (c : IPClaim) : RibProg IPClaim := do
  let labelSelector ← lift (c.spec.getLabelSelector P.refuses)
  let routes ← RibProg.getByLabel labelSelector
  match routes with
  | [] => return c
  | r :: _ => reportGateway P c (P.txt.prefixString r.pfx)

/-- The prefix of a claim is only read. -/
def getClaim (cr : IPClaim) : RibProg IPClaim :=
  match cr.spec.pfx with
  | none => getIPClaim P cr
  | some s => do
    let _ ← lift (newPrefixInfo P s)
    getIPClaim P cr

/-- A `GetClaim` that follows a claim returns its prefix and its gateway, and no prefix that another
owner holds, when the table lists its routes as `N` does. -/
def GetAgrees (N : Nipam) (c c' : IPClaim) (s' : RibState) : Prop :=
  ∃ c'', (getClaim P c).run (handler N) s' = (.ok c'', s') ∧ c''.status = c'.status ∧
    ∀ r, s'.rib.Has r → c''.status.pfx = some (P.txt.prefixString r.pfx) → CarriesOwner c r.labels

/-- The table lists the routes that the selector of the claim matches in another order. -/
def Relists (c : IPClaim) (N : Nipam) : Prop :=
  ∀ rib sel, c.spec.getLabelSelector P.refuses ≠ .ok sel →
    N.getByLabel rib sel = P.nipam.getByLabel rib sel

/-- What a table holds of a claim is what the claim was answered: the routes that its selector
matches have the prefix of the answer, or there are none and the request has had the answer in its
status; and the route of that prefix is the owner's. -/
structure ReadsBack (rib : Rib) (c c' : IPClaim) (sel : Selector) : Prop where
  selector : c.spec.getLabelSelector P.refuses = .ok sel
  found : ∀ r, rib.Has r → sel.Matches r.labels = true →
    c'.status.pfx = some (P.txt.prefixString r.pfx)
  echoed : (∀ r, rib.Has r → sel.Matches r.labels = false) → c.status = c'.status
  owner : ∀ r, rib.Has r → c'.status.pfx = some (P.txt.prefixString r.pfx) → CarriesOwner c r.labels

end

variable {P : Platform} {c c' : IPClaim} {s s' : RibState} {N : Nipam} {sel : Selector} {rib : Rib}

/-! ## The order of the listing -/

/-- A list with one of its members moved to the front. -/
def moveFirst {α : Type} [DecidableEq α] (a : α) (l : List α) : List α :=
  if a ∈ l then a :: l.erase a else l

theorem moveFirst_perm {α : Type} [DecidableEq α] (a : α) (l : List α) : (moveFirst a l).Perm l := by
  unfold moveFirst
  split
  next h => exact (List.perm_cons_erase h).symm
  · exact .refl l

/-- A table that lists a route before the others that a selector matches. -/
def Nipam.listFirst (N : Nipam) (sel : Selector) (r : Route) : Nipam :=
  { N with
    getByLabel := fun rib sel' =>
      if sel' = sel then moveFirst r (N.getByLabel rib sel') else N.getByLabel rib sel'
    mem_getByLabel := by
      intro rib sel' r'
      split
      · rw [(moveFirst_perm r _).mem_iff, N.mem_getByLabel]
      · exact N.mem_getByLabel
    nodup_getByLabel := by
      intro rib sel'
      split
      · exact (moveFirst_perm r _).nodup_iff.mpr (N.nodup_getByLabel rib sel')
      · exact N.nodup_getByLabel rib sel' }

theorem relists_listFirst (hsel : c.spec.getLabelSelector P.refuses = .ok sel) (r : Route) :
    Relists P c (P.nipam.listFirst sel r) := by
  intro rib sel' hne
  refine if_neg fun h => hne ?_
  rw [hsel, h]

theorem getByLabel_listFirst {r : Route} (hr : rib.Has r) (hm : sel.Matches r.labels = true) :
    ∃ rs, (N.listFirst sel r).getByLabel rib sel = r :: rs :=
  ⟨_, (if_pos rfl).trans (if_pos (N.mem_getByLabel.mpr ⟨hr, hm⟩))⟩

theorem getIPClaim_run (N : Nipam) (hsel : c.spec.getLabelSelector P.refuses = .ok sel) :
    (getIPClaim P c).run (handler N) s =
      (.ok (match N.getByLabel s.rib sel with
        | [] => c
        | r :: _ => reported { P with nipam := N } s.rib c (P.txt.prefixString r.pfx)), s) := by
  unfold getIPClaim
  rw [hsel, lift_ok, ret_bind, run_getByLabel]
  cases N.getByLabel s.rib sel with
  | nil => rfl
  | cons r rs => exact reportGateway_run { P with nipam := N } c _ s

/-- The prefix of a claim that has succeeded can be read. -/
theorem getClaim_eq (h : (claim P c).run (handler P.nipam) s = (.ok c', s')) :
    getClaim P c = getIPClaim P c := by
  unfold getClaim
  cases hpfx : c.spec.pfx with
  | none => rfl
  | some t =>
    obtain ⟨pi, hpi⟩ := claim_parses hpfx h
    dsimp only
    rw [newPrefixInfo, hpi]
    rfl

/-- Where one route at most matches, the order is no matter. -/
theorem getByLabel_eq_of_unique (N N' : Nipam)
    (h : ∀ r r', rib.Has r → rib.Has r' → sel.Matches r.labels = true → sel.Matches r'.labels = true →
      r = r') : N.getByLabel rib sel = N'.getByLabel rib sel := by
  have hperm : (N.getByLabel rib sel).Perm (N'.getByLabel rib sel) :=
    (List.perm_ext_iff_of_nodup (N.nodup_getByLabel ..) (N'.nodup_getByLabel ..)).mpr fun r => by
      rw [N.mem_getByLabel, N'.mem_getByLabel]
  have hmem : ∀ r ∈ N'.getByLabel rib sel, ∀ r' ∈ N'.getByLabel rib sel, r = r' := by
    intro r hr r' hr'
    obtain ⟨hr, hm⟩ := N'.mem_getByLabel.mp hr
    obtain ⟨hr', hm'⟩ := N'.mem_getByLabel.mp hr'
    exact h r r' hr hr' hm hm'
  match hl : N'.getByLabel rib sel, N'.nodup_getByLabel rib sel with
  | [], _ => rw [hl] at hperm; exact hperm.eq_nil
  | [r], _ => rw [hl] at hperm; exact List.perm_singleton.mp hperm
  | r :: r' :: rs, hnd =>
    rw [hl] at hmem
    obtain rfl : r = r' := hmem r List.mem_cons_self r' (List.mem_cons_of_mem _ List.mem_cons_self)
    exact absurd List.mem_cons_self (List.nodup_cons.mp hnd).1

theorem gatewayAt_relists (hN : Relists P c N) (hsel : c.spec.getLabelSelector P.refuses = .ok sel)
    (hlist : N.getByLabel rib sel = P.nipam.getByLabel rib sel) (t : String) :
    gatewayAt { P with nipam := N } rib t = gatewayAt P rib t := by
  have hall : ∀ sel', N.getByLabel rib sel' = P.nipam.getByLabel rib sel' := by
    intro sel'
    by_cases h : sel' = sel
    · rw [h, hlist]
    · refine hN rib sel' fun heq => h ?_
      exact Except.ok.inj (heq.symm.trans hsel)
  unfold gatewayAt
  simp only [hall]

/-- A reading that agrees in every order is of a table that holds the answer. -/
theorem readsBack_of_agrees (h : (claim P c).run (handler P.nipam) s = (.ok c', s'))
    (hall : ∀ N, Relists P c N → GetAgrees P N c c' s') : ∃ sel, ReadsBack P s'.rib c c' sel := by
  have hself := hall P.nipam fun _ _ _ => rfl
  unfold GetAgrees at hall hself
  rw [getClaim_eq h] at hall hself
  obtain ⟨c₀, hrun, hstatus, howner⟩ := hself
  cases hsel : c.spec.getLabelSelector P.refuses with
  | error e =>
    unfold getIPClaim at hrun
    rw [hsel] at hrun
    cases hrun
  | ok sel =>
    rw [hstatus] at howner
    refine ⟨sel, hsel, fun r hr hm => ?_, fun hnone => ?_, howner⟩
    · -- the table may list this route first
      obtain ⟨c'', hrun', hstatus', -⟩ := hall _ (relists_listFirst hsel r)
      obtain ⟨rs, hrs⟩ := getByLabel_listFirst (N := P.nipam) hr hm
      rw [getIPClaim_run _ hsel, hrs] at hrun'
      obtain rfl := Except.ok.inj (Prod.mk.inj hrun').1
      rw [← hstatus', reported_pfx]
    · have hnil : P.nipam.getByLabel s'.rib sel = [] :=
        List.eq_nil_iff_forall_not_mem.mpr fun r hr => by
          obtain ⟨hr, hm⟩ := P.nipam.mem_getByLabel.mp hr
          rw [hnone r hr] at hm
          cases hm
      rw [getIPClaim_run _ hsel, hnil] at hrun
      obtain rfl := Except.ok.inj (Prod.mk.inj hrun).1
      exact hstatus

theorem ReadsBack.agrees (h : (claim P c).run (handler P.nipam) s = (.ok c', s'))
    (hback : ReadsBack P s'.rib c c' sel) (hN : Relists P c N) : GetAgrees P N c c' s' := by
  obtain ⟨t, hc'⟩ := claim_reported h
  have hsel := hback.selector
  have hunique : ∀ r r', s'.rib.Has r → s'.rib.Has r' → sel.Matches r.labels = true →
      sel.Matches r'.labels = true → r = r' := by
    intro r r' hr hr' hm hm'
    have htext := (hback.found r hr hm).symm.trans (hback.found r' hr' hm')
    have hpfx := P.txt.prefixString_injective (Option.some.inj htext)
    obtain ⟨p, l⟩ := r
    obtain ⟨p', l'⟩ := r'
    obtain rfl : p = p' := hpfx
    obtain rfl : l = l' := Option.some.inj (hr.symm.trans hr')
    rfl
  have hlist : N.getByLabel s'.rib sel = P.nipam.getByLabel s'.rib sel :=
    getByLabel_eq_of_unique N P.nipam hunique
  unfold GetAgrees
  rw [getClaim_eq h, getIPClaim_run N hsel]
  cases hl : N.getByLabel s'.rib sel with
  | nil =>
    have hstatus : c.status = c'.status := hback.echoed fun r hr => by
      by_contra hm
      have hmem := N.mem_getByLabel.mpr ⟨hr, Bool.not_eq_false _ ▸ hm⟩
      rw [hl] at hmem
      cases hmem
    exact ⟨c, rfl, hstatus, hstatus ▸ hback.owner⟩
  | cons r rs =>
    obtain ⟨hr, hm⟩ := N.mem_getByLabel.mp (hl ▸ List.mem_cons_self (a := r))
    have htext := hback.found r hr hm
    have hsame : reported { P with nipam := N } s'.rib c (P.txt.prefixString r.pfx) = c' := by
      rw [hc', reported_pfx] at htext
      rw [hc', ← Option.some.inj htext]
      unfold reported
      rw [gatewayAt_relists hN hsel hlist]
    dsimp only
    rw [hsame]
    exact ⟨c', rfl, rfl, hback.owner⟩

/-! ## The table that a claim leaves -/

/-- In terms of the table before: the old routes and the new ones that the selector matches are at
the prefix that is reported, an old route there is the owner's, and if none matches, the request has
the status that is reported. -/
structure NewReadsBack (P : Platform) (rib : Rib) (c c' : IPClaim) (pi : Prefix) (sel : Selector) :
    Prop where
  selector : c.spec.getLabelSelector P.refuses = .ok sel
  old : ∀ r, rib.Has r → sel.Matches r.labels = true → r.pfx = pi
  new : ∀ r, Added P rib c pi r → sel.Matches r.labels = true → r.pfx = pi
  echoed : (∀ r, rib.Has r → sel.Matches r.labels = false) →
    (∀ r, Added P rib c pi r → sel.Matches r.labels = false) → c.status = c'.status
  owner : ∀ l, rib[pi]? = some l → CarriesOwner c l

theorem Adds.readsBack_iff {pi : Prefix} (hadds : Adds P s.rib c pi)
    (h : (claim P c).run (handler P.nipam) s = (.ok c', s')) :
    ReadsBack P s'.rib c c' sel ↔ NewReadsBack P s.rib c c' pi sel := by
  have hrun := hadds.claim_eq h
  rw [addRib_run] at hrun
  obtain ⟨hok, rfl⟩ := Prod.mk.inj hrun
  have hpfx : c'.status.pfx = some (P.txt.prefixString pi) := by
    rw [← Except.ok.inj hok, reported_pfx]
  have htext : ∀ r : Route, c'.status.pfx = some (P.txt.prefixString r.pfx) ↔ r.pfx = pi := by
    intro r
    rw [hpfx, Option.some.injEq]
    exact ⟨fun heq => (P.txt.prefixString_injective heq).symm, fun heq => by rw [heq]⟩
  constructor
  · rintro ⟨hsel, hfound, hecho, howner⟩
    refine ⟨hsel, fun r hr hm => ?_, fun r hr hm => ?_, fun hold hnew => ?_, fun l hl => ?_⟩
    · exact (htext r).mp (hfound r (has_addAll_iff.mpr (.inl hr)) hm)
    · exact (htext r).mp (hfound r (has_addAll_iff.mpr (.inr hr)) hm)
    · exact hecho fun r hr => (has_addAll_iff.mp hr).elim (hold r) (hnew r)
    · exact howner ⟨pi, l⟩ (has_addAll_iff.mpr (.inl hl)) hpfx
  · rintro ⟨hsel, hold, hnew, hecho, howner⟩
    refine ⟨hsel, fun r hr hm => ?_, fun hnone => ?_, fun r hr heq => ?_⟩
    · exact (htext r).mpr ((has_addAll_iff.mp hr).elim (hold r · hm) (hnew r · hm))
    · exact hecho (fun r hr => hnone r (has_addAll_iff.mpr (.inl hr)))
        fun r hr => hnone r (has_addAll_iff.mpr (.inr hr))
    · rcases has_addAll_iff.mp hr with hr | ⟨-, hfind⟩
      · exact howner r.labels ((htext r).mp heq ▸ hr)
      · exact carriesOwner_of_mem_mutated (List.mem_of_find?_eq_some hfind)

/-- A claim that is not for a network and is about a route of the table, or asks for one, has
written that route; the others that the selector matches have to be gone. -/
theorem WritesOne.readsBack_iff {q : Prefix} {l : Labels} (hw : WritesOne P c c' s.rib s'.rib q l) :
    ReadsBack P s'.rib c c' sel ↔ c.spec.getLabelSelector P.refuses = .ok sel ∧
      (∀ r, s.rib.Has r → r.pfx ≠ q → sel.Matches r.labels = true → ¬s'.rib.Has r) ∧
      (sel.Matches l = true ∨ c.status.pfx = some (P.txt.prefixString q)) := by
  have htext : ∀ r : Route, c'.status.pfx = some (P.txt.prefixString r.pfx) ↔ r.pfx = q := by
    intro r
    rw [hw.reported, Option.some.injEq]
    exact ⟨fun heq => (P.txt.prefixString_injective heq).symm, fun heq => by rw [heq]⟩
  have hstored : ∀ r, s'.rib.Has r → r.pfx = q → r.labels = l := by
    intro r hr heq
    have hr' : s'.rib[r.pfx]? = some r.labels := hr
    rw [heq, hw.stored] at hr'
    exact (Option.some.inj hr').symm
  have hq : s'.rib.Has ⟨q, l⟩ := hw.stored
  constructor
  · rintro ⟨hsel, hfound, hecho, -⟩
    refine ⟨hsel, fun r _ hne hm hr' => hne ((htext r).mp (hfound r hr' hm)), ?_⟩
    by_cases hm : sel.Matches l = true
    · exact .inl hm
    · refine .inr ?_
      rw [hecho fun r hr => ?_, hw.reported]
      by_contra hmr
      have hmr : sel.Matches r.labels = true := Bool.not_eq_false _ ▸ hmr
      rw [hstored r hr ((htext r).mp (hfound r hr hmr))] at hmr
      exact hm hmr
  · rintro ⟨hsel, hgone, hcase⟩
    have hat : ∀ r, s'.rib.Has r → sel.Matches r.labels = true → r.pfx = q := by
      intro r hr hm
      by_contra hne
      exact hgone r (hw.old r hr hne) hne hm hr
    refine ⟨hsel, fun r hr hm => (htext r).mpr (hat r hr hm), fun hnone => ?_, fun r hr heq => ?_⟩
    · have hecho := hcase.resolve_left fun hm => by
        rw [hnone ⟨q, l⟩ hq] at hm
        cases hm
      rw [hw.result]
      change c.status = ⟨some _, c.status.gateway⟩
      rw [← hecho]
    · rw [hstored r hr ((htext r).mp heq)]
      exact hw.owner

/-- The routes that a dynamic claim searches in belong to others. -/
theorem not_readsBack_of_search (hdyn : c.spec.pfx = none) (hown : WithoutRoutes P s.rib c)
    (hp : OwnerPresent c) (h : (claim P c).run (handler P.nipam) s = (.ok c', s')) :
    ¬ReadsBack P s'.rib c c' sel := by
  rintro ⟨hsel, hfound, -, howner⟩
  obtain ⟨own, hownSel, hnil⟩ := withoutRoutes_iff.mp hown
  have happly := ((claim_dynamic_ok hdyn).mp h).2
  obtain ⟨route, sel', routes, hsel', hroutes⟩ := firstSelected_of_ok hown happly
  obtain rfl : sel' = sel := Except.ok.inj (hsel'.symm.trans hsel)
  obtain ⟨hr, hm⟩ := P.nipam.mem_getByLabel.mp (hroutes ▸ List.mem_cons_self (a := route))
  obtain ⟨pi, hadd, -⟩ := (applyDynamic_new_ok hown).mp happly
  rw [addRib_run] at hadd
  obtain ⟨-, rfl⟩ := Prod.mk.inj hadd
  have hr' : Rib.Has (addAll s.rib (getMutatedRoutesWithLabels P.txt c pi)) route :=
    has_addAll_iff.mpr (.inl hr)
  have hcarries := howner route hr' (hfound route hr' hm)
  have howned := P.nipam.mem_getByLabel.mpr ⟨hr, hcarries.matches hp hownSel⟩
  rw [hnil] at howned
  cases howned

/-- For every table and every claim that succeeds: `GetClaim` agrees with it, whatever the order in
which the table lists its routes, exactly when the table that it leaves holds the answer. For a
claim that adds routes, and for one that is not for a network, this is said of the table before. A
dynamic claim of an owner without routes is never read back. -/
theorem getClaim_agrees_iff (h : (claim P c).run (handler P.nipam) s = (.ok c', s')) :
    ((∀ N, Relists P c N → GetAgrees P N c c' s') ↔ ∃ sel, ReadsBack P s'.rib c c' sel) ∧
    (∀ pi sel, Adds P s.rib c pi →
      (ReadsBack P s'.rib c c' sel ↔ NewReadsBack P s.rib c c' pi sel)) ∧
    (∀ q l sel, c.spec.kind ≠ .network → Subject P s.rib c q l →
      (ReadsBack P s'.rib c c' sel ↔ c.spec.getLabelSelector P.refuses = .ok sel ∧
        (∀ r, s.rib.Has r → r.pfx ≠ q → sel.Matches r.labels = true → ¬s'.rib.Has r) ∧
        (sel.Matches l = true ∨ c.status.pfx = some (P.txt.prefixString q)))) ∧
    (c.spec.pfx = none → WithoutRoutes P s.rib c → OwnerPresent c →
      ∀ sel, ¬ReadsBack P s'.rib c c' sel) := by
  refine ⟨⟨readsBack_of_agrees h, fun ⟨sel, hback⟩ N hN => hback.agrees h hN⟩,
    fun pi sel hadds => hadds.readsBack_iff h, fun q l sel hk hsub => ?_,
    fun hdyn hown hp sel => not_readsBack_of_search hdyn hown hp h⟩
  rcases claim_writesOne hk h with ⟨q', l', hw⟩ | ⟨hpfx, hnothing, -⟩
  · obtain rfl := hw.unique q l hsub
    obtain rfl := hsub.labels_eq hw.subject
    exact hw.readsBack_iff
  · -- the owner has no route for the claim to be about
    cases hsub with
    | asked hpfx' => cases hpfx.symm.trans hpfx'
    | owned _ hl hlabels => exact absurd hlabels (hnothing ⟨q, _⟩ hl)

instance (rib : Rib) (pi : Prefix) (r : Route) : Decidable (Added P rib c pi r) :=
  inferInstanceAs (Decidable (_ ∧ _))

/-- A point-to-point network that is selected by the name of its claim. -/
def namedLink : IPClaim :=
  sampleClaim ipClaimGVK "a" .network (some "10.0.0.4/31") none (some true)
    (some ((∅ : Labels).insert nephioNsnNameKey "a"))

/-- The host `a` claims its address again, with a selector that matches nothing. -/
def knownHost : IPClaim :=
  ((sampleClaim ipClaimGVK "a" .network none none none
    (some ((∅ : Labels).insert "nephio.org/site" "edge"))).setPrefix "10.0.0.254/24").setGateway
      "10.0.0.1"

def linkRun : Except Failure IPClaim × RibState :=
  (claim .reference namedLink).run (handler .reference) aggregateRib

def knownHostRun : Except Failure IPClaim × RibState :=
  (claim .reference knownHost).run (handler .reference) hostRun.2

/-- The link is read back from its route, and the address and the gateway of the host from its
request. -/
theorem getClaim_agrees_samples :
    (linkRun.1 = .ok (namedLink.setPrefix "10.0.0.4/31") ∧
      ∀ N, Relists .reference namedLink N →
        GetAgrees .reference N namedLink (namedLink.setPrefix "10.0.0.4/31") linkRun.2) ∧
    knownHostRun.1 = .ok knownHost ∧
      ∀ N, Relists .reference knownHost N →
        GetAgrees .reference N knownHost knownHost knownHostRun.2 := by
  constructor
  · have hok : linkRun.1 = .ok (namedLink.setPrefix "10.0.0.4/31") := by decide +kernel
    have hrun : (claim .reference namedLink).run (handler .reference) aggregateRib =
        (.ok (namedLink.setPrefix "10.0.0.4/31"), linkRun.2) := Prod.ext hok rfl
    have hiff := getClaim_agrees_iff (P := .reference) hrun
    have hold : ∀ r ∈ Reference.routes aggregateRib.rib,
        Selector.Matches ⟨(∅ : Labels).insert nephioNsnNameKey "a"⟩ r.labels = false := by
      decide +kernel
    have hnone : aggregateRib.rib[samplePrefix 4 31]? = none := by decide +kernel
    have hnew : ∀ r ∈ getMutatedRoutesWithLabels Platform.reference.txt namedLink (samplePrefix 4 31),
        r.pfx = samplePrefix 4 31 ∧ Added .reference aggregateRib.rib namedLink (samplePrefix 4 31) r ∧
          Selector.Matches ⟨(∅ : Labels).insert nephioNsnNameKey "a"⟩ r.labels = true := by
      decide +kernel
    have hback : NewReadsBack .reference aggregateRib.rib namedLink
        (namedLink.setPrefix "10.0.0.4/31") (samplePrefix 4 31)
        ⟨(∅ : Labels).insert nephioNsnNameKey "a"⟩ := by
      refine ⟨rfl, fun r hr hm => ?_, fun r hr _ => ?_, fun _ hecho => ?_, fun l hl => ?_⟩
      · rw [hold r (Reference.mem_routes.mpr hr)] at hm
        cases hm
      · exact (hnew r (List.mem_of_find?_eq_some hr.2)).1
      · obtain ⟨l, rs, hrs⟩ :=
          mutated_eq_cons Platform.reference.txt namedLink (samplePrefix 4 31)
        obtain ⟨-, hadded, hm⟩ := hnew ⟨_, l⟩ (hrs ▸ List.mem_cons_self)
        rw [hecho _ hadded] at hm
        cases hm
      · rw [hnone] at hl
        cases hl
    exact ⟨hok, hiff.1.mpr ⟨_, (hiff.2.1 (samplePrefix 4 31) _
      ⟨by decide +kernel, by decide +kernel⟩).mpr hback⟩⟩
  · have hok : knownHostRun.1 = .ok knownHost := by decide +kernel
    have hnone : ∀ r ∈ Reference.routes knownHostRun.2.rib,
        Selector.Matches ⟨(∅ : Labels).insert "nephio.org/site" "edge"⟩ r.labels = false ∧
          some "10.0.0.254/24" ≠ some (Platform.reference.txt.prefixString r.pfx) := by
      decide +kernel
    have hrun : (claim .reference knownHost).run (handler .reference) hostRun.2 =
        (.ok knownHost, knownHostRun.2) := Prod.ext hok rfl
    refine ⟨hok, (getClaim_agrees_iff (P := .reference) hrun).1.mpr
      ⟨⟨(∅ : Labels).insert "nephio.org/site" "edge"⟩, rfl, fun r hr hm => ?_, fun _ => rfl,
        fun r hr htext => ?_⟩⟩
    · rw [(hnone r (Reference.mem_routes.mpr hr)).1] at hm
      cases hm
    · exact absurd htext (hnone r (Reference.mem_routes.mpr hr)).2

/-- A dynamic claim of an address for a loopback, inside an aggregate. -/
def searchingLoopback (name : String) : IPClaim :=
  sampleClaim ipClaimGVK name .loopback none none none (ofKind .aggregate)

/-- The claim gets 10.0.0.0/32; `GetClaim` returns the aggregate. -/
theorem getClaim_returns_parent :
    let run := (claim .reference (searchingLoopback "a")).run (handler Nipam.reference) aggregateRib
    run.1 = .ok ((searchingLoopback "a").setPrefix "10.0.0.0/32") ∧
      ((getClaim .reference (searchingLoopback "a")).run (handler Nipam.reference) run.2).1 =
        .ok ((searchingLoopback "a").setPrefix "10.0.0.0/8") ∧
      ¬GetAgrees .reference .reference (searchingLoopback "a")
        ((searchingLoopback "a").setPrefix "10.0.0.0/32") run.2 := by
  intro run
  have hget : ((getClaim .reference (searchingLoopback "a")).run (handler Nipam.reference) run.2).1 =
      .ok ((searchingLoopback "a").setPrefix "10.0.0.0/8") := by decide +kernel
  refine ⟨by decide +kernel, hget, ?_⟩
  rintro ⟨c'', hrun, hstatus, -⟩
  cases hget.symm.trans (congrArg Prod.fst hrun)
  exact absurd hstatus (by decide)

end K8sIpam.Ipam
