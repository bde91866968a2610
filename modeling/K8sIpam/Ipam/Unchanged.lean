import K8sIpam.Ipam.Single

/-! # Claims that change nothing

When does a claim succeed and leave the table, and the updates that were sent, as they are? The
routes of its owner have the labels that an update gives them; or the owner has no routes, and those
of the prefix that it is given are all there. -/

namespace K8sIpam.Ipam
open Std Atomic Prog Net

variable {P : Platform} {c c' : IPClaim} {rib : Rib} {o : Route} {os : List Route} {sel : Selector}
  {s s' t u : RibState} {pi : Prefix} {l : Labels}

/-! ## Settled claims -/

/-- All five owner labels are set. -/
def OwnerPresent (c : IPClaim) : Prop := ∀ k ∈ ownerKeys, c.spec.labels[k]?.isSome = true

instance (c : IPClaim) : Decidable (OwnerPresent c) :=
  inferInstanceAs (Decidable (∀ k ∈ ownerKeys, _))

theorem CarriesOwner.hasOwner (h : CarriesOwner c l) (hp : OwnerPresent c) :
    HasOwner c.spec.labels l := by
  intro k hk
  obtain ⟨v, hv⟩ := Option.isSome_iff_exists.mp (hp k hk)
  rw [h k hk, hv, Labels.get_of_getElem? hv]

theorem CarriesOwner.matches (h : CarriesOwner c l) (hp : OwnerPresent c)
    (hsel : c.spec.getOwnerSelector P.refuses = .ok sel) : sel.Matches l = true :=
  (ClaimLabels.ownerSelector_matches hsel).mpr (h.hasOwner hp)

/-- The owner of the claim has routes, and they have the labels that an update gives them. -/
structure Settled (P : Platform) (rib : Rib) (c : IPClaim) (sel : Selector) : Prop where
  selector : c.spec.getOwnerSelector P.refuses = .ok sel
  owned : P.nipam.getByLabel rib sel ≠ []
  may : MayOwn c (P.nipam.getByLabel rib sel)
  labels : ∀ o ∈ P.nipam.getByLabel rib sel, newLabels P rib c o = o.labels

theorem UpdatesAll.eq_of_settled (h : UpdatesAll P c os s s')
    (hos : ∀ o ∈ os, newLabels P s.rib c o = o.labels) : s' = s := by
  induction h with
  | nil => rfl
  | cons hstep _ ih =>
    have ho := hos _ List.mem_cons_self
    cases hstep with
    | same => exact ih fun o' ho' => hos o' (List.mem_cons_of_mem _ ho')
    | set hne => exact absurd ho hne
    | clear _ hne => exact absurd ho hne

namespace Settled

/-- The status of a claim does not matter. -/
theorem status (h : Settled P rib c sel) (st : IPClaimStatus) :
    Settled P rib { c with status := st } sel :=
  ⟨h.selector, h.owned, h.may, h.labels⟩

theorem updateRib (h : Settled P s.rib c sel) (pi : Option Prefix) :
    ∃ c', (updateRib P false c pi (P.nipam.getByLabel s.rib sel)).run (handler P.nipam) s =
      (.ok c', s) := by
  obtain ⟨t, s', hrun, hall⟩ := updateRib_run (P := P) (c := c) false pi s h.owned
  obtain rfl := hall.eq_of_settled h.labels
  exact ⟨_, hrun⟩

theorem getRoutesByOwner (h : Settled P s.rib c sel) :
    (getRoutesByOwner P c).run (handler P.nipam) s = (.ok (P.nipam.getByLabel s.rib sel), s) :=
  getRoutesByOwner_ok.mpr ⟨rfl, sel, h.selector, rfl, h.may⟩

theorem applyDynamic (h : Settled P s.rib c sel) :
    ∃ c', (applyDynamic P false c).run (handler P.nipam) s = (.ok c', s) := by
  obtain ⟨c', hupd⟩ := h.updateRib none
  refine ⟨c', ?_⟩
  cases hos : P.nipam.getByLabel s.rib sel with
  | nil => exact absurd hos h.owned
  | cons o os =>
    rw [hos] at hupd
    rw [applyDynamic_owned h.selector hos (hos ▸ h.may), hupd]

theorem applyPrefix (h : Settled P s.rib c sel) (hlook : s.rib[lookupPrefix c pi]?.isSome = true) :
    ∃ c', (applyPrefix P false c pi).run (handler P.nipam) s = (.ok c', s) := by
  obtain ⟨c', hupd⟩ := h.updateRib (some pi)
  obtain ⟨l, hl⟩ := Option.isSome_iff_exists.mp hlook
  refine ⟨c', ?_⟩
  unfold Ipam.applyPrefix
  rw [run_get, getRoute, hl]
  dsimp only [Option.map_some]
  rw [run_bind_of_ok _ h.getRoutesByOwner]
  exact hupd

end Settled

/-! ## Updates that change nothing -/

theorem UpdatesAll.old (h : UpdatesAll P c os s s') {r : Route} (hr : r.pfx ∉ os.map Route.pfx)
    (hhas : s'.rib.Has r) : s.rib.Has r := by
  induction h with
  | nil => exact hhas
  | cons hstep _ ih =>
    rw [List.map_cons, List.mem_cons, not_or] at hr
    exact (hstep.other hr.1).1 (ih hr.2 hhas)

/-- An update that ends with the labels it began with has set none: what is set is not set again. -/
theorem UpdatesAll.labels_of_has (h : UpdatesAll P c os s s') (hos : ∀ o ∈ os, s.rib.Has o)
    (hend : ∀ o ∈ os, s'.rib.Has o) (hnd : (os.map Route.pfx).Nodup) :
    ∀ o ∈ os, newLabels P s.rib c o = o.labels := by
  induction h with
  | nil => exact fun _ ho => nomatch ho
  | @cons o os s t u hstep hrest ih =>
    rw [List.map_cons, List.nodup_cons] at hnd
    have hmid : t.rib.Has o := hrest.old hnd.1 (hend o List.mem_cons_self)
    have hnew : newLabels P s.rib c o = o.labels := by
      have hstored := hstep.stored (hos o List.mem_cons_self)
      exact Option.some.inj (hstored.symm.trans hmid)
    obtain rfl : s = t := by
      cases hstep with
      | same => rfl
      | set hne => exact absurd hnew hne
      | clear _ hne => exact absurd hnew hne
    have hother := ih (fun o' ho' => hos o' (List.mem_cons_of_mem _ ho'))
      (fun o' ho' => hend o' (List.mem_cons_of_mem _ ho')) hnd.2
    intro o' ho'
    rcases List.mem_cons.mp ho' with rfl | ho'
    · exact hnew
    · exact hother o' ho'

theorem settled_of_updatesAll (hsel : c.spec.getOwnerSelector P.refuses = .ok sel)
    (hne : P.nipam.getByLabel s.rib sel ≠ []) (hmay : MayOwn c (P.nipam.getByLabel s.rib sel))
    (h : UpdatesAll P c (P.nipam.getByLabel s.rib sel) s s) : Settled P s.rib c sel := by
  have hos : ∀ o ∈ P.nipam.getByLabel s.rib sel, s.rib.Has o :=
    fun o ho => (P.nipam.mem_getByLabel.mp ho).1
  refine ⟨hsel, hne, hmay, h.labels_of_has hos hos ?_⟩
  exact (P.nipam.nodup_getByLabel ..).map_on fun o ho o' ho' heq =>
    (hos o ho).unique (hos o' ho') heq

/-! ## Claims that change nothing -/

/-- The prefix that a dynamic claim of an owner without routes is given: the one that it hints at if
that is free, or else what it finds. -/
def Taken (P : Platform) (rib : Rib) (c : IPClaim) (pi : Prefix) : Prop :=
  (∃ route, FirstSelected P rib c route) ∧ Offered P rib c pi ∨
    ∃ S L p, Searched P rib c S L ∧ P.nipam.getAvailablePrefixByBitLen rib S.pfx L = some p ∧
      updatePrefixInfo c S.pfx p L = some pi

/-- The claim is accepted, and finds nothing to write. -/
inductive Unchanging (P : Platform) (rib : Rib) (c : IPClaim) : Prop where
  | asked (t : String) (pi : Prefix) (sel : Selector) (hpfx : c.spec.pfx = some t)
      (hpi : P.txt.parsePrefix t = .ok pi) (hmsg : validateMsg P rib c pi = "")
      (hmain : rib[mainPrefix c pi]?.isSome = true) (hset : Settled P rib c sel)
  | owned (sel : Selector) (hpfx : c.spec.pfx = none) (hmsg : validateInputDynamic P c = "")
      (hset : Settled P rib c sel)
  | there (pi : Prefix) (hpfx : c.spec.pfx = none) (hmsg : validateInputDynamic P c = "")
      (hown : WithoutRoutes P rib c) (htaken : Taken P rib c pi)
      (hall : ∀ r ∈ getMutatedRoutesWithLabels P.txt c pi, rib[r.pfx]?.isSome = true)

theorem addAll_eq_self_iff {rs : List Route} :
    addAll rib rs = rib ↔ ∀ r ∈ rs, rib[r.pfx]?.isSome = true := by
  constructor
  · intro heq r hr
    rw [← heq]
    exact addAll_isSome rib hr
  · intro hall
    refine ExtTreeMap.ext_getElem? fun p => ?_
    rw [addAll_getElem?]
    cases hp : rib[p]? with
    | some l => rfl
    | none =>
      have hnone : rs.find? (fun r => r.pfx = p) = none := by
        refine List.find?_eq_none.mpr fun r hr heq => ?_
        have hsome := hall r hr
        rw [of_decide_eq_true heq, hp] at hsome
        cases hsome
      rw [hnone]
      rfl

theorem claim_unchanged_iff :
    (∃ c', (claim P c).run (handler P.nipam) s = (.ok c', s)) ↔ Unchanging P s.rib c := by
  constructor
  · rintro ⟨c', hrun⟩
    cases hpfx : c.spec.pfx with
    | some t =>
      obtain ⟨pi, hpi⟩ := claim_parses hpfx hrun
      obtain ⟨hmsg, happ⟩ := (claim_prefix_ok hpfx hpi).mp hrun
      rcases applyPrefix_accepted_ok hmsg happ with
        ⟨hfree, hs, -⟩ | ⟨hmain, sel, hsel, hne, hmay, hall, -⟩
      · -- the route that is added would be there before
        obtain ⟨l, hl, -⟩ := has_main_addAll P hfree
        have hrib : s.rib = addAll s.rib (getMutatedRoutesWithLabels P.txt c pi) :=
          congrArg RibState.rib hs
        rw [← hrib, hfree] at hl
        cases hl
      · exact .asked t pi sel hpfx hpi hmsg hmain (settled_of_updatesAll hsel hne hmay hall)
    | none =>
      obtain ⟨hmsg, happ⟩ := (claim_dynamic_ok hpfx).mp hrun
      obtain ⟨sel, hsel, -, ⟨hnil, -⟩ | ⟨hne, hmay, hall⟩⟩ := applyDynamic_cases happ
      · have hown : WithoutRoutes P s.rib c := ⟨sel, by rw [hsel]; rfl, hnil⟩
        obtain ⟨pi, hadd, htaken⟩ := (applyDynamic_new_ok hown).mp happ
        rw [addRib_run] at hadd
        exact .there pi hpfx hmsg hown htaken
          (addAll_eq_self_iff.mp (congrArg RibState.rib (Prod.mk.inj hadd).2))
      · exact .owned sel hpfx hmsg (settled_of_updatesAll hsel hne hmay hall)
  · rintro (⟨t, pi, sel, hpfx, hpi, hmsg, hmain, hset⟩ | ⟨sel, hpfx, hmsg, hset⟩ |
      ⟨pi, hpfx, hmsg, hown, htaken, hall⟩)
    · have hlook : s.rib[lookupPrefix c pi]?.isSome = true := by
        rwa [lookupPrefix_of_accepted (validateInput_of_msg hmsg)]
      obtain ⟨c', happ⟩ := hset.applyPrefix hlook
      exact ⟨c', (claim_prefix_ok hpfx hpi).mpr ⟨hmsg, happ⟩⟩
    · obtain ⟨c', happ⟩ := hset.applyDynamic
      exact ⟨c', (claim_dynamic_ok hpfx).mpr ⟨hmsg, happ⟩⟩
    · have hadd := addRib_run P c pi s
      rw [addAll_eq_self_iff.mpr hall] at hadd
      exact ⟨_, (claim_dynamic_ok hpfx).mpr ⟨hmsg, (applyDynamic_new_ok hown).mpr ⟨pi, hadd, htaken⟩⟩⟩

/-! ## Claims that add routes -/

/-- The claim adds the routes of `pi`: a prefix that it asks for and that has no route, or one that
it is given as a dynamic claim of an owner without routes. -/
def Adds (P : Platform) (rib : Rib) (c : IPClaim) (pi : Prefix) : Prop :=
  match c.spec.pfx with
  | some t => P.txt.parsePrefix t = .ok pi ∧ rib[lookupPrefix c pi]? = none
  | none => WithoutRoutes P rib c ∧ Taken P rib c pi

/-- A route of `pi` that is new. -/
def Added (P : Platform) (rib : Rib) (c : IPClaim) (pi : Prefix) (r : Route) : Prop :=
  rib[r.pfx]? = none ∧
    (getMutatedRoutesWithLabels P.txt c pi).find? (fun r' => r'.pfx = r.pfx) = some r

theorem Adds.claim_eq {pi : Prefix} (hadds : Adds P s.rib c pi)
    (h : (claim P c).run (handler P.nipam) s = (.ok c', s')) :
    (addRib P c pi).run (handler P.nipam) s = (.ok c', s') := by
  unfold Adds at hadds
  cases hpfx : c.spec.pfx with
  | some t =>
    rw [hpfx] at hadds
    obtain ⟨hpi, hfree⟩ := hadds
    have happly := ((claim_prefix_ok hpfx hpi).mp h).2
    unfold applyPrefix at happly
    rw [run_get, getRoute, hfree] at happly
    exact happly
  | none =>
    rw [hpfx] at hadds
    obtain ⟨hown, htaken⟩ := hadds
    have happly := (applyDynamic_new_ok (b := false) hown).mpr ⟨pi, addRib_run P c pi s, htaken⟩
    rw [addRib_run, ← happly]
    exact ((claim_dynamic_ok hpfx).mp h).2

theorem has_addAll_iff {pi : Prefix} {r : Route} :
    Rib.Has (addAll rib (getMutatedRoutesWithLabels P.txt c pi)) r ↔
      rib.Has r ∨ Added P rib c pi r := by
  unfold Rib.Has Added
  rw [addAll_getElem?]
  cases hl : rib[r.pfx]? with
  | some l => simp
  | none =>
    rw [Option.none_or, Option.map_eq_some_iff]
    simp only [reduceCtorEq, true_and, false_or]
    constructor
    · rintro ⟨r', hr', hlabels⟩
      have hp : r'.pfx = r.pfx := by simpa using List.find?_some hr'
      rw [hr']
      obtain ⟨p, l⟩ := r
      obtain ⟨p', l'⟩ := r'
      obtain rfl : p' = p := hp
      obtain rfl : l' = l := hlabels
      rfl
    · exact fun h => ⟨r, h, rfl⟩

end K8sIpam.Ipam
