import K8sIpam.Ipam.Delete
import K8sIpam.Ipam.Update

/-! # Claims of one route

A claim that is not for a network writes one route: the one of its prefix or the one that its owner
has. A dynamic claim of an owner without routes finds a prefix for its route. -/

namespace K8sIpam.Ipam
open Std Atomic Prog Net

variable {P : Platform} {c c' : IPClaim} {s s' : RibState} {o : Route} {pi : Prefix}

/-- The prefix that a claim is about and the labels that it writes there: a prefix that it asks for
and that has no route, or else the route of its owner. -/
inductive Subject (P : Platform) (rib : Rib) (c : IPClaim) : Prefix → Labels → Prop
  | asked {t : String} {q : Prefix} (hpfx : c.spec.pfx = some t)
      (hq : P.txt.parsePrefix t = .ok q) (hfree : rib[q]? = none) :
      Subject P rib c q (mutatedLabels P.txt c q)
  | owned {q : Prefix} {l : Labels}
      (hthere : ∀ t p, c.spec.pfx = some t → P.txt.parsePrefix t = .ok p → rib[p]? ≠ none)
      (hl : rib[q]? = some l) (hown : HasOwner c.spec.labels l) :
      Subject P rib c q (updatedLabels P.txt c ⟨q, l⟩ [])

theorem Subject.labels_eq {rib : Rib} {q : Prefix} {l l' : Labels} (h : Subject P rib c q l)
    (h' : Subject P rib c q l') : l = l' := by
  cases h with
  | asked hpfx hq hfree =>
    cases h' with
    | asked => rfl
    | owned hthere => exact absurd hfree (hthere _ _ hpfx hq)
  | owned hthere hl =>
    cases h' with
    | asked hpfx hq hfree => exact absurd hfree (hthere _ _ hpfx hq)
    | owned _ hl' =>
      cases hl.symm.trans hl'
      rfl

/-- A claim has written the labels `l` at the prefix `q` that it is about, and has reported `q`.
Only children of the route are gone. -/
structure WritesOne (P : Platform) (c c' : IPClaim) (rib rib' : Rib) (q : Prefix) (l : Labels) :
    Prop where
  subject : Subject P rib c q l
  unique : ∀ p l', Subject P rib c p l' → p = q
  owner : CarriesOwner c l
  stored : rib'[q]? = some l
  result : c' = c.setPrefix (P.txt.prefixString q)
  old : ∀ r, rib'.Has r → r.pfx ≠ q → rib.Has r
  keep : ∀ r, rib.Has r → r.pfx ≠ q → ¬q.StrictlyContains r.pfx → rib'.Has r

theorem WritesOne.reported {rib rib' : Rib} {q : Prefix} {l : Labels}
    (h : WritesOne P c c' rib rib' q l) : c'.status.pfx = some (P.txt.prefixString q) := by
  rw [h.result]
  rfl

theorem Updates.stored (h : Updates P c o s s') (ho : s.rib.Has o) :
    s'.rib[o.pfx]? = some (newLabels P s.rib c o) := by
  cases h with
  | same hl => exact hl ▸ ho
  | set => simp
  | clear rib _ hc hrib =>
    subst hrib
    have hstay : ¬∃ r ∈ foreignChildren P (s.rib.insert o.pfx (newLabels P s.rib c o)) c o.pfx,
        r.pfx = o.pfx := by
      rintro ⟨r, hr, hp⟩
      obtain ⟨-, hin, -⟩ := mem_foreignChildren.mp hr
      exact Prefix.StrictlyContains.irrefl (hp ▸ hin)
    dsimp only
    rw [eraseAll_getElem?, if_neg hstay]
    simp

/-- The other routes stay, but for children of the route that is updated. -/
theorem Updates.other (h : Updates P c o s s') {r : Route} (hr : r.pfx ≠ o.pfx) :
    (s'.rib.Has r → s.rib.Has r) ∧
      (s.rib.Has r → ¬o.pfx.StrictlyContains r.pfx → s'.rib.Has r) := by
  have hset : Rib.Has (s.rib.insert o.pfx (newLabels P s.rib c o)) r ↔ s.rib.Has r :=
    Rib.has_insert_of_ne hr
  cases h with
  | same => exact ⟨fun h => h, fun h _ => h⟩
  | set => exact ⟨hset.mp, fun h _ => hset.mpr h⟩
  | clear rib _ hc hrib =>
    subst hrib
    dsimp only
    rw [eraseAll_has, hset]
    refine ⟨fun h => h.1, fun h hin => ⟨h, fun r' hr' hp => hin ?_⟩⟩
    exact hp ▸ (mem_foreignChildren.mp hr').2.1

theorem reported_of_ne_network (hk : c.spec.kind ≠ .network) (rib : Rib) (t : String) :
    reported P rib c t = c.setPrefix t :=
  if_neg fun h => hk h.1

/-- The owner of a claim that is not for a network has one route, which is updated. -/
theorem updateOwned_writesOne {owned : List Route} {pi : Option Prefix} (hk : c.spec.kind ≠ .network)
    (hthere : ∀ t p, c.spec.pfx = some t → P.txt.parsePrefix t = .ok p → s.rib[p]? ≠ none)
    (howned : (getRoutesByOwner P c).run (handler P.nipam) s = (.ok owned, s))
    (h : (updateRib P false c pi owned).run (handler P.nipam) s = (.ok c', s')) :
    ∃ q l, WritesOne P c c' s.rib s'.rib q l := by
  obtain ⟨-, sel, hsel, rfl, hmay⟩ := getRoutesByOwner_ok.mp howned
  have hlen : (P.nipam.getByLabel s.rib sel).length ≤ 1 :=
    hmay.resolve_right fun hnet => hk hnet.2
  cases hos : P.nipam.getByLabel s.rib sel with
  | nil =>
    rw [hos] at h
    exact absurd rfl (updateRib_ok h).1
  | cons o os =>
    rw [hos] at hlen h
    obtain rfl : os = [] := List.length_eq_zero_iff.mp (Nat.le_zero.mp (Nat.le_of_succ_le_succ hlen))
    obtain ⟨ho, hm⟩ := P.nipam.mem_getByLabel.mp (hos ▸ List.mem_cons_self (a := o))
    obtain ⟨pi', s'', hrun, hall⟩ := updateRib_cons_run (P := P) (c := c) false pi o [] s
    rw [hrun] at h
    obtain ⟨hc', rfl⟩ := Prod.mk.inj h
    have hnew : newLabels P s.rib c o = updatedLabels P.txt c o [] :=
      updatedLabels_of_not P _ _ fun hnet => hk hnet.1
    have htext : updatedPrefix P c pi' o = P.txt.prefixString o.pfx := by
      unfold updatedPrefix
      split
      next hnet _ => exact absurd hnet hk
      next hnet _ => exact absurd hnet hk
      · rfl
    cases hall with
    | cons hup hnil =>
      cases hnil
      refine ⟨o.pfx, newLabels P s.rib c o, ?_, fun p l' hsub => ?_, newLabels_carriesOwner,
        hup.stored ho, ?_, fun r hr hp => (hup.other hp).1 hr, fun r hr hp => (hup.other hp).2 hr⟩
      · rw [hnew]
        exact .owned hthere ho ((ClaimLabels.ownerSelector_matches hsel).mp hm)
      · cases hsub with
        | asked hpfx hq hfree => exact absurd hfree (hthere _ _ hpfx hq)
        | @owned p l hthere' hl hown =>
          have hmem : (⟨p, l⟩ : Route) ∈ P.nipam.getByLabel s.rib sel :=
            (mem_owned hsel).mpr ⟨hl, hown⟩
          rw [hos] at hmem
          exact congrArg Route.pfx (List.mem_singleton.mp hmem)
      · rw [← Except.ok.inj hc', reported_of_ne_network hk, htext]

theorem claim_prefix_writesOne {t : String} (hk : c.spec.kind ≠ .network)
    (hpfx : c.spec.pfx = some t) (hpi : P.txt.parsePrefix t = .ok pi)
    (h : (claim P c).run (handler P.nipam) s = (.ok c', s')) :
    ∃ q l, WritesOne P c c' s.rib s'.rib q l := by
  have hasked : ∀ t' p, c.spec.pfx = some t' → P.txt.parsePrefix t' = .ok p → p = pi := by
    intro t' p ht' hp
    cases hpfx.symm.trans ht'
    cases hpi.symm.trans hp
    rfl
  obtain ⟨hmsg, h⟩ := (claim_prefix_ok hpfx hpi).mp h
  have hmasked : pi.masked = pi := getIPSubnet_eq_of_accepted (validateInput_of_msg hmsg) hk
  have hlook : lookupPrefix c pi = pi := by
    unfold lookupPrefix
    split
    next hnet => exact absurd hnet hk
    · rfl
  unfold applyPrefix at h
  rw [run_get, getRoute, hlook] at h
  cases hl : s.rib[pi]? with
  | none =>
    rw [hl] at h
    dsimp only [Option.map_none] at h
    rw [addRib_run] at h
    have hroutes : getMutatedRoutesWithLabels P.txt c pi = [⟨pi, mutatedLabels P.txt c pi⟩] := by
      unfold getMutatedRoutesWithLabels
      split
      next hnet => exact absurd hnet hk
      · rw [hmasked]
    have hrib : addAll s.rib (getMutatedRoutesWithLabels P.txt c pi) =
        s.rib.insert pi (mutatedLabels P.txt c pi) := by
      rw [hroutes, addAll, List.foldl_cons, List.foldl_nil,
        if_neg (not_mem_of_getElem?_eq_none hl)]
    rw [hrib] at h
    obtain ⟨hc', rfl⟩ := Prod.mk.inj h
    refine ⟨pi, mutatedLabels P.txt c pi, .asked hpfx hpi hl, fun p l' hsub => ?_,
      mutatedLabels_carriesOwner, by simp, ?_, fun r hr hp => (Rib.has_insert_of_ne hp).mp hr,
      fun r hr hp _ => (Rib.has_insert_of_ne hp).mpr hr⟩
    · cases hsub with
      | asked hpfx' hq => exact hasked _ _ hpfx' hq
      | owned hthere => exact absurd hl (hthere t pi hpfx hpi)
    · rw [← Except.ok.inj hc', reported_of_ne_network hk]
  | some l =>
    rw [hl] at h
    dsimp only [Option.map_some] at h
    obtain ⟨owned, u, howned, hup⟩ := (run_bind_ok _).mp h
    obtain rfl := (getRoutesByOwner_ok.mp howned).1
    refine updateOwned_writesOne hk (fun t' p ht' hp => ?_) howned hup
    rw [hasked t' p ht' hp, hl]
    exact Option.some_ne_none l

/-- A claim that is not for a network writes one route, unless it has to find a prefix inside the
routes that it selects. -/
theorem claim_writesOne (hk : c.spec.kind ≠ .network)
    (h : (claim P c).run (handler P.nipam) s = (.ok c', s')) :
    (∃ q l, WritesOne P c c' s.rib s'.rib q l) ∨
      c.spec.pfx = none ∧ (∀ r, s.rib.Has r → ¬HasOwner c.spec.labels r.labels) ∧
        ∃ r, s.rib.Has r ∧ Selects P c r.labels := by
  cases hpfx : c.spec.pfx with
  | some t =>
    obtain ⟨pi, hpi⟩ := claim_parses hpfx h
    exact .inl (claim_prefix_writesOne hk hpfx hpi h)
  | none =>
    obtain ⟨-, h⟩ := (claim_dynamic_ok hpfx).mp h
    obtain ⟨owned, u, howned, h⟩ := (run_bind_ok _).mp h
    obtain ⟨rfl, sel, hsel, hos, -⟩ := getRoutesByOwner_ok.mp howned
    cases owned with
    | cons o os =>
      refine .inl (updateOwned_writesOne hk (fun t p ht => ?_) howned h)
      cases hpfx.symm.trans ht
    | nil =>
      refine .inr ⟨rfl, fun r hr hown => ?_, ?_⟩
      · have hmem := (mem_owned hsel).mpr ⟨hr, hown⟩
        rw [← hos] at hmem
        cases hmem
      · obtain ⟨routes, t, hroutes, h⟩ := (run_bind_ok _).mp h
        unfold getRoutesByLabel at hroutes
        cases hlabel : c.spec.getLabelSelector P.refuses with
        | error e =>
          rw [hlabel] at hroutes
          cases hroutes
          cases h
        | ok label =>
          rw [hlabel] at hroutes
          obtain ⟨hlist, rfl⟩ := Prod.mk.inj hroutes
          cases routes with
          | nil => cases h
          | cons r rs =>
            obtain ⟨hr, hm⟩ := P.nipam.mem_getByLabel.mp
              ((Except.ok.inj hlist).symm ▸ List.mem_cons_self (a := r))
            exact ⟨r, hr, label, hlabel, hm⟩

end K8sIpam.Ipam
