import K8sIpam.Ipam.Effects
import K8sIpam.Ipam.Writes

/-! # What a delete removes

A delete that succeeds removes the routes of the owner and, when the claim creates prefixes, the
children of these routes that belong to other resources; nothing else changes. One that fails has
removed some of them. -/

namespace K8sIpam.Ipam
open Std Atomic Prog Net

variable {P : Platform} {c : IPClaim} {s s' : RibState} {o r : Route} {os : List Route} {b : Bool}

/-- A route inside a route of the claim that goes away with it. -/
def GoesWith (c : IPClaim) (o r : Route) : Prop :=
  c.isCreatePrefix = true ∧ o.pfx.isAddressPrefix = false ∧ o.pfx.StrictlyContains r.pfx ∧
    c.sameNsn r.labels = false

instance (c : IPClaim) (o r : Route) : Decidable (GoesWith c o r) := by
  unfold GoesWith; infer_instance

theorem eraseAll_has {rib : Rib} {rs : List Route} :
    Rib.Has (eraseAll rib rs) r ↔ rib.Has r ∧ ∀ r' ∈ rs, r'.pfx ≠ r.pfx := by
  unfold Rib.Has
  rw [eraseAll_getElem?]
  split
  next h =>
    obtain ⟨r', hr', hp⟩ := h
    exact ⟨fun h => (by cases h), fun h => absurd hp (h.2 r' hr')⟩
  next h => exact ⟨fun hr => ⟨hr, fun r' hr' hp => h ⟨r', hr', hp⟩⟩, fun hr => hr.1⟩

theorem mem_foreignChildren {rib : Rib} {p : Prefix} :
    r ∈ foreignChildren P rib c p ↔
      rib.Has r ∧ p.StrictlyContains r.pfx ∧ c.sameNsn r.labels = false := by
  rw [foreignChildren, List.mem_filter, P.nipam.mem_children, and_assoc]
  simp

/-- The table without the children that go with a route. -/
theorem clear_has {rib : Rib} (hc : c.isCreatePrefix = true) (ho : o.pfx.isAddressPrefix = false) :
    Rib.Has (eraseAll rib (foreignChildren P rib c o.pfx)) r ↔ rib.Has r ∧ ¬GoesWith c o r := by
  rw [eraseAll_has]
  constructor
  · rintro ⟨hr, hno⟩
    exact ⟨hr, fun hw => hno r (mem_foreignChildren.mpr ⟨hr, hw.2.2.1, hw.2.2.2⟩) rfl⟩
  · rintro ⟨hr, hno⟩
    refine ⟨hr, fun r' hr' hp => ?_⟩
    obtain ⟨hhas, hin, hns⟩ := mem_foreignChildren.mp hr'
    obtain rfl := hhas.unique hr hp
    exact hno ⟨hc, ho, hin, hns⟩

/-- What comes before the delete of a route of the claim. -/
def clearInside (c : IPClaim) (o : Route) : RibProg Unit :=
  if !o.pfx.isAddressPrefix && c.isCreatePrefix then deleteChildren c o else return

theorem deleteOwned_cons_clear (o : Route) (os : List Route) :
    deleteOwned false c (o :: os) = clearInside c o >>= fun _ => deleteRest false c o os := by
  rw [deleteOwned_cons, clearInside, Bool.not_false, Bool.true_and]
  split <;> rfl

/-- The routes that go with the route are deleted, and their owners are informed. -/
theorem clearInside_run (o : Route) (s : RibState) :
    ∃ t : RibState, (clearInside c o).run (handler P.nipam) s = (.ok (), t) ∧
      (∀ r, t.rib.Has r ↔ s.rib.Has r ∧ ¬GoesWith c o r) ∧
      ∀ r, s.rib.Has r → GoesWith c o r → ∃ rs, t.updates = s.updates ++ [rs] ∧ r ∈ rs := by
  unfold clearInside
  split
  next hclear =>
    have ⟨ho, hc⟩ : o.pfx.isAddressPrefix = false ∧ c.isCreatePrefix = true := by simpa using hclear
    refine ⟨_, deleteChildren_run P c o s, fun r => clear_has hc ho, fun r hr hw => ⟨_, rfl, ?_⟩⟩
    exact mem_foreignChildren.mpr ⟨hr, hw.2.2.1, hw.2.2.2⟩
  next hclear =>
    have hno : ∀ r, ¬GoesWith c o r := fun r hw => hclear (by simp [hw.1, hw.2.1])
    exact ⟨s, rfl, fun r => (and_iff_left (hno r)).symm, fun r _ hw => absurd hw (hno r)⟩

theorem deleteRest_run (o : Route) (s : RibState) :
    (s.rib[o.pfx]? = none ∧ ∀ os, (deleteRest false c o os).run (handler P.nipam) s =
        (.error (.error (P.nipam.notFound o.pfx)), s)) ∨
      ∃ t : RibState, t.rib = s.rib.erase o.pfx ∧ ∀ os,
        (deleteRest false c o os).run (handler P.nipam) s =
          (deleteOwned false c os).run (handler P.nipam) t := by
  cases hl : s.rib[o.pfx]? with
  | none =>
    refine .inl ⟨rfl, fun os => ?_⟩
    unfold deleteRest
    rw [RibProg.delete_bind, run_op]
    simp only [handler, hl]
    rfl
  | some l =>
    refine .inr ⟨⟨s.rib.erase o.pfx, s.updates ++ [P.nipam.children (s.rib.erase o.pfx) o.pfx]⟩,
      rfl, fun os => ?_⟩
    unfold deleteRest
    rw [RibProg.delete_bind, run_op]
    simp only [handler, hl]
    rfl

/-- One round of the loop fails if the route is not there any more, and else it deletes the route
and what goes with it. -/
theorem deleteOwned_cons_run (o : Route) (s : RibState) :
    (s.rib[o.pfx]? = none ∧ ∀ os, ∃ e t,
        (deleteOwned false c (o :: os)).run (handler P.nipam) s = (.error e, t)) ∨
      ∃ t : RibState, (∀ r, t.rib.Has r ↔ s.rib.Has r ∧ o.pfx ≠ r.pfx ∧ ¬GoesWith c o r) ∧
        ∀ os, (deleteOwned false c (o :: os)).run (handler P.nipam) s =
          (deleteOwned false c os).run (handler P.nipam) t := by
  obtain ⟨t, hclear, ht, -⟩ := clearInside_run (P := P) (c := c) o s
  have hcons : ∀ os, (deleteOwned false c (o :: os)).run (handler P.nipam) s =
      (deleteRest false c o os).run (handler P.nipam) t := fun os => by
    rw [deleteOwned_cons_clear, run_bind_of_ok _ hclear]
  rcases deleteRest_run (P := P) (c := c) o t with ⟨hnone, herr⟩ | ⟨u, hu, hrun⟩
  · refine .inl ⟨?_, fun os => ⟨_, _, (hcons os).trans (herr os)⟩⟩
    -- a route does not lie inside itself
    by_contra hne
    obtain ⟨l, hl⟩ := Option.ne_none_iff_exists'.mp hne
    have hhas : t.rib.Has ⟨o.pfx, l⟩ :=
      (ht ⟨o.pfx, l⟩).mpr ⟨hl, fun hw => Prefix.StrictlyContains.irrefl hw.2.2.1⟩
    cases hnone.symm.trans hhas
  · refine .inr ⟨u, fun r => ?_, fun os => (hcons os).trans (hrun os)⟩
    rw [hu, Rib.has_erase, ht, ne_comm]
    exact and_left_comm

theorem deleteOwned_ok (h : (deleteOwned false c os).run (handler P.nipam) s = (.ok (), s')) :
    s'.rib.Has r ↔ s.rib.Has r ∧ ∀ o ∈ os, o.pfx ≠ r.pfx ∧ ¬GoesWith c o r := by
  induction os generalizing s with
  | nil =>
    cases h
    simp
  | cons o os ih =>
    rcases deleteOwned_cons_run (P := P) (c := c) o s with ⟨-, herr⟩ | ⟨t, ht, hcons⟩
    · obtain ⟨e, t, herr⟩ := herr os
      cases herr.symm.trans h
    · rw [ih ((hcons os).symm.trans h), ht, List.forall_mem_cons, and_assoc]

/-- The rounds of the loop follow each other. -/
theorem deleteOwned_append {os' : List Route}
    (h : (deleteOwned false c os).run (handler P.nipam) s = (.ok (), s')) :
    (deleteOwned false c (os ++ os')).run (handler P.nipam) s =
      (deleteOwned false c os').run (handler P.nipam) s' := by
  induction os generalizing s with
  | nil =>
    cases h
    rfl
  | cons o os ih =>
    rcases deleteOwned_cons_run (P := P) (c := c) o s with ⟨-, herr⟩ | ⟨t, -, hcons⟩
    · obtain ⟨e, t, herr⟩ := herr os
      cases herr.symm.trans h
    · rw [List.cons_append, hcons, ih ((hcons os).symm.trans h)]

/-- The loop comes to its end if none of the routes goes with another one. -/
theorem deleteOwned_completes (hhas : ∀ o ∈ os, s.rib.Has o) (hnodup : os.Nodup)
    (hstay : ∀ o ∈ os, ∀ o' ∈ os, ¬GoesWith c o o') :
    ∃ s', (deleteOwned false c os).run (handler P.nipam) s = (.ok (), s') := by
  induction os generalizing s with
  | nil => exact ⟨s, rfl⟩
  | cons o os ih =>
    obtain ⟨hnot, hnodup⟩ := List.nodup_cons.mp hnodup
    have ho := hhas o List.mem_cons_self
    rcases deleteOwned_cons_run (P := P) (c := c) o s with ⟨hnone, -⟩ | ⟨t, ht, hcons⟩
    · cases hnone.symm.trans ho
    · have hrest : ∀ o' ∈ os, t.rib.Has o' := by
        intro o' ho'
        have hin := List.mem_cons_of_mem o ho'
        refine (ht o').mpr ⟨hhas o' hin, fun hp => ?_, hstay o List.mem_cons_self o' hin⟩
        exact hnot ((ho.unique (hhas o' hin) hp) ▸ ho')
      obtain ⟨s', hs'⟩ := ih hrest hnodup fun o₁ h₁ o₂ h₂ =>
        hstay o₁ (List.mem_cons_of_mem o h₁) o₂ (List.mem_cons_of_mem o h₂)
      exact ⟨s', (hcons os).trans hs'⟩

theorem delete_ok (h : (delete P false c).run (handler P.nipam) s = (.ok (), s')) :
    s'.rib.Has r ↔ s.rib.Has r ∧
      ∀ o, s.rib.Has o → HasOwner c.spec.labels o.labels → o.pfx ≠ r.pfx ∧ ¬GoesWith c o r := by
  unfold delete at h
  cases hsel : c.spec.getOwnerSelector P.refuses with
  | error e =>
    rw [hsel] at h
    cases h
  | ok sel =>
    rw [hsel, lift_ok, ret_bind, run_getByLabel] at h
    rw [deleteOwned_ok h]
    refine and_congr_right fun _ => forall_congr' fun o => ?_
    rw [mem_owned hsel]
    exact and_imp

theorem deleteClaim_ok (h : (deleteClaim P c).run (handler P.nipam) s = (.ok (), s')) :
    s'.rib.Has r ↔ s.rib.Has r ∧
      ∀ o, s.rib.Has o → HasOwner c.spec.labels o.labels → o.pfx ≠ r.pfx ∧ ¬GoesWith c o r := by
  unfold deleteClaim at h
  split at h
  · exact delete_ok h
  · obtain ⟨pi, t, hpi, h⟩ := (run_bind_ok _).mp h
    rw [run_lift] at hpi
    obtain rfl := (Prod.mk.inj hpi).2
    exact delete_ok h

/-- A delete leaves no route of its owner. -/
theorem deleteClaim_clears (h : (deleteClaim P c).run (handler P.nipam) s = (.ok (), s'))
    (hr : s'.rib.Has r) : ¬HasOwner c.spec.labels r.labels := by
  obtain ⟨hr, hno⟩ := (deleteClaim_ok h).mp hr
  exact fun hown => (hno r hr hown).1 rfl

/-- A delete, whether it succeeds or fails, adds no route. -/
theorem deleteClaim_has (hr : ((deleteClaim P c).run (handler P.nipam) s).2.rib.Has r) :
    s.rib.Has r := by
  have hserve : (serve P s (.deleteClaim c)).rib.Has r := hr
  exact serve_has (Q := s.rib.Has) (fun _ h => h) (fun _ h => by cases h) r hserve

end K8sIpam.Ipam
