import K8sIpam.Ipam.Reclaim
import K8sIpam.Ipam.Search

/-! # The prefix that is reported again

A new claim reports the prefix that it has chosen. Every later one makes it up again from the routes
of the owner: of a network from the last address in the list that has a parent, with the length of
that parent, and otherwise from the first route. -/

namespace K8sIpam.Ipam
open Std Atomic Prog Net

variable {P : Platform} {s s₁ t t' : RibState} {rib rib' : Rib} {c c₁ : IPClaim} {o r : Route}
  {sel : Selector} {b : Bool} {p q pi h : Prefix} {l own : Labels} {S : Route} {L : Nat}
  {text : Option String}

/-! ## Later tables -/

/-- Routes have been added that do not contain a route of the claim. -/
structure Grown (c : IPClaim) (rib rib' : Rib) : Prop where
  kept : ∀ r, rib.Has r → rib'.Has r
  added : ∀ r, rib'.Has r → ¬rib.Has r →
    ∀ o, rib'.Has o → HasOwner c.spec.labels o.labels → ¬r.pfx.Contains o.pfx

/-- The tables that can come after one with the routes of a claim: routes are added, and the claim
is made again, with any order of the listings. -/
inductive Later (P : Platform) (c : IPClaim) (s : RibState) : RibState → Prop where
  | refl : Later P c s s
  | grown {t t' : RibState} (h : Later P c s t) (hg : Grown c t.rib t'.rib) : Later P c s t'
  | again {t t' : RibState} {N : Nipam} {b : Bool} {c' : IPClaim} {x : Except Failure IPClaim}
      (h : Later P c s t) (hspec : c'.spec = c.spec)
      (hrun : (applyDynamic { P with nipam := N } b c').run (handler N) t = (x, t')) :
      Later P c s t'

/-- Whenever the claim is made again, it succeeds and reports the same prefix. -/
def ReportKept (P : Platform) (c : IPClaim) (s : RibState) (text : Option String) : Prop :=
  ∀ t, Later P c s t → ∀ (N : Nipam) (b : Bool) (c' : IPClaim), c'.spec = c.spec →
    ∃ c'' t', (applyDynamic { P with nipam := N } b c').run (handler N) t = (.ok c'', t') ∧
      c''.status.pfx = text

/-! ## A single route -/

/-- The prefix is the only one of the owner, and the routes around it are those of `rib`. -/
structure Holds (own : Labels) (rib : Rib) (p : Prefix) (t : Rib) : Prop where
  itself : ∃ l, t[p]? = some l ∧ HasOwner own l
  only : ∀ r, t.Has r → HasOwner own r.labels → r.pfx = p
  around : ∀ q : Prefix, q.StrictlyContains p → t[q]?.isSome = rib[q]?.isSome

namespace Holds

theorem grown (h : Holds c.spec.labels rib p t.rib) (hg : Grown c t.rib t'.rib) :
    Holds c.spec.labels rib p t'.rib := by
  obtain ⟨l, hl, hown⟩ := h.itself
  have hself : t'.rib[p]? = some l := hg.kept ⟨p, l⟩ hl
  refine ⟨⟨l, hself, hown⟩, fun r hr hro => ?_, fun q hq => ?_⟩
  · by_cases hold : t.rib.Has r
    · exact h.only r hold hro
    · exact absurd (.refl r.pfx) (hg.added r hr hold r hr hro)
  · rw [← h.around q hq]
    cases ht : t.rib[q]? with
    | some l' =>
      rw [show t'.rib[q]? = some l' from hg.kept ⟨q, l'⟩ ht]
    | none =>
      cases ht' : t'.rib[q]? with
      | none => rfl
      | some l' =>
        have hnew : ¬t.rib.Has ⟨q, l'⟩ := fun hhas => by
          rw [show t.rib[q]? = some l' from hhas] at ht
          cases ht
        exact absurd hq.contains (hg.added ⟨q, l'⟩ ht' hnew ⟨p, l⟩ hself hown)

theorem insert (h : Holds own rib p t.rib) (hl : HasOwner own l) :
    Holds own rib p (t.rib.insert p l) := by
  refine ⟨⟨l, by simp, hl⟩, fun r hr hro => ?_, fun q hq => ?_⟩
  · have hr' : (t.rib.insert p l)[r.pfx]? = some r.labels := hr
    rw [ExtTreeMap.getElem?_insert] at hr'
    split at hr'
    next heq => exact (LawfulEqCmp.eq_of_compare heq).symm
    next => exact h.only r hr' hro
  · rw [ExtTreeMap.getElem?_insert, if_neg, h.around q hq]
    rw [LawfulEqCmp.compare_eq_iff_eq]
    rintro rfl
    exact Prefix.StrictlyContains.irrefl hq

/-- What is deleted lies inside. -/
theorem eraseForeign (h : Holds own rib p rib') :
    Holds own rib p (eraseAll rib' (foreignChildren P rib' c p)) := by
  have hkeep : ∀ q : Prefix, ¬p.StrictlyContains q →
      (eraseAll rib' (foreignChildren P rib' c p))[q]? = rib'[q]? := by
    intro q hq
    rw [eraseAll_getElem?, if_neg]
    rintro ⟨r, hr, rfl⟩
    exact hq (P.nipam.mem_children.mp (List.mem_filter.mp hr).1).2
  refine ⟨?_, fun r hr hro => ?_, fun q hq => ?_⟩
  · rw [hkeep p Prefix.StrictlyContains.irrefl]
    exact h.itself
  · have hr' : (eraseAll rib' (foreignChildren P rib' c p))[r.pfx]? = some r.labels := hr
    rw [eraseAll_getElem?] at hr'
    split at hr'
    · cases hr'
    · exact h.only r hr' hro
  · rw [hkeep q fun hin => Nat.lt_asymm hin.1 hq.1]
    exact h.around q hq

theorem update (h : Holds c.spec.labels rib o.pfx t.rib) (hp : OwnerPresent c)
    (hu : Updates P c o t t') : Holds c.spec.labels rib o.pfx t'.rib := by
  have hnew : HasOwner c.spec.labels (newLabels P t.rib c o) := newLabels_carriesOwner.hasOwner hp
  have hset := h.insert hnew
  cases hu with
  | same => exact h
  | set => exact hset
  | clear rib₁ hne hc hrib =>
    rw [← hrib] at hset
    exact hset.eraseForeign

theorem listing (h : Holds c.spec.labels rib p t.rib)
    (hsel : c.spec.getOwnerSelector P.refuses = .ok sel) :
    ∃ l, P.nipam.getByLabel t.rib sel = [⟨p, l⟩] := by
  obtain ⟨l, hl, hown⟩ := h.itself
  refine ⟨l, List.perm_singleton.mp ?_⟩
  refine (List.perm_ext_iff_of_nodup (P.nipam.nodup_getByLabel _ _) (List.nodup_singleton _)).mpr
    fun r => ?_
  rw [mem_owned hsel, List.mem_singleton]
  constructor
  · rintro ⟨hr, hro⟩
    exact hr.unique hl (h.only r hr hro)
  · rintro rfl
    exact ⟨hl, hown⟩

end Holds

/-- What an update reports for the only route of a claim. -/
def againPrefix (P : Platform) (rib : Rib) (c : IPClaim) (p : Prefix) : Prefix :=
  if c.spec.kind = .network ∧ p.isAddressPrefix = true then
    ((parentBits P rib p).bind (prefixFrom p.addr)).getD p
  else p

theorem updateRib_single (b : Bool) (hdyn : c.spec.pfx = none) (o : Route) (t : RibState) :
    ∃ t', Updates P c o t t' ∧ (updateRib P b c none [o]).run (handler P.nipam) t =
      (.ok (reported P t'.rib c (P.txt.prefixString (againPrefix P t.rib c o.pfx))), t') := by
  obtain ⟨t', hstep, hrun⟩ := updateRoutes_cons_run (P := P) (c := c) b o [] none t
  replace hrun : (updateRoutes P b c none [o]).run (handler P.nipam) t =
    (.ok (updatedInfo P t.rib c none o), t') := hrun
  refine ⟨t', hstep, ?_⟩
  rw [updateRib, run_bind_of_ok _ hrun]
  refine (reportGateway_run P c _ t').trans ?_
  rw [updatedPrefix_dynamic P hdyn]
  congr 4
  unfold updatedInfo againPrefix
  by_cases hk : c.spec.kind = .network
  · rw [if_pos hk]
    by_cases ha : o.pfx.isAddressPrefix = true
    · rw [if_pos ⟨hk, ha⟩, if_pos ⟨hk, ha⟩, Option.or_none, parentPrefix_eq]
      rfl
    · rw [if_neg fun h => ha h.2, if_neg fun h => ha h.2]
      rfl
  · rw [if_neg hk, if_neg fun h => hk h.1]

/-- A claim with one route is made again. -/
theorem Holds.again (h : Holds c.spec.labels rib p t.rib) (hp : OwnerPresent c)
    (hdyn : c.spec.pfx = none) (hsel : c.spec.getOwnerSelector P.refuses = .ok sel) (b : Bool) :
    ∃ t', (applyDynamic P b c).run (handler P.nipam) t =
        (.ok (reported P t'.rib c (P.txt.prefixString (againPrefix P rib c p))), t') ∧
      Holds c.spec.labels rib p t'.rib := by
  obtain ⟨l, hos⟩ := h.listing hsel
  obtain ⟨t', hstep, hrun⟩ := updateRib_single (P := P) b hdyn ⟨p, l⟩ t
  have hpar : parentBits P t.rib p = parentBits P rib p := parentBits_congr h.around
  refine ⟨t', ?_, h.update (o := ⟨p, l⟩) hp hstep⟩
  rw [applyDynamic_owned hsel hos (.inl (Nat.le_refl 1)), hrun]
  unfold againPrefix
  rw [hpar]

section
variable (hp : OwnerPresent c) (hdyn : c.spec.pfx = none)
  (hsel : c.spec.getOwnerSelector P.refuses = .ok sel)
include hp hdyn hsel

theorem Holds.again_of_spec {c' : IPClaim} (h : Holds c.spec.labels rib p t.rib)
    (hspec : c'.spec = c.spec) (N : Nipam) (b : Bool) :
    ∃ c'' t', (applyDynamic { P with nipam := N } b c').run (handler N) t = (.ok c'', t') ∧
      c''.status.pfx = some (P.txt.prefixString (againPrefix P rib c p)) ∧
      Holds c.spec.labels rib p t'.rib := by
  have hp' : OwnerPresent c' := by rw [OwnerPresent, hspec]; exact hp
  rw [← hspec] at h hdyn hsel ⊢
  obtain ⟨t', hrun, ht'⟩ := h.again (P := { P with nipam := N }) hp' hdyn hsel b
  refine ⟨_, t', hrun, ?_, ht'⟩
  rw [reported_pfx]
  unfold againPrefix
  rw [parentBits_platform _ P, hspec]

theorem Later.holds (h : Later P c s t) (hs : Holds c.spec.labels rib p s.rib) :
    Holds c.spec.labels rib p t.rib := by
  induction h with
  | refl => exact hs
  | grown _ hg ih => exact ih.grown hg
  | @again t t' N b c' x _ hspec hrun ih =>
    obtain ⟨c'', t'', hrun', -, ht⟩ := Holds.again_of_spec hp hdyn hsel ih hspec N b
    rw [hrun] at hrun'
    cases hrun'
    exact ht

/-- A claim with one route reports the same prefix at all times. -/
theorem Holds.reportKept (hs : Holds c.spec.labels rib p s.rib) :
    ReportKept P c s (some (P.txt.prefixString (againPrefix P rib c p))) := by
  intro t ht N b c' hspec
  obtain ⟨c'', t', hrun, htext, -⟩ :=
    Holds.again_of_spec hp hdyn hsel (ht.holds hp hdyn hsel hs) hspec N b
  exact ⟨c'', t', hrun, htext⟩

end

/-! ## Several routes or none -/

/-- A claim of an owner without routes fails when nothing is free. -/
theorem ReportKept.owns (h : ReportKept P c s text) :
    ∃ r, s.rib.Has r ∧ HasOwner c.spec.labels r.labels := by
  by_contra hno
  obtain ⟨c'', t', hrun, -⟩ := h s .refl P.nipam.nothingFree false c rfl
  have hown : OwnsNothing { P with nipam := P.nipam.nothingFree } s.rib c := by
    intro sel hsel
    refine List.eq_nil_iff_forall_not_mem.mpr fun r hr => hno ⟨r, ?_⟩
    obtain ⟨hhas, hm⟩ := P.nipam.nothingFree.mem_getByLabel.mp hr
    exact ⟨hhas, (ClaimLabels.ownerSelector_matches hsel).mp hm⟩
  obtain ⟨pi, hchosen, -⟩ := applyDynamic_ok hown hrun
  cases hchosen with
  | hint _ _ _ _ hp => cases hp
  | search _ _ _ _ hp => cases hp

/-- An address of a created network is reported when it is the last in the list. -/
theorem ReportKept.addr_eq (h : ReportKept P c s (some (P.txt.prefixString q)))
    (hdyn : c.spec.pfx = none) (hk : c.spec.kind = .network) (hc : c.isCreatePrefix = true)
    (hsel : c.spec.getOwnerSelector P.refuses = .ok sel) (hr : s.rib.Has r)
    (hown : HasOwner c.spec.labels r.labels) (ha : r.pfx.isAddressPrefix = true)
    (hpar : Parented s.rib r.pfx) : q.addr = r.pfx.addr := by
  have hmem : r ∈ P.nipam.getByLabel s.rib sel := (mem_owned hsel).mpr ⟨hr, hown⟩
  obtain ⟨os, hos⟩ := P.nipam.labelledLast_getByLabel hmem
  have hhas : ∀ r' ∈ os ++ [r], s.rib.Has r' := fun r' hr' =>
    ((P.nipam.labelledLast r).mem_getByLabel.mp (hos ▸ hr')).1
  have hlast : (updatedRoute s.rib c (os ++ [r])).map (fun r => r.pfx.addr) = some r.pfx.addr := by
    rw [updatedRoute, if_pos hk, lastParented_concat ha hpar]
    rfl
  obtain ⟨c'', t', hrun, htext⟩ := h s .refl (P.nipam.labelledLast r) false c rfl
  cases hlist : os ++ [r] with
  | nil => simp at hlist
  | cons o os' =>
    rw [hlist] at hos hhas hlast
    obtain ⟨q', t'', hupd, haddr⟩ :=
      updateRib_reports (P := { P with nipam := P.nipam.labelledLast r }) false hdyn hhas
    rw [← applyDynamic_owned (P := { P with nipam := P.nipam.labelledLast r }) hsel hos
      (.inr ⟨hc, hk⟩)] at hupd
    cases hrun.symm.trans hupd
    rw [reported_pfx, Option.some.injEq] at htext
    rw [← P.txt.prefixString_injective htext]
    rw [hlast, Option.some.injEq] at haddr
    exact haddr.symm

/-- The route of the prefix is free, the claim has no other one, and an update reports the
prefix. -/
structure KeepsReport (P : Platform) (rib : Rib) (c : IPClaim) (pi : Prefix) : Prop where
  free : rib[mainPrefix c pi]? = none
  alone : ∀ r ∈ getMutatedRoutesWithLabels P.txt c pi, r.pfx = mainPrefix c pi
  again : againPrefix P rib c (mainPrefix c pi) = pi

section
variable (hsel : c.spec.getOwnerSelector P.refuses = .ok sel) (hnew : OwnsNothing P rib c)
include hsel hnew

/-- The routes of an owner that had none are those that the claim has added. -/
theorem OwnsNothing.added (hr : (addAll rib (getMutatedRoutesWithLabels P.txt c pi)).Has r)
    (hro : HasOwner c.spec.labels r.labels) :
    rib[r.pfx]? = none ∧ r ∈ getMutatedRoutesWithLabels P.txt c pi := by
  rcases has_of_has_addAll hr with hold | hadded
  · have hmem := (mem_owned hsel).mpr ⟨hold, hro⟩
    rw [hnew sel hsel] at hmem
    cases hmem
  · exact hadded

theorem holds_addAll (hp : OwnerPresent c) (hfree : rib[mainPrefix c pi]? = none)
    (halone : ∀ r ∈ getMutatedRoutesWithLabels P.txt c pi, r.pfx = mainPrefix c pi) :
    Holds c.spec.labels rib (mainPrefix c pi)
      (addAll rib (getMutatedRoutesWithLabels P.txt c pi)) := by
  refine ⟨?_, fun r hr hro => ?_, fun q hq => ?_⟩
  · obtain ⟨l, hl, hc⟩ := has_main_addAll P hfree
    exact ⟨l, hl, hc.hasOwner hp⟩
  · exact halone r (OwnsNothing.added hsel hnew hr hro).2
  · rw [addAll_getElem?]
    cases rib[q]? with
    | some l => rfl
    | none =>
      have hnone : (getMutatedRoutesWithLabels P.txt c pi).find? (fun r => r.pfx = q) = none := by
        refine List.find?_eq_none.mpr fun r hr hrq => ?_
        rw [halone r hr, decide_eq_true_eq] at hrq
        exact Prefix.StrictlyContains.irrefl (hrq ▸ hq)
      rw [hnone]
      rfl

end

/-- Each address of a created network that has got a route is the one of the report, since there is
an order in which it comes last. -/
theorem ReportKept.created (h : ReportKept P c s (some (P.txt.prefixString pi)))
    (hs : s.rib = addAll rib (getMutatedRoutesWithLabels P.txt c pi))
    (hchosen : Chosen P rib c pi) (hp : OwnerPresent c) (hdyn : c.spec.pfx = none)
    (hsel : c.spec.getOwnerSelector P.refuses = .ok sel) (hk : c.spec.kind = .network)
    (hc : c.isCreatePrefix = true) (hbits : pi.bits < pi.addr.bitLen) {a : Addr} (ha : a ∈ pi.addrs)
    (hr : r ∈ getMutatedRoutesWithLabels P.txt c pi) (hra : r.pfx = .single a) : pi.addr = a := by
  have hmain : mainPrefix c pi = pi.masked := by simp [mainPrefix, hk, hc, Prefix.getIPSubnet]
  have hstrict : pi.masked.StrictlyContains r.pfx := by
    rw [hra]
    refine ⟨?_, pi.masked_contains.trans (Prefix.contains_single ha)⟩
    rw [Prefix.single_bits, show a.bitLen = pi.addr.bitLen from congrArg Family.bitLen ha.1.symm]
    exact hbits
  have hnet : Parented s.rib r.pfx := by
    obtain ⟨l, rs, hcons⟩ := mutated_eq_cons P.txt c pi
    have hmem : ⟨mainPrefix c pi, l⟩ ∈ getMutatedRoutesWithLabels P.txt c pi :=
      hcons ▸ List.mem_cons_self
    obtain ⟨l', hl'⟩ := Option.isSome_iff_exists.mp (addAll_isSome rib hmem)
    rw [← hs] at hl'
    exact ⟨⟨mainPrefix c pi, l'⟩, hl', hmain ▸ hstrict⟩
  obtain ⟨l, hl⟩ := Option.isSome_iff_exists.mp (addAll_isSome rib hr)
  have hown : HasOwner c.spec.labels l := by
    rcases has_of_has_addAll (r := ⟨r.pfx, l⟩) hl with hold | ⟨-, hadded⟩
    · exact absurd (hmain ▸ hstrict) (hchosen.nothing_inside hold)
    · exact (carriesOwner_of_mem_mutated hadded).hasOwner hp
  have hhas : s.rib.Has ⟨r.pfx, l⟩ := hs ▸ hl
  have haddress : r.pfx.isAddressPrefix = true := hra ▸ Prefix.isAddressPrefix_single a
  rw [h.addr_eq hdyn hk hc hsel hhas hown haddress hnet]
  exact congrArg Prefix.addr hra

/-- The report of a chosen prefix is kept exactly if the claim has one route that gives it. -/
theorem reportKept_iff_keepsReport (hchosen : Chosen P rib c pi) (hdyn : c.spec.pfx = none)
    (hsel : c.spec.getOwnerSelector P.refuses = .ok sel) (hnew : OwnsNothing P rib c)
    (hs : s.rib = addAll rib (getMutatedRoutesWithLabels P.txt c pi)) :
    ReportKept P c s (some (P.txt.prefixString pi)) ↔ OwnerPresent c ∧ KeepsReport P rib c pi := by
  constructor
  · intro h
    obtain ⟨r, hr, hro⟩ := h.owns
    obtain ⟨hfree, hmem⟩ := OwnsNothing.added hsel hnew (hs ▸ hr) hro
    have hp : OwnerPresent c := fun k hk => by
      rw [← carriesOwner_of_mem_mutated hmem k hk, hro k hk]
      rfl
    by_cases halone : ∀ r ∈ getMutatedRoutesWithLabels P.txt c pi, r.pfx = mainPrefix c pi
    · have hmain : rib[mainPrefix c pi]? = none := halone r hmem ▸ hfree
      have hholds := holds_addAll hsel hnew hp hmain halone
      obtain ⟨c'', t', hrun, htext⟩ := h s .refl P.nipam false c rfl
      obtain ⟨t'', hrun', -⟩ := Holds.again (P := P) (hs ▸ hholds) hp hdyn hsel false
      cases hrun.symm.trans hrun'
      rw [reported_pfx, Option.some.injEq] at htext
      exact ⟨hp, hmain, halone, P.txt.prefixString_injective htext⟩
    · obtain ⟨r', hr', hne⟩ : ∃ r' ∈ getMutatedRoutesWithLabels P.txt c pi,
          r'.pfx ≠ mainPrefix c pi := by
        simpa only [not_forall, exists_prop] using halone
      obtain ⟨hk, hc, hp2p, hbits⟩ := network_of_mem_mutated hr' hne
      have hroutes : getMutatedRoutesWithLabels P.txt c pi =
          networkRoutes pi (mutatedLabels P.txt c pi) := by
        simp [getMutatedRoutesWithLabels, hk, hc]
      obtain ⟨⟨r₁, hr₁, hfirst⟩, ⟨r₂, hr₂, hlast⟩⟩ :=
        ends_mem_networkRoutes hp2p (mutatedLabels P.txt c pi)
      rw [← hroutes] at hr₁ hr₂
      have heq : pi.firstAddr = pi.lastAddr := by
        rw [← h.created hs hchosen hp hdyn hsel hk hc hbits pi.firstAddr_mem hr₁ hfirst]
        exact h.created hs hchosen hp hdyn hsel hk hc hbits pi.lastAddr_mem hr₂ hlast
      exact absurd heq (Prefix.firstAddr_ne_lastAddr hbits)
  · rintro ⟨hp, hkeep⟩
    have hholds := holds_addAll hsel hnew hp hkeep.free hkeep.alone
    have hkept := Holds.reportKept hp hdyn hsel (s := s) (hs ▸ hholds)
    rwa [hkeep.again] at hkept

/-! ## Conditions on the claim -/

/-- The report of a prefix that a claim hints at is kept: its route is not in the table; for a
network that is created, it is a point-to-point link without host bits or an address that has no
parent; for an address of a network, its length is that of the most specific parent. -/
def HintStable (P : Platform) (rib : Rib) (c : IPClaim) (h : Prefix) : Prop :=
  rib[mainPrefix c h]? = none ∧
    match c.spec.kind, c.isCreatePrefix with
    | .network, true => isPointToPoint h = true ∧ h.masked = h ∨
        h.isAddressPrefix = true ∧ parentBits P rib h = none
    | .network, false => parentBits P rib h.getIPAddressPrefix = some h.bits ∨
        h.isAddressPrefix = true ∧ parentBits P rib h = none
    | _, _ => h.masked = h

theorem againPrefix_address (hk : c.spec.kind = .network) (ha : h.isAddressPrefix = true) :
    againPrefix P rib c h = h ↔ parentBits P rib h = none := by
  unfold againPrefix
  rw [if_pos ⟨hk, ha⟩]
  cases hn : parentBits P rib h with
  | none => exact iff_of_true rfl rfl
  | some n =>
    obtain ⟨⟨r, hr, hp, rfl⟩, -⟩ := parentBits_eq_some.mp hn
    refine iff_of_false (fun heq => ?_) (by simp)
    have hle : r.pfx.bits ≤ h.addr.bitLen := (Nat.le_of_lt hp.1).trans h.le
    rw [Option.bind_some, prefixFrom, dif_pos hle, Option.getD_some, Prefix.mk_addr_eq_iff] at heq
    exact Nat.ne_of_lt hp.1 heq

/-- The address of a network is reported with the length of its parent. -/
theorem againPrefix_single (hk : c.spec.kind = .network) :
    againPrefix P rib c (.single h.addr) = h ↔
      parentBits P rib (.single h.addr) = some h.bits ∨
        h.isAddressPrefix = true ∧ parentBits P rib h = none := by
  by_cases ha : h.isAddressPrefix = true
  · rw [← Prefix.eq_single_of_isAddressPrefix ha, againPrefix_address hk ha]
    constructor
    · exact fun hn => .inr ⟨ha, hn⟩
    · rintro (hn | ⟨-, hn⟩)
      · obtain ⟨⟨r, -, hp, hb⟩, -⟩ := parentBits_eq_some.mp hn
        exact absurd hb (Nat.ne_of_lt hp.1)
      · exact hn
  · unfold againPrefix
    rw [if_pos ⟨hk, Prefix.isAddressPrefix_single _⟩]
    simp only [ha, false_and, or_false, Bool.false_eq_true]
    cases hn : parentBits P rib (.single h.addr) with
    | none =>
      refine iff_of_false (fun heq => ha ?_) (by simp)
      rw [← heq]
      exact Prefix.isAddressPrefix_single _
    | some n =>
      obtain ⟨⟨r, hr, hp, rfl⟩, -⟩ := parentBits_eq_some.mp hn
      have hle : r.pfx.bits ≤ h.addr.bitLen := Nat.le_of_lt hp.1
      show (prefixFrom h.addr r.pfx.bits).getD _ = h ↔ _
      rw [prefixFrom, dif_pos hle, Option.getD_some, Option.some.injEq, Prefix.mk_addr_eq_iff]

/-- A created network has one route if it is point-to-point or an address; otherwise its first
address has a route of its own. -/
theorem created_alone_iff (hk : c.spec.kind = .network) (hc : c.isCreatePrefix = true) :
    (∀ r ∈ getMutatedRoutesWithLabels P.txt c h, r.pfx = h.masked) ↔
      isPointToPoint h = true ∨ h.isAddressPrefix = true := by
  constructor
  · intro hall
    refine or_iff_not_imp_left.mpr fun hp2p => ?_
    rw [Bool.not_eq_true] at hp2p
    obtain ⟨⟨r, hr, hfirst⟩, -⟩ := ends_mem_networkRoutes hp2p (mutatedLabels P.txt c h)
    have hr' : r ∈ getMutatedRoutesWithLabels P.txt c h := by
      simpa [getMutatedRoutesWithLabels, hk, hc] using hr
    have hmask : h.masked = .single h.firstAddr := (hall r hr').symm.trans hfirst
    exact Prefix.isAddressPrefix_iff.mpr (congrArg Prefix.bits hmask)
  · intro hone r hr
    have hmain : mainPrefix c h = h.masked := by simp [mainPrefix, hk, hc, Prefix.getIPSubnet]
    by_contra hne
    obtain ⟨-, -, hp2p, hbits⟩ := network_of_mem_mutated hr (hmain ▸ hne)
    rcases hone with hone | hone
    · rw [hp2p] at hone
      cases hone
    · exact Nat.ne_of_lt hbits (Prefix.isAddressPrefix_iff.mp hone)

theorem created_again_iff (hk : c.spec.kind = .network) (hc : c.isCreatePrefix = true) :
    (∀ r ∈ getMutatedRoutesWithLabels P.txt c h, r.pfx = h.masked) ∧
        againPrefix P rib c h.masked = h ↔
      isPointToPoint h = true ∧ h.masked = h ∨
        h.isAddressPrefix = true ∧ parentBits P rib h = none := by
  rw [created_alone_iff hk hc]
  by_cases ha : h.isAddressPrefix = true
  · have hp2p : isPointToPoint h = false := by
      rw [← Bool.not_eq_true, isPointToPoint_iff, Prefix.isAddressPrefix_iff.mp ha]
      exact Nat.succ_ne_self _
    rw [Prefix.masked_of_isAddressPrefix ha, againPrefix_address hk ha]
    simp [hp2p, ha]
  · have hagain : againPrefix P rib c h.masked = h.masked :=
      if_neg fun hnet => ha (Prefix.isAddressPrefix_iff.mpr (Prefix.isAddressPrefix_iff.mp hnet.2))
    rw [hagain]
    simp [ha]

theorem keepsReport_iff : KeepsReport P rib c h ↔ HintStable P rib c h := by
  have hstruct : KeepsReport P rib c h ↔ rib[mainPrefix c h]? = none ∧
      (∀ r ∈ getMutatedRoutesWithLabels P.txt c h, r.pfx = mainPrefix c h) ∧
      againPrefix P rib c (mainPrefix c h) = h :=
    ⟨fun h => ⟨h.free, h.alone, h.again⟩, fun h => ⟨h.1, h.2.1, h.2.2⟩⟩
  rw [hstruct, HintStable]
  refine and_congr_right fun hfree => ?_
  by_cases hk : c.spec.kind = .network
  · cases hc : c.isCreatePrefix with
    | false =>
      have hmain : mainPrefix c h = .single h.addr := by
        simp [mainPrefix, hk, hc, Prefix.getIPAddressPrefix]
      have halone : ∀ r ∈ getMutatedRoutesWithLabels P.txt c h, r.pfx = .single h.addr := by
        simp [getMutatedRoutesWithLabels, hk, hc, Prefix.getIPAddressPrefix]
      rw [hmain, hk]
      exact (and_iff_right halone).trans (againPrefix_single hk)
    | true =>
      have hmain : mainPrefix c h = h.masked := by simp [mainPrefix, hk, hc, Prefix.getIPSubnet]
      rw [hmain, hk]
      exact created_again_iff hk hc
  · have hmain : mainPrefix c h = h.masked := mainPrefix_eq_subnet c h fun hnet => hk hnet.1
    have halone : ∀ r ∈ getMutatedRoutesWithLabels P.txt c h, r.pfx = mainPrefix c h := by
      intro r hr
      by_contra hne
      exact hk (network_of_mem_mutated hr hne).1
    have hagain : againPrefix P rib c (mainPrefix c h) = h.masked := by
      rw [hmain]
      exact if_neg fun hnet => hk hnet.1
    rw [hagain]
    refine (and_iff_right halone).trans ?_
    split
    next hk' _ => exact absurd hk' hk
    next hk' _ => exact absurd hk' hk
    next => exact .rfl

/-! ## The first claim -/

/-- The report of a prefix that is found in the route `S` with the length `L` is kept: a network
that is created is a point-to-point link; an address of a network is not found in a route for a
single address; and another prefix is not found in a route for itself. -/
def SearchStable (rib : Rib) (c : IPClaim) (S : Route) (L : Nat) : Prop :=
  match c.spec.kind, c.isCreatePrefix with
  | .network, true => L + 1 = S.pfx.addr.bitLen
  | .network, false => S.pfx.isAddressPrefix = false
  | _, _ => S.pfx.bits = L → rib[S.pfx.masked]? = none

/-- The claim keeps the prefix that it gets: its owner labels are set, and the prefix that it hints
at or finds is of a kind that is reported again. -/
structure Repeatable (P : Platform) (rib : Rib) (c : IPClaim) : Prop where
  owner : OwnerPresent c
  hint : ∀ h, Offered P rib c h → HintStable P rib c h
  search : ∀ S L, Searched P rib c S L → SearchStable rib c S L

/-- A length that is not one of addresses is longer than that of the route. -/
theorem Picked.lt (h : Picked P rib c S L) (hL : ¬(L = 32 ∨ L = 128)) : S.pfx.bits < L := by
  obtain ⟨sel, route, routes, -, -, -, hsel⟩ := h.pick
  unfold getSelectedRouteWithPrefixLength at hsel
  rw [if_neg hL] at hsel
  simpa using List.find?_some hsel

section
variable (hpick : Picked P rib c S L) (hp : P.nipam.getAvailablePrefixByBitLen rib S.pfx L = some p)
include hpick hp

theorem searchStable_created (hk : c.spec.kind = .network) (hc : c.isCreatePrefix = true) :
    HintStable P rib c p ↔ L + 1 = S.pfx.addr.bitLen := by
  obtain ⟨hb, hmask, hin, -⟩ := P.nipam.available hp
  have hlen : p.addr.bitLen = S.pfx.addr.bitLen := congrArg Family.bitLen hin.1.symm
  have hmain : mainPrefix c p = p := by simp [mainPrefix, hk, hc, Prefix.getIPSubnet, hmask]
  rw [HintStable, hk, hc, hmain]
  dsimp only
  rw [isPointToPoint_iff, hb, hlen]
  constructor
  · rintro ⟨hfree, ⟨hp2p, -⟩ | ⟨ha, hpar⟩⟩
    · exact hp2p
    · -- the route is not a parent of an address in it, so it is the address
      have hnot := parentBits_eq_none.mp hpar S hpick.selects.1
      have hbits : S.pfx.bits = p.bits :=
        Nat.le_antisymm hin.2.1 (Nat.not_lt.mp fun hlt => hnot ⟨hlt, hin⟩)
      have hS : S.pfx.isAddressPrefix = true := by
        rw [Prefix.isAddressPrefix_iff, hbits, Prefix.isAddressPrefix_iff.mp ha, hlen]
      have heq : S.pfx = p := by
        rw [← Prefix.masked_of_isAddressPrefix hS, ← hmask]
        exact hin.masked_eq hbits
      have hhas : rib[S.pfx]? = some S.labels := hpick.selects.1
      rw [heq, hfree] at hhas
      cases hhas
  · intro hL
    have hnot : ¬(L = 32 ∨ L = 128) := by
      unfold Addr.bitLen at hL
      cases hf : S.pfx.addr.family <;> rw [hf] at hL <;> simp only [Family.bitLen] at hL <;> omega
    exact ⟨P.nipam.available_free hp (hpick.lt hnot) (.refl p), .inl ⟨hL, hmask⟩⟩

theorem searchStable_address (hk : c.spec.kind = .network) (hc : c.isCreatePrefix = false)
    (haddr : pi.addr = p.addr) (hbits : pi.bits = S.pfx.bits) :
    HintStable P rib c pi ↔ S.pfx.isAddressPrefix = false := by
  obtain ⟨hb, hmask, hin, hfree⟩ := P.nipam.available hp
  have hS := hpick.selects.1
  have hlen : p.addr.bitLen = S.pfx.addr.bitLen := congrArg Family.bitLen hin.1.symm
  have hmain : mainPrefix c pi = .single p.addr := by
    simp [mainPrefix, hk, hc, Prefix.getIPAddressPrefix, haddr]
  have hsingle : p.Contains (.single p.addr) := Prefix.contains_single p.addr_mem
  rw [HintStable, hk, hc, hmain]
  dsimp only
  cases ha : S.pfx.isAddressPrefix with
  | true =>
    refine iff_of_false (fun h => ?_) (by simp)
    have hpb : S.pfx.bits = (Prefix.single p.addr).bits := by
      rw [Prefix.isAddressPrefix_iff.mp ha, ← hlen, Prefix.single_bits]
    have heq := (hin.trans hsingle).masked_eq hpb
    rw [Prefix.masked_of_isAddressPrefix ha, Prefix.masked_single] at heq
    have hnone := h.1
    rw [← heq, show rib[S.pfx]? = some S.labels from hS] at hnone
    cases hnone
  | false =>
    have hstrict : S.pfx.StrictlyContains (.single p.addr) := by
      refine ⟨Nat.lt_of_le_of_ne (hin.trans hsingle).2.1 fun h => ?_, hin.trans hsingle⟩
      rw [Prefix.single_bits, hlen, ← Prefix.isAddressPrefix_iff, ha] at h
      cases h
    refine iff_of_true ⟨?_, .inl (parentBits_eq_some.mpr ⟨?_, fun r hr hrp => ?_⟩)⟩ rfl
    · by_contra hne
      obtain ⟨l, hl⟩ := Option.ne_none_iff_exists'.mp hne
      exact hfree ⟨_, l⟩ hl hstrict (.inl hsingle)
    · rw [Prefix.getIPAddressPrefix, haddr]
      exact ⟨S, hS, hstrict, hbits.symm⟩
    · -- a longer parent would lie in the route and overlap the prefix found
      rw [Prefix.getIPAddressPrefix, haddr] at hrp
      by_contra hlong
      rw [hbits, Nat.not_le] at hlong
      have hinside : S.pfx.StrictlyContains r.pfx :=
        ⟨hlong, hstrict.contains.nested hrp.contains hlong.le⟩
      exact hfree r hr hinside (hsingle.overlaps hrp.contains)

omit hpick in
theorem searchStable_other (hk : c.spec.kind ≠ .network) :
    HintStable P rib c p ↔ (S.pfx.bits = L → rib[S.pfx.masked]? = none) := by
  obtain ⟨hb, hmask, hin, -⟩ := P.nipam.available hp
  have hstable : HintStable P rib c p ↔ rib[p]? = none := by
    unfold HintStable
    rw [mainPrefix_eq_subnet c p fun hnet => hk hnet.1, Prefix.getIPSubnet, hmask]
    refine and_iff_left ?_
    split
    next hk' _ => exact absurd hk' hk
    next hk' _ => exact absurd hk' hk
    next => rfl
  rw [hstable]
  rcases Nat.eq_or_lt_of_le (hb ▸ hin.2.1) with hbits | hlt
  · rw [← hin.masked_eq (hbits.trans hb.symm) |>.trans hmask]
    exact ⟨fun h _ => h, fun h => h hbits⟩
  · exact iff_of_true (P.nipam.available_free hp hlt (.refl p)) fun h => absurd h (Nat.ne_of_lt hlt)

theorem searchStable_iff (hpi : updatePrefixInfo c S.pfx p L = some pi) :
    HintStable P rib c pi ↔ SearchStable rib c S L := by
  have hb := (P.nipam.available hp).1
  unfold SearchStable
  by_cases hk : c.spec.kind = .network
  · cases hc : c.isCreatePrefix with
    | true =>
      obtain rfl : p = pi := by simpa [updatePrefixInfo, hk, hc] using hpi
      rw [hk]
      exact searchStable_created hpick hp hk hc
    | false =>
      have hpi' : prefixFrom p.addr S.pfx.bits = some pi := by
        simpa [updatePrefixInfo, hk, hc] using hpi
      obtain ⟨haddr, hbits⟩ := prefixFrom_eq_some.mp hpi'
      rw [hk]
      exact searchStable_address hpick hp hk hc haddr hbits
  · obtain rfl : p = pi := by
      rw [updatePrefixInfo, if_neg hk, ← hb, prefixFrom_self] at hpi
      exact Option.some.inj hpi
    rw [searchStable_other hp hk]
    split
    next hk' _ => exact absurd hk' hk
    next hk' _ => exact absurd hk' hk
    next => rfl

end

/-- A dynamic claim of an owner without routes reports the same prefix whenever it is made again, in
every later table and with every order of the listings, exactly if it is repeatable. -/
theorem reportKept_iff (P : Platform) (s s₁ : RibState) (c c₁ : IPClaim) (initializing : Bool)
    (hdyn : c.spec.pfx = none) (hnew : OwnsNothing P s.rib c)
    (hrun : (applyDynamic P initializing c).run (handler P.nipam) s = (.ok c₁, s₁)) :
    ReportKept P c s₁ c₁.status.pfx ↔ Repeatable P s.rib c := by
  obtain ⟨sel, hsel, -, -⟩ := applyDynamic_cases hrun
  obtain ⟨pi, hadd, hfirst⟩ := (applyDynamic_new_ok (hnew.withoutRoutes hrun)).mp hrun
  rw [addRib_run] at hadd
  cases hadd
  rw [reported_pfx]
  rcases hfirst with ⟨-, text, ht, hparse, hsome⟩ | ⟨S, L, p, hsearch, hp, hpi⟩
  · obtain ⟨g, hg⟩ := Option.isSome_iff_exists.mp hsome
    rw [reportKept_iff_keepsReport (.hint text g ht hparse hg) hdyn hsel hnew rfl, keepsReport_iff]
    constructor
    · rintro ⟨hown, hst⟩
      refine ⟨hown, fun h hh => ?_, fun S L hsearch => ?_⟩
      · obtain ⟨text', ht', hparse', -⟩ := hh
        cases ht.symm.trans ht'
        cases hparse.symm.trans hparse'
        exact hst
      · obtain ⟨h, hparse', hnone⟩ := hsearch.refused text ht
        cases hparse.symm.trans hparse'
        rw [hnone] at hsome
        cases hsome
    · exact fun h => ⟨h.owner, h.hint pi ⟨text, ht, hparse, hsome⟩⟩
  · rw [reportKept_iff_keepsReport (.search S L p hsearch.picked hp hpi) hdyn hsel hnew rfl,
      keepsReport_iff, searchStable_iff hsearch.picked hp hpi]
    constructor
    · rintro ⟨hown, hst⟩
      refine ⟨hown, fun h hh => ?_, fun S' L' hsearch' => ?_⟩
      · obtain ⟨text, ht, hparse, hsome⟩ := hh
        obtain ⟨h', hparse', hnone⟩ := hsearch.refused text ht
        cases hparse.symm.trans hparse'
        rw [hnone] at hsome
        cases hsome
      · obtain ⟨rfl, rfl⟩ := hsearch.picked.unique hsearch'.picked
        exact hst
    · exact fun h => ⟨h.owner, h.search S L hsearch⟩

theorem reportKept_loopback :
    ReportKept .reference (anyAddressClaim .loopback)
      ((applyDynamic .reference false (anyAddressClaim .loopback)).run (handler .reference)
        aggregateRib).2
      (some "10.0.0.0/32") := by
  refine (reportKept_iff .reference aggregateRib _ (anyAddressClaim .loopback)
    ((anyAddressClaim .loopback).setPrefix "10.0.0.0/32") false rfl (by decide +kernel)
    (Prod.ext (by decide +kernel) rfl)).mpr ⟨by decide, ?_, ?_⟩
  · rintro h ⟨text, ht, -⟩
    cases ht
  · intro S L hsearch
    have hpick : Picked .reference aggregateRib.rib (anyAddressClaim .loopback)
        ⟨samplePrefix 0 8, kindLabels .aggregate⟩ 32 :=
      ⟨_, ⟨samplePrefix 0 8, kindLabels .aggregate⟩, [], rfl, by decide +kernel, rfl,
        by decide +kernel⟩
    obtain ⟨rfl, rfl⟩ := hsearch.picked.unique hpick
    exact fun h => absurd h (by decide)

/-- A claim that creates some network of 256 addresses in the aggregate. -/
def anyNetwork : IPClaim :=
  sampleClaim ipClaimGVK "a" .network none (some 24) (some true) (ofKind .aggregate)

/-- The claim reports 10.0.0.0/24, and when it is made again, the last address of this network. -/
theorem created_network_reports_end :
    validateInputDynamic .reference anyNetwork = "" ∧
    OwnsNothing .reference aggregateRib.rib anyNetwork ∧
    ((applyDynamic .reference false anyNetwork).run (handler .reference) aggregateRib).1 =
      .ok (anyNetwork.setPrefix "10.0.0.0/24") ∧
    ((applyDynamic .reference false anyNetwork).run (handler .reference)
      ((applyDynamic .reference false anyNetwork).run (handler .reference) aggregateRib).2).1 =
      .ok (anyNetwork.setPrefix "10.0.0.255/24") ∧
    ¬ReportKept .reference anyNetwork
      ((applyDynamic .reference false anyNetwork).run (handler .reference) aggregateRib).2
      (some "10.0.0.0/24") := by
  have hagain : ((applyDynamic .reference false anyNetwork).run (handler .reference)
      ((applyDynamic .reference false anyNetwork).run (handler .reference) aggregateRib).2).1 =
      .ok (anyNetwork.setPrefix "10.0.0.255/24") := by decide +kernel
  refine ⟨by decide, by decide +kernel, by decide +kernel, hagain, fun h => ?_⟩
  obtain ⟨c'', t', hrun, htext⟩ := h _ .refl .reference false anyNetwork rfl
  have hc : Except.ok c'' = Except.ok (anyNetwork.setPrefix "10.0.0.255/24") :=
    (congrArg Prod.fst hrun).symm.trans hagain
  cases hc
  exact absurd htext (by decide)

end K8sIpam.Ipam
