import K8sIpam.Ipam.Children
import K8sIpam.Ipam.Fresh
import K8sIpam.Ipam.Gateway
import K8sIpam.Ipam.Hint
import K8sIpam.Ipam.Reclaim

/-! # Requests and the nesting of routes

A claim with a prefix is validated, but only against the first child of a network; a dynamic claim
is not validated at all and takes its place by the length of a route; an update writes the kind of
the claim on the routes of its owner; a delete leaves what lies inside. The conditions under which
each of them keeps the table well nested, and what a run of such requests leaves. -/

namespace K8sIpam.Ipam
open Std Atomic Prog Net

variable {P : Platform} {c c' : IPClaim} {s s' : RibState} {rib rib' : Rib} {p pi x : Prefix}
  {q r o S : Route} {L : Nat}

/-! ## What the validation tells -/

theorem findParent_spec (route : Route) (routes : List Route) :
    findParent route routes ∈ route :: routes ∧
      ∀ r ∈ route :: routes, r.pfx.bits ≤ (findParent route routes).pfx.bits := by
  induction routes generalizing route with
  | nil => simp [findParent]
  | cons r rs ih =>
    rw [findParent, List.foldl_cons]
    obtain ⟨hmem, hmax⟩ := ih (if r.pfx.bits > route.pfx.bits then r else route)
    have hbest : route.pfx.bits ≤ (if r.pfx.bits > route.pfx.bits then r else route).pfx.bits ∧
        r.pfx.bits ≤ (if r.pfx.bits > route.pfx.bits then r else route).pfx.bits := by
      split <;> omega
    have hle := hmax _ List.mem_cons_self
    refine ⟨?_, fun r' hr' => ?_⟩
    · rcases List.mem_cons.mp hmem with heq | hin
      · rw [findParent] at heq
        rw [heq]
        split <;> simp
      · exact List.mem_cons_of_mem _ (List.mem_cons_of_mem _ hin)
    · rcases List.mem_cons.mp hr' with rfl | hr'
      · exact hbest.1.trans hle
      · rcases List.mem_cons.mp hr' with rfl | hr'
        · exact hbest.2.trans hle
        · exact hmax r' (List.mem_cons_of_mem _ hr')

/-- A new prefix is accepted when one of the routes inside, if there are any, and the most specific
route around it are accepted; or there is no route around it and it is for a network instance. -/
theorem validateNew_ok (h : validateNew P c rib pi = "") :
    ((∃ r, rib.Has r ∧ pi.getIPSubnet.StrictlyContains r.pfx) →
      ∃ r, ChildRule c.spec.kind r) ∧
    (ForInstance c.spec.labels ∧ (∀ r, rib.Has r → ¬r.pfx.StrictlyContains pi.getIPSubnet) ∨
      ∃ q, MostSpecific rib pi.getIPSubnet q ∧ validateParentExist P c q pi = "") := by
  obtain ⟨hfirst, h⟩ := validateNew_eq_empty.mp h
  constructor
  · rintro ⟨r, hr⟩
    have hmem : r ∈ P.nipam.children (dryrunRib P c rib pi) pi.getIPSubnet :=
      mem_children_dryrunRib.mpr hr
    obtain ⟨child, rest, hcons⟩ := List.exists_cons_of_ne_nil (List.ne_nil_of_mem hmem)
    exact ⟨child, hfirst child (by rw [hcons]; rfl)⟩
  · unfold validateParents at h
    split at h
    next hnil =>
      refine .inl ⟨?_, fun r hr hin => ?_⟩
      · unfold validateNoParentExist at h
        split at h
        next hgvk => exact hgvk
        · exact absurd h (by decide)
      · have hmem : r ∈ P.nipam.parents (dryrunRib P c rib pi) pi.getIPSubnet :=
          mem_parents_dryrunRib.mpr ⟨hr, hin⟩
        rw [hnil] at hmem
        cases hmem
    next parent parents hparents =>
      obtain ⟨hmem, hmax⟩ := findParent_spec parent parents
      rw [← hparents] at hmem hmax
      obtain ⟨hhas, hin⟩ := mem_parents_dryrunRib.mp hmem
      refine .inr ⟨_, ⟨hhas, hin, fun r hr hr' => ?_⟩, h⟩
      exact hmax r (mem_parents_dryrunRib.mpr ⟨hr, hr'⟩)

/-- The route that a claim is about is an address if the claim is for an address of a network, or
else if its prefix is one. -/
theorem mainPrefix_isAddress (hin : validateInputPrefix P c pi = "") :
    (mainPrefix c pi).isAddressPrefix =
      if c.spec.kind = .network then !c.isCreatePrefix else pi.isAddressPrefix := by
  unfold mainPrefix
  split
  next hk =>
    rw [if_pos hk]
    split
    next hc =>
      obtain ⟨haddr, -⟩ := validateInputPrefix_eq_empty.mp hin
      rw [hc]
      exact Bool.not_eq_true _ ▸ fun h => haddr ⟨.inr hk, h⟩
    next hc =>
      rw [Bool.not_eq_true] at hc
      rw [hc]
      exact Prefix.isAddressPrefix_single _
  next hk =>
    rw [if_neg fun h => hk h]
    exact congrArg Prefix.isAddressPrefix (getIPSubnet_eq_of_accepted hin fun h => hk h)

theorem validateParentExist_ok (hin : validateInputPrefix P c pi = "")
    (h : validateParentExist P c q pi = "") :
    KindAllowed c.spec.kind (mainPrefix c pi).isAddressPrefix q.labels := by
  rw [mainPrefix_isAddress hin]
  unfold validateParentExist at h
  dsimp only at h
  cases hk : c.spec.kind with
  | aggregate =>
    simp only [hk] at h
    split at h
    · simp at h
    next hagg => exact ⟨.aggregate, List.mem_singleton.mpr rfl, not_not.mp hagg⟩
  | loopback =>
    simp only [hk] at h
    split at h
    · simp at h
    next hkind =>
      split at h
      · simp at h
      · split at h
        · simp at h
        next hpfx =>
          rw [if_neg (by decide)]
          rcases not_and_or.mp hkind with hagg | hloop
          · refine ⟨.aggregate, ?_, not_not.mp hagg⟩
            cases pi.isAddressPrefix <;> simp [PrefixKind.parents]
          · refine ⟨.loopback, ?_, not_not.mp hloop⟩
            cases haddr : pi.isAddressPrefix with
            | true => simp [PrefixKind.parents]
            | false =>
              have hagg := not_not.mp ((not_and.mp hpfx) haddr)
              exact absurd (hagg.symm.trans (not_not.mp hloop)) (by decide)
  | network =>
    simp only [hk] at h
    rw [if_pos rfl]
    split at h
    next hc =>
      split at h
      · simp at h
      next hagg =>
        rw [hc]
        exact ⟨.aggregate, List.mem_singleton.mpr rfl, not_not.mp hagg⟩
    next hc =>
      rw [Bool.not_eq_true] at hc
      split at h
      · simp at h
      next hnet =>
        rw [hc]
        exact ⟨.network, List.mem_singleton.mpr rfl, not_not.mp hnet⟩
  | pool =>
    simp only [hk] at h
    split at h
    · simp at h
    next hkind =>
      rcases not_and_or.mp hkind with hagg | hpool
      · exact ⟨.aggregate, by simp [PrefixKind.parents], not_not.mp hagg⟩
      · exact ⟨.pool, by simp [PrefixKind.parents], not_not.mp hpool⟩

/-! ## The routes of a claim -/

/-- The routes of a claim can be added when the one that it is about has its place. -/
theorem Nesting.addMutated (h : Nesting rib) (hfree : rib[mainPrefix c pi]? = none)
    (hmask : (mainPrefix c pi).masked = mainPrefix c pi)
    (hparent : ForInstance c.spec.labels ∧ (∀ r, rib.Has r →
        r.pfx.StrictlyContains (mainPrefix c pi) → (mainPrefix c pi).isAddressPrefix = true) ∨
      ∃ q, MostSpecific rib (mainPrefix c pi) q ∧
        KindAllowed c.spec.kind (mainPrefix c pi).isAddressPrefix q.labels)
    (hinside : ∀ r, rib.Has r → (mainPrefix c pi).StrictlyContains r.pfx →
      c.spec.kind = .aggregate ∨
        c.spec.kind = .network ∧ r.pfx.isAddressPrefix = true ∧ OfNetwork r.labels) :
    Nesting (Ipam.addAll rib (getMutatedRoutesWithLabels P.txt c pi)) := by
  obtain ⟨l, rs, hrs⟩ := mutated_eq_cons P.txt c pi
  have hwritten : ∀ r ∈ getMutatedRoutesWithLabels P.txt c pi, WrittenBy P c r :=
    fun r hr => .of_mem_mutated hr
  have hmain := hwritten ⟨mainPrefix c pi, l⟩ (hrs ▸ List.mem_cons_self)
  have hkind : l.get nephioPrefixKindKey = c.spec.kind.toString := Labels.get_of_getElem? hmain.kind
  have hinst : ForInstance c.spec.labels → ForInstance l := by
    intro hc
    have howner := hmain.owner nephioOwnerGvkKey (by decide)
    exact (congrArg (Option.getD · "") howner).trans hc
  have hinsert : Nesting (rib.insert (mainPrefix c pi) l) := by
    refine h.insert hfree hmask ?_ fun r hr hin => ?_
    · rcases hparent with ⟨hc, haddr⟩ | ⟨q, hq, hallow⟩
      · exact .inl ⟨hinst hc, haddr⟩
      · exact .inr ⟨q, hq, (allowed_iff hkind).mpr hallow⟩
    · rcases hinside r hr hin with hagg | ⟨hnet, haddr, hr'⟩
      · exact .inl (hagg ▸ hkind)
      · refine .inr ⟨haddr, (allowed_iff hr').mpr ⟨.network, ?_, hnet ▸ hkind⟩⟩
        rw [haddr]
        exact List.mem_singleton.mpr rfl
  have hadd : Ipam.addAll rib (getMutatedRoutesWithLabels P.txt c pi) =
      Ipam.addAll (rib.insert (mainPrefix c pi) l) rs := by
    rw [hrs, Ipam.addAll, List.foldl_cons, if_neg (not_mem_of_getElem?_eq_none hfree)]
    rfl
  rw [hadd]
  by_cases hnet : c.isCreatePrefix = true ∧ c.spec.kind = .network
  · refine hinsert.addAll (q := ⟨mainPrefix c pi, l⟩) (by simp [Rib.Has])
      (by rw [OfNetwork, hkind, hnet.2]) ?_
    intro r hr
    have hr' : r ∈ getMutatedRoutesWithLabels P.txt c pi := hrs ▸ List.mem_cons_of_mem _ hr
    obtain ⟨hin, hpfx⟩ := inside_main_of_mem_mutated hr'
    have hrnet : OfNetwork r.labels := by
      rw [OfNetwork, Labels.get_of_getElem? (hwritten r hr').kind, hnet.2]
    rcases hpfx with heq | ⟨a, ha⟩
    · exact ⟨hin, heq ▸ hmask, .inl heq, hrnet⟩
    · refine ⟨hin, by rw [ha, Prefix.masked_single], .inr ?_, hrnet⟩
      rw [ha]
      exact Prefix.isAddressPrefix_single a
  · obtain ⟨r, hr⟩ := mutated_singleton P.txt pi hnet
    rw [hr, List.cons.injEq] at hrs
    rw [← hrs.2]
    exact hinsert

/-- An address of a network: its network is there, or the next network around is. -/
theorem Nesting.claimAddress (h : Nesting rib) (hmsg : validateMsg P rib c pi = "")
    (hfree : rib[mainPrefix c pi]? = none) (hk : c.spec.kind = .network)
    (hc : c.isCreatePrefix = false) :
    Nesting (Ipam.addAll rib (getMutatedRoutesWithLabels P.txt c pi)) := by
  have hin := validateInput_of_msg hmsg
  have hmain : mainPrefix c pi = .single pi.addr := by
    simp [mainPrefix, hk, hc, Prefix.getIPAddressPrefix]
  have hlong : pi.masked.StrictlyContains (.single pi.addr) := by
    obtain ⟨hnot, -⟩ := validateInputPrefix_eq_empty.mp hin
    have hne : pi.bits ≠ pi.addr.bitLen := fun hb =>
      hnot ⟨.inr hk, Prefix.isAddressPrefix_iff.mpr hb⟩
    exact ⟨Nat.lt_of_le_of_ne pi.le hne,
      pi.masked_contains.trans (Prefix.contains_single pi.addr_mem)⟩
  have hsingle := Prefix.isAddressPrefix_single pi.addr
  have hallow : ∀ q : Route, OfNetwork q.labels → KindAllowed c.spec.kind true q.labels :=
    fun q hq => ⟨.network, by simp [hk, PrefixKind.parents], hq⟩
  refine h.addMutated hfree (by rw [hmain, Prefix.masked_single]) ?_ fun r _ hr => ?_
  · rw [hmain, hsingle]
    cases hl : rib[pi.getIPSubnet]? with
    | some l =>
      rw [validateMsg_of_subnet hin hl] at hmsg
      have hnet : OfNetwork l := by
        unfold validateExisting at hmsg
        rw [if_neg (by rw [hc]; exact Bool.false_ne_true), if_pos hk] at hmsg
        split at hmsg
        · simp at hmsg
        next hkind => exact not_not.mp hkind
      exact .inr ⟨⟨pi.getIPSubnet, l⟩, h.mostSpecific_of_network hl hnet hlong, hallow _ hnet⟩
    | none =>
      have hnew : validateNew P c rib pi = "" := by
        rw [← hmsg, validateMsg, if_neg (by rw [hin]; simp), getRoute, hl]
        rfl
      rcases (validateNew_ok hnew).2 with ⟨hinst, -⟩ | ⟨q, hq, hparent⟩
      · exact .inl ⟨hinst, fun _ _ _ => rfl⟩
      · have hkind := validateParentExist_ok hin hparent
        rw [hmain, hsingle] at hkind
        obtain ⟨k, hparents, hqk⟩ := hkind
        have hnet : OfNetwork q.labels := by
          rw [hk, PrefixKind.parents, if_pos rfl, List.mem_singleton] at hparents
          rw [OfNetwork, hqk, hparents]
        exact .inr ⟨q, h.mostSpecific_of_network hq.has hnet
          (hq.around.trans_contains hlong.contains), hallow _ hnet⟩
  · rw [hmain] at hr
    exact absurd hr (Prefix.single_not_strictlyContains _)

/-- A claim with a prefix: the routes inside a network that it creates are all addresses of
networks. -/
theorem Nesting.claimPrefix (h : Nesting rib) (hmsg : validateMsg P rib c pi = "")
    (hfree : rib[mainPrefix c pi]? = none)
    (hchildren : c.spec.kind = .network → c.isCreatePrefix = true →
      ∀ r, rib.Has r → pi.getIPSubnet.StrictlyContains r.pfx → validateChildrenExist P c r = "") :
    Nesting (Ipam.addAll rib (getMutatedRoutesWithLabels P.txt c pi)) := by
  by_cases haddr : c.spec.kind = .network ∧ c.isCreatePrefix = false
  · exact h.claimAddress hmsg hfree haddr.1 haddr.2
  · have hin := validateInput_of_msg hmsg
    have hmain := mainPrefix_eq_subnet c pi haddr
    have hnew : validateNew P c rib pi = "" := by
      rw [← hmsg, validateMsg, if_neg (by rw [hin]; simp), getRoute, ← hmain, hfree]
      rfl
    obtain ⟨hchild, hparent⟩ := validateNew_ok hnew
    refine h.addMutated hfree (by rw [hmain]; exact pi.masked_masked) ?_ fun r hr hr' => ?_
    · rcases hparent with ⟨hinst, hnone⟩ | ⟨q, hq, hparent⟩
      · exact .inl ⟨hinst, fun r hr hr' => absurd (hmain ▸ hr') (hnone r hr)⟩
      · exact .inr ⟨q, hmain ▸ hq, validateParentExist_ok hin hparent⟩
    · rw [hmain] at hr'
      obtain ⟨r', hr'ok⟩ := hchild ⟨r, hr, hr'⟩
      cases hk : c.spec.kind with
      | aggregate => exact .inl rfl
      | network =>
        have hc : c.isCreatePrefix = true := by simpa [hk] using haddr
        have hrule := validateChildrenExist_eq_empty.mp (hchildren hk hc r hr hr')
        rw [hk] at hrule
        exact .inr ⟨rfl, hrule⟩
      | pool | loopback =>
        rw [hk] at hr'ok
        exact hr'ok.elim

/-! ## Dynamic claims -/

/-- A claim that looks for a prefix of the length in a route is about an address. -/
def claimsAddress (c : IPClaim) (S : Route) (L : Nat) : Bool :=
  (c.spec.kind = .network && !c.isCreatePrefix) || L = S.pfx.family.bitLen

/-- The route that a claim is about lies in the prefix that is found for it. -/
theorem mainPrefix_in_found (hp : P.nipam.getAvailablePrefixByBitLen rib S.pfx L = some p)
    (hpi : updatePrefixInfo c S.pfx p L = some pi) :
    p.Contains (mainPrefix c pi) ∧ (mainPrefix c pi).masked = mainPrefix c pi ∧
      (mainPrefix c pi).isAddressPrefix = claimsAddress c S L := by
  obtain ⟨rfl, hmask, hin, -⟩ := P.nipam.available hp
  obtain ⟨haddr, hcases⟩ := updatePrefixInfo_cases hpi
  by_cases hnet : c.spec.kind = .network ∧ c.isCreatePrefix = false
  · have hmain : mainPrefix c pi = .single p.addr := by
      simp [mainPrefix, hnet.1, hnet.2, Prefix.getIPAddressPrefix, haddr]
    rw [hmain]
    refine ⟨Prefix.contains_single p.addr_mem, Prefix.masked_single _, ?_⟩
    rw [Prefix.isAddressPrefix_single, claimsAddress, hnet.1, hnet.2]
    rfl
  · obtain rfl := hcases.resolve_right hnet
    have hmain : mainPrefix c pi = pi := (mainPrefix_eq_subnet c pi hnet).trans hmask
    rw [hmain]
    refine ⟨.refl _, hmask, ?_⟩
    have hnot : (c.spec.kind = .network && !c.isCreatePrefix) = false := by simpa using hnet
    rw [claimsAddress, hnot, Bool.false_or, Bool.eq_iff_iff, Prefix.isAddressPrefix_iff,
      decide_eq_true_eq, hin.1]
    rfl

/-- A prefix that is found strictly inside a route has the route as its most specific one. -/
theorem Nesting.claimFound (h : Nesting rib) (hS : rib.Has S)
    (hp : P.nipam.getAvailablePrefixByBitLen rib S.pfx L = some p) (hlt : S.pfx.bits < L)
    (hpi : updatePrefixInfo c S.pfx p L = some pi)
    (hallow : KindAllowed c.spec.kind (claimsAddress c S L) S.labels) :
    Nesting (Ipam.addAll rib (getMutatedRoutesWithLabels P.txt c pi)) := by
  obtain ⟨hin, hmask, haddr⟩ := mainPrefix_in_found hp hpi
  obtain ⟨hb, -, hSp, -⟩ := P.nipam.available hp
  have hstrict : S.pfx.StrictlyContains p := ⟨hb ▸ hlt, hSp⟩
  refine h.addMutated (P.nipam.available_free hp hlt hin) hmask (.inr ⟨S, ?_, haddr ▸ hallow⟩) ?_
  · refine ⟨hS, hstrict.trans_contains hin, fun r hr hr' => ?_⟩
    exact (available_disjoint hp hlt hr (hr'.contains.overlaps hin)).2.1
  · intro r hr hr'
    have hpr := hin.trans_strictlyContains hr'
    exact absurd hpr.contains
      (P.nipam.not_contains_of_available hp hr (hstrict.trans_contains hpr.contains))

/-! ## Updates and deletes -/

/-- The route of an owner can be updated: it keeps its kind, and the routes of other resources that
go away with it leave nothing behind. -/
structure Updatable (rib : Rib) (c : IPClaim) (o : Prefix) : Prop where
  held : ∃ l, rib[o]? = some l ∧ l.get nephioPrefixKindKey = c.spec.kind.toString ∧
    ownerKey l = c.owner
  downward : c.isCreatePrefix = true → ∀ q, rib.Has q → o.StrictlyContains q.pfx →
    c.sameNsn q.labels = false → ∀ r, rib.Has r → q.pfx.StrictlyContains r.pfx →
      c.sameNsn r.labels = false

/-- Routes of the new table are in the old one, with the same kind and the same owner. -/
def Thinner (rib rib' : Rib) : Prop := ∀ r, rib'.Has r → ∃ l, rib.Has ⟨r.pfx, l⟩ ∧ SameKind l r.labels

theorem Updates.thinner (h : Updates P c o s s') (ho : Updatable s.rib c o.pfx) :
    Thinner s.rib s'.rib := by
  obtain ⟨l, hl, hkind, hown⟩ := ho.held
  have hsame : SameKind l (newLabels P s.rib c o) :=
    ⟨hkind.trans (Labels.get_of_getElem? newLabels_kind).symm, hown.trans ownerKey_newLabels.symm⟩
  have hset : ∀ r, Rib.Has (s.rib.insert o.pfx (newLabels P s.rib c o)) r →
      ∃ l, s.rib.Has ⟨r.pfx, l⟩ ∧ SameKind l r.labels := by
    intro r hr
    by_cases hpfx : r.pfx = o.pfx
    · have hlabels : newLabels P s.rib c o = r.labels := by
        rw [Rib.Has, hpfx, ExtTreeMap.getElem?_insert_self] at hr
        exact Option.some.inj hr
      exact ⟨l, hpfx ▸ hl, hlabels ▸ hsame⟩
    · exact ⟨r.labels, (Rib.has_insert_of_ne hpfx).mp hr, .refl _⟩
  cases h with
  | same => exact fun r hr => ⟨r.labels, hr, .refl _⟩
  | set => exact hset
  | clear rib _ hc hrib =>
    subst hrib
    exact fun r hr => hset r (eraseAll_has.mp hr).1

/-- What an update removes. -/
theorem Updates.removed (h : Updates P c o s s') :
    (∀ r, s.rib.Has r → s'.rib[r.pfx]? ≠ none) ∨
      c.isCreatePrefix = true ∧ ∀ r, s.rib.Has r →
        (s'.rib[r.pfx]? = none ↔ o.pfx.StrictlyContains r.pfx ∧ c.sameNsn r.labels = false) := by
  have hset : ∀ r, s.rib.Has r →
      (s.rib.insert o.pfx (newLabels P s.rib c o))[r.pfx]? ≠ none := by
    intro r hr
    rw [ExtTreeMap.getElem?_insert]
    split
    · exact Option.some_ne_none _
    · rw [show s.rib[r.pfx]? = some r.labels from hr]
      exact Option.some_ne_none _
  cases h with
  | same =>
    refine .inl fun r hr => ?_
    rw [show s.rib[r.pfx]? = some r.labels from hr]
    exact Option.some_ne_none _
  | set => exact .inl hset
  | clear rib _ hc hrib =>
    subst hrib
    refine .inr ⟨hc, fun r hr => ?_⟩
    dsimp only
    rw [eraseAll_getElem?]
    constructor
    · intro hnone
      split at hnone
      next hex =>
        obtain ⟨r', hr', hpfx⟩ := hex
        obtain ⟨hhas, hin, hns⟩ := mem_foreignChildren.mp hr'
        have hne : r'.pfx ≠ o.pfx := fun heq => Prefix.StrictlyContains.irrefl (heq ▸ hin)
        obtain rfl := ((Rib.has_insert_of_ne hne).mp hhas).unique hr hpfx
        exact ⟨hin, hns⟩
      · exact absurd hnone (hset r hr)
    · rintro ⟨hin, hns⟩
      have hne : r.pfx ≠ o.pfx := fun heq => Prefix.StrictlyContains.irrefl (heq ▸ hin)
      rw [if_pos ⟨r, mem_foreignChildren.mpr ⟨(Rib.has_insert_of_ne hne).mpr hr, hin, hns⟩, rfl⟩]

theorem Nesting.update (hn : Nesting s.rib) (h : Updates P c o s s')
    (ho : Updatable s.rib c o.pfx) : Nesting s'.rib := by
  refine hn.thin (h.thinner ho) fun r q hr hq hin hgone => ?_
  rcases h.removed with hkeep | ⟨hc, hgo⟩
  · exact hkeep q hq hgone
  · -- what lies in a route that is removed is removed
    obtain ⟨hoq, hns⟩ := (hgo q hq).mp hgone
    obtain ⟨l, hl, -⟩ := h.thinner ho r hr
    have hnone := (hgo ⟨r.pfx, l⟩ hl).mpr ⟨hoq.trans_contains hin.contains,
      ho.downward hc q hq hoq hns ⟨r.pfx, l⟩ hl hin⟩
    exact Option.some_ne_none _ ((show s'.rib[r.pfx]? = some r.labels from hr).symm.trans hnone)

/-- Routes of the owner can still be updated after one of them has been. -/
theorem Updatable.after (hx : Updatable s.rib c x) (h : Updates P c o s s')
    (ho : Updatable s.rib c o.pfx) (hown : c.isCreatePrefix = true → c.sameNsn c.spec.labels = true) :
    Updatable s'.rib c x := by
  have hthin := h.thinner ho
  constructor
  · obtain ⟨l, hl, hkind, howner⟩ := hx.held
    have hstay : s'.rib[x]? ≠ none := by
      intro hnone
      rcases h.removed with hkeep | ⟨hc, hgo⟩
      · exact hkeep ⟨x, l⟩ hl hnone
      · have hns := ((hgo ⟨x, l⟩ hl).mp hnone).2
        rw [own_sameNsn hown hc howner] at hns
        cases hns
    obtain ⟨l', hl'⟩ := Option.ne_none_iff_exists'.mp hstay
    obtain ⟨l₁, hl₁, hsame⟩ := hthin ⟨x, l'⟩ hl'
    cases hl.symm.trans hl₁
    exact ⟨l', hl', hsame.1.symm.trans hkind, hsame.2.symm.trans howner⟩
  · intro hc q hq hin hns r hr hqr
    obtain ⟨lq, hlq, hq'⟩ := hthin q hq
    obtain ⟨lr, hlr, hr'⟩ := hthin r hr
    rw [← sameNsn_congr hr'.2]
    exact hx.downward hc ⟨q.pfx, lq⟩ hlq hin ((sameNsn_congr hq'.2).trans hns) ⟨r.pfx, lr⟩ hlr hqr

theorem Nesting.updateAll {os : List Route} (hn : Nesting s.rib) (h : UpdatesAll P c os s s')
    (hos : ∀ o ∈ os, Updatable s.rib c o.pfx)
    (hown : c.isCreatePrefix = true → c.sameNsn c.spec.labels = true) : Nesting s'.rib := by
  induction h with
  | nil => exact hn
  | cons hstep _ ih =>
    have ho := hos _ List.mem_cons_self
    refine ih (hn.update hstep ho) fun o' ho' => ?_
    exact (hos o' (List.mem_cons_of_mem _ ho')).after hstep ho hown

/-- The route goes away with a delete of the claim. -/
def Deleted (rib : Rib) (c : IPClaim) (r : Route) : Prop :=
  ∃ o, rib.Has o ∧ HasOwner c.spec.labels o.labels ∧ (o.pfx = r.pfx ∨ GoesWith c o r)

instance (rib : Rib) (c : IPClaim) (r : Route) : Decidable (Deleted rib c r) :=
  inferInstanceAs (Decidable (∃ o, rib.Has o ∧ HasOwner c.spec.labels o.labels ∧ _))

theorem Nesting.delete (hn : Nesting s.rib)
    (h : (deleteClaim P c).run (handler P.nipam) s = (.ok (), s'))
    (hdown : ∀ q, s.rib.Has q → Deleted s.rib c q → ∀ r, s.rib.Has r →
      q.pfx.StrictlyContains r.pfx → Deleted s.rib c r) : Nesting s'.rib := by
  have hstays : ∀ r, s'.rib.Has r ↔ s.rib.Has r ∧ ¬Deleted s.rib c r := by
    intro r
    rw [deleteClaim_ok h]
    refine and_congr_right fun _ => ⟨?_, fun hno o ho hown => ?_⟩
    · rintro hall ⟨o, ho, hown, hgo⟩
      exact hgo.elim (hall o ho hown).1 (hall o ho hown).2
    · exact ⟨fun heq => hno ⟨o, ho, hown, .inl heq⟩, fun hgo => hno ⟨o, ho, hown, .inr hgo⟩⟩
  refine hn.thin (fun r hr => ⟨r.labels, ((hstays r).mp hr).1, .refl _⟩) fun r q hr hq hin hnone => ?_
  obtain ⟨hr, hstay⟩ := (hstays r).mp hr
  by_cases hgone : Deleted s.rib c q
  · exact hstay (hdown q hq hgone r hr hin)
  · have hq' : s'.rib[q.pfx]? = some q.labels := (hstays q).mpr ⟨hq, hgone⟩
    exact Option.some_ne_none _ (hq'.symm.trans hnone)

/-! ## Runs -/

/-- A claim that updates the routes of its owner keeps their kind, and removes no route without what
lies inside. -/
structure UpdateFits (rib : Rib) (c : IPClaim) (o : Route) : Prop where
  kind : routeKind o = kindString c
  own : c.isCreatePrefix = true → c.sameNsn o.labels = true
  downward : ∀ q, rib.Has q → GoesWith c o q → ∀ r, rib.Has r → q.pfx.StrictlyContains r.pfx →
    c.sameNsn r.labels = false

/-- A claim keeps the table well nested: all routes inside a network that it creates are addresses
of networks; its update fits; the prefix that it hints at is free and has its place; the route that
it is going to look into is shorter and of a kind that is allowed. -/
structure ClaimFits (P : Platform) (rib : Rib) (c : IPClaim) : Prop where
  children : ∀ t pi, c.spec.pfx = some t → P.txt.parsePrefix t = .ok pi →
    rib[mainPrefix c pi]? = none → c.spec.kind = .network → c.isCreatePrefix = true →
    ∀ r, rib.Has r → pi.getIPSubnet.StrictlyContains r.pfx → validateChildrenExist P c r = ""
  update : (∀ t pi, c.spec.pfx = some t → P.txt.parsePrefix t = .ok pi →
      rib[mainPrefix c pi]? ≠ none) →
    ∀ o, rib.Has o → HasOwner c.spec.labels o.labels → UpdateFits rib c o
  hint : c.spec.pfx = none → (∀ o, rib.Has o → ¬HasOwner c.spec.labels o.labels) →
    ∀ t h, c.status.pfx = some t → P.txt.parsePrefix t = .ok h →
      P.nipam.getAvailablePrefixByBitLen rib h h.bits ≠ none →
      rib[mainPrefix c h]? = none ∧ (mainPrefix c h).masked = mainPrefix c h ∧
        ∃ q, MostSpecific rib (mainPrefix c h) q ∧
          KindAllowed c.spec.kind (mainPrefix c h).isAddressPrefix q.labels
  search : c.spec.pfx = none → (∀ o, rib.Has o → ¬HasOwner c.spec.labels o.labels) →
    ∀ S L, Picked P rib c S L →
      S.pfx.bits < L ∧ KindAllowed c.spec.kind (claimsAddress c S L) S.labels

/-- A delete removes no route without what lies inside. -/
def DeleteFits (rib : Rib) (c : IPClaim) : Prop :=
  ∀ q, rib.Has q → Deleted rib c q → ∀ r, rib.Has r → q.pfx.StrictlyContains r.pfx → Deleted rib c r

instance (rib : Rib) (c : IPClaim) : Decidable (DeleteFits rib c) :=
  inferInstanceAs (Decidable (∀ q, rib.Has q → Deleted rib c q → _))

def Fits (P : Platform) (rib : Rib) : Request → Prop
  | .claim c => ClaimFits P rib c
  | .deleteClaim c => DeleteFits rib c

def Request.succeeds (P : Platform) (s : RibState) : Request → Bool
  | .claim c => ((Ipam.claim P c).run (handler P.nipam) s).1.isOk
  | .deleteClaim c => ((Ipam.deleteClaim P c).run (handler P.nipam) s).1.isOk

theorem exists_ok_of_isOk {α ε σ : Type} {x : Except ε α × σ} (h : x.1.isOk = true) :
    ∃ a, x = (.ok a, x.2) := by
  obtain ⟨e | a, t⟩ := x
  · cases h
  · exact ⟨a, rfl⟩

theorem UpdateFits.updatable (h : UpdateFits rib c o) (ho : rib.Has o)
    (hown : HasOwner c.spec.labels o.labels) : Updatable rib c o.pfx where
  held := ⟨o.labels, ho, h.kind, ownerKey_of_hasOwner hown⟩
  downward hc q hq hin hns := by
    refine h.downward q hq ⟨hc, ?_, hin, hns⟩
    cases haddr : o.pfx.isAddressPrefix with
    | false => rfl
    | true => exact absurd hin (not_strictlyContains_of_address haddr)

/-- The update of the routes of an owner. -/
theorem Nesting.updateOwned {sel : Selector} (hn : Nesting s.rib)
    (hsel : c.spec.getOwnerSelector P.refuses = .ok sel)
    (hfits : ∀ o, s.rib.Has o → HasOwner c.spec.labels o.labels → UpdateFits s.rib c o)
    (hne : P.nipam.getByLabel s.rib sel ≠ [])
    (h : UpdatesAll P c (P.nipam.getByLabel s.rib sel) s s') : Nesting s'.rib := by
  refine hn.updateAll h (fun o ho => ?_) fun hc => ?_
  · obtain ⟨hhas, hown⟩ := (mem_owned hsel).mp ho
    exact (hfits o hhas hown).updatable hhas hown
  · obtain ⟨o, ho⟩ := List.exists_mem_of_ne_nil _ hne
    obtain ⟨hhas, hown⟩ := (mem_owned hsel).mp ho
    exact (sameNsn_congr (ownerKey_of_hasOwner hown)).symm.trans ((hfits o hhas hown).own hc)

theorem Nesting.claim (hn : Nesting s.rib)
    (h : (Ipam.claim P c).run (handler P.nipam) s = (.ok c', s')) (hfits : ClaimFits P s.rib c) :
    Nesting s'.rib := by
  cases hpfx : c.spec.pfx with
  | some t =>
    obtain ⟨pi, hpi⟩ := claim_parses hpfx h
    obtain ⟨hmsg, h⟩ := (claim_prefix_ok hpfx hpi).mp h
    rcases applyPrefix_accepted_ok hmsg h with ⟨hfree, rfl, -⟩ | ⟨hsome, sel, hsel, hne, -, hall, -⟩
    · exact hn.claimPrefix hmsg hfree (hfits.children t pi hpfx hpi hfree)
    · refine hn.updateOwned hsel (hfits.update fun t' pi' ht' hpi' => ?_) hne hall
      cases hpfx.symm.trans ht'
      cases hpi.symm.trans hpi'
      exact Option.isSome_iff_ne_none.mp hsome
  | none =>
    obtain ⟨-, h⟩ := (claim_dynamic_ok hpfx).mp h
    obtain ⟨sel, hsel, -, ⟨hnil, pi, hchosen, rfl⟩ | ⟨hne, -, hall⟩⟩ := applyDynamic_cases h
    · have hnone : ∀ o, s.rib.Has o → ¬HasOwner c.spec.labels o.labels := by
        intro o ho hown
        have hmem := (mem_owned hsel).mpr ⟨ho, hown⟩
        rw [hnil] at hmem
        cases hmem
      have hinside := fun r hr => hchosen.nothing_inside (r := r) hr
      cases hchosen with
      | hint t p ht hpi hp =>
        obtain ⟨hfree, hmask, q, hq, hallow⟩ := hfits.hint hpfx hnone t pi ht hpi
          (by rw [hp]; exact Option.some_ne_none p)
        exact hn.addMutated hfree hmask (.inr ⟨q, hq, hallow⟩)
          fun r hr hr' => absurd hr' (hinside r hr)
      | search S L p hpick hp hpi =>
        obtain ⟨hlt, hallow⟩ := hfits.search hpfx hnone S L hpick
        exact hn.claimFound hpick.selects.1 hp hlt hpi hallow
    · refine hn.updateOwned hsel (hfits.update fun t' pi' ht' => ?_) hne hall
      cases hpfx.symm.trans ht'

theorem Nesting.serve {req : Request} (hn : Nesting s.rib) (hok : req.succeeds P s = true)
    (hfits : Fits P s.rib req) : Nesting (Ipam.serve P s req).rib := by
  cases req with
  | claim c =>
    obtain ⟨c', h⟩ := exists_ok_of_isOk hok
    exact hn.claim h hfits
  | deleteClaim c =>
    obtain ⟨_, h⟩ := exists_ok_of_isOk hok
    exact hn.delete h hfits

/-- The table is well nested after every sequence of requests that succeed and fit. -/
theorem wellNested_after (P : Platform) (rs : List Request)
    (h : Run.Guarded (serve P) (fun s req => req.succeeds P s = true ∧ Fits P s.rib req) empty rs) :
    WellNested (ribAfter P rs).rib := by
  have hinv : Nesting (ribAfter P rs).rib :=
    h.inv (I := fun s => Nesting s.rib) (fun s req hn hreq => hn.serve hreq.1 hreq.2) nesting_empty
  exact hinv.wellNested

/-- The aggregate and a network in it. -/
def nestedRib : RibState := ribAfter .reference [.claim sampleAggregate, .claim (networkClaim "n")]

/-- An address of the network is claimed and taken back. -/
theorem wellNested_after_host :
    WellNested (ribAfter .reference [.claim sampleAggregate, .claim (networkClaim "n"),
      .claim (hostClaim "a"), .deleteClaim (hostClaim "a")]).rib := by
  refine wellNested_after .reference _ ⟨⟨by decide +kernel, ?_⟩, ⟨by decide +kernel, ?_⟩,
    ⟨by decide +kernel, ?_⟩, ⟨by decide +kernel, ?_⟩, trivial⟩
  · refine ⟨?_, fun _ o ho => ?_, nofun, nofun⟩
    · rintro t pi - - - hk
      cases hk
    · have ho' : (∅ : Rib)[o.pfx]? = some o.labels := ho
      simp at ho'
  · have hparse : netText.parsePrefix "10.0.0.1/24" = .ok (samplePrefix 1 24) := by decide +kernel
    have hnone : ∀ o, (serve .reference empty (.claim sampleAggregate)).rib.Has o →
        ¬HasOwner (networkClaim "n").spec.labels o.labels := by decide +kernel
    refine ⟨?_, fun _ o ho hown => absurd hown (hnone o ho), nofun, nofun⟩
    rintro t pi ⟨⟩ hpi - - -
    cases hparse.symm.trans hpi
    decide +kernel
  · have hnone : ∀ o, nestedRib.rib.Has o → ¬HasOwner (hostClaim "a").spec.labels o.labels := by
      decide +kernel
    have hpicked : ∀ sel ∈ ((hostClaim "a").spec.getLabelSelector Platform.reference.refuses).toOption,
        ∀ route ∈ (Reference.getByLabel nestedRib.rib sel).head?,
        ∀ S ∈ getSelectedRouteWithPrefixLength (hostClaim "a") (Reference.getByLabel nestedRib.rib sel)
          (getPrefixLengthFromRoute (hostClaim "a") route),
        S.pfx.bits < getPrefixLengthFromRoute (hostClaim "a") route ∧
          KindAllowed .network (claimsAddress (hostClaim "a") S
            (getPrefixLengthFromRoute (hostClaim "a") route)) S.labels := by decide +kernel
    refine ⟨nofun, fun _ o ho hown => absurd hown (hnone o ho), nofun, fun _ _ S L hpick => ?_⟩
    obtain ⟨sel, route, routes, hsel, hroutes, rfl, hS⟩ := hpick.pick
    have hroutes' : Reference.getByLabel nestedRib.rib sel = route :: routes := hroutes
    exact hpicked sel (by rw [hsel]; rfl) route (by rw [hroutes']; rfl) S (by rw [hroutes']; exact hS)
  · have hdelete : DeleteFits (serve .reference nestedRib (.claim (hostClaim "a"))).rib
        (hostClaim "a") := by decide +kernel
    exact hdelete

/-- Requests that succeed one after the other. -/
def AllSucceed (P : Platform) (rs : List Request) : Prop :=
  Run.Guarded (serve P) (fun s req => req.succeeds P s = true) empty rs

instance (P : Platform) (rs : List Request) : Decidable (AllSucceed P rs) :=
  inferInstanceAs (Decidable (Run.Guarded (serve P) _ empty rs))

/-- A pool that a dynamic claim puts into a network. -/
def poolInNetwork : List Request :=
  [.claim sampleAggregate, .claim (networkClaim "n"),
    .claim (sampleClaim ipClaimGVK "p" .pool none (some 28) (some true) (ofKind .network))]

/-- A pool in a pool, when the outer one is claimed again for loopbacks. -/
def poolInLoopback : List Request :=
  [.claim sampleAggregate,
    .claim (sampleClaim ipClaimGVK "a" .pool (some "10.0.0.0/16") none none none),
    .claim (sampleClaim ipClaimGVK "b" .pool (some "10.0.0.0/24") none none none),
    .claim (sampleClaim ipClaimGVK "a" .loopback (some "10.0.0.0/16") none none none)]

/-- A pool in an aggregate that is deleted. -/
def poolInNothing : List Request :=
  [.claim (sampleClaim networkInstanceGVK "vpc" .aggregate (some "10.0.0.0/8") none none none),
    .claim (sampleClaim ipClaimGVK "a" .pool (some "10.0.0.0/16") none none none),
    .deleteClaim (sampleClaim networkInstanceGVK "vpc" .aggregate (some "10.0.0.0/8") none none none)]

/-- A dynamic claim, an update and a delete that succeed and leave a table that is not nested. -/
theorem not_wellNested_after :
    (AllSucceed .reference poolInNetwork ∧ ¬WellNested (ribAfter .reference poolInNetwork).rib) ∧
    (AllSucceed .reference poolInLoopback ∧ ¬WellNested (ribAfter .reference poolInLoopback).rib) ∧
    AllSucceed .reference poolInNothing ∧ ¬WellNested (ribAfter .reference poolInNothing).rib := by
  exact ⟨by decide +kernel, by decide +kernel, by decide +kernel, by decide +kernel⟩

end K8sIpam.Ipam
