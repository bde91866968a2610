import K8sIpam.Ipam.Effects
import K8sIpam.Ipam.Nesting
import K8sIpam.Ipam.Reference

/-! # The routes inside a new prefix

Each kind of prefix has a rule for the routes that may lie inside. The validation of a prefix that
is not in the table applies it to one of them, the first of the listing. -/

namespace K8sIpam.Ipam
open Std Atomic Prog Net

variable {P : Platform} {c : IPClaim} {s : RibState} {rib : Rib} {pi : Prefix} {r : Route}

/-- The route may lie inside a prefix of the kind. -/
def ChildRule : PrefixKind → Route → Prop
  | .network, r => r.pfx.isAddressPrefix = true ∧ OfNetwork r.labels
  | .pool, _ | .loopback, _ => False
  | .aggregate, _ => True

instance (kind : PrefixKind) (r : Route) : Decidable (ChildRule kind r) :=
  match kind with
  | .network => inferInstanceAs (Decidable (_ ∧ _ = _))
  | .pool | .loopback => .isFalse not_false
  | .aggregate => .isTrue trivial

theorem validateChildrenExist_eq_empty :
    validateChildrenExist P c r = "" ↔ ChildRule c.spec.kind r := by
  unfold validateChildrenExist
  cases c.spec.kind with
  | aggregate => exact iff_of_true rfl trivial
  | pool | loopback => exact iff_of_false (by simp) not_false
  | network =>
    dsimp only [ChildRule]
    unfold OfNetwork Prefix.isAddressPrefix
    split
    next hkind => exact iff_of_false (by simp) fun h => hkind h.2
    next hkind =>
      have hnet : r.labels.get nephioPrefixKindKey = PrefixKind.network.toString :=
        not_not.mp hkind
      rw [and_iff_left hnet]
      cases r.pfx.family <;> simp

/-! ## The checks of a new prefix -/

/-- The copy of the table in which the subnet of the claim is. -/
def dryrunRib (P : Platform) (c : IPClaim) (rib : Rib) (pi : Prefix) : Rib :=
  rib.insert pi.getIPSubnet (c.getDummyLabelsFromPrefix P.txt pi)

/-- The message about the routes around the subnet of the claim. -/
def validateParents (P : Platform) (c : IPClaim) (rib : Rib) (pi : Prefix) : String :=
  match P.nipam.parents (dryrunRib P c rib pi) pi.getIPSubnet with
  | [] => validateNoParentExist (c.spec.getUserDefinedLabels.get nephioOwnerGvkKey)
  | parent :: parents => validateParentExist P c (findParent parent parents) pi

theorem validateNew_eq_empty :
    validateNew P c rib pi = "" ↔
      (∀ child ∈ (P.nipam.children (dryrunRib P c rib pi) pi.getIPSubnet).head?,
        ChildRule c.spec.kind child) ∧ validateParents P c rib pi = "" := by
  cases hchildren : P.nipam.children (dryrunRib P c rib pi) pi.getIPSubnet with
  | nil =>
    have hnew : validateNew P c rib pi = validateParents P c rib pi := by
      unfold dryrunRib at hchildren
      unfold validateNew
      dsimp only
      rw [hchildren]
      rfl
    simp [hnew]
  | cons child children =>
    have hnew : validateNew P c rib pi =
        if validateChildrenExist P c child ≠ "" then validateChildrenExist P c child
        else validateParents P c rib pi := by
      unfold dryrunRib at hchildren
      unfold validateNew
      dsimp only
      rw [hchildren]
      rfl
    rw [hnew]
    by_cases hmsg : validateChildrenExist P c child = ""
    · rw [if_neg (not_not.mpr hmsg), List.head?_cons]
      have hrule := validateChildrenExist_eq_empty.mp hmsg
      exact ⟨fun h => ⟨fun _ h' => Option.some.inj h' ▸ hrule, h⟩, fun h => h.2⟩
    · rw [if_pos hmsg]
      refine iff_of_false hmsg fun h => hmsg (validateChildrenExist_eq_empty.mpr (h.1 child rfl))

/-- The copy of the table differs in the subnet of the claim, which is neither around nor inside
itself. -/
theorem has_dryrunRib
    (h : pi.getIPSubnet.StrictlyContains r.pfx ∨ r.pfx.StrictlyContains pi.getIPSubnet) :
    (dryrunRib P c rib pi).Has r ↔ rib.Has r := by
  refine Rib.has_insert_of_ne fun heq => ?_
  rcases h with h | h
  · exact Prefix.StrictlyContains.irrefl (heq ▸ h)
  · exact Prefix.StrictlyContains.irrefl (heq ▸ h)

theorem mem_children_dryrunRib : r ∈ P.nipam.children (dryrunRib P c rib pi) pi.getIPSubnet ↔
    rib.Has r ∧ pi.getIPSubnet.StrictlyContains r.pfx := by
  rw [P.nipam.mem_children]
  exact and_congr_left fun h => has_dryrunRib (.inl h)

theorem mem_parents_dryrunRib : r ∈ P.nipam.parents (dryrunRib P c rib pi) pi.getIPSubnet ↔
    rib.Has r ∧ r.pfx.StrictlyContains pi.getIPSubnet := by
  rw [P.nipam.mem_parents]
  exact and_congr_left fun h => has_dryrunRib (.inr h)

theorem validateMsg_new (hnew : rib[pi.getIPSubnet]? = none) :
    validateMsg P rib c pi = "" ↔
      validateInputPrefix P c pi = "" ∧ validateNew P c rib pi = "" := by
  unfold validateMsg
  rw [getRoute, hnew]
  by_cases hin : validateInputPrefix P c pi = ""
  · rw [if_neg (not_not.mpr hin)]
    exact (and_iff_right hin).symm
  · rw [if_pos hin]
    exact iff_of_false hin fun h => hin h.1

/-! ## What an accepted claim means -/

/-- An accepted claim has routes inside its subnet that follow the rule of its kind. -/
def ChecksChildren (P : Platform) (s : RibState) (c : IPClaim) (pi : Prefix) : Prop :=
  ((validatePrefix P c pi).run (handler P.nipam) s).1 = .ok "" →
    ∀ r, s.rib.Has r → pi.getIPSubnet.StrictlyContains r.pfx → ChildRule c.spec.kind r

/-- If the claim is for a network and nothing else speaks against it, then all of the routes inside
its subnet follow the rule, or none does. -/
def Uniform (P : Platform) (rib : Rib) (c : IPClaim) (pi : Prefix) : Prop :=
  c.spec.kind = .network → validateInputPrefix P c pi = "" → validateParents P c rib pi = "" →
    (∀ r, rib.Has r → pi.getIPSubnet.StrictlyContains r.pfx → ChildRule .network r) ∨
    (∀ r, rib.Has r → pi.getIPSubnet.StrictlyContains r.pfx → ¬ChildRule .network r)

/-- The validation finds the routes that break the rule, in whatever order they are listed, exactly
when the routes inside are uniform. -/
theorem checksChildren_iff (P : Platform) (s : RibState) (c : IPClaim) (pi : Prefix)
    (hnew : s.rib[pi.getIPSubnet]? = none) :
    (∀ N : Nipam, N.parents = P.nipam.parents → ChecksChildren { P with nipam := N } s c pi) ↔
      Uniform P s.rib c pi := by
  -- what an accepted claim means, for any listing of the children
  have haccepted : ∀ N : Nipam, N.parents = P.nipam.parents →
      (((validatePrefix { P with nipam := N } c pi).run (handler N) s).1 = .ok "" ↔
        validateInputPrefix P c pi = "" ∧
        (∀ child ∈ (N.children (dryrunRib P c s.rib pi) pi.getIPSubnet).head?,
          ChildRule c.spec.kind child) ∧ validateParents P c s.rib pi = "") := by
    intro N hN
    have hparents :
        validateParents { P with nipam := N } c s.rib pi = validateParents P c s.rib pi := by
      unfold validateParents
      dsimp only
      rw [hN]
      rfl
    have hrun := validatePrefix_run (P := { P with nipam := N }) (c := c) (s := s) pi
    rw [hrun, Except.ok.injEq, validateMsg_new hnew, validateNew_eq_empty, hparents]
    rfl
  have hmem : ∀ (N : Nipam) r, r ∈ N.children (dryrunRib P c s.rib pi) pi.getIPSubnet ↔
      s.rib.Has r ∧ pi.getIPSubnet.StrictlyContains r.pfx := fun N r =>
    mem_children_dryrunRib (P := { P with nipam := N })
  constructor
  · intro h hk hin hpar
    by_contra hmixed
    push Not at hmixed
    obtain ⟨⟨r, hr, hrin, hbreaks⟩, r', hr', hrin', hfollows⟩ := hmixed
    -- a listing that starts with the child that follows the rule
    have hacc : ((validatePrefix { P with nipam := P.nipam.childFirst r' } c pi).run
        (handler (P.nipam.childFirst r')) s).1 = .ok "" := by
      refine (haccepted (P.nipam.childFirst r') rfl).mpr ⟨hin, fun child hchild => ?_, hpar⟩
      have hlist : (P.nipam.childFirst r').children (dryrunRib P c s.rib pi) pi.getIPSubnet =
          r' :: (P.nipam.children (dryrunRib P c s.rib pi) pi.getIPSubnet).erase r' :=
        if_pos ((hmem P.nipam r').mpr ⟨hr', hrin'⟩)
      rw [hlist] at hchild
      rw [hk, ← Option.some.inj hchild]
      exact hfollows
    have hrule := h (P.nipam.childFirst r') rfl hacc r hr hrin
    rw [hk] at hrule
    exact hbreaks hrule
  · intro h N hN hacc r hr hrin
    obtain ⟨hin, hfirst, hpar⟩ := (haccepted N hN).mp hacc
    have hne := List.ne_nil_of_mem ((hmem N r).mpr ⟨hr, hrin⟩)
    obtain ⟨child, rest, hcons⟩ := List.exists_cons_of_ne_nil hne
    have hrule := hfirst child (by rw [hcons]; rfl)
    obtain ⟨hchild, hchildin⟩ := (hmem N child).mp (hcons ▸ List.mem_cons_self)
    cases hk : c.spec.kind with
    | aggregate => trivial
    | pool | loopback =>
      rw [hk] at hrule
      exact hrule
    | network =>
      rw [hk] at hrule
      rcases h hk hin hpar with hall | hnone
      · exact hall r hr hrin
      · exact absurd hrule (hnone child hchild hchildin)

/-- The aggregate, with an address of a network and another route in it. -/
def childRib (r : Route) : RibState :=
  ⟨(aggregateRib.rib.insert (samplePrefix 1 32) (kindLabels .network)).insert r.pfx r.labels, []⟩

theorem checksChildren_addresses :
    (childRib ⟨samplePrefix 2 32, kindLabels .network⟩).rib[(samplePrefix 1 24).getIPSubnet]? =
        none ∧
      ∀ N : Nipam, N.parents = Nipam.reference.parents →
        ChecksChildren { Platform.reference with nipam := N }
          (childRib ⟨samplePrefix 2 32, kindLabels .network⟩) (networkClaim "n")
          (samplePrefix 1 24) := by
  have hnew : (childRib ⟨samplePrefix 2 32, kindLabels .network⟩).rib[
      (samplePrefix 1 24).getIPSubnet]? = none := by decide +kernel
  refine ⟨hnew, (checksChildren_iff .reference _ _ _ hnew).mpr fun _ _ _ => .inl ?_⟩
  decide +kernel

/-- A network is accepted with a pool inside when an address is listed before the pool. -/
theorem not_checksChildren :
    ((validatePrefix .reference (networkClaim "n") (samplePrefix 1 24)).run (handler .reference)
      (childRib ⟨samplePrefix 16 28, kindLabels .pool⟩)).1 = .ok "" ∧
    ¬ChecksChildren .reference (childRib ⟨samplePrefix 16 28, kindLabels .pool⟩)
      (networkClaim "n") (samplePrefix 1 24) := by
  have hacc : ((validatePrefix .reference (networkClaim "n") (samplePrefix 1 24)).run
      (handler .reference) (childRib ⟨samplePrefix 16 28, kindLabels .pool⟩)).1 = .ok "" := by
    decide +kernel
  refine ⟨hacc, fun h => ?_⟩
  have hpool : (childRib ⟨samplePrefix 16 28, kindLabels .pool⟩).rib.Has
      ⟨samplePrefix 16 28, kindLabels .pool⟩ := Rib.has_insert.mpr (.inl rfl)
  exact absurd (h hacc _ hpool (by decide)).1 (by decide)

end K8sIpam.Ipam
