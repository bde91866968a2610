import K8sIpam.Lib.Nest
import K8sIpam.Ipam.Delete
import K8sIpam.Ipam.Update

/-! # Which routes lie in which

The kinds of routes nest: a route may lie directly in routes of certain kinds only. The invariant
below says so of a whole table, and that only addresses lie in networks; it is kept when a route is
added whose parent and children fit, and when routes go away together with all that lies inside. -/

namespace K8sIpam.Ipam
open Std Atomic Prog Net

/-- The kinds that the most specific route around a route of the kind may have. -/
def PrefixKind.parents (address : Bool) : PrefixKind → List PrefixKind
  | .aggregate => [.aggregate]
  | .network => if address then [.network] else [.aggregate]
  | .pool => [.aggregate, .pool]
  | .loopback => if address then [.aggregate, .loopback] else [.aggregate]

/-- The labels are those of a route in which a route of the kind may lie. -/
def KindAllowed (kind : PrefixKind) (address : Bool) (parent : Labels) : Prop :=
  ∃ k ∈ kind.parents address, parent.get nephioPrefixKindKey = k.toString

instance (kind : PrefixKind) (address : Bool) (parent : Labels) :
    Decidable (KindAllowed kind address parent) :=
  inferInstanceAs (Decidable (∃ k ∈ kind.parents address, _))

/-- The route `p` with the labels `l` may lie in a route with the labels `m`. -/
def Allowed (p : Prefix) (l m : Labels) : Prop :=
  ∃ kind : PrefixKind, l.get nephioPrefixKindKey = kind.toString ∧ KindAllowed kind p.isAddressPrefix m

instance (p : Prefix) (l m : Labels) : Decidable (Allowed p l m) :=
  decidable_of_iff (∃ kind ∈ [PrefixKind.network, .loopback, .pool, .aggregate],
      l.get nephioPrefixKindKey = kind.toString ∧ KindAllowed kind p.isAddressPrefix m)
    ⟨fun ⟨kind, _, h⟩ => ⟨kind, h⟩, fun ⟨kind, h⟩ => ⟨kind, by cases kind <;> simp, h⟩⟩

/-- The labels of a route that is claimed for a network instance. -/
def ForInstance (l : Labels) : Prop := l.get nephioOwnerGvkKey = gvkToString networkInstanceGVK

instance (l : Labels) : Decidable (ForInstance l) := inferInstanceAs (Decidable (_ = _))

/-- Of the routes around `p`, this is a most specific one. -/
structure MostSpecific (rib : Rib) (p : Prefix) (q : Route) : Prop where
  has : rib.Has q
  around : q.pfx.StrictlyContains p
  longest : ∀ r, rib.Has r → r.pfx.StrictlyContains p → r.pfx.bits ≤ q.pfx.bits

/-- Every route that is not claimed for a network instance lies in another one, and the most
specific one around it is of a kind that is allowed. -/
def WellNested (rib : Rib) : Prop :=
  ∀ r, rib.Has r → ¬ForInstance r.labels →
    ∃ q, MostSpecific rib r.pfx q ∧ Allowed r.pfx r.labels q.labels

instance (rib : Rib) : Decidable (WellNested rib) :=
  decidable_of_iff (∀ r, rib.Has r → ¬ForInstance r.labels → ∃ q, rib.Has q ∧
      q.pfx.StrictlyContains r.pfx ∧ (∀ r', rib.Has r' → r'.pfx.StrictlyContains r.pfx →
        r'.pfx.bits ≤ q.pfx.bits) ∧ Allowed r.pfx r.labels q.labels)
    (forall₃_congr fun _ _ _ => exists_congr fun _ =>
      ⟨fun ⟨hq, hin, hmax, h⟩ => ⟨⟨hq, hin, hmax⟩, h⟩, fun ⟨hq, h⟩ => ⟨hq.has, hq.around, hq.longest, h⟩⟩)

/-- The labels of a network. -/
def OfNetwork (l : Labels) : Prop := l.get nephioPrefixKindKey = PrefixKind.network.toString

/-- The tables that requests keep well nested: the prefixes are masked, and only addresses lie in a
network, whoever they are claimed for. -/
structure Nesting (rib : Rib) : Prop where
  masked : ∀ r, rib.Has r → r.pfx.masked = r.pfx
  nested : Nest.Nested Prefix.StrictlyContains Allowed ForInstance (fun p : Prefix => rib[p]?)
  closed : Nest.Closed Prefix.StrictlyContains OfNetwork (fun p => p.isAddressPrefix = true)
    (fun p : Prefix => rib[p]?)

variable {rib rib' : Rib} {p x : Prefix} {l m : Labels} {q r : Route} {k : PrefixKind}

theorem PrefixKind.toString_injective : Function.Injective PrefixKind.toString := by
  intro k k' h
  cases k <;> cases k' <;> first | rfl | exact absurd h (by decide)

theorem Rib.Has.isSome (h : rib.Has r) : rib[r.pfx]?.isSome = true := by
  rw [show rib[r.pfx]? = some r.labels from h]
  rfl

theorem Rib.has_of_isSome (h : rib[p]?.isSome = true) : ∃ l, rib.Has ⟨p, l⟩ :=
  Option.isSome_iff_exists.mp h

/-- A prefix of one address contains no other. -/
theorem not_strictlyContains_of_address (hp : p.isAddressPrefix = true) :
    ¬p.StrictlyContains x := by
  rw [Prefix.eq_single_of_isAddressPrefix hp]
  exact Prefix.single_not_strictlyContains _

/-! ## Allowed parents -/

theorem allowed_iff (hl : l.get nephioPrefixKindKey = k.toString) :
    Allowed p l m ↔ KindAllowed k p.isAddressPrefix m := by
  constructor
  · rintro ⟨k', hk', h⟩
    obtain rfl := PrefixKind.toString_injective (hl.symm.trans hk')
    exact h
  · exact fun h => ⟨k, hl, h⟩

/-- Only addresses may lie in a network. -/
theorem Allowed.address (h : Allowed p l m) (hm : OfNetwork m) : p.isAddressPrefix = true := by
  obtain ⟨k, -, k', hk', hmk⟩ := h
  obtain rfl := PrefixKind.toString_injective (hm.symm.trans hmk)
  cases hp : p.isAddressPrefix with
  | true => rfl
  | false =>
    rw [hp] at hk'
    cases k <;> simp [PrefixKind.parents] at hk'

/-- An aggregate may lie in aggregates only. -/
theorem Allowed.aggregate (h : Allowed p l m)
    (hl : l.get nephioPrefixKindKey = PrefixKind.aggregate.toString) :
    m.get nephioPrefixKindKey = PrefixKind.aggregate.toString := by
  obtain ⟨k, hk, hm⟩ := (allowed_iff hl).mp h
  rw [List.mem_singleton.mp hk] at hm
  exact hm

theorem Allowed.congr {l' m' : Labels} (h : Allowed p l m)
    (hl : l.get nephioPrefixKindKey = l'.get nephioPrefixKindKey)
    (hm : m.get nephioPrefixKindKey = m'.get nephioPrefixKindKey) : Allowed p l' m' := by
  obtain ⟨k, hk, k', hk', hmk⟩ := h
  exact ⟨k, hl ▸ hk, k', hk', hm ▸ hmk⟩

/-! ## Parents in a table -/

/-- Prefixes around one prefix are nested in each other. -/
theorem forest_of_masked (hmask : ∀ r, rib.Has r → r.pfx.masked = r.pfx) :
    Nest.Forest Prefix.StrictlyContains (fun p : Prefix => rib[p]?) where
  trans h h' := h.trans_contains h'.contains
  irrefl _ := Prefix.StrictlyContains.irrefl
  comparable ha hb h h' := by
    obtain ⟨la, ha⟩ := Rib.has_of_isSome ha
    obtain ⟨lb, hb⟩ := Rib.has_of_isSome hb
    exact Prefix.masked_comparable (hmask _ ha) (hmask _ hb) h.contains h'.contains

namespace Nesting

variable (h : Nesting rib)
include h

theorem forest : Nest.Forest Prefix.StrictlyContains (fun p : Prefix => rib[p]?) :=
  forest_of_masked h.masked

theorem wellNested : WellNested rib := by
  intro r hr hno
  obtain ⟨p, m, hm, hp, hallow⟩ := h.nested r.pfx r.labels hr hno
  refine ⟨⟨p, m⟩, ⟨hm, hp.outer, fun r' hr' hin => ?_⟩, hallow⟩
  rcases hp.innermost r'.pfx hr'.isSome hin with heq | hlt
  · exact Nat.le_of_eq (congrArg Prefix.bits heq)
  · exact hlt.1.le

theorem parent_of_mostSpecific (hq : MostSpecific rib x q) :
    Nest.Parent Prefix.StrictlyContains (fun p : Prefix => rib[p]?) x q.pfx := by
  refine .of_comparable h.forest hq.has.isSome hq.around fun p hp hpx hlt => ?_
  obtain ⟨l, hl⟩ := Rib.has_of_isSome hp
  exact absurd hlt.1 (Nat.not_lt.mpr (hq.longest ⟨p, l⟩ hl hpx))

/-- The network that an address lies in is the most specific route around it. -/
theorem mostSpecific_of_network (hq : rib.Has q) (hnet : OfNetwork q.labels)
    (hin : q.pfx.StrictlyContains x) : MostSpecific rib x q := by
  have hp := h.closed.parent h.forest (fun _ _ ha => not_strictlyContains_of_address ha)
    (q := q.pfx) hq hnet hin
  refine ⟨hq, hin, fun r hr hrx => ?_⟩
  rcases hp.innermost r.pfx hr.isSome hrx with heq | hlt
  · exact Nat.le_of_eq (congrArg Prefix.bits heq)
  · exact hlt.1.le

/-! ## A new route -/

/-- A route can be added that is allowed in the most specific route around it, or that is claimed
for a network instance and has no route around it or is an address; and that is an aggregate or has
only addresses inside, which are allowed in it. -/
theorem insert (hfree : rib[x]? = none) (hmask : x.masked = x)
    (hparent : ForInstance l ∧ (∀ r, rib.Has r → r.pfx.StrictlyContains x → x.isAddressPrefix = true) ∨
      ∃ q, MostSpecific rib x q ∧ Allowed x l q.labels)
    (hinside : ∀ r, rib.Has r → x.StrictlyContains r.pfx →
      l.get nephioPrefixKindKey = PrefixKind.aggregate.toString ∨
        r.pfx.isAddressPrefix = true ∧ Allowed r.pfx r.labels l) :
    Nesting (rib.insert x l) := by
  have hleaf : ∀ a b : Prefix, a.isAddressPrefix = true → ¬a.StrictlyContains b :=
    fun _ _ ha => not_strictlyContains_of_address ha
  have hold : ∀ y : Prefix, y ≠ x → (rib.insert x l)[y]? = rib[y]? := fun y hy => by
    rw [ExtTreeMap.getElem?_insert, if_neg (by simpa using hy.symm)]
  have hnew : (rib.insert x l)[x]? = some l := by simp
  have hmasked : ∀ r, Rib.Has (rib.insert x l) r → r.pfx.masked = r.pfx := by
    intro r hr
    by_cases hrx : r.pfx = x
    · rw [hrx, hmask]
    · exact h.masked r ((Rib.has_insert_of_ne hrx).mp hr)
  have hforest := forest_of_masked hmasked
  refine ⟨hmasked, ?_, ?_⟩
  · refine h.nested.insert (x := x) (l := l) hfree hnew hold hforest ?_ ?_
    · rcases hparent with ⟨hinst, -⟩ | ⟨q, hq, hallow⟩
      · exact .inl hinst
      · exact .inr ⟨q.pfx, q.labels, hq.has, h.parent_of_mostSpecific hq, hallow⟩
    · -- a route whose parent is around the new one
      intro y k hy hxy p m hm hp hpx hallow
      rcases hinside ⟨y, k⟩ hy hxy with hagg | ⟨-, hyl⟩
      · rcases hparent with ⟨-, haddr⟩ | ⟨q, hq, hxq⟩
        · exact absurd hxy (hleaf x y (haddr ⟨p, m⟩ hm hpx))
        · have heq := (h.parent_of_mostSpecific hq).eq_of_between h.forest hp hpx hxy
          have hmq : m = q.labels := Option.some.inj (hm.symm.trans (heq ▸ hq.has))
          exact hallow.congr rfl (hmq ▸ (hxq.aggregate hagg).trans hagg.symm)
      · exact hyl
  · refine h.closed.insert (x := x) (l := l) hfree hnew hold hforest ?_ ?_
    · intro hnet y hy hxy
      obtain ⟨k, hk⟩ := Rib.has_of_isSome hy
      rcases hinside ⟨y, k⟩ hk hxy with hagg | ⟨haddr, -⟩
      · exact absurd (PrefixKind.toString_injective (hnet.symm.trans hagg)) (by decide)
      · exact haddr
    · intro p m hm hnet hpx
      rcases hparent with ⟨-, haddr⟩ | ⟨q, hq, hxq⟩
      · exact haddr ⟨p, m⟩ hm hpx
      · by_cases hqnet : OfNetwork q.labels
        · exact hxq.address hqnet
        · refine absurd hpx (h.closed.not_outer hleaf (h.parent_of_mostSpecific hq) ?_ hm hnet)
          intro m' hm' hnet'
          exact hqnet (Option.some.inj (hm'.symm.trans hq.has) ▸ hnet')

/-- Addresses of a network can be added. -/
theorem addAll {rs : List Route} (hq : rib.Has q) (hnet : OfNetwork q.labels)
    (hrs : ∀ r ∈ rs, q.pfx.Contains r.pfx ∧ r.pfx.masked = r.pfx ∧
      (r.pfx = q.pfx ∨ r.pfx.isAddressPrefix = true) ∧ OfNetwork r.labels) :
    Nesting (addAll rib rs) := by
  induction rs generalizing rib with
  | nil => exact h
  | cons r rs ih =>
    obtain ⟨hin, hmask, haddr, hrnet⟩ := hrs r List.mem_cons_self
    have hrest := fun r' hr' => hrs r' (List.mem_cons_of_mem r hr')
    rw [Ipam.addAll, List.foldl_cons]
    by_cases hmem : r.pfx ∈ rib
    · rw [if_pos hmem]
      exact ih h hq hrest
    · rw [if_neg hmem]
      have hne : r.pfx ≠ q.pfx := fun heq => hmem (heq ▸ mem_of_getElem?_eq_some hq)
      have hstrict : q.pfx.StrictlyContains r.pfx :=
        (hin.eq_or_strictlyContains (h.masked q hq) hmask).resolve_left hne.symm
      have haddr := haddr.resolve_left hne
      refine ih (h.insert (ExtTreeMap.getElem?_eq_none hmem) hmask (.inr ?_) ?_)
        ((Rib.has_insert_of_ne hne.symm).mpr hq) hrest
      · refine ⟨q, h.mostSpecific_of_network hq hnet hstrict, (allowed_iff hrnet).mpr ?_⟩
        rw [haddr]
        exact ⟨.network, List.mem_singleton.mpr rfl, hnet⟩
      · exact fun r' _ hin' => absurd hin' (not_strictlyContains_of_address haddr)

end Nesting

theorem nesting_empty : Nesting ∅ where
  masked r hr := by
    have hr' : (∅ : Rib)[r.pfx]? = some r.labels := hr
    simp at hr'
  nested x l hx := by simp at hx
  closed q m hq := by simp at hq

/-! ## Routes that go away -/

/-- The labels have the same kind and the same owner. -/
def SameKind (l l' : Labels) : Prop :=
  l.get nephioPrefixKindKey = l'.get nephioPrefixKindKey ∧ ownerKey l = ownerKey l'

theorem SameKind.refl (l : Labels) : SameKind l l := ⟨rfl, rfl⟩

theorem SameKind.forInstance {l' : Labels} (h : SameKind l l') (hl : ForInstance l) :
    ForInstance l' :=
  (ownerKey_eq_iff.mp h.2 nephioOwnerGvkKey (by decide)).symm.trans hl

/-- Routes can be given other labels of the same kind and the same owner, and routes can be removed
with all that lies inside. -/
theorem Nesting.thin (h : Nesting rib)
    (hsub : ∀ r, rib'.Has r → ∃ l, rib.Has ⟨r.pfx, l⟩ ∧ SameKind l r.labels)
    (hup : ∀ r q, rib'.Has r → rib.Has q → q.pfx.StrictlyContains r.pfx → rib'[q.pfx]? ≠ none) :
    Nesting rib' where
  masked r hr := by
    obtain ⟨l, hl, -⟩ := hsub r hr
    exact h.masked ⟨r.pfx, l⟩ hl
  nested := by
    refine h.nested.thin SameKind (fun x l' hl' => hsub ⟨x, l'⟩ hl')
      (fun _ _ hs => hs.forInstance) (fun _ _ _ _ _ hl hm hr => hr.congr hl.1 hm.1) ?_
    intro x q hx hq hin
    obtain ⟨l, hl⟩ := Rib.has_of_isSome hx
    obtain ⟨m, hm⟩ := Rib.has_of_isSome hq
    exact Option.isSome_iff_ne_none.mpr (hup ⟨x, l⟩ ⟨q, m⟩ hl hm hin)
  closed :=
    h.closed.thin SameKind (fun x l' hl' => hsub ⟨x, l'⟩ hl') fun _ _ hs hnet => hs.1.trans hnet

end K8sIpam.Ipam
