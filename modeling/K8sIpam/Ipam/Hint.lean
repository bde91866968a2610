import K8sIpam.Ipam.Effects
import K8sIpam.Ipam.Reference

/-! # The hint of a dynamic claim

A claim can carry the prefix that it was given before. The refresh looks for a free prefix of
that length inside the hint, which leaves out a route for the hint itself and all routes around
it, and it does not notice that a route it adds is there. -/

namespace K8sIpam.Ipam
open Std Atomic Prog Net

variable {P : Platform} {s s' : RibState} {rib : Rib} {c c' : IPClaim} {g h : Prefix}

/-- A prefix is granted as a fresh one would be: inside a route that the claim selects, disjoint
from all routes that are not around that one, and held by the owner of the claim afterwards. -/
structure SafelyGranted (P : Platform) (rib rib' : Rib) (c : IPClaim) (g : Prefix) : Prop where
  inside : ∃ r, rib.Has r ∧ Selects P c r.labels ∧ r.pfx.StrictlyContains g ∧
    ∀ r', rib.Has r' → r'.pfx.Overlaps g → r'.pfx.Contains r.pfx
  held : ∃ l, rib'[g]? = some l ∧ ownerKey l = c.owner

/-- The prefix is not in the table, and of the routes around it the claim selects one of the most
specific. -/
structure Unclaimed (P : Platform) (rib : Rib) (c : IPClaim) (g : Prefix) : Prop where
  absent : ∀ r, rib.Has r → r.pfx.masked ≠ g.masked
  parent : ∃ r, rib.Has r ∧ Selects P c r.labels ∧ r.pfx.StrictlyContains g ∧
    ∀ r', rib.Has r' → r'.pfx.StrictlyContains g → r'.pfx.bits ≤ r.pfx.bits

instance (P : Platform) (rib : Rib) (c : IPClaim) (g : Prefix) : Decidable (Unclaimed P rib c g) :=
  decidable_of_iff ((∀ r, rib.Has r → r.pfx.masked ≠ g.masked) ∧
      ∃ r, rib.Has r ∧ Selects P c r.labels ∧ r.pfx.StrictlyContains g ∧
        ∀ r', rib.Has r' → r'.pfx.StrictlyContains g → r'.pfx.bits ≤ r.pfx.bits)
    ⟨fun h => ⟨h.1, h.2⟩, fun h => ⟨h.1, h.2⟩⟩

theorem Unclaimed.free (hu : Unclaimed P rib c g) : rib[g]? = none := by
  by_contra hne
  obtain ⟨l, hl⟩ := Option.ne_none_iff_exists'.mp hne
  exact hu.absent ⟨g, l⟩ hl rfl

theorem SafelyGranted.unclaimed {rib' : Rib} (hg : SafelyGranted P rib rib' c g) :
    Unclaimed P rib c g := by
  obtain ⟨r, hr, hsel, hrg, hall⟩ := hg.inside
  constructor
  · intro r' hr' hmask
    have hcont := hall r' hr' (.inl (Prefix.contains_of_masked_eq hmask))
    have hlt := (hcont.trans_strictlyContains hrg).1
    have hbits : r'.pfx.masked.bits = g.masked.bits := congrArg Prefix.bits hmask
    rw [Prefix.masked_bits, Prefix.masked_bits] at hbits
    omega
  · exact ⟨r, hr, hsel, hrg, fun r' hr' hr'g => (hall r' hr' (.inl hr'g.contains)).2.1⟩

/-- No route lies strictly inside the route of a chosen prefix. -/
theorem Chosen.nothing_inside (hc : Chosen P rib c h) {r : Route} (hr : rib.Has r) :
    ¬(mainPrefix c h).StrictlyContains r.pfx := by
  intro hin
  cases hc with
  | hint t p ht hpi hp =>
    have hstrict := (contains_mainPrefix c h).trans_strictlyContains hin
    obtain ⟨hb, -, hcp, -⟩ := P.nipam.available hp
    have hback : p.Contains h :=
      Prefix.contains_of_masked_eq (hcp.masked_eq hb.symm).symm
    exact P.nipam.not_contains_of_available hp hr hstrict (hback.trans hstrict.contains)
  | search selected b p hpick hp hpi =>
    obtain ⟨hb, -, hcp, -⟩ := P.nipam.available hp
    have hpr := (updatePrefixInfo_contains hb hpi).trans_strictlyContains hin
    exact P.nipam.not_contains_of_available hp hr (hcp.trans_strictlyContains hpr) hpr.contains

theorem Chosen.safelyGranted (hc : Chosen P rib c h) (hu : Unclaimed P rib c (mainPrefix c h)) :
    SafelyGranted P rib (addAll rib (getMutatedRoutesWithLabels P.txt c h)) c (mainPrefix c h) := by
  obtain ⟨r, hr, hsel, hrg, hmost⟩ := hu.parent
  refine ⟨⟨r, hr, hsel, hrg, fun r' hr' hover => ?_⟩, addAll_held P hu.free⟩
  rcases hover with hr'g | hgr'
  · have hstrict : r'.pfx.StrictlyContains (mainPrefix c h) := by
      refine ⟨Nat.lt_of_le_of_ne hr'g.2.1 fun hb => ?_, hr'g⟩
      exact hu.absent r' hr' (hr'g.masked_eq hb)
    exact hr'g.nested hrg.contains (hmost r' hr' hstrict)
  · refine absurd ⟨Nat.lt_of_le_of_ne hgr'.2.1 fun hb => ?_, hgr'⟩ (hc.nothing_inside hr')
    exact hu.absent r' hr' (hgr'.masked_eq hb).symm

/-- The route of a prefix is found again under it, unless the table has masked it. -/
theorem lookupPrefix_eq_iff (c : IPClaim) (h : Prefix) :
    lookupPrefix c h = mainPrefix c h ↔ (c.spec.kind ≠ .network → h.masked = h) := by
  unfold lookupPrefix mainPrefix
  split
  next hk => exact iff_of_true rfl fun hne => absurd hk hne
  next hk => exact ⟨fun heq _ => heq.symm, fun heq => (heq fun hnet => hk hnet).symm⟩

/-- A prefix with host bits is not found among the routes that are added for it. -/
theorem masked_of_held {l : Labels} (hfree : rib[lookupPrefix c h]? = none)
    (hl : (addAll rib (getMutatedRoutesWithLabels P.txt c h))[lookupPrefix c h]? = some l)
    (hk : c.spec.kind ≠ .network) : h.masked = h := by
  have hlook : lookupPrefix c h = h := by
    unfold lookupPrefix
    split
    next hnet => exact absurd hnet hk
    next => rfl
  rw [addAll_getElem?, hfree, hlook, Option.none_or, Option.map_eq_some_iff] at hl
  obtain ⟨r, hr, -⟩ := hl
  have hpfx : r.pfx = h := by simpa using List.find?_some hr
  have hmain : r.pfx = mainPrefix c h := by
    by_contra hne
    exact hk (network_of_mem_mutated (List.mem_of_find?_eq_some hr) hne).1
  have hmask : mainPrefix c h = h.masked := mainPrefix_eq_subnet c h fun hnet => hk hnet.1
  rw [← hmask, ← hmain, hpfx]

/-- A dynamic claim of an owner without routes that gets the prefix `h`, as the one it hints at or
as one it finds, is granted it safely exactly when the route of `h` is not in the table, the claim
selects a most specific route around it, and the table keeps `h` as it is. -/
theorem hint_safe_iff (P : Platform) (s s' : RibState) (c c' : IPClaim) (h : Prefix)
    (initializing : Bool) (hown : OwnsNothing P s.rib c)
    (hrun : (applyDynamic P initializing c).run (handler P.nipam) s = (.ok c', s'))
    (hsame : c'.status.pfx = some (P.txt.prefixString h)) :
    SafelyGranted P s.rib s'.rib c (lookupPrefix c h) ↔
      Unclaimed P s.rib c (lookupPrefix c h) ∧ (c.spec.kind ≠ .network → h.masked = h) := by
  obtain ⟨pi, hchosen, hadd⟩ := applyDynamic_ok hown hrun
  rw [addRib_run] at hadd
  cases hadd
  rw [reported_pfx, Option.some.injEq] at hsame
  obtain rfl := P.txt.prefixString_injective hsame
  constructor
  · intro hg
    obtain ⟨l, hl, -⟩ := hg.held
    exact ⟨hg.unclaimed, masked_of_held hg.unclaimed.free hl⟩
  · rintro ⟨hu, hmask⟩
    rw [(lookupPrefix_eq_iff c pi).mpr hmask] at hu ⊢
    exact hchosen.safelyGranted hu

/-- A claim of an address in the aggregate that hints at a prefix. -/
def hintClaim (name t : String) : IPClaim :=
  (sampleClaim ipClaimGVK name .loopback none none none (ofKind .aggregate)).setPrefix t

/-- A hint at a free address of the aggregate. -/
theorem hint_safe_free_address :
    SafelyGranted .reference aggregateRib.rib
      ((applyDynamic .reference false (hintClaim "a" "10.0.0.7/32")).run (handler .reference)
        aggregateRib).2.rib
      (hintClaim "a" "10.0.0.7/32") (samplePrefix 7 32) :=
  (hint_safe_iff .reference aggregateRib _
    (hintClaim "a" "10.0.0.7/32") (hintClaim "a" "10.0.0.7/32") (samplePrefix 7 32) false
    (by decide +kernel) (Prod.ext (by decide +kernel) rfl) (by decide +kernel)).mpr
    ⟨by decide +kernel, fun _ => Prefix.masked_single (samplePrefix 7 32).addr⟩

/-- The address of another owner is granted to a claim that hints at it and stays with that owner;
a hint at an address outside of all routes is granted as well. -/
theorem hint_held_granted :
    (((applyDynamic .reference false (hintClaim "b" "10.0.0.7/32")).run (handler .reference)
      (serve .reference aggregateRib (.claim (hintClaim "a" "10.0.0.7/32")))).1 =
        .ok (hintClaim "b" "10.0.0.7/32") ∧
    ((applyDynamic .reference false (hintClaim "b" "10.0.0.7/32")).run (handler .reference)
      (serve .reference aggregateRib (.claim (hintClaim "a" "10.0.0.7/32")))).2.rib[
        samplePrefix 7 32]?.map ownerKey = some (hintClaim "a" "10.0.0.7/32").owner ∧
    (hintClaim "a" "10.0.0.7/32").owner ≠ (hintClaim "b" "10.0.0.7/32").owner) ∧
    ((applyDynamic .reference false (hintClaim "b" "192.168.0.0/32")).run (handler .reference)
      aggregateRib).1 = .ok (hintClaim "b" "192.168.0.0/32") ∧
    ∀ r, aggregateRib.rib.Has r →
      ∀ h ∈ (netText.parsePrefix "192.168.0.0/32").toOption, ¬r.pfx.Contains h := by
  exact ⟨⟨by decide +kernel, by decide +kernel, by decide⟩, by decide +kernel, by decide +kernel⟩

end K8sIpam.Ipam
