import K8sIpam.Net.Text
import K8sIpam.Ipam.Claim

/-! # A reference routing table

Listings in the order of the keys and, as `nipam` does it, a free prefix from the smallest free
block that fits: a table that keeps the promises of `Nipam`, on which the backend can be
evaluated. -/

namespace K8sIpam.Ipam
open Std Atomic Net

namespace Reference

def routes (rib : Rib) : List Route := rib.toList.map fun kv => ⟨kv.1, kv.2⟩

theorem mem_routes {rib : Rib} {r : Route} : r ∈ routes rib ↔ rib.Has r := by
  unfold routes Rib.Has
  rw [List.mem_map]
  constructor
  · rintro ⟨⟨p, l⟩, h, rfl⟩
    exact ExtTreeMap.mem_toList_iff_getElem?_eq_some.mp h
  · exact fun h => ⟨(r.pfx, r.labels), ExtTreeMap.mem_toList_iff_getElem?_eq_some.mpr h, rfl⟩

theorem nodup_routes (rib : Rib) : (routes rib).Nodup := by
  refine List.Nodup.map ?_ ?_
  · rintro ⟨p, l⟩ ⟨p', l'⟩ h
    cases h
    rfl
  · refine List.Pairwise.imp ?_ rib.distinct_keys_toList
    rintro a b hne rfl
    exact hne compare_self

def getByLabel (rib : Rib) (s : Selector) : List Route := (routes rib).filter fun r => s.Matches r.labels

def children (rib : Rib) (p : Prefix) : List Route :=
  (routes rib).filter fun r => p.StrictlyContains r.pfx

/-- Longer prefixes come first. -/
def Longer (r r' : Route) : Prop := r'.pfx.bits ≤ r.pfx.bits

instance : DecidableRel Longer := fun r r' => inferInstanceAs (Decidable (r'.pfx.bits ≤ r.pfx.bits))

instance : Std.Total Longer := ⟨fun r r' => Nat.le_total r'.pfx.bits r.pfx.bits⟩

instance : IsTrans Route Longer := ⟨fun _ _ _ h h' => Nat.le_trans h' h⟩

def parents (rib : Rib) (p : Prefix) : List Route :=
  ((routes rib).filter fun r => r.pfx.StrictlyContains p).insertionSort Longer

/-! ## The search for a free prefix

The addresses of the network without those of the routes inside it are cut into the largest blocks.
Of the blocks that are not longer than asked for, the first of the smallest ones gives its first
addresses. -/

/-- The network of `p` shares an address with a route. -/
def Used (used : List Route) (p : Prefix) : Prop := ∃ r ∈ used, p.Overlaps r.pfx

instance (used : List Route) (p : Prefix) : Decidable (Used used p) :=
  inferInstanceAs (Decidable (∃ r ∈ used, _))

/-- The largest blocks of a network without an address of a route, in the order of the addresses.
The number is that of the bits that vary inside the network. -/
def freeBlocks (used : List Route) : Nat → Prefix → List Prefix
  | 0, p => if Used used p then [] else [p]
  | n + 1, p =>
    if Used used p then
      if h : p.bits < p.addr.bitLen then
        freeBlocks used n (p.lowerHalf h) ++ freeBlocks used n (p.upperHalf h)
      else []
    else [p]

/-- A block replaces the best one so far when it fits and is smaller. -/
def fitter (b : Nat) (best : Option Prefix) (p : Prefix) : Option Prefix :=
  if p.bits > b then best
  else
    match best with
    | none => some p
    | some q => if p.bits > q.bits then some p else best

def bestFit (b : Nat) (free : List Prefix) : Option Prefix := free.foldl (fitter b) none

def getAvailablePrefixByBitLen (rib : Rib) (c : Prefix) (b : Nat) : Option Prefix :=
  (bestFit b (freeBlocks (children rib c) c.host c.masked)).bind fun p => prefixFrom p.addr b

section
variable {used : List Route} {n b : Nat} {p q : Prefix} {best : Option Prefix} {free : List Prefix}

theorem of_mem_freeBlocks (hp : p.masked = p) (h : q ∈ freeBlocks used n p) :
    q.masked = q ∧ p.Contains q ∧ ¬Used used q := by
  induction n generalizing p with
  | zero =>
    rw [freeBlocks] at h
    split at h
    · cases h
    next hfree =>
      rw [List.mem_singleton.mp h]
      exact ⟨hp, .refl p, hfree⟩
  | succ n ih =>
    rw [freeBlocks] at h
    split at h
    · split at h
      next hlt =>
        rcases List.mem_append.mp h with h | h
        · obtain ⟨hmask, hin, hfree⟩ := ih (p.lowerHalf_masked hlt) h
          exact ⟨hmask, (p.contains_lowerHalf hlt).trans hin, hfree⟩
        · obtain ⟨hmask, hin, hfree⟩ := ih (p.upperHalf_masked hlt) h
          exact ⟨hmask, (p.contains_upperHalf hlt).trans hin, hfree⟩
      · cases h
    next hfree =>
      rw [List.mem_singleton.mp h]
      exact ⟨hp, .refl p, hfree⟩

/-- A network in which a prefix of its own length is free is free. -/
theorem not_used_of_bits_le (hin : p.Contains q) (hle : q.bits ≤ p.bits) (hfree : ¬Used used q) :
    ¬Used used p := by
  rintro ⟨r, hr, hover⟩
  have hback : q.Contains p :=
    Prefix.contains_of_masked_eq (hin.masked_eq (Nat.le_antisymm hin.2.1 hle)).symm
  exact hfree ⟨r, hr, hover.imp hback.trans fun h => h.trans hin⟩

/-- A free prefix is in one of the blocks. -/
theorem exists_mem_freeBlocks (hn : n = p.host) (hin : p.Contains q) (hfree : ¬Used used q) :
    ∃ f ∈ freeBlocks used n p, f.Contains q := by
  induction n generalizing p with
  | zero =>
    have hle : q.bits ≤ p.bits := by
      have hq := q.le
      have hbits : q.addr.bitLen = p.addr.bitLen := congrArg Family.bitLen hin.1.symm
      unfold Prefix.host at hn
      omega
    rw [freeBlocks, if_neg (not_used_of_bits_le hin hle hfree)]
    exact ⟨p, List.mem_singleton_self p, hin⟩
  | succ n ih =>
    rw [freeBlocks]
    split
    next hused =>
      have hlt : p.bits < p.addr.bitLen := by
        unfold Prefix.host at hn
        omega
      have hstrict : p.StrictlyContains q :=
        ⟨Nat.lt_of_not_le fun hle => not_used_of_bits_le hin hle hfree hused, hin⟩
      have hhalf : n = p.addr.bitLen - (p.bits + 1) := by
        unfold Prefix.host at hn
        omega
      rw [dif_pos hlt]
      rcases hstrict.halves hlt with hlow | hup
      · obtain ⟨f, hf, hfq⟩ := ih (p := p.lowerHalf hlt) hhalf hlow
        exact ⟨f, List.mem_append_left _ hf, hfq⟩
      · obtain ⟨f, hf, hfq⟩ := ih (p := p.upperHalf hlt) hhalf hup
        exact ⟨f, List.mem_append_right _ hf, hfq⟩
    · exact ⟨p, List.mem_singleton_self p, hin⟩

/-- A larger prefix around a block is used. -/
theorem used_of_strictlyContains {f : Prefix} (hf : f ∈ freeBlocks used n p) (hq : p.Contains q)
    (hqf : q.StrictlyContains f) : Used used q := by
  induction n generalizing p with
  | zero =>
    rw [freeBlocks] at hf
    split at hf
    · cases hf
    · rw [List.mem_singleton.mp hf] at hqf
      exact absurd hqf.1 (Nat.not_lt.mpr hq.2.1)
  | succ n ih =>
    rw [freeBlocks] at hf
    split at hf
    next hused =>
      split at hf
      next hlt =>
        by_cases hle : q.bits ≤ p.bits
        · by_contra hfree
          exact not_used_of_bits_le hq hle hfree hused
        · have hlonger : p.bits + 1 ≤ q.bits := Nat.lt_of_not_le hle
          rcases List.mem_append.mp hf with hf | hf
          · have hin := (of_mem_freeBlocks (p.lowerHalf_masked hlt) hf).2.1
            exact ih hf (hin.nested hqf.2 hlonger)
          · have hin := (of_mem_freeBlocks (p.upperHalf_masked hlt) hf).2.1
            exact ih hf (hin.nested hqf.2 hlonger)
      · cases hf
    · rw [List.mem_singleton.mp hf] at hqf
      exact absurd hqf.1 (Nat.not_lt.mpr hq.2.1)

theorem freeBlocks_sorted (hp : p.masked = p) :
    (freeBlocks used n p).Pairwise fun f g => f.addr.val < g.addr.val := by
  induction n generalizing p with
  | zero =>
    rw [freeBlocks]
    split
    · exact .nil
    · exact List.pairwise_singleton _ p
  | succ n ih =>
    rw [freeBlocks]
    split
    · split
      next hlt =>
        have hlow := p.lowerHalf_masked hlt
        have hup := p.upperHalf_masked hlt
        refine List.pairwise_append.mpr ⟨ih hlow, ih hup, fun f hf g hg => ?_⟩
        exact Prefix.lowerHalf_lt_upperHalf hlt (of_mem_freeBlocks hlow hf).2.1
          (of_mem_freeBlocks hup hg).2.1
      · exact .nil
    · exact List.pairwise_singleton _ p

/-- The best of a list of blocks: the first of the smallest that fit. -/
def Best (b : Nat) (free : List Prefix) : Option Prefix → Prop
  | none => ∀ f ∈ free, b < f.bits
  | some q => q ∈ free ∧ q.bits ≤ b ∧ ∀ f ∈ free, f.bits ≤ b →
      f.bits < q.bits ∨ f.bits = q.bits ∧ q.addr.val ≤ f.addr.val

/-- One more block, behind the others. -/
theorem Best.fitter (h : Best b free best) (hlt : ∀ f ∈ free, f.addr.val < p.addr.val) :
    Best b (free ++ [p]) (fitter b best p) := by
  unfold Reference.fitter
  split
  next hlong =>
    cases best with
    | none =>
      intro f hf
      rcases List.mem_append.mp hf with hf | hf
      · exact h f hf
      · exact List.mem_singleton.mp hf ▸ hlong
    | some q =>
      obtain ⟨hq, hle, hbest⟩ := h
      refine ⟨List.mem_append_left _ hq, hle, fun f hf hfits => ?_⟩
      rcases List.mem_append.mp hf with hf | hf
      · exact hbest f hf hfits
      · rw [List.mem_singleton.mp hf] at hfits
        omega
  next hfits =>
    cases best with
    | none =>
      refine ⟨List.mem_append_right _ (List.mem_singleton_self p), Nat.not_lt.mp hfits, ?_⟩
      intro f hf hle
      rcases List.mem_append.mp hf with hf | hf
      · exact absurd hle (Nat.not_le.mpr (h f hf))
      · exact .inr ⟨by rw [List.mem_singleton.mp hf], by rw [List.mem_singleton.mp hf]⟩
    | some q =>
      obtain ⟨hq, hle, hbest⟩ := h
      dsimp only
      split
      next hsmaller =>
        refine ⟨List.mem_append_right _ (List.mem_singleton_self p), Nat.not_lt.mp hfits, ?_⟩
        intro f hf hle'
        rcases List.mem_append.mp hf with hf | hf
        · have := hbest f hf hle'
          omega
        · exact .inr ⟨by rw [List.mem_singleton.mp hf], by rw [List.mem_singleton.mp hf]⟩
      next hlarger =>
        refine ⟨List.mem_append_left _ hq, hle, fun f hf hle' => ?_⟩
        rcases List.mem_append.mp hf with hf | hf
        · exact hbest f hf hle'
        · have := hlt q hq
          rw [List.mem_singleton.mp hf]
          omega

theorem Best.foldl {rest : List Prefix} (h : Best b free best)
    (hsorted : (free ++ rest).Pairwise fun f g => f.addr.val < g.addr.val) :
    Best b (free ++ rest) (rest.foldl (Reference.fitter b) best) := by
  induction rest generalizing free best with
  | nil => simpa using h
  | cons p rest ih =>
    have hlt : ∀ f ∈ free, f.addr.val < p.addr.val := fun f hf =>
      (List.pairwise_append.mp hsorted).2.2 f hf p List.mem_cons_self
    have hnext := ih (h.fitter hlt) (by simpa using hsorted)
    simpa using hnext

theorem best_bestFit (hsorted : free.Pairwise fun f g => f.addr.val < g.addr.val) :
    Best b free (bestFit b free) := by
  have hnil : Best b [] none := List.forall_mem_nil _
  exact hnil.foldl hsorted

end

theorem mem_children {rib : Rib} {p : Prefix} {r : Route} :
    r ∈ children rib p ↔ rib.Has r ∧ p.StrictlyContains r.pfx := by
  rw [children, List.mem_filter, mem_routes, decide_eq_true_eq]

variable {rib : Rib} {c p q : Prefix} {b : Nat}

theorem not_used_children (hc : c.Contains p) : ¬Used (children rib c) p ↔ rib.FreeIn c p := by
  constructor
  · exact fun h => ⟨hc, fun r hr hin hover => h ⟨r, mem_children.mpr ⟨hr, hin⟩, hover⟩⟩
  · rintro ⟨-, h⟩ ⟨r, hr, hover⟩
    obtain ⟨hr, hin⟩ := mem_children.mp hr
    exact h r hr hin hover

/-- The list has the largest free blocks of the network. -/
theorem mem_freeBlocks : p ∈ freeBlocks (children rib c) c.host c.masked ↔ rib.FreeBlock c p := by
  constructor
  · intro hp
    obtain ⟨hmask, hin, hfree⟩ := of_mem_freeBlocks c.masked_masked hp
    refine ⟨hmask, (not_used_children (c.contains_masked.trans hin)).mp hfree, fun q hq hfree => ?_⟩
    exact (not_used_children hfree.1).mpr hfree
      (used_of_strictlyContains hp (c.masked_contains.trans hfree.1) hq)
  · rintro ⟨hmask, hfree, hlargest⟩
    obtain ⟨f, hf, hfp⟩ := exists_mem_freeBlocks c.masked_host.symm
      (c.masked_contains.trans hfree.1) ((not_used_children hfree.1).mpr hfree)
    obtain ⟨hmask', hin, hfree'⟩ := of_mem_freeBlocks c.masked_masked hf
    have hfree' := (not_used_children (c.contains_masked.trans hin)).mp hfree'
    rcases hfp.eq_or_strictlyContains hmask' hmask with rfl | hstrict
    · exact hf
    · exact absurd hfree' (hlargest f hstrict)

theorem best_block (rib : Rib) (c : Prefix) (b : Nat) :
    Best b (freeBlocks (children rib c) c.host c.masked)
      (bestFit b (freeBlocks (children rib c) c.host c.masked)) :=
  best_bestFit (freeBlocks_sorted c.masked_masked)

theorem getAvailablePrefix_eq_some (h : getAvailablePrefixByBitLen rib c b = some p) :
    ∃ B, rib.BestBlock c b B ∧ B.addr = p.addr ∧ p.bits = b := by
  obtain ⟨B, hbest, hp⟩ := Option.bind_eq_some_iff.mp h
  obtain ⟨haddr, hbits⟩ := prefixFrom_eq_some.mp hp
  have hB := best_block rib c b
  rw [hbest] at hB
  obtain ⟨hmem, hle, hfirst⟩ := hB
  refine ⟨B, ⟨mem_freeBlocks.mp hmem, ⟨hle, ?_⟩, ?_⟩, haddr.symm, hbits⟩
  · rw [← haddr, ← hbits]
    exact p.le
  · exact fun B' hB' hle' => hfirst B' (mem_freeBlocks.mpr hB') hle'

theorem isSome_getAvailablePrefix (h : rib.FreeIn c p) :
    (getAvailablePrefixByBitLen rib c p.bits).isSome = true := by
  obtain ⟨f, hf, hfp⟩ := exists_mem_freeBlocks c.masked_host.symm (c.masked_contains.trans h.1)
    ((not_used_children h.1).mpr h)
  have hB := best_block rib c p.bits
  unfold getAvailablePrefixByBitLen
  cases hbest : bestFit p.bits (freeBlocks (children rib c) c.host c.masked) with
  | none =>
    rw [hbest] at hB
    exact absurd hfp.2.1 (Nat.not_le.mpr (hB f hf))
  | some B =>
    rw [hbest] at hB
    have hfam : B.family = p.family := (mem_freeBlocks.mp hB.1).free.1.1.symm.trans h.1.1
    have hlen : p.bits ≤ B.addr.bitLen := p.le.trans_eq (congrArg Family.bitLen hfam).symm
    rw [Option.bind_some, prefixFrom, dif_pos hlen]
    rfl

end Reference

def Nipam.reference : Nipam where
  getByLabel := Reference.getByLabel
  children := Reference.children
  parents := Reference.parents
  getAvailablePrefixByBitLen := Reference.getAvailablePrefixByBitLen
  alreadyExists p := "prefix " ++ netText.prefixString p ++ " already exists"
  notFound p := "prefix " ++ netText.prefixString p ++ " not found"
  mem_getByLabel := by
    intro rib s r
    rw [Reference.getByLabel, List.mem_filter, Reference.mem_routes]
  nodup_getByLabel rib s := (Reference.nodup_routes rib).filter _
  mem_children := Reference.mem_children
  mem_parents := by
    intro rib p r
    rw [Reference.parents, List.mem_insertionSort, List.mem_filter, Reference.mem_routes,
      decide_eq_true_eq]
  parents_sorted rib p := List.pairwise_insertionSort Reference.Longer _
  available := by
    intro rib c b p h
    obtain ⟨B, hB, haddr, hbits⟩ := Reference.getAvailablePrefix_eq_some h
    obtain ⟨hmask, hfree⟩ := hB.free haddr hbits
    exact ⟨hbits, hmask, hfree⟩
  alreadyExists_contains p := by
    refine ⟨("prefix " ++ netText.prefixString p ++ " ").toList, [], ?_⟩
    simp

theorem Nipam.reference_bestFit : Nipam.reference.BestFit where
  complete _ _ _ h := Reference.isSome_getAvailablePrefix h
  best h := by
    obtain ⟨B, hB, haddr, -⟩ := Reference.getAvailablePrefix_eq_some h
    exact ⟨B, hB, haddr⟩

/-- Every key and value is accepted in a selector. -/
def Platform.reference : Platform where
  nipam := .reference
  txt := netText
  refuses _ _ := none
  routeString r := netText.prefixString r.pfx ++ " " ++ mapString r.labels
  routesString rs := "[" ++ " ".intercalate (rs.map fun r => netText.prefixString r.pfx) ++ "]"
  pointerString := "0"

/-- A claim made for a resource of the given name, in the default namespace. -/
def sampleClaim (gvk : GroupVersionKind) (name : String) (kind : PrefixKind) (pfx : Option String)
    (prefixLength : Option UInt8) (createPrefix : Option Bool) (selector : Option Labels) : IPClaim :=
  let metadata : ObjectMeta := ⟨name, "default", ∅⟩
  { metadata
    spec := {
      labels := addOwnerLabels gvk metadata ∅, selector, kind, pfx, prefixLength, createPrefix,
      networkInstance := ⟨"vpc", "default"⟩, addressFamily := none }
    status := ⟨none, none⟩ }

/-- The aggregate that a network instance is created with. -/
def sampleAggregate : IPClaim :=
  sampleClaim networkInstanceGVK "vpc" .aggregate (some "10.0.0.0/8") none (some true) none

theorem samplePrefix_lt (v : Fin 256) : 10 * 2 ^ 24 + v.val < 2 ^ Family.ipv4.bitLen := by
  have := v.isLt
  simp only [Family.bitLen]
  omega

theorem samplePrefix_le (b : Fin 33) : b.val ≤ Family.ipv4.bitLen := Nat.le_of_lt_succ b.isLt

/-- The prefix 10.0.0.v/b. -/
def samplePrefix (v : Fin 256) (b : Fin 33) : Prefix :=
  ⟨⟨.ipv4, 10 * 2 ^ 24 + v, samplePrefix_lt v⟩, b, samplePrefix_le b⟩

instance neZeroOctets : NeZero 256 := ⟨by decide⟩

instance neZeroLengths : NeZero 33 := ⟨by decide⟩

/-- A table with the aggregate 10.0.0.0/8 only. -/
def aggregateRib : RibState :=
  ⟨(∅ : Rib).insert (samplePrefix 0 8)
    ((∅ : Labels).insert nephioPrefixKindKey PrefixKind.aggregate.toString), []⟩

/-- Select the routes of a kind. -/
def ofKind (kind : PrefixKind) : Option Labels :=
  some ((∅ : Labels).insert nephioPrefixKindKey kind.toString)

def kindLabels (kind : PrefixKind) : Labels := (∅ : Labels).insert nephioPrefixKindKey kind.toString

/-- A claim that creates the network 10.0.0.0/24 with the address 10.0.0.1. -/
def networkClaim (name : String) : IPClaim :=
  sampleClaim ipClaimGVK name .network (some "10.0.0.1/24") none (some true) none

/-- A claim of an address of a network, made in the aggregate. -/
def addressClaim (name : String) : IPClaim :=
  sampleClaim ipClaimGVK name .network none none none (ofKind .aggregate)

end K8sIpam.Ipam
