import Mathlib
import K8sIpam.Lib.Block

/-! # Addresses and prefixes

The values of `net/netip`: addresses of the two families, prefixes with an address that need not
be the first of its network, and the order of prefixes by inclusion. An address is below the
size of its family and a prefix is not longer than its addresses, so invalid values of
`netip.Prefix` do not exist here; where the library can return one, there is an `Option`. -/

namespace K8sIpam.Net
open Std

inductive Family where
  | ipv4 | ipv6
  deriving DecidableEq

def Family.bitLen : Family → Nat
  | .ipv4 => 32
  | .ipv6 => 128

theorem Family.bitLen_le (f : Family) : f.bitLen ≤ 128 := by cases f <;> decide

structure Addr where
  family : Family
  val : Nat
  lt : val < 2 ^ family.bitLen
  deriving DecidableEq

def Addr.bitLen (a : Addr) : Nat := a.family.bitLen

structure Prefix where
  addr : Addr
  bits : Nat
  le : bits ≤ addr.bitLen
  deriving DecidableEq

/-- `netip.PrefixFrom`; a length that the family does not have gives an invalid prefix. -/
def prefixFrom (a : Addr) (bits : Nat) : Option Prefix :=
  if h : bits ≤ a.bitLen then some ⟨a, bits, h⟩ else none

theorem prefixFrom_eq_some {a : Addr} {n : Nat} {q : Prefix} :
    prefixFrom a n = some q ↔ q.addr = a ∧ q.bits = n := by
  unfold prefixFrom
  constructor
  · intro heq
    split at heq
    · cases heq
      exact ⟨rfl, rfl⟩
    · cases heq
  · rintro ⟨rfl, rfl⟩
    rw [dif_pos q.le]

theorem prefixFrom_self (p : Prefix) : prefixFrom p.addr p.bits = some p :=
  prefixFrom_eq_some.mpr ⟨rfl, rfl⟩

namespace Prefix

variable (p : Prefix)

def family : Family := p.addr.family

/-- The number of bits that vary inside the prefix. -/
def host : Nat := p.addr.bitLen - p.bits

/-! ## An order for finite maps -/

/-- A number that determines the prefix. -/
def key : Nat := (p.addr.val * 256 + p.bits) * 2 + match p.addr.family with | .ipv4 => 0 | .ipv6 => 1

theorem key_injective : Function.Injective key := by
  rintro ⟨⟨f, v, hv⟩, b, hb⟩ ⟨⟨f', v', hv'⟩, b', hb'⟩ h
  have hb₁ : b ≤ 128 := hb.trans f.bitLen_le
  have hb₂ : b' ≤ 128 := hb'.trans f'.bitLen_le
  cases f <;> cases f' <;> simp only [key] at h
  · obtain ⟨rfl, rfl⟩ : v = v' ∧ b = b' := by omega
    rfl
  · omega
  · omega
  · obtain ⟨rfl, rfl⟩ : v = v' ∧ b = b' := by omega
    rfl

instance : Ord Prefix := ⟨compareOn key⟩

instance : TransCmp (compare : Prefix → Prefix → Ordering) :=
  inferInstanceAs (TransCmp (compareOn key))

instance : LawfulEqCmp (compare : Prefix → Prefix → Ordering) where
  eq_of_compare h := key_injective (Nat.compare_eq_eq.mp h)

/-! ## The network of a prefix -/

theorem host_le : p.host ≤ p.addr.family.bitLen := Nat.sub_le ..

def firstAddr : Addr := ⟨p.family, Block.first p.host p.addr.val, Block.first_lt p.addr.lt⟩

def lastAddr : Addr := ⟨p.family, Block.last p.host p.addr.val, Block.last_lt p.host_le p.addr.lt⟩

/-- The prefix with the first address of its network. -/
def masked : Prefix := ⟨p.firstAddr, p.bits, p.le⟩

/-- The prefix of a single address. -/
def single (a : Addr) : Prefix := ⟨a, a.bitLen, Nat.le_refl _⟩

variable {p} {q r : Prefix}

/-- Every address of the network of `q` is in the network of `p`. -/
def Contains (p q : Prefix) : Prop :=
  p.family = q.family ∧ p.bits ≤ q.bits ∧ Block.Same p.host p.addr.val q.addr.val

instance : Decidable (p.Contains q) := inferInstanceAs (Decidable (_ ∧ _ ∧ _))

/-- `q` is a longer prefix in the network of `p`. -/
def StrictlyContains (p q : Prefix) : Prop := p.bits < q.bits ∧ p.Contains q

instance : Decidable (p.StrictlyContains q) := inferInstanceAs (Decidable (_ ∧ _))

/-- The networks have an address in common. -/
def Overlaps (p q : Prefix) : Prop := p.Contains q ∨ q.Contains p

instance : Decidable (p.Overlaps q) := inferInstanceAs (Decidable (_ ∨ _))

/-- The addresses of the network. -/
def addrs (p : Prefix) : Set Addr := {a | p.family = a.family ∧ Block.Same p.host p.addr.val a.val}

theorem host_anti (hf : p.family = q.family) (h : p.bits ≤ q.bits) : q.host ≤ p.host := by
  unfold host Addr.bitLen
  rw [show p.addr.family = q.addr.family from hf]
  omega

theorem Contains.refl (p : Prefix) : p.Contains p := ⟨rfl, Nat.le_refl _, .refl ..⟩

theorem Contains.trans (h : p.Contains q) (h' : q.Contains r) : p.Contains r :=
  ⟨h.1.trans h'.1, h.2.1.trans h'.2.1, h.2.2.trans (h'.2.2.mono (host_anti h.1 h.2.1))⟩

theorem StrictlyContains.contains (h : p.StrictlyContains q) : p.Contains q := h.2

theorem StrictlyContains.trans_contains (h : p.StrictlyContains q) (h' : q.Contains r) :
    p.StrictlyContains r := ⟨h.1.trans_le h'.2.1, h.2.trans h'⟩

theorem Contains.trans_strictlyContains (h : p.Contains q) (h' : q.StrictlyContains r) :
    p.StrictlyContains r := ⟨h.2.1.trans_lt h'.1, h.trans h'.2⟩

theorem StrictlyContains.irrefl : ¬p.StrictlyContains p := fun h => Nat.lt_irrefl _ h.1

/-- Two prefixes that contain a third are nested. -/
theorem Contains.nested (h : p.Contains r) (h' : q.Contains r) (hb : p.bits ≤ q.bits) :
    p.Contains q := by
  have hf : p.family = q.family := h.1.trans h'.1.symm
  exact ⟨hf, hb, h.2.2.trans (h'.2.2.symm.mono (host_anti hf hb))⟩

theorem Contains.overlaps (h : p.Contains r) (h' : q.Contains r) : p.Overlaps q :=
  (Nat.le_total p.bits q.bits).imp (h.nested h') (h'.nested h)

/-- Containment is inclusion of the networks. -/
theorem Contains.subset (h : p.Contains q) : q.addrs ⊆ p.addrs :=
  fun _ ha => ⟨h.1.trans ha.1, h.2.2.trans (ha.2.mono (host_anti h.1 h.2.1))⟩

/-! ## Masked prefixes -/

@[simp] theorem masked_bits (p : Prefix) : p.masked.bits = p.bits := rfl
@[simp] theorem masked_family (p : Prefix) : p.masked.family = p.family := rfl
@[simp] theorem masked_host (p : Prefix) : p.masked.host = p.host := rfl

theorem contains_masked (p : Prefix) : p.Contains p.masked :=
  ⟨rfl, Nat.le_refl _, (Block.same_first ..).symm⟩

theorem masked_contains (p : Prefix) : p.masked.Contains p :=
  ⟨rfl, Nat.le_refl _, Block.same_first ..⟩

/-- Prefixes of one length that are nested have one network. -/
theorem Contains.firstAddr_eq (h : p.Contains q) (hb : p.bits = q.bits) :
    p.firstAddr = q.firstAddr := by
  obtain ⟨⟨f, v, hv⟩, b, hle⟩ := p
  obtain ⟨⟨f', v', hv'⟩, b', hle'⟩ := q
  obtain ⟨hf, -, hs⟩ := h
  obtain rfl : f = f' := hf
  obtain rfl : b = b' := hb
  have hfirst : Block.first (f.bitLen - b) v = Block.first (f.bitLen - b) v' := Block.first_congr hs
  simp only [firstAddr, family, host, Addr.bitLen, hfirst]

theorem Contains.lastAddr_eq (h : p.Contains q) (hb : p.bits = q.bits) :
    p.lastAddr = q.lastAddr := by
  obtain ⟨⟨f, v, hv⟩, b, hle⟩ := p
  obtain ⟨⟨f', v', hv'⟩, b', hle'⟩ := q
  obtain ⟨hf, -, hs⟩ := h
  obtain rfl : f = f' := hf
  obtain rfl : b = b' := hb
  have hlast : Block.last (f.bitLen - b) v = Block.last (f.bitLen - b) v' := Block.last_congr hs
  simp only [lastAddr, family, host, Addr.bitLen, hlast]

theorem Contains.masked_eq (h : p.Contains q) (hb : p.bits = q.bits) : p.masked = q.masked := by
  unfold masked
  congr 1
  exact h.firstAddr_eq hb

theorem contains_of_masked_eq (h : p.masked = q.masked) : p.Contains q :=
  p.contains_masked.trans (h ▸ q.masked_contains)

@[simp] theorem masked_masked (p : Prefix) : p.masked.masked = p.masked :=
  p.masked_contains.masked_eq rfl

/-- Of two masked prefixes around a third, one is around the other. -/
theorem masked_comparable (hp : p.masked = p) (hq : q.masked = q) (h : p.Contains r)
    (h' : q.Contains r) : p = q ∨ p.StrictlyContains q ∨ q.StrictlyContains p := by
  rcases Nat.lt_trichotomy p.bits q.bits with hb | hb | hb
  · exact .inr (.inl ⟨hb, h.nested h' hb.le⟩)
  · have heq := (h.nested h' hb.le).masked_eq hb
    rw [hp, hq] at heq
    exact .inl heq
  · exact .inr (.inr ⟨hb, h'.nested h hb.le⟩)

/-- A masked prefix inside another one is it or is strictly inside. -/
theorem Contains.eq_or_strictlyContains (h : p.Contains q) (hp : p.masked = p) (hq : q.masked = q) :
    p = q ∨ p.StrictlyContains q := by
  rcases Nat.eq_or_lt_of_le h.2.1 with hb | hb
  · have heq := h.masked_eq hb
    rw [hp, hq] at heq
    exact .inl heq
  · exact .inr ⟨hb, h⟩

@[simp] theorem masked_single (a : Addr) : (single a).masked = single a := by
  obtain ⟨f, v, hv⟩ := a
  simp [masked, single, firstAddr, family, host, Addr.bitLen, Block.first]

/-- The first address of a network is the first of every smaller network that it is in. -/
theorem masked_longer {n : Nat} (hp : p.masked = p) (hn : p.bits ≤ n) (hle : n ≤ p.addr.bitLen) :
    (⟨p.addr, n, hle⟩ : Prefix).masked = ⟨p.addr, n, hle⟩ := by
  have hfirst : Block.first p.host p.addr.val = p.addr.val :=
    congrArg (fun q : Prefix => q.addr.val) hp
  have hlonger : Block.first (p.addr.bitLen - n) p.addr.val = p.addr.val := by
    rw [← hfirst]
    exact Block.first_first (Nat.sub_le_sub_left hn _) _
  obtain ⟨⟨f, v, hv⟩, b, hb⟩ := p
  simp only [masked, firstAddr, family, host] at hlonger ⊢
  simp only [hlonger]

theorem contains_longer {n : Nat} (hn : p.bits ≤ n) (hle : n ≤ p.addr.bitLen) :
    p.Contains ⟨p.addr, n, hle⟩ := ⟨rfl, hn, .refl ..⟩

/-! ## The halves of a prefix -/

/-- The half with the first address. -/
def lowerHalf (p : Prefix) (h : p.bits < p.addr.bitLen) : Prefix := ⟨p.firstAddr, p.bits + 1, h⟩

/-- The half with the last address. -/
def upperHalf (p : Prefix) (h : p.bits < p.addr.bitLen) : Prefix :=
  (⟨p.lastAddr, p.bits + 1, h⟩ : Prefix).masked

theorem contains_lowerHalf (h : p.bits < p.addr.bitLen) : p.Contains (p.lowerHalf h) :=
  ⟨rfl, Nat.le_succ _, (Block.same_first ..).symm⟩

theorem contains_upperHalf (h : p.bits < p.addr.bitLen) : p.Contains (p.upperHalf h) := by
  have hlast : p.Contains ⟨p.lastAddr, p.bits + 1, h⟩ :=
    ⟨rfl, Nat.le_succ _, (Block.same_last ..).symm⟩
  exact hlast.trans (contains_masked _)

theorem lowerHalf_masked (h : p.bits < p.addr.bitLen) : (p.lowerHalf h).masked = p.lowerHalf h :=
  masked_longer (masked_masked p) (Nat.le_succ _) h

theorem upperHalf_masked (h : p.bits < p.addr.bitLen) : (p.upperHalf h).masked = p.upperHalf h :=
  masked_masked _

theorem host_eq_succ (h : p.bits < p.addr.bitLen) : p.host = (p.addr.bitLen - (p.bits + 1)) + 1 := by
  unfold host
  omega

/-- A longer prefix is in one of the halves. -/
theorem StrictlyContains.halves (hq : p.StrictlyContains q) (h : p.bits < p.addr.bitLen) :
    (p.lowerHalf h).Contains q ∨ (p.upperHalf h).Contains q := by
  have hsame := hq.2.2.2
  rw [host_eq_succ h] at hsame
  rcases hsame.halves with hlow | hup
  · rw [← host_eq_succ h] at hlow
    exact .inl ⟨hq.2.1, hq.1, hlow⟩
  · rw [← host_eq_succ h] at hup
    have hlast : (⟨p.lastAddr, p.bits + 1, h⟩ : Prefix).Contains q := ⟨hq.2.1, hq.1, hup⟩
    exact .inr ((masked_contains _).trans hlast)

theorem lowerHalf_lt_upperHalf (h : p.bits < p.addr.bitLen) (hq : (p.lowerHalf h).Contains q)
    (hr : (p.upperHalf h).Contains r) : q.addr.val < r.addr.val := by
  have hlast : (⟨p.lastAddr, p.bits + 1, h⟩ : Prefix).Contains r := (contains_masked _).trans hr
  have hlow : Block.Same (p.addr.bitLen - (p.bits + 1)) (Block.first p.host p.addr.val) q.addr.val :=
    hq.2.2
  have hup : Block.Same (p.addr.bitLen - (p.bits + 1)) (Block.last p.host p.addr.val) r.addr.val :=
    hlast.2.2
  rw [host_eq_succ h] at hlow hup
  exact Block.lt_of_same_halves hlow hup

theorem single_bits (a : Addr) : (single a).bits = a.bitLen := rfl

theorem single_injective : Function.Injective single := fun _ _ h => congrArg Prefix.addr h

/-- A prefix of a single address contains nothing longer. -/
theorem single_not_strictlyContains (a : Addr) : ¬(single a).StrictlyContains q := by
  rintro ⟨hlt, hf, -⟩
  have hle := q.le
  unfold Addr.bitLen at hle
  rw [show q.addr.family = a.family from hf.symm] at hle
  exact Nat.not_lt.mpr hle hlt

/-- An address of the network as a prefix inside it. -/
theorem contains_single {a : Addr} (h : a ∈ p.addrs) : p.Contains (single a) := by
  refine ⟨h.1, ?_, h.2⟩
  rw [single_bits, Addr.bitLen, ← h.1]
  exact p.le

theorem mk_addr_eq_iff {n : Nat} (hle : n ≤ p.addr.bitLen) :
    (⟨p.addr, n, hle⟩ : Prefix) = p ↔ n = p.bits := by
  obtain ⟨a, m, hm⟩ := p
  simp

/-- The network of a prefix that is not an address has several. -/
theorem firstAddr_ne_lastAddr (h : p.bits < p.addr.bitLen) : p.firstAddr ≠ p.lastAddr := by
  intro heq
  have hval : Block.first p.host p.addr.val = Block.last p.host p.addr.val := congrArg Addr.val heq
  have hhost : p.host ≠ 0 := Nat.sub_ne_zero_of_lt h
  have htwo : 2 ≤ 2 ^ p.host := Nat.le_self_pow hhost 2
  unfold Block.last at hval
  omega

theorem addr_mem (p : Prefix) : p.addr ∈ p.addrs := ⟨rfl, .refl ..⟩
theorem firstAddr_mem (p : Prefix) : p.firstAddr ∈ p.addrs := ⟨rfl, (Block.same_first ..).symm⟩
theorem lastAddr_mem (p : Prefix) : p.lastAddr ∈ p.addrs := ⟨rfl, (Block.same_last ..).symm⟩

end Prefix
end K8sIpam.Net
