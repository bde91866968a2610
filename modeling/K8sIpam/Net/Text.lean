import K8sIpam.Lib.Digits
import K8sIpam.Lib.Split
import K8sIpam.Net.IpUtil

/-! # A text of addresses

IPv4 addresses in dotted decimal form and IPv6 addresses as eight hexadecimal groups, without
the abbreviation of zeros that `net/netip` makes. -/

namespace K8sIpam.Net
open Digits

namespace Family

/-- The groups of an address, the size of each, the base it is written in and what separates
them. -/
def width : Family → Nat
  | .ipv4 => 4
  | .ipv6 => 8

def size : Family → Nat
  | .ipv4 => 256
  | .ipv6 => 65536

def base : Family → Nat
  | .ipv4 => 10
  | .ipv6 => 16

def sep : Family → Char
  | .ipv4 => '.'
  | .ipv6 => ':'

variable (f : Family)

theorem size_pow_width : f.size ^ f.width = 2 ^ f.bitLen := by cases f <;> decide
theorem size_pos : 0 < f.size := by cases f <;> decide
theorem one_lt_base : 1 < f.base := by cases f <;> decide
theorem base_le : f.base ≤ 16 := by cases f <;> decide
theorem digitVal_sep : digitVal f.sep = none := by cases f <;> decide

end Family

def addrChars (a : Addr) : List Char :=
  [a.family.sep].intercalate
    ((groups a.family.size a.family.width a.val).map (Nat.toDigits a.family.base))

/-- Read the groups of an address of the family. -/
def parseAddrOf (f : Family) (cs : List Char) : Option Addr := do
  let ds ← (cs.splitOn f.sep).mapM (read f.base)
  if ds.length = f.width ∧ (∀ d ∈ ds, d < f.size) then
    if h : ungroup f.size ds < 2 ^ f.bitLen then some ⟨f, ungroup f.size ds, h⟩ else none
  else none

def parseAddr (cs : List Char) : Option Addr :=
  if '.' ∈ cs then parseAddrOf .ipv4 cs else parseAddrOf .ipv6 cs

def parsePrefix (s : String) : Except String Prefix :=
  match s.toList.splitOn '/' with
  | [cs, bs] =>
    match parseAddr cs, read 10 bs with
    | some a, some b =>
      match prefixFrom a b with
      | some p => .ok p
      | none => .error ("netip.ParsePrefix(" ++ s ++ "): prefix length out of range")
    | _, _ => .error ("netip.ParsePrefix(" ++ s ++ "): bad address or bits")
  | _ => .error ("netip.ParsePrefix(" ++ s ++ "): no '/'")

/-! ## The round trip -/

section
variable (f : Family) (v : Nat)

theorem sep_not_mem_group {ds : List Char}
    (h : ds ∈ (groups f.size f.width v).map (Nat.toDigits f.base)) {c : Char}
    (hc : digitVal c = none) : c ∉ ds := by
  obtain ⟨d, -, rfl⟩ := List.mem_map.mp h
  intro hmem
  have := digitVal_of_mem_toDigits f.one_lt_base f.base_le hmem
  rw [hc] at this
  cases this

theorem mapM_read_groups (ds : List Nat) :
    (ds.map (Nat.toDigits f.base)).mapM (read f.base) = some ds := by
  induction ds with
  | nil => rfl
  | cons d ds ih => simp [read_toDigits f.one_lt_base f.base_le, ih]

theorem splitOn_addrChars (a : Addr) : (addrChars a).splitOn a.family.sep =
    (groups a.family.size a.family.width a.val).map (Nat.toDigits a.family.base) := by
  have hne : (groups a.family.size a.family.width a.val).map (Nat.toDigits a.family.base) ≠ [] := by
    intro h
    have hlen := congrArg List.length h
    rw [List.length_map, length_groups] at hlen
    cases hf : a.family <;> rw [hf] at hlen <;> cases hlen
  exact List.splitOn_intercalate _
    (fun l hl => sep_not_mem_group a.family a.val hl a.family.digitVal_sep) hne

theorem parseAddrOf_addrChars (a : Addr) : parseAddrOf a.family (addrChars a) = some a := by
  have hlt : a.val < a.family.size ^ a.family.width := a.family.size_pow_width ▸ a.lt
  rw [parseAddrOf, splitOn_addrChars, mapM_read_groups]
  simp [length_groups, ungroup_groups hlt, a.lt]
  intro d hd
  exact lt_of_mem_groups a.family.size_pos hd

end

/-- The text of an address has digits and separators only. -/
theorem not_mem_addrChars {a : Addr} {c : Char} (hc : digitVal c = none) (hs : c ≠ a.family.sep) :
    c ∉ addrChars a := by
  intro h
  obtain h | ⟨l, hl, h⟩ := Split.mem_intercalate h
  · exact hs h
  · exact sep_not_mem_group _ _ hl hc h

theorem sep_mem_addrChars (a : Addr) : a.family.sep ∈ addrChars a := by
  cases hf : a.family <;>
    simp [addrChars, hf, Family.width, Family.sep, groups, List.intercalate_cons_cons]

theorem parseAddr_addrChars (a : Addr) : parseAddr (addrChars a) = some a := by
  have ha := parseAddrOf_addrChars a
  unfold parseAddr
  cases hf : a.family with
  | ipv4 =>
    have hdot : '.' ∈ addrChars a := by simpa [hf, Family.sep] using sep_mem_addrChars a
    rw [if_pos hdot, ← hf, ha]
  | ipv6 =>
    have hdot : '.' ∉ addrChars a := not_mem_addrChars (by decide) (by rw [hf]; decide)
    rw [if_neg hdot, ← hf, ha]

theorem splitOn_prefixText (p : Prefix) :
    (String.ofList (addrChars p.addr) ++ "/" ++ toString p.bits).toList.splitOn '/' =
      [addrChars p.addr, Nat.toDigits 10 p.bits] := by
  have haddr : '/' ∉ addrChars p.addr :=
    not_mem_addrChars (by decide) (by cases p.addr.family <;> decide)
  have hbits : '/' ∉ Nat.toDigits 10 p.bits := by
    intro h
    have := digitVal_of_mem_toDigits (by decide) (by decide) h
    revert this
    decide
  have htext : (String.ofList (addrChars p.addr) ++ "/" ++ toString p.bits).toList =
      ['/'].intercalate [addrChars p.addr, Nat.toDigits 10 p.bits] := by
    simp [List.intercalate_cons_cons]
  rw [htext, List.splitOn_intercalate _ (by simp [haddr, hbits]) (by simp)]

theorem parsePrefix_text (p : Prefix) :
    parsePrefix (String.ofList (addrChars p.addr) ++ "/" ++ toString p.bits) = .ok p := by
  rw [parsePrefix, splitOn_prefixText]
  simp only [parseAddr_addrChars, read_toDigits (by decide : 1 < 10) (by decide), prefixFrom,
    dif_pos p.le]

def netText : NetText where
  addrString a := String.ofList (addrChars a)
  parsePrefix := parsePrefix
  parsePrefix_prefixString := parsePrefix_text

theorem netText_dashless : netText.Dashless := by
  intro a h
  refine not_mem_addrChars (a := a) (c := '-') (by decide) (by cases a.family <;> decide) ?_
  simpa [netText] using h

/-! ## Names of subnets -/

/-- Two prefixes have the same subnet name if and only if they are in one subnet: of one family,
with one first address and one length. -/
theorem getSubnetName_eq_iff_same_subnet {txt : NetText} (htxt : txt.Dashless) (p q : Prefix) :
    (p.getSubnetName txt = q.getSubnetName txt ↔ p.getIPSubnet = q.getIPSubnet) ∧
    (p.getIPSubnet = q.getIPSubnet ↔
      p.family = q.family ∧ p.firstAddr = q.firstAddr ∧ p.bits = q.bits) := by
  have hparts : p.getIPSubnet = q.getIPSubnet →
      p.family = q.family ∧ p.firstAddr = q.firstAddr ∧ p.bits = q.bits := by
    intro h
    have hfamily : p.getIPSubnet.family = q.getIPSubnet.family := congrArg Prefix.family h
    have hbits : p.getIPSubnet.bits = q.getIPSubnet.bits := congrArg Prefix.bits h
    exact ⟨hfamily, congrArg Prefix.addr h, hbits⟩
  refine ⟨⟨Prefix.masked_eq_of_getSubnetName_eq htxt, fun h => ?_⟩, hparts, ?_⟩
  · have hin : p.Contains q := Prefix.contains_of_masked_eq h
    exact hin.getSubnetName_eq (hparts h).2.2 txt
  · rintro ⟨-, hfirst, hbits⟩
    unfold Prefix.getIPSubnet Prefix.masked
    congr 1

theorem ipv6Prefix_lt (v : Fin 256) : 2 ^ 112 + v.val < 2 ^ Family.ipv6.bitLen := by
  have := v.isLt
  simp only [Family.bitLen]
  omega

theorem ipv6Prefix_le (b : Fin 129) : b.val ≤ Family.ipv6.bitLen := Nat.le_of_lt_succ b.isLt

/-- An address 1::v with a length. -/
def ipv6Prefix (v : Fin 256) (b : Fin 129) : Prefix :=
  ⟨⟨.ipv6, 2 ^ 112 + v, ipv6Prefix_lt v⟩, b, ipv6Prefix_le b⟩

/-- Two addresses of one subnet have its name; the larger subnet around them has another. -/
theorem getSubnetName_of_two_lengths :
    (ipv6Prefix 1 64).getSubnetName netText = (ipv6Prefix 2 64).getSubnetName netText ∧
      (ipv6Prefix 1 64).getSubnetName netText ≠ (ipv6Prefix 1 48).getSubnetName netText := by
  have hsame := getSubnetName_eq_iff_same_subnet netText_dashless (ipv6Prefix 1 64) (ipv6Prefix 2 64)
  have hother := getSubnetName_eq_iff_same_subnet netText_dashless (ipv6Prefix 1 64) (ipv6Prefix 1 48)
  refine ⟨hsame.1.mpr (hsame.2.mpr (by decide +kernel)), fun h => ?_⟩
  have hbits : (ipv6Prefix 1 64).bits = (ipv6Prefix 1 48).bits := (hother.2.mp (hother.1.mp h)).2.2
  exact absurd hbits (by decide)

end K8sIpam.Net
