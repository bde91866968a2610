import K8sIpam.Lib.Digits
import K8sIpam.Net.Prefix

/-! # Prefix information

`pkg/iputil`: the prefixes, names and positions that the backend derives from a prefix. How
`net/netip` writes and reads addresses is a parameter of which only the round trip is used. -/

namespace K8sIpam.Net

/-- The texts of addresses and prefixes. -/
structure NetText where
  addrString : Addr → String
  parsePrefix : String → Except String Prefix
  parsePrefix_prefixString : ∀ p : Prefix,
    parsePrefix (addrString p.addr ++ "/" ++ toString p.bits) = .ok p

namespace NetText

variable (txt : NetText)

def prefixString (p : Prefix) : String := txt.addrString p.addr ++ "/" ++ toString p.bits

theorem parse_prefixString (p : Prefix) : txt.parsePrefix (txt.prefixString p) = .ok p :=
  txt.parsePrefix_prefixString p

theorem prefixString_injective : Function.Injective txt.prefixString := by
  intro p q h
  have hp := txt.parse_prefixString p
  rw [h, txt.parse_prefixString] at hp
  exact (Except.ok.inj hp).symm

theorem addrString_injective : Function.Injective txt.addrString := by
  intro a b h
  -- the length zero is a length of both
  have htext : txt.prefixString ⟨a, 0, Nat.zero_le _⟩ = txt.prefixString ⟨b, 0, Nat.zero_le _⟩ := by
    unfold prefixString
    rw [h]
  exact congrArg Prefix.addr (txt.prefixString_injective htext)

/-- The texts of addresses have no dash: they are written with digits, dots and colons. -/
def Dashless : Prop := ∀ a, '-' ∉ (txt.addrString a).toList

end NetText

namespace Prefix

variable (p : Prefix)

def getIPAddressPrefix : Prefix := single p.addr

def getIPSubnet : Prefix := p.masked

def getFirstIPPrefix : Prefix := single p.firstAddr

def getLastIPPrefix : Prefix := single p.lastAddr

/-- The source compares the texts of the addresses. -/
def isFirst : Bool := p.firstAddr = p.addr

def isLast : Bool := p.lastAddr = p.addr

def isNorLastNorFirst : Bool := !p.isFirst && !p.isLast

def isAddressPrefix : Bool :=
  match p.family with
  | .ipv4 => p.bits = 32
  | .ipv6 => p.bits = 128

def getAddressFamily : String :=
  match p.family with
  | .ipv4 => "ipv4"
  | .ipv6 => "ipv6"

def getSubnetName (txt : NetText) : String :=
  String.ofList ((txt.addrString p.firstAddr ++ "-" ++ toString p.bits).toList.map
    fun c => if c = ':' then '-' else c)

def isPrefixPresentInSubnetMap (txt : NetText) (s : String) : Bool :=
  txt.prefixString p.getIPSubnet = s || txt.prefixString p.getFirstIPPrefix = s ||
    txt.prefixString p.getLastIPPrefix = s || txt.prefixString p.getIPAddressPrefix = s

variable {p}

theorem isAddressPrefix_iff : p.isAddressPrefix = true ↔ p.bits = p.addr.bitLen := by
  unfold isAddressPrefix Addr.bitLen
  cases hf : p.addr.family <;> simp [family, hf, Family.bitLen]

theorem isAddressPrefix_single (a : Addr) : (single a).isAddressPrefix = true :=
  isAddressPrefix_iff.mpr rfl

/-- The prefix of an address prefix is the one of its address. -/
theorem eq_single_of_isAddressPrefix (h : p.isAddressPrefix = true) : p = single p.addr := by
  obtain ⟨a, b, hle⟩ := p
  obtain rfl : b = a.bitLen := isAddressPrefix_iff.mp h
  rfl

theorem masked_of_isAddressPrefix (h : p.isAddressPrefix = true) : p.masked = p := by
  rw [eq_single_of_isAddressPrefix h, masked_single]

variable {q : Prefix}

/-- What is derived from a prefix depends on its network only. -/
theorem Contains.getSubnetName_eq (h : p.Contains q) (hb : p.bits = q.bits) (txt : NetText) :
    p.getSubnetName txt = q.getSubnetName txt := by
  rw [getSubnetName, getSubnetName, h.firstAddr_eq hb, hb]

/-- A colon of a text is written as a dash. -/
def dashed (c : Char) : Char := if c = ':' then '-' else c

/-- A text without dashes can be read back. -/
theorem map_dashed_injective {xs ys : List Char} (hx : '-' ∉ xs) (hy : '-' ∉ ys)
    (h : xs.map dashed = ys.map dashed) : xs = ys := by
  have hback : ∀ zs : List Char, '-' ∉ zs →
      (zs.map dashed).map (fun c => if c = '-' then ':' else c) = zs := by
    intro zs hz
    rw [List.map_map]
    refine (List.map_congr_left fun c hc => ?_).trans (List.map_id zs)
    have hne : c ≠ '-' := fun heq => hz (heq ▸ hc)
    by_cases hcolon : c = ':'
    · simp [dashed, hcolon]
    · simp [dashed, hcolon, hne]
  rw [← hback xs hx, h, hback ys hy]

/-- The name of a subnet determines its network. -/
theorem masked_eq_of_getSubnetName_eq {txt : NetText} (htxt : txt.Dashless)
    (h : p.getSubnetName txt = q.getSubnetName txt) : p.masked = q.masked := by
  have hname : ∀ r : Prefix, (r.getSubnetName txt).toList =
      (txt.addrString r.firstAddr).toList.map dashed ++ '-' :: (Nat.toDigits 10 r.bits).map dashed := by
    intro r
    rw [getSubnetName, String.toList_ofList]
    change List.map dashed _ = _
    simp [dashed]
  have hdigit : ∀ {c : Char} {n : Nat}, Digits.digitVal c = none → c ∉ Nat.toDigits 10 n := by
    intro c n hc hmem
    have := Digits.digitVal_of_mem_toDigits (by decide) (by decide) hmem
    rw [hc] at this
    cases this
  have hbits : ∀ n, '-' ∉ (Nat.toDigits 10 n).map dashed := by
    intro n hmem
    obtain ⟨c, hc, hdash⟩ := List.mem_map.mp hmem
    unfold dashed at hdash
    split at hdash
    next hcolon => exact hdigit (by decide) (hcolon ▸ hc)
    · exact hdigit (by decide) (hdash ▸ hc)
  have hlist := congrArg String.toList h
  rw [hname, hname] at hlist
  obtain ⟨haddr, hlen⟩ := Digits.append_sep_inj (hbits _) (hbits _) hlist
  have hfirst : p.firstAddr = q.firstAddr :=
    txt.addrString_injective (String.toList_inj.mp (map_dashed_injective (htxt _) (htxt _) haddr))
  have hsame : p.bits = q.bits := by
    have hdigits := map_dashed_injective (hdigit (by decide)) (hdigit (by decide)) hlen
    have hread := Digits.read_toDigits (by decide) (by decide) p.bits (b := 10)
    rw [hdigits, Digits.read_toDigits (by decide) (by decide)] at hread
    exact (Option.some.inj hread).symm
  unfold masked
  congr 1

theorem Contains.getAddressFamily_eq (h : p.Contains q) :
    p.getAddressFamily = q.getAddressFamily := by
  rw [getAddressFamily, getAddressFamily, h.1]

end Prefix
end K8sIpam.Net
