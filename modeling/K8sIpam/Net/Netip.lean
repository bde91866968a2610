import K8sIpam.Net.Text

/-! # The prefixes that `netip.ParsePrefix` accepts

All the notations of an address: IPv4 addresses in dotted decimal form, and IPv6 addresses whose
groups have one to four digits in either case, with one run of zero groups left out for `::` and the
last two groups as an IPv4 address. A zone is not allowed in a prefix. -/

namespace K8sIpam.Netip
open Digits Net

/-- A decimal number without leading zeros. -/
def parseDecimal (cs : List Char) : Option Nat :=
  if 1 < cs.length ∧ cs.head? = some '0' then none else read 10 cs

def parseOctet (cs : List Char) : Option Nat := (parseDecimal cs).filter (· < 256)

def parseOctets (cs : List Char) : Option (List Nat) := do
  let ds ← (cs.splitOn '.').mapM parseOctet
  if ds.length = 4 then some ds else none

def parseGroup (cs : List Char) : Option Nat :=
  if cs.length ≤ 4 then read 16 (cs.map Char.toLower) else none

/-- The groups behind the ellipsis, or all if there is none. An IPv4 address at the end is two
groups. -/
def parseTail : List (List Char) → Option (List Nat)
  | [] => some []
  | [cs] =>
    if '.' ∈ cs then (parseOctets cs).map fun ds => groups 65536 2 (ungroup 256 ds)
    else (parseGroup cs).map fun g => [g]
  | cs :: fields => do
    let g ← parseGroup cs
    let gs ← parseTail fields
    return g :: gs

/-- What stands before and behind the first `::`. -/
def cutEllipsis : List Char → Option (List Char × List Char)
  | [] => none
  | ':' :: ':' :: cs => some ([], cs)
  | c :: cs => (cutEllipsis cs).map fun lr => (c :: lr.1, lr.2)

def fields (cs : List Char) : List (List Char) := if cs = [] then [] else cs.splitOn ':'

def addrFrom (f : Family) (ds : List Nat) : Option Addr :=
  if h : ungroup f.size ds < 2 ^ f.bitLen then some ⟨f, ungroup f.size ds, h⟩ else none

def parseIPv4 (cs : List Char) : Option Addr := parseOctets cs >>= addrFrom .ipv4

/-- The ellipsis is at least one group of zeros. -/
def parseIPv6 (cs : List Char) : Option Addr :=
  match cutEllipsis cs with
  | none => do
    let gs ← parseTail (cs.splitOn ':')
    if gs.length = 8 then addrFrom .ipv6 gs else none
  | some (l, r) => do
    let gs ← (fields l).mapM parseGroup
    let hs ← parseTail (fields r)
    if gs.length + hs.length < 8 then
      addrFrom .ipv6 (gs ++ List.replicate (8 - gs.length - hs.length) 0 ++ hs)
    else none

/-- The first separator tells the family. -/
def parseAddr (cs : List Char) : Option Addr :=
  match cs.find? fun c => c = '.' || c = ':' || c = '%' with
  | some '.' => parseIPv4 cs
  | some ':' => parseIPv6 cs
  | _ => none

def parsePrefix (s : String) : Option Prefix :=
  match s.toList.splitOn '/' with
  | [cs, bs] => do
    let addr ← parseAddr cs
    let bits ← parseDecimal bs
    prefixFrom addr bits
  | _ => none

example : parsePrefix "1::2:64/24" = some ⟨⟨.ipv6, 2 ^ 112 + 2 * 2 ^ 16 + 0x64, by decide⟩, 24,
    by decide⟩ := by decide +kernel
example : parsePrefix "::FFFF:10.0.0.1/128" = some ⟨⟨.ipv6, 0xffff0a000001, by decide⟩, 128,
    by decide⟩ := by decide +kernel

/-! ## The characters of a prefix -/

/-- The characters of an address. -/
def AddrChar (c : Char) : Prop :=
  (digitVal c).isSome = true ∨ (digitVal c.toLower).isSome = true ∨ c = '.' ∨ c = ':'

instance : DecidablePred AddrChar := fun _ => inferInstanceAs (Decidable (_ ∨ _))

section
variable {cs : List Char} {c : Char}

theorem mapM_isSome {α β : Type} {f : α → Option β} {xs : List α} {ys : List β}
    (h : xs.mapM f = some ys) {x : α} (hx : x ∈ xs) : (f x).isSome = true := by
  induction xs generalizing ys with
  | nil => cases hx
  | cons z xs ih =>
    rw [List.mapM_cons] at h
    obtain ⟨y, hy, h⟩ := Option.bind_eq_some_iff.mp h
    obtain ⟨zs, hzs, -⟩ := Option.bind_eq_some_iff.mp h
    rcases List.mem_cons.mp hx with rfl | hx
    · rw [hy]
      rfl
    · exact ih hzs hx

theorem digitVal_of_parseDecimal (h : (parseDecimal cs).isSome = true) (hc : c ∈ cs) :
    (digitVal c).isSome = true := by
  unfold parseDecimal at h
  split at h
  · cases h
  · obtain ⟨n, hn⟩ := Option.isSome_iff_exists.mp h
    exact digitVal_of_read hn hc

theorem digitVal_of_parseOctet (h : (parseOctet cs).isSome = true) (hc : c ∈ cs) :
    (digitVal c).isSome = true := by
  obtain ⟨n, hn⟩ := Option.isSome_iff_exists.mp h
  obtain ⟨hn, -⟩ := Option.filter_eq_some_iff.mp hn
  exact digitVal_of_parseDecimal (by rw [hn]; rfl) hc

/-- Four octets are digits and dots. -/
theorem char_of_parseOctets {ds : List Nat} (h : parseOctets cs = some ds) (hc : c ∈ cs) :
    (digitVal c).isSome = true ∨ c = '.' := by
  obtain ⟨ds, hds, -⟩ := Option.bind_eq_some_iff.mp h
  obtain rfl | ⟨l, hl, hc⟩ := Split.mem_splitOn (a := '.') hc
  · exact .inr rfl
  · exact .inl (digitVal_of_parseOctet (mapM_isSome hds hl) hc)

theorem addrChar_of_parseGroup (h : (parseGroup cs).isSome = true) (hc : c ∈ cs) : AddrChar c := by
  unfold parseGroup at h
  split at h
  · obtain ⟨n, hn⟩ := Option.isSome_iff_exists.mp h
    exact .inr (.inl (digitVal_of_read hn (List.mem_map_of_mem hc)))
  · cases h

theorem addrChar_of_parseTail {ls : List (List Char)} {gs : List Nat}
    (h : parseTail ls = some gs) (hcs : cs ∈ ls) (hc : c ∈ cs) : AddrChar c := by
  induction ls generalizing gs with
  | nil => cases hcs
  | cons l ls ih =>
    cases ls with
    | nil =>
      obtain rfl := List.mem_singleton.mp hcs
      rw [parseTail] at h
      split at h
      · obtain ⟨ds, hds, -⟩ := Option.map_eq_some_iff.mp h
        obtain hd | rfl := char_of_parseOctets hds hc
        · exact .inl hd
        · exact .inr (.inr (.inl rfl))
      · obtain ⟨g, hg, -⟩ := Option.map_eq_some_iff.mp h
        exact addrChar_of_parseGroup (by rw [hg]; rfl) hc
    | cons l' ls =>
      rw [parseTail] at h
      obtain ⟨g, hg, h⟩ := Option.bind_eq_some_iff.mp h
      obtain ⟨hs, hhs, -⟩ := Option.bind_eq_some_iff.mp h
      rcases List.mem_cons.mp hcs with rfl | hcs
      · exact addrChar_of_parseGroup (by rw [hg]; rfl) hc
      · exact ih hhs hcs
      · simp

theorem cutEllipsis_eq {l r : List Char} (h : cutEllipsis cs = some (l, r)) :
    cs = l ++ ':' :: ':' :: r := by
  induction cs using cutEllipsis.induct generalizing l with
  | case1 => cases h
  | case2 cs =>
    rw [cutEllipsis] at h
    cases h
    rfl
  | case3 c cs hne ih =>
    rw [cutEllipsis] at h
    · obtain ⟨⟨l', r'⟩, hlr, heq⟩ := Option.map_eq_some_iff.mp h
      cases heq
      rw [ih hlr, List.cons_append]
    · exact hne

/-- The characters of the fields and the colons between them. -/
theorem addrChar_of_fields {ls : List Char} (h : ∀ l ∈ fields ls, ∀ c ∈ l, AddrChar c)
    (hc : c ∈ ls) : AddrChar c := by
  unfold fields at h
  rw [if_neg (List.ne_nil_of_mem hc)] at h
  obtain rfl | ⟨l, hl, hc⟩ := Split.mem_splitOn (a := ':') hc
  · exact .inr (.inr (.inr rfl))
  · exact h l hl c hc

theorem addrChar_of_parseIPv6 {a : Addr} (h : parseIPv6 cs = some a) (hc : c ∈ cs) : AddrChar c := by
  unfold parseIPv6 at h
  split at h
  · obtain ⟨gs, hgs, -⟩ := Option.bind_eq_some_iff.mp h
    refine addrChar_of_fields (fun l hl c hc => ?_) hc
    rw [fields, if_neg (List.ne_nil_of_mem ‹_›)] at hl
    exact addrChar_of_parseTail hgs hl hc
  next l r hcut =>
    obtain ⟨gs, hgs, h⟩ := Option.bind_eq_some_iff.mp h
    obtain ⟨hs, hhs, -⟩ := Option.bind_eq_some_iff.mp h
    rw [cutEllipsis_eq hcut, List.mem_append, List.mem_cons, List.mem_cons] at hc
    rcases hc with hc | rfl | rfl | hc
    · exact addrChar_of_fields (fun l hl c hc => addrChar_of_parseGroup (mapM_isSome hgs hl) hc) hc
    · exact .inr (.inr (.inr rfl))
    · exact .inr (.inr (.inr rfl))
    · exact addrChar_of_fields (fun l hl c hc => addrChar_of_parseTail hhs hl hc) hc

theorem char_of_parseIPv4 {a : Addr} (h : parseIPv4 cs = some a) (hc : c ∈ cs) :
    (digitVal c).isSome = true ∨ c = '.' := by
  obtain ⟨ds, hds, -⟩ := Option.bind_eq_some_iff.mp h
  exact char_of_parseOctets hds hc

theorem addrFrom_family {f : Family} {ds : List Nat} {a : Addr} (h : addrFrom f ds = some a) :
    a.family = f := by
  unfold addrFrom at h
  split at h
  · cases h
    rfl
  · cases h

theorem parseIPv4_family {a : Addr} (h : parseIPv4 cs = some a) : a.family = .ipv4 := by
  obtain ⟨ds, -, h⟩ := Option.bind_eq_some_iff.mp h
  exact addrFrom_family h

theorem parseIPv6_family {a : Addr} (h : parseIPv6 cs = some a) : a.family = .ipv6 := by
  unfold parseIPv6 at h
  split at h <;> simp only [Option.bind_eq_bind, Option.bind_eq_some_iff] at h
  · obtain ⟨gs, -, h⟩ := h
    split at h
    · exact addrFrom_family h
    · cases h
  · obtain ⟨gs, -, hs, -, h⟩ := h
    split at h
    · exact addrFrom_family h
    · cases h

/-- The first separator of an address. -/
theorem parseAddr_cases {a : Addr} (h : parseAddr cs = some a) :
    (a.family = .ipv4 ∧ parseIPv4 cs = some a ∧
      cs.find? (fun c => c = '.' || c = ':' || c = '%') = some '.') ∨
    (a.family = .ipv6 ∧ parseIPv6 cs = some a) := by
  unfold parseAddr at h
  split at h
  · exact .inl ⟨parseIPv4_family h, h, ‹_›⟩
  · exact .inr ⟨parseIPv6_family h, h⟩
  · cases h

theorem addrChar_of_parseAddr {a : Addr} (h : parseAddr cs = some a) (hc : c ∈ cs) :
    AddrChar c := by
  obtain ⟨-, h, -⟩ | ⟨-, h⟩ := parseAddr_cases h
  · obtain hd | rfl := char_of_parseIPv4 h hc
    · exact .inl hd
    · exact .inr (.inr (.inl rfl))
  · exact addrChar_of_parseIPv6 h hc

theorem colon_not_mem_of_ipv4 {a : Addr} (h : parseAddr cs = some a) (h4 : a.family = .ipv4) :
    ':' ∉ cs := by
  intro hc
  obtain ⟨-, h, -⟩ | ⟨h6, -⟩ := parseAddr_cases h
  · obtain hd | hd := char_of_parseIPv4 h hc
    · revert hd
      decide
    · cases hd
  · rw [h4] at h6
    cases h6

/-- The family is known from the beginning of an address. -/
theorem ipv4_of_append {a b : Addr} {ds : List Char} (ha : parseAddr cs = some a)
    (hb : parseAddr (cs ++ ds) = some b) (h4 : a.family = .ipv4) : b.family = .ipv4 := by
  obtain ⟨-, -, hfirst⟩ | ⟨h6, -⟩ := parseAddr_cases ha
  · have hfind : (cs ++ ds).find? (fun c => c = '.' || c = ':' || c = '%') = some '.' := by
      rw [List.find?_append, hfirst]
      rfl
    rw [parseAddr, hfind] at hb
    exact parseIPv4_family hb
  · rw [h4] at h6
    cases h6

end

/-- The two sides of the slash of a prefix. -/
structure Sides (s : String) (addr bits : List Char) : Prop where
  eq : s.toList = addr ++ '/' :: bits
  addrChars : ∀ c ∈ addr, AddrChar c
  bitsChars : ∀ c ∈ bits, (digitVal c).isSome = true

namespace Sides

variable {s : String} {addr bits : List Char} (h : Sides s addr bits)
include h

theorem not_mem_addr {c : Char} (hc : ¬AddrChar c) : c ∉ addr := fun hmem => hc (h.addrChars c hmem)

theorem not_mem_bits {c : Char} (hc : digitVal c = none) : c ∉ bits := by
  intro hmem
  have := h.bitsChars c hmem
  rw [hc] at this
  cases this

theorem dash_not_mem : '-' ∉ s.toList := by
  rw [h.eq, List.mem_append, List.mem_cons]
  rintro (hc | hc | hc)
  · exact h.not_mem_addr (by decide) hc
  · cases hc
  · exact h.not_mem_bits (by decide) hc

/-- The prefix has one slash. -/
theorem unique {xs ys : List Char} (heq : s.toList = xs ++ '/' :: ys) : xs = addr ∧ ys = bits := by
  have hcount := congrArg (List.count '/') (heq.symm.trans h.eq)
  rw [List.count_append, List.count_append, List.count_cons_self, List.count_cons_self,
    List.count_eq_zero.mpr (h.not_mem_addr (by decide)),
    List.count_eq_zero.mpr (h.not_mem_bits (by decide))] at hcount
  have hys : '/' ∉ ys := List.count_eq_zero.mp (by omega)
  exact append_sep_inj hys (h.not_mem_bits (by decide)) (heq.symm.trans h.eq)

end Sides

theorem parsePrefix_sides {s : String} {p : Prefix} (h : parsePrefix s = some p) :
    ∃ addr bits, Sides s addr bits ∧ parseAddr addr = some p.addr := by
  unfold parsePrefix at h
  split at h
  next cs bs hsplit =>
    obtain ⟨a, ha, h⟩ := Option.bind_eq_some_iff.mp h
    obtain ⟨n, hn, h⟩ := Option.bind_eq_some_iff.mp h
    have htext : s.toList = cs ++ '/' :: bs := by
      have hjoin : ['/'].intercalate (s.toList.splitOn '/') = s.toList :=
        List.intercalate_splitOn '/'
      rw [← hjoin, hsplit]
      simp [List.intercalate_cons_cons]
    refine ⟨cs, bs, ⟨htext, fun c hc => addrChar_of_parseAddr ha hc, fun c hc => ?_⟩, ?_⟩
    · exact digitVal_of_parseDecimal (by rw [hn]; rfl) hc
    · rw [ha, (prefixFrom_eq_some.mp h).1]
  · cases h

/-! ## The texts that are written -/

theorem parseDecimal_toDigits (n : Nat) : parseDecimal (Nat.toDigits 10 n) = some n := by
  rw [parseDecimal, if_neg, read_toDigits (by decide) (by decide)]
  rintro ⟨hlen, hhead⟩
  rcases Nat.eq_zero_or_pos n with rfl | hn
  · revert hlen
    decide
  · exact head?_toDigits (by decide) (by decide) hn hhead

theorem parseOctet_toDigits {n : Nat} (h : n < 256) : parseOctet (Nat.toDigits 10 n) = some n := by
  rw [parseOctet, parseDecimal_toDigits]
  simp [Option.filter, h]

theorem parseGroup_toDigits {n : Nat} (h : n < 65536) : parseGroup (Nat.toDigits 16 n) = some n := by
  have hlen : (Nat.toDigits 16 n).length ≤ 4 :=
    (Nat.length_toDigits_le_iff (by decide) (by decide)).mpr h
  have hlower : (Nat.toDigits 16 n).map Char.toLower = Nat.toDigits 16 n :=
    (List.map_congr_left fun c hc => toLower_of_mem_toDigits (by decide) (by decide) hc).trans
      (List.map_id _)
  rw [parseGroup, if_pos hlen, hlower, read_toDigits (by decide) (by decide)]

theorem mapM_parseOctet {ds : List Nat} (h : ∀ d ∈ ds, d < 256) :
    (ds.map (Nat.toDigits 10)).mapM parseOctet = some ds := by
  induction ds with
  | nil => rfl
  | cons d ds ih =>
    have hd : parseOctet (Nat.toDigits 10 d) = some d := parseOctet_toDigits (h d (by simp))
    simp [hd, ih fun e he => h e (List.mem_cons_of_mem _ he)]

theorem parseTail_toDigits {gs : List Nat} (h : ∀ g ∈ gs, g < 65536) :
    parseTail (gs.map (Nat.toDigits 16)) = some gs := by
  induction gs with
  | nil => rfl
  | cons g gs ih =>
    have hg : parseGroup (Nat.toDigits 16 g) = some g := parseGroup_toDigits (h g (by simp))
    have hgs := ih fun e he => h e (List.mem_cons_of_mem _ he)
    cases gs with
    | nil =>
      have hdot : '.' ∉ Nat.toDigits 16 g := by
        intro hc
        have := digitVal_of_mem_toDigits (by decide) (by decide) hc
        revert this
        decide
      simp [parseTail, hdot, hg]
    | cons g' gs =>
      rw [List.map_cons, List.map_cons, parseTail]
      · simp only [List.map_cons] at hgs
        simp [hg, hgs]
      · simp

theorem cutEllipsis_eq_none {cs : List Char} (h : [] ∉ cs.splitOn ':') : cutEllipsis cs = none := by
  cases hcut : cutEllipsis cs with
  | none => rfl
  | some lr =>
    refine absurd ?_ h
    rw [cutEllipsis_eq hcut (l := lr.1) (r := lr.2), List.splitOn_append_cons_self]
    simp [List.splitOn_cons_eq_if_modifyHead]

section
variable (a : Addr)

theorem addrFrom_groups :
    addrFrom a.family (groups a.family.size a.family.width a.val) = some a := by
  have hlt : a.val < a.family.size ^ a.family.width := a.family.size_pow_width ▸ a.lt
  have hval := ungroup_groups hlt
  rw [addrFrom, dif_pos (hval.symm ▸ a.lt)]
  simp [hval]

theorem parseIPv4_addrChars (hf : a.family = .ipv4) : parseIPv4 (addrChars a) = some a := by
  have hsplit := splitOn_addrChars a
  have haddr := addrFrom_groups a
  simp only [hf, Family.sep, Family.size, Family.width, Family.base] at hsplit haddr
  have hds : ∀ d ∈ groups 256 4 a.val, d < 256 := fun d hd => lt_of_mem_groups (by decide) hd
  rw [parseIPv4, parseOctets, hsplit, mapM_parseOctet hds, Option.bind_eq_bind, Option.bind_eq_bind,
    Option.bind_some, length_groups, if_pos rfl, Option.bind_some, haddr]

theorem parseIPv6_addrChars (hf : a.family = .ipv6) : parseIPv6 (addrChars a) = some a := by
  have hsplit := splitOn_addrChars a
  have haddr := addrFrom_groups a
  simp only [hf, Family.sep, Family.size, Family.width, Family.base] at hsplit haddr
  have hgs : ∀ g ∈ groups 65536 8 a.val, g < 65536 := fun g hg => lt_of_mem_groups (by decide) hg
  have hcut : cutEllipsis (addrChars a) = none := by
    apply cutEllipsis_eq_none
    rw [hsplit, List.mem_map]
    rintro ⟨g, -, hg⟩
    exact Nat.toDigits_ne_nil hg
  rw [parseIPv6, hcut, hsplit]
  dsimp only
  rw [parseTail_toDigits hgs, Option.bind_eq_bind, Option.bind_some, length_groups, if_pos rfl,
    haddr]

/-- The separator of the family is the first one. -/
theorem find_sep : (addrChars a).find? (fun c => c = '.' || c = ':' || c = '%') =
    some a.family.sep := by
  cases hfind : (addrChars a).find? (fun c => c = '.' || c = ':' || c = '%') with
  | none =>
    have := List.find?_eq_none.mp hfind _ (sep_mem_addrChars a)
    cases hf : a.family <;> simp [hf, Family.sep] at this
  | some c =>
    have hc := List.find?_some hfind
    have hnone : digitVal c = none := by
      simp only [Bool.or_eq_true, decide_eq_true_eq] at hc
      rcases hc with (rfl | rfl) | rfl <;> decide
    by_contra hne
    exact not_mem_addrChars hnone (fun heq => hne (by rw [heq])) (List.mem_of_find?_eq_some hfind)

theorem parseAddr_addrChars : parseAddr (addrChars a) = some a := by
  have hfind := find_sep a
  cases hf : a.family with
  | ipv4 =>
    rw [hf] at hfind
    rw [parseAddr, hfind]
    exact parseIPv4_addrChars a hf
  | ipv6 =>
    rw [hf] at hfind
    rw [parseAddr, hfind]
    exact parseIPv6_addrChars a hf

end

/-- The notation without abbreviations is one of those that are read. -/
theorem parsePrefix_prefixString (p : Prefix) : parsePrefix (netText.prefixString p) = some p := by
  have hsplit : (netText.prefixString p).toList.splitOn '/' =
      [addrChars p.addr, Nat.toDigits 10 p.bits] := splitOn_prefixText p
  rw [parsePrefix, hsplit]
  dsimp only
  rw [parseAddr_addrChars, parseDecimal_toDigits]
  exact prefixFrom_eq_some.mpr ⟨rfl, rfl⟩

end K8sIpam.Netip
