import K8sIpam.Ipam.Resources
import K8sIpam.Net.Netip

/-! # The names of the claims of network instances

The name of the claim of a prefix of a network instance has a dash for each slash and colon of the
prefix, a dash between the prefix and the name of the network instance, and the name may have
dashes of its own. Two prefixes share a name exactly if one of them goes on behind the length of the
other. -/

namespace K8sIpam.Ipam
open Net Netip Digits

/-! ## The names of objects -/

def isLowerAlphanumeric (c : Char) : Bool := c.isLower || c.isDigit

def isDNS1123Label (cs : List Char) : Bool :=
  cs.head?.any isLowerAlphanumeric && cs.getLast?.any isLowerAlphanumeric &&
    cs.all fun c => isLowerAlphanumeric c || c = '-'

/-- A DNS-1123 subdomain, as Kubernetes requires of the names of its objects. -/
def isObjectName (s : String) : Bool :=
  s.length ≤ 253 && (s.toList.splitOn '.').all isDNS1123Label

theorem colon_not_mem_objectName {s : String} (h : isObjectName s = true) : ':' ∉ s.toList := by
  intro hmem
  rw [isObjectName, Bool.and_eq_true, List.all_eq_true] at h
  obtain hdot | ⟨l, hl, hc⟩ := Split.mem_splitOn (a := '.') hmem
  · cases hdot
  · have hlabel := h.2 l hl
    rw [isDNS1123Label, Bool.and_eq_true, List.all_eq_true] at hlabel
    have := hlabel.2 ':' hc
    revert this
    decide

/-! ## The text of a name -/

/-- The separators of a prefix are written as dashes. -/
def dash (c : Char) : Char := if c = '/' ∨ c = ':' then '-' else c

theorem dash_eq_dash {c : Char} (hc : c ≠ '-') : dash c = '-' ↔ c = '/' ∨ c = ':' := by
  unfold dash
  split
  next h => simp [h]
  next h => simp [h, hc]

theorem map_dash_eq_self {xs : List Char} (h : '-' ∉ xs.map dash) : xs.map dash = xs := by
  refine (List.map_congr_left fun c hc => ?_).trans (List.map_id xs)
  have hne : dash c ≠ '-' := fun heq => h (heq ▸ List.mem_map_of_mem hc)
  unfold dash at hne ⊢
  split at hne
  · exact absurd rfl hne
  next hsep => rw [if_neg hsep, id]

/-- The digits behind the slash stay. -/
theorem map_dash_bits {s : String} {addr bits : List Char} (h : Sides s addr bits) :
    bits.map dash = bits := by
  refine (List.map_congr_left fun c hc => ?_).trans (List.map_id bits)
  rw [dash, if_neg, id]
  rintro (rfl | rfl)
  · exact h.not_mem_bits (by decide) hc
  · exact h.not_mem_bits (by decide) hc

theorem map_dash_injective {xs ys : List Char} (hx : '-' ∉ xs) (hy : '-' ∉ ys) (hx' : '/' ∉ xs)
    (hy' : '/' ∉ ys) (h : xs.map dash = ys.map dash) : xs = ys := by
  have hdashed : ∀ zs : List Char, '/' ∉ zs → zs.map dash = zs.map Prefix.dashed := by
    intro zs hz
    refine List.map_congr_left fun c hc => ?_
    have hne : c ≠ '/' := fun heq => hz (heq ▸ hc)
    simp [dash, Prefix.dashed, hne]
  rw [hdashed xs hx', hdashed ys hy'] at h
  exact Prefix.map_dashed_injective hx hy h

/-- A dash of the name is a separator of the prefix. -/
theorem map_dash_eq_append {xs us vs : List Char} (hx : '-' ∉ xs)
    (h : xs.map dash = us ++ '-' :: vs) :
    ∃ ys c zs, xs = ys ++ c :: zs ∧ ys.map dash = us ∧ (c = '/' ∨ c = ':') ∧ zs.map dash = vs := by
  obtain ⟨ys, rest, rfl, hus, hrest⟩ := List.map_eq_append_iff.mp h
  obtain ⟨c, zs, rfl, hc, hvs⟩ := List.map_eq_cons_iff.mp hrest
  have hne : c ≠ '-' := fun heq => hx (by simp [heq])
  exact ⟨ys, c, zs, rfl, hus, (dash_eq_dash hne).mp hc, hvs⟩

theorem getNameFromNetworkInstancePrefix_toList {cr : NetworkInstance} (p : String)
    (h : isObjectName cr.metadata.name = true) :
    (cr.getNameFromNetworkInstancePrefix p).toList =
      (p.toList.map dash ++ '-' :: cr.metadata.name.toList) ++ "-aggregate".toList := by
  have hname : cr.metadata.name.toList.map (fun c => if c = ':' then '-' else c) =
      cr.metadata.name.toList := by
    refine (List.map_congr_left fun c hc => ?_).trans (List.map_id _)
    have hne : c ≠ ':' := fun heq => colon_not_mem_objectName h (heq ▸ hc)
    rw [if_neg hne, id]
  have hdash : ((fun c => if c = ':' then '-' else c) ∘ fun c => if c = '/' then '-' else c) =
      dash := by
    funext c
    by_cases hc : c = '/' <;> simp [dash, hc]
  simp [NetworkInstance.getNameFromNetworkInstancePrefix, getNameFromPrefix, replaceChar, hname,
    hdash]

/-! ## Prefixes that share a name -/

/-- The prefix `q` goes on behind the length of `p`, with a colon for its slash, and `m` is what
follows there and the name `n`. -/
def Continues (p m q n : String) : Prop :=
  ∃ addr bits c rest, p.toList = addr ++ '/' :: bits ∧ (c = '/' ∨ c = ':') ∧
    q.toList = addr ++ ':' :: (bits ++ c :: rest) ∧ m.toList = rest.map dash ++ '-' :: n.toList

section
variable {p q m n : String} {addr bits addr' bits' : List Char}

/-- A longer text of a prefix has a colon at the slash of the shorter one. -/
theorem continues_of_longer (hp : Sides p addr bits) (hq : Sides q addr' bits') {us : List Char}
    (h : q.toList.map dash = p.toList.map dash ++ '-' :: us) :
    ∃ c rest, (c = '/' ∨ c = ':') ∧ q.toList = addr ++ ':' :: (bits ++ c :: rest) ∧
      rest.map dash = us := by
  obtain ⟨xs, c, rest, htext, hxs, hc, hus⟩ := map_dash_eq_append hq.dash_not_mem h
  have hdash : '-' ∉ xs := fun hmem => hq.dash_not_mem (by simp [htext, hmem])
  rw [hp.eq, List.map_append, List.map_cons, map_dash_bits hp] at hxs
  obtain ⟨ys, s, zs, rfl, hys, hs, hzs⟩ := map_dash_eq_append hdash hxs
  obtain rfl : zs = bits := by
    have hself : zs.map dash = zs :=
      map_dash_eq_self (by rw [hzs]; exact hp.not_mem_bits (by decide))
    exact hself.symm.trans hzs
  rw [List.append_assoc, List.cons_append] at htext
  -- what stands behind the slash of `q` are digits
  have hbehind : ∀ us vs d, q.toList = us ++ '/' :: vs → d ∈ vs → d = '/' ∨ d = ':' → False := by
    rintro us vs d heq hd (rfl | rfl)
    · exact hq.not_mem_bits (by decide) ((hq.unique heq).2 ▸ hd)
    · exact hq.not_mem_bits (by decide) ((hq.unique heq).2 ▸ hd)
  rcases hs with rfl | rfl
  · exact (hbehind ys _ c htext (by simp) hc).elim
  · have hslash : '/' ∉ ys := by
      intro hmem
      obtain ⟨us, vs, rfl⟩ := List.append_of_mem hmem
      rw [List.append_assoc, List.cons_append] at htext
      exact hbehind us _ ':' htext (by simp) (.inr rfl)
    obtain rfl : ys = addr := by
      refine map_dash_injective (fun hmem => hdash (by simp [hmem])) ?_ hslash ?_ hys
      · exact hp.not_mem_addr (by decide)
      · exact hp.not_mem_addr (by decide)
    exact ⟨c, rest, hc, htext, hus⟩

theorem eq_of_map_dash_eq (hp : Sides p addr bits) (hq : Sides q addr' bits')
    (h : q.toList.map dash = p.toList.map dash) : p = q := by
  rw [hp.eq, hq.eq, List.map_append, List.map_append, List.map_cons, List.map_cons,
    map_dash_bits hp, map_dash_bits hq] at h
  obtain ⟨haddr, hbits⟩ := append_sep_inj (hq.not_mem_bits (by decide))
    (hp.not_mem_bits (by decide)) h
  have hsame : addr' = addr := map_dash_injective (hq.not_mem_addr (by decide))
    (hp.not_mem_addr (by decide)) (hq.not_mem_addr (by decide)) (hp.not_mem_addr (by decide)) haddr
  rw [← String.toList_inj, hp.eq, hq.eq, hsame, hbits]

theorem eq_or_continues_of_append (hp : Sides p addr bits) (hq : Sides q addr' bits')
    {us : List Char} (h : q.toList.map dash = p.toList.map dash ++ us)
    (hname : '-' :: m.toList = us ++ '-' :: n.toList) : (p = q ∧ m = n) ∨ Continues p m q n := by
  cases us with
  | nil =>
    refine .inl ⟨eq_of_map_dash_eq hp hq (by rw [h, List.append_nil]), ?_⟩
    exact String.toList_inj.mp (List.cons.inj hname).2
  | cons u us =>
    obtain rfl : '-' = u := (List.cons.inj hname).1
    obtain ⟨c, rest, hc, htext, rfl⟩ := continues_of_longer hp hq h
    exact .inr ⟨addr, bits, c, rest, hp.eq, hc, htext, (List.cons.inj hname).2⟩

/-- All the ways to cut one text into a prefix and a name. -/
theorem eq_or_continues (hp : Sides p addr bits) (hq : Sides q addr' bits')
    (h : p.toList.map dash ++ '-' :: m.toList = q.toList.map dash ++ '-' :: n.toList) :
    (p = q ∧ m = n) ∨ Continues p m q n ∨ Continues q n p m := by
  rcases List.append_eq_append_iff.mp h with ⟨us, hq', hm⟩ | ⟨us, hp', hn⟩
  · exact (eq_or_continues_of_append hp hq hq' hm).imp_right .inl
  · obtain ⟨rfl, rfl⟩ | hcont := eq_or_continues_of_append hq hp hp' hn
    · exact .inl ⟨rfl, rfl⟩
    · exact .inr (.inr hcont)

/-- A continued prefix has the same name. -/
theorem Continues.text_eq (hp : Sides p addr bits) (h : Continues p m q n) :
    p.toList.map dash ++ '-' :: m.toList = q.toList.map dash ++ '-' :: n.toList := by
  obtain ⟨addr', bits', c, rest, htext, hc, hq, hm⟩ := h
  obtain ⟨rfl, rfl⟩ := hp.unique htext
  have hdash : dash c = '-' := by rcases hc with rfl | rfl <;> decide
  rw [hp.eq, hq, hm]
  simp [hdash, map_dash_bits hp, show dash '/' = '-' by decide, show dash ':' = '-' by decide]

theorem Continues.ne (h : Continues p m q n) : p ≠ q := by
  rintro rfl
  obtain ⟨addr, bits, c, rest, hp, -, hq, -⟩ := h
  have hlen := congrArg List.length (hp.symm.trans hq)
  simp only [List.length_append, List.length_cons] at hlen
  omega

theorem Continues.name_ne (h : Continues p m q n) : m ≠ n := by
  rintro rfl
  obtain ⟨-, -, -, rest, -, -, -, hm⟩ := h
  have hlen := congrArg List.length hm
  simp only [List.length_append, List.length_cons] at hlen
  omega

theorem Continues.addr_append (hp : Sides p addr bits) (hq : Sides q addr' bits')
    (h : Continues p m q n) : ∃ us, addr' = addr ++ ':' :: us := by
  obtain ⟨xs, ys, c, rest, hxs, -, htext, -⟩ := h
  obtain ⟨rfl, rfl⟩ := hp.unique hxs
  have hcut : (xs ++ [':']) ++ (ys ++ c :: rest) = addr' ++ '/' :: bits' := by
    rw [List.append_assoc, List.singleton_append, ← htext, hq.eq]
  rcases List.append_eq_append_iff.mp hcut with ⟨us, rfl, -⟩ | ⟨us, hus, htail⟩
  · exact ⟨us, by simp⟩
  · cases us with
    | nil => exact ⟨[], by simpa using hus.symm⟩
    | cons u us =>
      obtain rfl : '/' = u := (List.cons.inj htail).1
      have hslash : '/' ∈ xs ++ [':'] := by simp [hus]
      exact absurd (by simpa using hslash) (hp.not_mem_addr (c := '/') (by decide))

/-- Of two prefixes with one name none is an IPv4 prefix. -/
theorem Continues.ipv6 {pi qi : Prefix} (hp : Netip.parsePrefix p = some pi)
    (hq : Netip.parsePrefix q = some qi) (h : Continues p m q n) :
    pi.family ≠ .ipv4 ∧ qi.family ≠ .ipv4 := by
  obtain ⟨addr, bits, hsides, haddr⟩ := parsePrefix_sides hp
  obtain ⟨addr', bits', hsides', haddr'⟩ := parsePrefix_sides hq
  obtain ⟨us, rfl⟩ := h.addr_append hsides hsides'
  have hq4 : qi.family ≠ .ipv4 := fun h4 => colon_not_mem_of_ipv4 haddr' h4 (by simp)
  exact ⟨fun h4 => hq4 (ipv4_of_append haddr haddr' h4), hq4⟩

end

/-! ## Unique names -/

/-- The claims of the two prefixes have different names unless they are the claims of one prefix of
one network instance. -/
def NamesApart (cr cr' : NetworkInstance) (p q : String) : Prop :=
  cr.getNameFromNetworkInstancePrefix p = cr'.getNameFromNetworkInstancePrefix q →
    p = q ∧ cr.metadata.name = cr'.metadata.name

/-- The names of claims are unique if and only if none of the prefixes goes on behind the other with
a part of its name. So they are for IPv4 prefixes, and inside a network instance. -/
theorem claim_names_unique_iff (cr cr' : NetworkInstance) (p q : String) (pi qi : Prefix)
    (hp : Netip.parsePrefix p = some pi) (hq : Netip.parsePrefix q = some qi)
    (hm : isObjectName cr.metadata.name = true) (hn : isObjectName cr'.metadata.name = true) :
    (NamesApart cr cr' p q ↔
      ¬Continues p cr.metadata.name q cr'.metadata.name ∧
        ¬Continues q cr'.metadata.name p cr.metadata.name) ∧
    (pi.family = .ipv4 ∨ qi.family = .ipv4 → NamesApart cr cr' p q) ∧
    (cr.metadata.name = cr'.metadata.name → NamesApart cr cr' p q) := by
  obtain ⟨addr, bits, hsides, -⟩ := parsePrefix_sides hp
  obtain ⟨addr', bits', hsides', -⟩ := parsePrefix_sides hq
  have hname : cr.getNameFromNetworkInstancePrefix p = cr'.getNameFromNetworkInstancePrefix q ↔
      p.toList.map dash ++ '-' :: cr.metadata.name.toList =
        q.toList.map dash ++ '-' :: cr'.metadata.name.toList := by
    rw [← String.toList_inj, getNameFromNetworkInstancePrefix_toList p hm,
      getNameFromNetworkInstancePrefix_toList q hn, List.append_cancel_right_eq]
  have hapart : ¬Continues p cr.metadata.name q cr'.metadata.name →
      ¬Continues q cr'.metadata.name p cr.metadata.name → NamesApart cr cr' p q := by
    intro hpq hqp heq
    obtain h | h | h := eq_or_continues hsides hsides' (hname.mp heq)
    · exact h
    · exact absurd h hpq
    · exact absurd h hqp
  refine ⟨⟨fun h => ⟨fun hcont => ?_, fun hcont => ?_⟩, fun h => hapart h.1 h.2⟩, ?_, ?_⟩
  · exact hcont.ne (h (hname.mpr (hcont.text_eq hsides))).1
  · exact hcont.ne (h (hname.mpr (hcont.text_eq hsides').symm)).1.symm
  · intro h4
    refine hapart (fun hcont => ?_) fun hcont => ?_
    · exact h4.elim (hcont.ipv6 hp hq).1 (hcont.ipv6 hp hq).2
    · exact h4.elim (hcont.ipv6 hq hp).2 (hcont.ipv6 hq hp).1
  · intro hsame
    exact hapart (fun hcont => hcont.name_ne hsame) fun hcont => hcont.name_ne hsame.symm

/-- A network instance of a name. -/
def instanceNamed (name : String) : NetworkInstance where
  metadata := { name, ns := "default", labels := ∅ }
  spec := ⟨[]⟩
  status := ⟨[]⟩

theorem claim_names_of_two_instances :
    NamesApart (instanceNamed "vpc-1") (instanceNamed "vpc-2") "10.0.0.0/8" "1000::/64" :=
  (claim_names_unique_iff (instanceNamed "vpc-1") (instanceNamed "vpc-2") "10.0.0.0/8" "1000::/64"
    ⟨⟨.ipv4, 10 * 2 ^ 24, by decide⟩, 8, by decide⟩
    ⟨⟨.ipv6, 0x1000 * 2 ^ 112, by decide⟩, 64, by decide⟩ (by decide +kernel) (by decide +kernel)
    (by decide +kernel) (by decide +kernel)).2.1 (.inl rfl)

/-- Two networks in their own notation: the length 32 of the one is a group of the other, whose length
127 is the beginning of a name. -/
theorem claim_names_collide :
    (Netip.parsePrefix "2001:db8::0/32").map Prefix.masked =
      some ⟨⟨.ipv6, 0x20010db8 * 2 ^ 96, by decide⟩, 32, by decide⟩ ∧
    (Netip.parsePrefix "2001:db8::0:32/127").map Prefix.masked =
      some ⟨⟨.ipv6, 0x20010db8 * 2 ^ 96 + 0x32, by decide⟩, 127, by decide⟩ ∧
    isObjectName "127-a" = true ∧ isObjectName "a" = true ∧
    (instanceNamed "127-a").getNameFromNetworkInstancePrefix "2001:db8::0/32" =
      "2001-db8--0-32-127-a-aggregate" ∧
    (instanceNamed "a").getNameFromNetworkInstancePrefix "2001:db8::0:32/127" =
      "2001-db8--0-32-127-a-aggregate" := by
  decide +kernel

end K8sIpam.Ipam
