import K8sIpam.Ipam.Expansion
import K8sIpam.Ipam.Gateway
import K8sIpam.Ipam.Unchanged

/-! # Claiming again

A new claim writes the labels of `getMutatedRoutesWithLabels` and every later one those of
`GetUpdatedLabels`. Where the two agree, claiming again changes nothing and sends no update. -/

namespace K8sIpam.Ipam
open Std Atomic Prog Net

variable {P : Platform} {c c' : IPClaim} {rib : Rib} {o : Route} {os : List Route} {sel : Selector}
  {s s' : RibState} {pi : Prefix} {l : Labels}

/-! ## Labels -/

section
variable {txt : NetText} {p q : Prefix}

theorem mutatedLabels_congr (h : p.Contains q) (hb : p.bits = q.bits) :
    mutatedLabels txt c p = mutatedLabels txt c q := by
  rw [mutatedLabels, mutatedLabels, h.getAddressFamily_eq, h.getSubnetName_eq hb]

/-- The subnet label is replaced. -/
theorem mutatedLabels_insert (h : p.Contains q) :
    (mutatedLabels txt c q).insert nephioSubnetKey (p.getSubnetName txt) =
      mutatedLabels txt c p := by
  refine ExtTreeMap.ext_getElem? fun k => ?_
  unfold mutatedLabels
  rw [h.getAddressFamily_eq]
  simp only [ExtTreeMap.getElem?_insert]
  split <;> rfl

theorem mutatedLabels_getElem? {k : String}
    (hk : k ≠ nephioPrefixKindKey ∧ k ≠ nephioAddressFamilyKey ∧ k ≠ nephioSubnetKey) :
    (mutatedLabels txt c p)[k]? = c.spec.labels[k]? := by
  simp only [mutatedLabels, ExtTreeMap.getElem?_insert, LawfulEqCmp.compare_eq_iff_eq, hk.1.symm,
    hk.2.1.symm, hk.2.2.symm, if_false]
  rfl

theorem erase_insert_comm {k a v : String} (h : a ≠ k) :
    ExtTreeMap.insert (l.erase k) a v = ExtTreeMap.erase (l.insert a v) k := by
  refine ExtTreeMap.ext_getElem? fun b => ?_
  simp only [ExtTreeMap.getElem?_insert, ExtTreeMap.getElem?_erase,
    LawfulEqCmp.compare_eq_iff_eq]
  by_cases hb : a = b
  · subst hb
    simp [h.symm]
  · simp [hb]

theorem erase_of_none {k : String} (h : l[k]? = none) : l.erase k = l := by
  refine ExtTreeMap.ext_getElem? fun b => ?_
  simp only [ExtTreeMap.getElem?_erase, LawfulEqCmp.compare_eq_iff_eq]
  split
  next hk => rw [← hk, h]
  · rfl

theorem insert_of_some {k v : String} (h : l[k]? = some v) : l.insert k v = l := by
  refine ExtTreeMap.ext_getElem? fun b => ?_
  simp only [ExtTreeMap.getElem?_insert, LawfulEqCmp.compare_eq_iff_eq]
  split
  next hk => rw [← hk, h]
  · rfl

end

/-- The labels of an address of a network, made from the length of its parent. -/
theorem newLabels_single {a : Addr} {n : Nat} (hk : c.spec.kind = .network)
    (hn : parentBits P rib (.single a) = some n) (hle : n ≤ a.bitLen) :
    newLabels P rib c ⟨.single a, l⟩ =
      if a = Prefix.firstAddr ⟨a, n, hle⟩ ∨ a = Prefix.lastAddr ⟨a, n, hle⟩ then
        (mutatedLabels P.txt c ⟨a, n, hle⟩).erase nephioGatewayKey
      else mutatedLabels P.txt c ⟨a, n, hle⟩ := by
  have hpar : parentPrefix ⟨.single a, l⟩ (P.nipam.parents rib (.single a)) = some ⟨a, n, hle⟩ := by
    rw [parentPrefix_eq, show (P.nipam.parents rib (.single a)).head?.map (fun r => r.pfx.bits) =
      some n from hn]
    exact dif_pos hle
  have hin : Prefix.Contains ⟨a, n, hle⟩ (.single a) := Prefix.contains_single ⟨rfl, .refl ..⟩
  unfold newLabels updatedLabels
  simp only [hk, Prefix.isAddressPrefix_single, if_true, hpar, Prefix.getFirstIPPrefix,
    Prefix.getLastIPPrefix, Prefix.single_injective.eq_iff]
  split
  · rw [erase_insert_comm (by decide), mutatedLabels_insert hin]
  · exact mutatedLabels_insert hin

/-- For an address inside a prefix of that length they are made from the prefix. -/
theorem newLabels_inside {a : Addr} (hk : c.spec.kind = .network) (ha : a ∈ pi.addrs)
    (hn : parentBits P rib (.single a) = some pi.bits) :
    newLabels P rib c ⟨.single a, l⟩ =
      if a = pi.firstAddr ∨ a = pi.lastAddr then
        (mutatedLabels P.txt c pi).erase nephioGatewayKey
      else mutatedLabels P.txt c pi := by
  have hle : pi.bits ≤ a.bitLen := by
    rw [Addr.bitLen, ← ha.1]
    exact pi.le
  have hq : pi.Contains ⟨a, pi.bits, hle⟩ := ⟨ha.1, Nat.le_refl _, ha.2⟩
  rw [newLabels_single hk hn hle, hq.firstAddr_eq rfl, hq.lastAddr_eq rfl,
    mutatedLabels_congr hq rfl]

/-- An address without a parent. -/
theorem newLabels_orphan {a : Addr} (hk : c.spec.kind = .network)
    (hn : parentBits P rib (.single a) = none) :
    newLabels P rib c ⟨.single a, l⟩ = mutatedLabels P.txt c (.single a) := by
  have hpar : parentPrefix ⟨.single a, l⟩ (P.nipam.parents rib (.single a)) = none := by
    rw [parentPrefix_eq, show (P.nipam.parents rib (.single a)).head?.map (fun r => r.pfx.bits) =
      none from hn]
    rfl
  unfold newLabels updatedLabels
  simp only [hk, Prefix.isAddressPrefix_single, if_true, hpar]

/-! ## The routes of a new claim -/

theorem isNorLastNorFirst_iff :
    pi.isNorLastNorFirst = true ↔ ¬(pi.addr = pi.firstAddr ∨ pi.addr = pi.lastAddr) := by
  rw [@eq_comm _ pi.addr, @eq_comm _ pi.addr]
  simp [Prefix.isNorLastNorFirst, Prefix.isFirst, Prefix.isLast]

theorem erase_gateway_iff :
    (mutatedLabels P.txt c pi).erase nephioGatewayKey = mutatedLabels P.txt c pi ↔
      c.spec.labels[nephioGatewayKey]? = none := by
  have hget : (mutatedLabels P.txt c pi)[nephioGatewayKey]? = c.spec.labels[nephioGatewayKey]? :=
    mutatedLabels_getElem? (by decide)
  rw [← hget]
  refine ⟨fun h => ?_, erase_of_none⟩
  rw [← h]
  simp

/-- The address of a claim keeps its gateway label. -/
theorem address_labels_iff :
    (if pi.addr = pi.firstAddr ∨ pi.addr = pi.lastAddr then
        (mutatedLabels P.txt c pi).erase nephioGatewayKey
      else mutatedLabels P.txt c pi) = mutatedLabels P.txt c pi ↔
      c.spec.labels[nephioGatewayKey]? = none ∨ pi.isNorLastNorFirst = true := by
  rw [isNorLastNorFirst_iff]
  split
  next hend => rw [erase_gateway_iff, or_iff_left (not_not.mpr hend)]
  next hend => exact iff_of_true rfl (.inr hend)

/-- The lengths of the networks are in the subnet labels. -/
theorem bits_eq_of_subnet (htxt : P.txt.Dashless) {p q : Prefix} {l : Labels}
    (hp : l[nephioSubnetKey]? = some (p.getSubnetName P.txt))
    (hq : l[nephioSubnetKey]? = some (q.getSubnetName P.txt)) : p.bits = q.bits := by
  have hmask : p.masked = q.masked :=
    Prefix.masked_eq_of_getSubnetName_eq htxt (Option.some.inj (hp.symm.trans hq))
  have hbits := congrArg Prefix.bits hmask
  rwa [Prefix.masked_bits, Prefix.masked_bits] at hbits

theorem erased_subnet {l : Labels} {t : String} (h : l[nephioSubnetKey]? = some t) :
    (l.erase nephioGatewayKey)[nephioSubnetKey]? = some t := by
  rw [ExtTreeMap.getElem?_erase, if_neg (by rw [LawfulEqCmp.compare_eq_iff_eq]; decide), h]

theorem newLabels_single_subnet {a : Addr} {n : Nat} (hk : c.spec.kind = .network)
    (hn : parentBits P rib (.single a) = some n) (hle : n ≤ a.bitLen) :
    (newLabels P rib c ⟨.single a, l⟩)[nephioSubnetKey]? =
      some (Prefix.getSubnetName ⟨a, n, hle⟩ P.txt) := by
  rw [newLabels_single hk hn hle]
  split
  · exact erased_subnet mutatedLabels_subnet
  · exact mutatedLabels_subnet

/-- An address of a network, with labels that name the network, keeps them exactly if the network is
its most specific parent, or if the network is the address and has no parent. -/
theorem newLabels_address_iff (htxt : P.txt.Dashless) (hk : c.spec.kind = .network) {a : Addr}
    (ha : a ∈ pi.addrs) (hl : l[nephioSubnetKey]? = some (pi.getSubnetName P.txt)) :
    newLabels P rib c ⟨.single a, l⟩ = l ↔
      parentBits P rib (.single a) = some pi.bits ∧
          (if a = pi.firstAddr ∨ a = pi.lastAddr then
            (mutatedLabels P.txt c pi).erase nephioGatewayKey
          else mutatedLabels P.txt c pi) = l ∨
        parentBits P rib (.single a) = none ∧ pi.isAddressPrefix = true ∧
          mutatedLabels P.txt c pi = l := by
  have hlen : a.bitLen = pi.addr.bitLen := congrArg Family.bitLen ha.1.symm
  cases hn : parentBits P rib (.single a) with
  | none =>
    rw [newLabels_orphan hk hn, Prefix.isAddressPrefix_iff]
    have hcongr : a.bitLen = pi.bits → mutatedLabels P.txt c (.single a) = mutatedLabels P.txt c pi :=
      fun hbits => (mutatedLabels_congr (Prefix.contains_single ha) hbits.symm).symm
    constructor
    · intro heq
      have hbits : (Prefix.single a).bits = pi.bits :=
        bits_eq_of_subnet htxt (heq ▸ mutatedLabels_subnet) hl
      exact .inr ⟨rfl, hbits.symm.trans hlen, (hcongr hbits).symm.trans heq⟩
    · rintro (⟨hsome, -⟩ | ⟨-, hbits, heq⟩)
      · cases hsome
      · exact (hcongr (hlen.trans hbits.symm)).trans heq
  | some n =>
    have hle : n ≤ a.bitLen := by
      obtain ⟨⟨r, -, hr, rfl⟩, -⟩ := parentBits_eq_some.mp hn
      exact Nat.le_of_lt hr.1
    constructor
    · intro heq
      obtain rfl : n = pi.bits :=
        bits_eq_of_subnet htxt (heq ▸ newLabels_single_subnet hk hn hle) hl
      exact .inl ⟨rfl, (newLabels_inside hk ha hn).symm.trans heq⟩
    · rintro (⟨hsome, heq⟩ | ⟨hnone, -⟩)
      · obtain rfl := Option.some.inj hsome
        exact (newLabels_inside hk ha hn).trans heq
      · cases hnone

/-- A route that a claim has added for `pi` keeps its labels: a pool was claimed with the pool label;
an address of a network has the network as its most specific parent, or is the network and has no
parent, and it has no gateway label to lose. -/
def RouteStable (P : Platform) (rib : Rib) (c : IPClaim) (pi p : Prefix) : Prop :=
  match c.spec.kind with
  | .pool => c.spec.labels[nephioPoolKey]? = some "true"
  | .network =>
    p.isAddressPrefix = true →
      parentBits P rib p = some pi.bits ∧ (c.spec.labels[nephioGatewayKey]? = none ∨
          pi.isNorLastNorFirst = true ∨ p ≠ pi.getIPAddressPrefix) ∨
        parentBits P rib p = none ∧ pi.isAddressPrefix = true ∧
          (c.spec.labels[nephioGatewayKey]? = none ∨ c.isCreatePrefix = false)
  | _ => True

theorem address_mem_networkRoutes (hp2p : isPointToPoint pi = false) (l : Labels) :
    mutateNetworIPAddressRoute pi l ∈ networkRoutes pi l := by
  unfold networkRoutes
  rw [hp2p, if_neg Bool.false_ne_true]
  split
  · simp
  next hnor =>
    split
    · simp
    next hnf =>
      split
      · simp
      next hnl => simp [Prefix.isNorLastNorFirst, hnf, hnl] at hnor

/-- The routes that are added for a created network: its subnet, its address, and its ends where they
are not the address. A network that is an address has one route. -/
theorem Added.created {r : Route} (h : Added P rib c pi r) (hk : c.spec.kind = .network)
    (hc : c.isCreatePrefix = true) :
    r = mutateNetworkNetRoute pi (mutatedLabels P.txt c pi) ∨ pi.bits < pi.addr.bitLen ∧
      (r = mutateNetworIPAddressRoute pi (mutatedLabels P.txt c pi) ∨
        ∃ a, (a = pi.firstAddr ∨ a = pi.lastAddr) ∧ a ≠ pi.addr ∧
          r = ⟨.single a, (mutatedLabels P.txt c pi).erase nephioGatewayKey⟩) := by
  obtain ⟨-, hfind⟩ := h
  have hroutes : getMutatedRoutesWithLabels P.txt c pi =
      networkRoutes pi (mutatedLabels P.txt c pi) := by
    simp only [getMutatedRoutesWithLabels, hk, hc, if_true]
  rw [hroutes] at hfind
  have hmem := List.mem_of_find?_eq_some hfind
  rcases mem_networkRoutes hmem with hnet | ⟨hp2p, hor⟩
  · exact .inl hnet
  rcases Nat.lt_or_ge pi.bits pi.addr.bitLen with hlt | hge
  · -- the routes have different prefixes, so an end that is the address is the address route
    have haddr : r.pfx = .single pi.addr →
        r = mutateNetworIPAddressRoute pi (mutatedLabels P.txt c pi) := fun hpfx =>
      List.inj_on_of_nodup_map (networkRoutes_nodup hlt) hmem (address_mem_networkRoutes hp2p _) hpfx
    refine .inr ⟨hlt, ?_⟩
    rcases hor with rfl | rfl | rfl
    · exact .inl rfl
    · by_cases heq : pi.firstAddr = pi.addr
      · exact .inl (haddr (congrArg Prefix.single heq))
      · exact .inr ⟨_, .inl rfl, heq, rfl⟩
    · by_cases heq : pi.lastAddr = pi.addr
      · exact .inl (haddr (congrArg Prefix.single heq))
      · exact .inr ⟨_, .inr rfl, heq, rfl⟩
  · -- the subnet is the only prefix, and it comes first
    refine .inl ?_
    have hbits : pi.bits = pi.addr.bitLen := Nat.le_antisymm pi.le hge
    have hsingle : ∃ a, r.pfx = .single a := by
      rcases hor with rfl | rfl | rfl
      · exact ⟨_, rfl⟩
      · exact ⟨_, rfl⟩
      · exact ⟨_, rfl⟩
    obtain ⟨a, hpfx⟩ := hsingle
    have hin := contains_of_mem_networkRoutes hmem
    have hsame : r.pfx = pi.masked := by
      rw [hpfx] at hin ⊢
      have hab : pi.bits = (Prefix.single a).bits := by
        rw [hbits, Prefix.single_bits]
        exact congrArg Family.bitLen hin.1
      rw [hin.masked_eq hab, Prefix.masked_single]
    obtain ⟨rs, hrs⟩ := networkRoutes_eq_cons pi (mutatedLabels P.txt c pi)
    rw [hrs, List.find?_cons_of_pos (by exact decide_eq_true hsame.symm)] at hfind
    exact (Option.some.inj hfind).symm

section
variable (htxt : P.txt.Dashless) (hk : c.spec.kind = .network) (hc : c.isCreatePrefix = true)
include htxt hk hc

theorem newLabels_netRoute_iff {r : Route}
    (hr : r = mutateNetworkNetRoute pi (mutatedLabels P.txt c pi)) :
    newLabels P rib c r = r.labels ↔ RouteStable P rib c pi r.pfx := by
  subst hr
  unfold RouteStable
  rw [hk, hc]
  dsimp only
  by_cases haddr : pi.isAddressPrefix = true
  · have hmask : pi.masked = .single pi.addr := by
      rw [Prefix.masked_of_isAddressPrefix haddr]
      exact Prefix.eq_single_of_isAddressPrefix haddr
    have hnot : parentBits P rib (.single pi.addr) ≠ some pi.bits := by
      intro hn
      obtain ⟨⟨r, -, hr, hbits⟩, -⟩ := parentBits_eq_some.mp hn
      have hlt : r.pfx.bits < pi.addr.bitLen := hr.1
      rw [hbits, Prefix.isAddressPrefix_iff.mp haddr] at hlt
      exact Nat.lt_irrefl _ hlt
    simp only [mutateNetworkNetRoute, Prefix.getIPSubnet, hmask, Prefix.isAddressPrefix_single,
      haddr, hnot, false_and, false_or, forall_const, true_and, Bool.true_eq_false, or_false]
    rw [newLabels_address_iff htxt hk pi.addr_mem (erased_subnet mutatedLabels_subnet)]
    simp only [hnot, haddr, false_and, false_or, true_and]
    rw [@eq_comm _ (mutatedLabels P.txt c pi), erase_gateway_iff]
  · have hnot : pi.masked.isAddressPrefix = false := by
      rw [← Bool.not_eq_true, Prefix.isAddressPrefix_iff]
      rwa [Prefix.isAddressPrefix_iff] at haddr
    simp only [newLabels, updatedLabels, hk, mutateNetworkNetRoute, Prefix.getIPSubnet, hnot,
      Bool.false_eq_true, if_false, false_implies, iff_true]
    rw [mutatedLabels_congr pi.masked_contains rfl]

theorem newLabels_addressRoute_iff {r : Route} (hlt : pi.bits < pi.addr.bitLen)
    (hr : r = mutateNetworIPAddressRoute pi (mutatedLabels P.txt c pi)) :
    newLabels P rib c r = r.labels ↔ RouteStable P rib c pi r.pfx := by
  subst hr
  unfold RouteStable
  rw [hk, hc]
  have hnaddr : pi.isAddressPrefix = false := by
    rw [← Bool.not_eq_true, Prefix.isAddressPrefix_iff]
    exact Nat.ne_of_lt hlt
  refine (newLabels_address_iff htxt hk pi.addr_mem mutatedLabels_subnet).trans ?_
  rw [address_labels_iff]
  simp [mutateNetworIPAddressRoute, Prefix.getIPAddressPrefix, Prefix.isAddressPrefix_single,
    hnaddr]

theorem newLabels_endRoute_iff {r : Route} {a : Addr} (hlt : pi.bits < pi.addr.bitLen)
    (hend : a = pi.firstAddr ∨ a = pi.lastAddr) (hne : a ≠ pi.addr)
    (hr : r = ⟨.single a, (mutatedLabels P.txt c pi).erase nephioGatewayKey⟩) :
    newLabels P rib c r = r.labels ↔ RouteStable P rib c pi r.pfx := by
  subst hr
  unfold RouteStable
  rw [hk, hc]
  have hnaddr : pi.isAddressPrefix = false := by
    rw [← Bool.not_eq_true, Prefix.isAddressPrefix_iff]
    exact Nat.ne_of_lt hlt
  have ha : a ∈ pi.addrs := by
    rcases hend with rfl | rfl
    · exact pi.firstAddr_mem
    · exact pi.lastAddr_mem
  have hpfx : Prefix.single a ≠ pi.getIPAddressPrefix := fun heq =>
    hne (Prefix.single_injective heq)
  refine (newLabels_address_iff htxt hk ha (erased_subnet mutatedLabels_subnet)).trans ?_
  rw [if_pos hend]
  simp [Prefix.isAddressPrefix_single, hnaddr, hpfx]

end

theorem newLabels_added_iff (htxt : P.txt.Dashless) {r : Route} {rib₀ : Rib}
    (h : Added P rib₀ c pi r) :
    newLabels P rib c r = r.labels ↔ RouteStable P rib c pi r.pfx := by
  have hmem := List.mem_of_find?_eq_some h.2
  cases hk : c.spec.kind with
  | network =>
    cases hc : c.isCreatePrefix with
    | false =>
      unfold RouteStable
      rw [hk, hc]
      simp only [getMutatedRoutesWithLabels, hk, hc, Bool.false_eq_true, if_false] at hmem
      obtain rfl := List.mem_singleton.mp hmem
      refine (newLabels_address_iff htxt hk pi.addr_mem mutatedLabels_subnet).trans ?_
      rw [address_labels_iff]
      simp [Prefix.getIPAddressPrefix, Prefix.isAddressPrefix_single]
    | true =>
      rcases h.created hk hc with hr | ⟨hlt, hr | ⟨a, hend, hne, hr⟩⟩
      · exact newLabels_netRoute_iff htxt hk hc hr
      · exact newLabels_addressRoute_iff htxt hk hc hlt hr
      · exact newLabels_endRoute_iff htxt hk hc hlt hend hne hr
  | pool =>
    simp only [RouteStable, getMutatedRoutesWithLabels, hk] at hmem ⊢
    obtain rfl := List.mem_singleton.mp hmem
    simp only [newLabels, updatedLabels, hk]
    have hget : (mutatedLabels P.txt c pi)[nephioPoolKey]? = c.spec.labels[nephioPoolKey]? :=
      mutatedLabels_getElem? (by decide)
    rw [mutatedLabels_congr pi.masked_contains rfl, ← hget]
    refine ⟨fun heq => ?_, insert_of_some⟩
    rw [← heq]
    simp
  | loopback =>
    simp only [RouteStable, getMutatedRoutesWithLabels, hk] at hmem ⊢
    obtain rfl := List.mem_singleton.mp hmem
    simp only [newLabels, updatedLabels, hk, iff_true]
    exact mutatedLabels_congr pi.masked_contains rfl
  | aggregate =>
    simp only [RouteStable, getMutatedRoutesWithLabels, hk] at hmem ⊢
    obtain rfl := List.mem_singleton.mp hmem
    simp only [newLabels, updatedLabels, hk, iff_true]
    exact mutatedLabels_congr pi.masked_contains rfl

/-! ## Validating again -/

theorem validateMsg_of_subnet (hin : validateInputPrefix P c pi = "")
    (hl : rib[pi.getIPSubnet]? = some l) :
    validateMsg P rib c pi = validateExisting c rib pi ⟨pi.getIPSubnet, l⟩ := by
  unfold validateMsg
  rw [if_neg (by rw [hin]; simp), getRoute, hl]
  rfl

/-- The labels of an own route do not change the name of its resource. -/
theorem own_sameNsn (hown : c.isCreatePrefix = true → c.sameNsn c.spec.labels = true)
    (hc : c.isCreatePrefix = true) (hl : ownerKey l = c.owner) : c.sameNsn l = true :=
  (sameNsn_congr hl).trans (hown hc)

theorem exists_reported_status (P : Platform) (rib : Rib) (c : IPClaim) (t : String) :
    ∃ st, reported P rib c t = { c with status := st } := by
  unfold reported
  split
  · exact ⟨_, rfl⟩
  · exact ⟨_, rfl⟩

/-! ## New claims that are repeated -/

section
variable {st : IPClaimStatus}

/-- The prefix that was given is given again. -/
theorem Taken.again (h : Taken P rib c pi) (hst : st.pfx = some (P.txt.prefixString pi)) :
    Taken P rib { c with status := st } pi := by
  have hoffered : (P.nipam.getAvailablePrefixByBitLen rib pi pi.bits).isSome = true →
      Offered P rib { c with status := st } pi :=
    fun hsome => ⟨_, hst, P.txt.parse_prefixString pi, hsome⟩
  rcases h with ⟨hfirst, text, -, hparse, hsome⟩ | ⟨S, L, p, hsearch, hp, hpi⟩
  · exact .inl ⟨hfirst, hoffered hsome⟩
  · cases hfree : P.nipam.getAvailablePrefixByBitLen rib pi pi.bits with
    | some g =>
      obtain ⟨sel, route, routes, hsel, hroutes, -, -⟩ := hsearch.picked.pick
      exact .inl ⟨⟨route, sel, routes, hsel, hroutes⟩, hoffered (by rw [hfree]; rfl)⟩
    | none =>
      refine .inr ⟨S, L, p, ⟨fun text htext => ?_, ⟨hsearch.picked.pick⟩⟩, hp, hpi⟩
      obtain rfl : P.txt.prefixString pi = text := Option.some.inj (hst.symm.trans htext)
      exact ⟨pi, P.txt.parse_prefixString pi, hfree⟩

/-- With all owner labels, the routes that were added are the owner's. -/
theorem mem_owned_addAll (rib : Rib) (pi : Prefix) (hp : OwnerPresent c)
    (hsel : c.spec.getOwnerSelector P.refuses = .ok sel) (o : Route) :
    o ∈ P.nipam.getByLabel (addAll rib (getMutatedRoutesWithLabels P.txt c pi)) sel ↔
      o ∈ P.nipam.getByLabel rib sel ∨ Added P rib c pi o := by
  rw [P.nipam.mem_getByLabel, P.nipam.mem_getByLabel, has_addAll_iff]
  constructor
  · rintro ⟨hold | hnew, hm⟩
    · exact .inl ⟨hold, hm⟩
    · exact .inr hnew
  · rintro (⟨hold, hm⟩ | hnew)
    · exact ⟨.inl hold, hm⟩
    · have hcarries := carriesOwner_of_mem_mutated (List.mem_of_find?_eq_some hnew.2)
      exact ⟨.inr hnew, hcarries.matches hp hsel⟩

/-- The first route of a prefix is added if it is not there. -/
theorem exists_added_main (hfree : rib[mainPrefix c pi]? = none) :
    ∃ l, Added P rib c pi ⟨mainPrefix c pi, l⟩ := by
  obtain ⟨l, rs, hrs⟩ := mutated_eq_cons P.txt c pi
  refine ⟨l, hfree, ?_⟩
  rw [hrs, List.find?_cons_of_pos (by exact decide_eq_true rfl)]

/-- A claim that is not for a created network adds one route at most. -/
theorem Added.unique {r r' : Route} (hnet : ¬(c.isCreatePrefix = true ∧ c.spec.kind = .network))
    (h : Added P rib c pi r) (h' : Added P rib c pi r') : r = r' := by
  obtain ⟨r₀, hr₀⟩ := mutated_singleton P.txt pi hnet
  have hmem := List.mem_of_find?_eq_some h.2
  have hmem' := List.mem_of_find?_eq_some h'.2
  rw [hr₀, List.mem_singleton] at hmem hmem'
  rw [hmem, hmem']

/-- What a claim with a prefix needs beyond the labels of its new routes: its owner can be looked up,
it is accepted again, and the routes that the owner has had belong to the network and keep their
labels too. -/
structure AskedAgain (P : Platform) (rib rib' : Rib) (c : IPClaim) (pi : Prefix) : Prop where
  selector : ∃ sel, c.spec.getOwnerSelector P.refuses = .ok sel
  accepted : validateMsg P rib' c pi = ""
  old : ∀ o, rib.Has o → HasOwner c.spec.labels o.labels →
    (c.isCreatePrefix = true ∧ c.spec.kind = .network) ∧ newLabels P rib' c o = o.labels

theorem settled_addAll (hp : OwnerPresent c) (hsel : c.spec.getOwnerSelector P.refuses = .ok sel)
    (hadded : ∃ r, Added P rib c pi r)
    (hnew : ∀ r, Added P rib c pi r →
      newLabels P (addAll rib (getMutatedRoutesWithLabels P.txt c pi)) c r = r.labels)
    (hold : ∀ o ∈ P.nipam.getByLabel rib sel, (c.isCreatePrefix = true ∧ c.spec.kind = .network) ∧
      newLabels P (addAll rib (getMutatedRoutesWithLabels P.txt c pi)) c o = o.labels) :
    Settled P (addAll rib (getMutatedRoutesWithLabels P.txt c pi)) c sel := by
  have hmem := mem_owned_addAll rib pi hp hsel
  refine ⟨hsel, ?_, ?_, fun o ho => ?_⟩
  · obtain ⟨r, hr⟩ := hadded
    exact List.ne_nil_of_mem ((hmem r).mpr (.inr hr))
  · by_cases hnet : c.isCreatePrefix = true ∧ c.spec.kind = .network
    · exact .inr hnet
    · obtain ⟨r, hr⟩ := hadded
      have hsub : P.nipam.getByLabel (addAll rib (getMutatedRoutesWithLabels P.txt c pi)) sel ⊆ [r] := by
        intro o ho
        rcases (hmem o).mp ho with ho | ho
        · exact absurd (hold o ho).1 hnet
        · exact List.mem_singleton.mpr (ho.unique hnet hr)
      exact .inl (List.subperm_of_subset (P.nipam.nodup_getByLabel _ _) hsub).length_le
  · rcases (hmem o).mp ho with ho | ho
    · exact (hold o ho).2
    · exact hnew o ho

/-- An owner that has had a route and has a new one has two; that is allowed for a network. -/
theorem Added.network_of_owned (hp : OwnerPresent c)
    (hsel : c.spec.getOwnerSelector P.refuses = .ok sel) {o r : Route}
    (ho : o ∈ P.nipam.getByLabel rib sel) (hr : Added P rib c pi r)
    (hmay : MayOwn c
      (P.nipam.getByLabel (addAll rib (getMutatedRoutesWithLabels P.txt c pi)) sel)) :
    c.isCreatePrefix = true ∧ c.spec.kind = .network := by
  refine hmay.resolve_left fun hlen => ?_
  have hmem := mem_owned_addAll rib pi hp hsel
  have hne : o ≠ r := by
    rintro rfl
    have hhas : rib[o.pfx]? = some o.labels := (P.nipam.mem_getByLabel.mp ho).1
    cases hr.1.symm.trans hhas
  have hsub : [o, r] ⊆
      P.nipam.getByLabel (addAll rib (getMutatedRoutesWithLabels P.txt c pi)) sel := by
    intro r' hr'
    rcases List.mem_cons.mp hr' with rfl | hr'
    · exact (hmem _).mpr (.inl ho)
    · exact List.mem_singleton.mp hr' ▸ (hmem _).mpr (.inr hr)
  have htwo := (List.subperm_of_subset (by simpa using hne) hsub).length_le
  exact absurd (htwo.trans hlen) (Nat.not_le_of_lt (Nat.lt_succ_self 1))

/-- If no route is new, all are there. -/
theorem present_of_not_added (hnot : ¬∃ r, Added P rib c pi r) :
    ∀ r ∈ getMutatedRoutesWithLabels P.txt c pi, rib[r.pfx]?.isSome = true := by
  intro r hr
  by_contra hnone
  rw [Bool.not_eq_true, Option.isSome_eq_false_iff, Option.isNone_iff_eq_none] at hnone
  have hsome : ((getMutatedRoutesWithLabels P.txt c pi).find?
      (fun r' => r'.pfx = r.pfx)).isSome = true :=
    List.find?_isSome.mpr ⟨r, hr, decide_eq_true rfl⟩
  obtain ⟨r', hr'⟩ := Option.isSome_iff_exists.mp hsome
  have hpfx : r'.pfx = r.pfx := by simpa using List.find?_some hr'
  exact hnot ⟨r', hpfx ▸ hnone, hpfx ▸ hr'⟩

/-- The claim that is repeated has the prefix in its spec. -/
theorem unchanging_asked_iff {t : String} (hp : OwnerPresent c)
    (hspec : c.spec.pfx = some t) (hpi : P.txt.parsePrefix t = .ok pi)
    (hfree : rib[mainPrefix c pi]? = none) :
    Unchanging P (addAll rib (getMutatedRoutesWithLabels P.txt c pi)) { c with status := st } ↔
      (∀ r, Added P rib c pi r →
        newLabels P (addAll rib (getMutatedRoutesWithLabels P.txt c pi)) c r = r.labels) ∧
      AskedAgain P rib (addAll rib (getMutatedRoutesWithLabels P.txt c pi)) c pi := by
  obtain ⟨l, hadded⟩ := exists_added_main (P := P) hfree
  constructor
  · rintro (⟨t', pi', sel, ht', hpi', hagain, -, hset⟩ | ⟨-, hnone, -, -⟩ | ⟨-, hnone, -, -, -, -⟩)
    · obtain rfl : t = t' := Option.some.inj (hspec.symm.trans ht')
      obtain rfl : pi = pi' := Except.ok.inj (hpi.symm.trans hpi')
      have hmem := mem_owned_addAll rib pi hp hset.selector
      refine ⟨fun r hr => hset.labels r ((hmem r).mpr (.inr hr)),
        ⟨sel, hset.selector⟩, hagain, fun o ho hown => ?_⟩
      have ho' := (mem_owned hset.selector).mpr ⟨ho, hown⟩
      exact ⟨hadded.network_of_owned hp hset.selector ho' hset.may,
        hset.labels o ((hmem o).mpr (.inl ho'))⟩
    · cases hspec.symm.trans hnone
    · cases hspec.symm.trans hnone
  · rintro ⟨hnew, ⟨sel, hsel⟩, hagain, hold⟩
    refine .asked t pi sel hspec hpi hagain ?_ ((settled_addAll hp hsel ⟨_, hadded⟩ hnew
      fun o ho => ?_).status st)
    · obtain ⟨l', hl', -⟩ := has_main_addAll P hfree
      exact Option.isSome_iff_exists.mpr ⟨l', hl'⟩
    · obtain ⟨hhas, hown⟩ := (mem_owned hsel).mp ho
      exact hold o hhas hown

/-- The claim that is repeated has the prefix in its status only. -/
theorem unchanging_dynamic_iff (hp : OwnerPresent c) (hspec : c.spec.pfx = none)
    (hmsg : validateInputDynamic P c = "")
    (hown : WithoutRoutes P rib c) (htaken : Taken P rib { c with status := st } pi) :
    Unchanging P (addAll rib (getMutatedRoutesWithLabels P.txt c pi)) { c with status := st } ↔
      ∀ r, Added P rib c pi r →
        newLabels P (addAll rib (getMutatedRoutesWithLabels P.txt c pi)) c r = r.labels := by
  obtain ⟨sel, hsel, hnil⟩ := withoutRoutes_iff.mp hown
  have hmem := mem_owned_addAll rib pi hp hsel
  constructor
  · intro hun r hr
    have hr' := (hmem r).mpr (.inr hr)
    rcases hun with ⟨t, -, -, ht, -, -, -, -⟩ | ⟨sel', -, -, hset⟩ | ⟨-, -, -, hown', -, -⟩
    · cases hspec.symm.trans ht
    · obtain rfl : sel = sel' := Except.ok.inj (hsel.symm.trans hset.selector)
      exact hset.labels r hr'
    · obtain ⟨sel', hsel', hnil'⟩ := withoutRoutes_iff.mp hown'
      obtain rfl : sel = sel' := Except.ok.inj (hsel.symm.trans hsel')
      rw [hnil'] at hr'
      cases hr'
  · intro hnew
    by_cases hadded : ∃ r, Added P rib c pi r
    · refine .owned sel hspec hmsg ((settled_addAll hp hsel hadded hnew fun o ho => ?_).status st)
      rw [hnil] at ho
      cases ho
    · have hall := present_of_not_added hadded
      rw [addAll_eq_self_iff.mpr hall]
      exact .there pi hspec hmsg hown htaken hall

/-- A claim that adds routes and has all owner labels changes nothing when it is repeated, exactly if
its new routes keep their labels; and, if it asks for its prefix, it is accepted again. -/
theorem Adds.unchanging_iff (hadds : Adds P s.rib c pi) (hp : OwnerPresent c)
    (h : (claim P c).run (handler P.nipam) s = (.ok c', s')) :
    Unchanging P s'.rib c' ↔
      (∀ r, Added P s.rib c pi r → newLabels P s'.rib c r = r.labels) ∧
        ∀ t, c.spec.pfx = some t → AskedAgain P s.rib s'.rib c pi := by
  have hrun := hadds.claim_eq h
  rw [addRib_run] at hrun
  obtain ⟨hok, rfl⟩ := Prod.mk.inj hrun
  obtain ⟨st, hst⟩ := exists_reported_status P
    (addAll s.rib (getMutatedRoutesWithLabels P.txt c pi)) c (P.txt.prefixString pi)
  have hpfx : c'.status.pfx = some (P.txt.prefixString pi) := by
    rw [← Except.ok.inj hok, reported_pfx]
  obtain rfl : { c with status := st } = c' := hst.symm.trans (Except.ok.inj hok)
  unfold Adds at hadds
  cases hspec : c.spec.pfx with
  | some t =>
    rw [hspec] at hadds
    obtain ⟨hpi, hfree⟩ := hadds
    have hmsg := ((claim_prefix_ok hspec hpi).mp h).1
    rw [lookupPrefix_of_accepted (validateInput_of_msg hmsg)] at hfree
    refine (unchanging_asked_iff hp hspec hpi hfree).trans (and_congr_right' ?_)
    exact ⟨fun hasked _ _ => hasked, fun hasked => hasked t rfl⟩
  | none =>
    rw [hspec] at hadds
    have hmsg := ((claim_dynamic_ok hspec).mp h).1
    refine (unchanging_dynamic_iff hp hspec hmsg hadds.1 (hadds.2.again hpfx)).trans ?_
    exact ⟨fun hnew => ⟨hnew, fun t ht => nomatch ht⟩, And.left⟩

end

/-! ## Updates that are repeated -/

/-- The owner of one route is settled after an update of it. -/
theorem settled_update (hp : OwnerPresent c) (hsel : c.spec.getOwnerSelector P.refuses = .ok sel)
    (hown : P.nipam.getByLabel s.rib sel = [o])
    (hnet : ¬(c.isCreatePrefix = true ∧ c.spec.kind = .network)) (h : Updates P c o s s') :
    Settled P s'.rib c sel := by
  have ho : s.rib.Has o := (P.nipam.mem_getByLabel.mp (hown ▸ List.mem_cons_self (a := o))).1
  have hstored : s'.rib.Has ⟨o.pfx, newLabels P s.rib c o⟩ := h.stored ho
  have hsame : newLabels P s'.rib c ⟨o.pfx, newLabels P s.rib c o⟩ = newLabels P s.rib c o := by
    by_cases haddr : c.spec.kind = .network ∧ o.pfx.isAddressPrefix = true
    · -- nothing is deleted, so the parents are the same
      refine newLabels_congr (o := o) (parentBits_congr fun q _ => ?_)
      cases h with
      | same => rfl
      | set =>
        rw [ExtTreeMap.getElem?_insert]
        split
        next heq =>
          obtain rfl := LawfulEqCmp.eq_of_compare heq
          rw [show s.rib[o.pfx]? = some o.labels from ho]
          rfl
        · rfl
      | clear _ _ hc => exact absurd ⟨hc, haddr.1⟩ hnet
    · exact updatedLabels_of_not P _ _ haddr
  have honly : ∀ r ∈ P.nipam.getByLabel s'.rib sel, r = ⟨o.pfx, newLabels P s.rib c o⟩ := by
    intro r hr
    obtain ⟨hr, hm⟩ := P.nipam.mem_getByLabel.mp hr
    by_cases hpfx : r.pfx = o.pfx
    · exact hr.unique hstored hpfx
    · have hmem := P.nipam.mem_getByLabel.mpr ⟨(h.other hpfx).1 hr, hm⟩
      rw [hown, List.mem_singleton] at hmem
      exact absurd (congrArg Route.pfx hmem) hpfx
  refine ⟨hsel, ?_, .inl ?_, fun r hr => ?_⟩
  · exact List.ne_nil_of_mem
      (P.nipam.mem_getByLabel.mpr ⟨hstored, newLabels_carriesOwner.matches hp hsel⟩)
  · have hsub : P.nipam.getByLabel s'.rib sel ⊆ [⟨o.pfx, newLabels P s.rib c o⟩] :=
      fun r hr => List.mem_singleton.mpr (honly r hr)
    exact (List.subperm_of_subset (P.nipam.nodup_getByLabel _ _) hsub).length_le
  · rw [honly r hr]
    exact hsame

theorem exists_single_update (hmay : MayOwn c os) (hne : os ≠ [])
    (hnet : ¬(c.isCreatePrefix = true ∧ c.spec.kind = .network)) (h : UpdatesAll P c os s s') :
    ∃ o, os = [o] ∧ Updates P c o s s' := by
  have hlen := hmay.resolve_right hnet
  cases h with
  | nil => exact absurd rfl hne
  | @cons o os s t u hstep hrest =>
    obtain rfl : os = [] := List.length_eq_zero_iff.mp (Nat.le_zero.mp (Nat.le_of_succ_le_succ hlen))
    cases hrest
    exact ⟨o, rfl, hstep⟩

/-- A claim that adds no routes has updated those of its owner. -/
theorem updates_of_not_adds (hno : ∀ pi, ¬Adds P s.rib c pi)
    (h : (claim P c).run (handler P.nipam) s = (.ok c', s')) :
    ∃ sel, c.spec.getOwnerSelector P.refuses = .ok sel ∧ P.nipam.getByLabel s.rib sel ≠ [] ∧
      MayOwn c (P.nipam.getByLabel s.rib sel) ∧
      UpdatesAll P c (P.nipam.getByLabel s.rib sel) s s' := by
  cases hspec : c.spec.pfx with
  | some t =>
    obtain ⟨pi, hpi⟩ := claim_parses hspec h
    obtain ⟨-, happ⟩ := (claim_prefix_ok hspec hpi).mp h
    rcases applyPrefix_ok happ with ⟨hfree, -⟩ | ⟨-, sel, hsel, hne, hmay, hall, -⟩
    · refine absurd ?_ (hno pi)
      unfold Adds
      rw [hspec]
      exact ⟨hpi, hfree⟩
    · exact ⟨sel, hsel, hne, hmay, hall⟩
  | none =>
    obtain ⟨-, happ⟩ := (claim_dynamic_ok hspec).mp h
    obtain ⟨sel, hsel, -, ⟨hnil, -⟩ | ⟨hne, hmay, hall⟩⟩ := applyDynamic_cases happ
    · have hown : WithoutRoutes P s.rib c := withoutRoutes_iff.mpr ⟨sel, hsel, hnil⟩
      obtain ⟨pi, -, htaken⟩ := (applyDynamic_new_ok hown).mp happ
      refine absurd ?_ (hno pi)
      unfold Adds
      rw [hspec]
      exact ⟨hown, htaken⟩
    · exact ⟨sel, hsel, hne, hmay, hall⟩

/-- A claim that updates the one route of its owner changes nothing when it is repeated, if it is
accepted again. -/
theorem unchanging_update_iff (hp : OwnerPresent c)
    (hnet : ¬(c.isCreatePrefix = true ∧ c.spec.kind = .network)) (hno : ∀ pi, ¬Adds P s.rib c pi)
    (h : (claim P c).run (handler P.nipam) s = (.ok c', s')) :
    Unchanging P s'.rib c' ↔ ∀ t pi, c.spec.pfx = some t → P.txt.parsePrefix t = .ok pi →
      validateMsg P s'.rib c pi = "" ∧ s'.rib[mainPrefix c pi]?.isSome = true := by
  obtain ⟨sel, hsel, hne, hmay, hall⟩ := updates_of_not_adds hno h
  obtain ⟨o, hown, hup⟩ := exists_single_update hmay hne hnet hall
  have hset := settled_update hp hsel hown hnet hup
  obtain ⟨text, hc'⟩ := claim_reported h
  obtain ⟨st, hst⟩ := exists_reported_status P s'.rib c text
  obtain rfl : { c with status := st } = c' := hst.symm.trans hc'.symm
  constructor
  · rintro (⟨t', pi', -, ht', hpi', hmsg, hmain, -⟩ | ⟨-, hnone, -, -⟩ | ⟨-, hnone, -, -, -, -⟩) t pi
      ht hpi
    · obtain rfl : t = t' := Option.some.inj (ht.symm.trans ht')
      obtain rfl : pi = pi' := Except.ok.inj (hpi.symm.trans hpi')
      exact ⟨hmsg, hmain⟩
    · cases ht.symm.trans hnone
    · cases ht.symm.trans hnone
  · intro hagain
    cases hspec : c.spec.pfx with
    | some t =>
      obtain ⟨pi, hpi⟩ := claim_parses hspec h
      obtain ⟨hmsg, hmain⟩ := hagain t pi hspec hpi
      exact .asked t pi sel hspec hpi hmsg hmain (hset.status st)
    | none => exact .owned sel hspec ((claim_dynamic_ok hspec).mp h).1 (hset.status st)

instance (P : Platform) (rib : Rib) (c : IPClaim) (pi p : Prefix) :
    Decidable (RouteStable P rib c pi p) := by
  unfold RouteStable
  split <;> infer_instance

/-- The table in which the network instance has its aggregate. -/
def instanceRib : RibState := ribAfter .reference [.claim sampleAggregate]

def networkRun : Except Failure IPClaim × RibState :=
  (claim .reference (networkClaim "a")).run (handler .reference) instanceRib

/-- A host that hints at the address of the gateway. -/
def takenHint : IPClaim := (hostClaim "a").setPrefix "10.0.0.1/24"

def takenHintRun : Except Failure IPClaim × RibState :=
  (claim .reference takenHint).run (handler .reference) networkRib

/-- A claim that creates the pool 10.0.0.0/16. -/
def poolClaim (name : String) : IPClaim :=
  sampleClaim ipClaimGVK name .pool (some "10.0.0.0/16") none (some true) none

end K8sIpam.Ipam
