import K8sIpam.Controllers.Selection

/-! # Node diversity

The links of a side with node diversity take endpoints in two slots by turns. An endpoint that the
resource has already is taken wherever it stands, and fixes no node. So the two slots stay on two
different nodes only if no endpoint gets in between: when each link so far has taken the next
endpoint of the node of its slot, the first one that the next link accepts has to be on its node
again. -/

namespace K8sIpam.Interconnect
open Std Atomic K8sIpam.Inv RawTopology

variable {L : Library} {c : Cluster} {cr : LogicalInterconnect L}
  {ep : LogicalInterconnectEndpoint L} {ps : List (String × Endpoint)} {r : Result}

section
variable (ref : CoreRef) (node : Fin 2 → String) (l : List Endpoint)

/-- An endpoint of the node that no other resource has. -/
def usableOn (n : String) (e : Endpoint) : Bool := e.spec.nodeName = n && !e.isAllocated ref

/-- The candidates that are left when each of the first links has taken the next endpoint of the
node of its slot. -/
def left : Nat → List Endpoint
  | 0 => l
  | i + 1 => (left i).eraseP (usableOn ref (node (Fin.ofNat 2 i)))

/-- The endpoint that the link takes if it takes the next one of the node of its slot. -/
def next (i : Nat) : Option Endpoint :=
  (left ref node l i).find? (usableOn ref (node (Fin.ofNat 2 i)))

/-- One of the links before `i` in the slot takes an endpoint that the resource does not have yet. -/
def Fixed (i : Nat) (s : Fin 2) : Prop :=
  ∃ j < i, Fin.ofNat 2 j = s ∧ ∃ e ∈ next ref node l j, e.wasAllocated ref = false

instance (i : Nat) (s : Fin 2) : Decidable (Fixed ref node l i s) :=
  inferInstanceAs (Decidable (∃ j < i, _ ∧ ∃ e ∈ next ref node l j, _))

/-- The nodes that are selected then. -/
def nodesAt (i : Nat) : Nodes := fun s => if Fixed ref node l i s then node s else ""

/-- The first candidate left that link `i` accepts is on the node of its slot. -/
def InTurn (i : Nat) : Prop :=
  ∃ e ∈ (left ref node l i).find? (suits ref true (nodesAt ref node l i) (Fin.ofNat 2 i)),
    e.spec.nodeName = node (Fin.ofNat 2 i)

instance (i : Nat) : Decidable (InTurn ref node l i) :=
  inferInstanceAs (Decidable (∃ e ∈ (left ref node l i).find? _, _))

end

section
variable {ref : CoreRef} {node : Fin 2 → String} {l es : List Endpoint} {i k : Nat} {s : Fin 2}
  {e : Endpoint}

theorem nodesAt_cases (i : Nat) (s : Fin 2) :
    nodesAt ref node l i s = "" ∨ nodesAt ref node l i s = node s := by
  unfold nodesAt
  split
  · exact .inr rfl
  · exact .inl rfl

/-- A link accepts every usable endpoint on the node of its slot. -/
theorem suits_of_usableOn (hne : node 0 ≠ node 1) (h : usableOn ref (node s) e = true) :
    suits ref true (nodesAt ref node l i) s e = true := by
  obtain ⟨hnode, hfree⟩ := Bool.and_eq_true_iff.mp h
  have hnode : e.spec.nodeName = node s := of_decide_eq_true hnode
  unfold suits
  split
  · rfl
  · split
    next hset =>
      rw [(nodesAt_cases i s).resolve_left hset, hnode, hfree]
      simp
    next hopen =>
      rw [if_pos rfl, Bool.and_eq_true_iff]
      refine ⟨decide_eq_true ?_, hfree⟩
      rintro j ⟨hj, hset, heq⟩
      rw [(nodesAt_cases i j).resolve_left hset, hnode] at heq
      have hall : ∀ j s : Fin 2, j ≠ s → node j ≠ node s := by
        simp only [Fin.forall_fin_two]
        exact ⟨⟨fun h => absurd rfl h, fun _ => hne⟩, fun _ => hne.symm, fun h => absurd rfl h⟩
      exact hall j s hj heq

/-- If the link accepts an endpoint on its node first, this is the next one of the node. -/
theorem next_of_find? (hne : node 0 ≠ node 1)
    (h : (left ref node l i).find? (suits ref true (nodesAt ref node l i) (Fin.ofNat 2 i)) = some e)
    (he : e.spec.nodeName = node (Fin.ofNat 2 i)) :
    next ref node l i = some e ∧
      (left ref node l i).eraseP (suits ref true (nodesAt ref node l i) (Fin.ofNat 2 i)) =
        left ref node l (i + 1) := by
  have husable : usableOn ref (node (Fin.ofNat 2 i)) e = true := by
    rw [usableOn, he, not_isAllocated_of_suits (List.find?_some h)]
    simp
  obtain ⟨hfind, herase⟩ :=
    FirstFit.find?_eq_of_first (fun _ _ => suits_of_usableOn hne) h husable
  exact ⟨hfind, herase.symm⟩

theorem fixed_succ (h : next ref node l i = some e) :
    Fixed ref node l (i + 1) s ↔
      Fixed ref node l i s ∨ Fin.ofNat 2 i = s ∧ e.wasAllocated ref = false := by
  constructor
  · rintro ⟨j, hj, hs, e', he', hown⟩
    rcases Nat.lt_succ_iff_lt_or_eq.mp hj with hj | rfl
    · exact .inl ⟨j, hj, hs, e', he', hown⟩
    · cases he'.symm.trans h
      exact .inr ⟨hs, hown⟩
  · rintro (⟨j, hj, hs⟩ | ⟨hs, hown⟩)
    · exact ⟨j, Nat.lt_succ_of_lt hj, hs⟩
    · exact ⟨i, Nat.lt_succ_self i, hs, e, h, hown⟩

/-- The selected nodes after the link has taken the next endpoint of its node. -/
theorem nodesAfter_nodesAt (h : next ref node l i = some e)
    (he : e.spec.nodeName = node (Fin.ofNat 2 i)) :
    nodesAfter ref (nodesAt ref node l i) (Fin.ofNat 2 i) e = nodesAt ref node l (i + 1) := by
  funext s
  have hnext : nodesAt ref node l (i + 1) s = if Fixed ref node l i s ∨
      Fin.ofNat 2 i = s ∧ e.wasAllocated ref = false then node s else "" :=
    if_congr (fixed_succ h) rfl rfl
  rw [hnext]
  unfold nodesAfter
  split
  next hown => simp [hown, nodesAt]
  next hnew =>
    rw [Bool.not_eq_true] at hnew
    by_cases hs : s = Fin.ofNat 2 i
    · subst hs
      have hfixed : Fixed ref node l i (Fin.ofNat 2 i) ∨
          Fin.ofNat 2 i = Fin.ofNat 2 i ∧ e.wasAllocated ref = false := .inr ⟨rfl, hnew⟩
      rw [if_pos hfixed]
      split
      next hset => exact (nodesAt_cases i _).resolve_left hset
      · rw [Function.update_self, he]
    · have hiff : (Fixed ref node l i s ∨ Fin.ofNat 2 i = s ∧ e.wasAllocated ref = false) ↔
          Fixed ref node l i s := or_iff_left fun h => hs h.1.symm
      rw [if_congr hiff rfl rfl]
      split
      · rfl
      · rw [Function.update_of_ne hs]
        rfl

/-- The links from `i` on are on the nodes of their slots exactly if each finds an endpoint of its
node first. -/
theorem takeAll_inTurn_iff (hne : node 0 ≠ node 1)
    (h : FirstFit.takeAll (suits ref true) (nodesAfter ref) ((List.range' i k).map (Fin.ofNat 2))
      (nodesAt ref node l i) (left ref node l i) = some es) :
    List.Forall₂ (fun j e => e.spec.nodeName = node (Fin.ofNat 2 j)) (List.range' i k) es ↔
      ∀ j, i ≤ j → j < i + k → InTurn ref node l j := by
  induction k generalizing i es with
  | zero =>
    cases h
    exact iff_of_true .nil fun j hij hj => absurd hj (Nat.not_lt.mpr hij)
  | succ k ih =>
    rw [List.range'_succ, List.map_cons] at h
    obtain ⟨e, es, hfind, hrest, rfl⟩ := FirstFit.takeAll_cons.mp h
    have hturn : InTurn ref node l i ↔ e.spec.nodeName = node (Fin.ofNat 2 i) := by
      unfold InTurn
      rw [hfind]
      exact ⟨fun ⟨_, he, hnode⟩ => Option.some.inj he ▸ hnode, fun hnode => ⟨e, rfl, hnode⟩⟩
    rw [List.range'_succ, List.forall₂_cons]
    constructor
    · rintro ⟨hnode, hall⟩ j hij hj
      obtain ⟨hnext, herase⟩ := next_of_find? hne hfind hnode
      rw [nodesAfter_nodesAt hnext hnode, herase] at hrest
      rcases Nat.eq_or_lt_of_le hij with rfl | hlt
      · exact hturn.mpr hnode
      · exact (ih hrest).mp hall j hlt (by omega)
    · intro hall
      have hnode := hturn.mp (hall i (Nat.le_refl i) (by omega))
      obtain ⟨hnext, herase⟩ := next_of_find? hne hfind hnode
      rw [nodesAfter_nodesAt hnext hnode, herase] at hrest
      exact ⟨hnode, (ih hrest).mpr fun j hij hj => hall j (by omega) (by omega)⟩

end

/-! ## The nodes of a side -/

/-- With an arbitrary second node for a single link, the two nodes are always different. -/
theorem alternates_iff {nodes : List String} : Alternates nodes ↔
    ∃ node : Fin 2 → String, node 0 ≠ node 1 ∧
      ∀ i n, nodes[i]? = some n → n = node (Fin.ofNat 2 i) := by
  have hslot : ∀ (node : Fin 2 → String) (i : Nat),
      node (Fin.ofNat 2 i) = if i % 2 = 0 then node 0 else node 1 := by
    intro node i
    rcases Nat.mod_two_eq_zero_or_one i with hi | hi
    · rw [if_pos hi]
      exact congrArg node (Fin.ext hi)
    · rw [if_neg (by omega)]
      exact congrArg node (Fin.ext hi)
  constructor
  · rintro ⟨even, odd, hnode, hne⟩
    by_cases hlen : 2 ≤ nodes.length
    · refine ⟨![even, odd], hne hlen, fun i n hn => ?_⟩
      rw [hslot ![even, odd]]
      exact hnode i n hn
    · refine ⟨![even, even.push '+'], fun heq => ?_, fun i n hn => ?_⟩
      · have hlength : even.length = (even.push '+').length := congrArg String.length heq
        simp at hlength
      · have hi := (List.getElem?_eq_some_iff.mp hn).1
        obtain rfl : i = 0 := by omega
        exact hnode 0 n hn
  · rintro ⟨node, hne, hnode⟩
    exact ⟨node 0, node 1, fun i n hn => hslot node i ▸ hnode i n hn, fun _ => hne⟩

theorem SidePicks.alternates_iff (h : SidePicks c cr ep ps) (hdiv : ep.diversity = true) {t : String}
    (ht : ep.topologies = [t]) : Alternates (ps.map fun p => p.2.spec.nodeName) ↔
      ∃ node : Fin 2 → String, node 0 ≠ node 1 ∧ ∀ i < cr.links.toNat,
        InTurn cr.ref node (candidates L c t ep.selector) i := by
  rw [Interconnect.alternates_iff]
  refine exists_congr fun node => and_congr_right fun hne => ?_
  have hrun := h.takeAll hdiv ht
  rw [List.range_eq_range'] at hrun
  have hstart : (fun _ => "" : Nodes) = nodesAt cr.ref node (candidates L c t ep.selector) 0 := by
    funext s
    exact (if_neg fun ⟨_, hj, _⟩ => absurd hj (Nat.not_lt_zero _)).symm
  rw [hstart] at hrun
  have hturns := takeAll_inTurn_iff (i := 0) hne hrun
  rw [Nat.zero_add] at hturns
  have hindexed : List.Forall₂ (fun j e => e.spec.nodeName = node (Fin.ofNat 2 j))
      (List.range' 0 cr.links.toNat) (ps.map Prod.snd) ↔
      ∀ i n, (ps.map fun p => p.2.spec.nodeName)[i]? = some n → n = node (Fin.ofNat 2 i) := by
    rw [List.forall₂_iff_get]
    constructor
    · rintro ⟨-, hall⟩ i n hn
      rw [List.getElem?_map, Option.map_eq_some_iff] at hn
      obtain ⟨p, hp, rfl⟩ := hn
      obtain ⟨hlt, rfl⟩ := List.getElem?_eq_some_iff.mp hp
      simpa using hall i (by simpa [h.length] using hlt) (by simpa using hlt)
    · intro hall
      refine ⟨by simp [h.length], fun i hi hi' => ?_⟩
      have hlt : i < ps.length := by simpa using hi'
      simpa using hall i _ (by rw [List.getElem?_map, List.getElem?_eq_getElem hlt]; rfl)
  rw [← hindexed, hturns]
  exact ⟨fun hall i hi => hall i (Nat.zero_le i) hi, fun hall i _ hi => hall i hi⟩

/-- The resource had one link, on the first node, and gets two more. -/
def growingCluster : Cluster where
  endpoints := [sampleEndpoint "a" "n1" "e1" (some sampleRef), sampleEndpoint "a" "n2" "e2" none,
    sampleEndpoint "a" "n1" "e3" none, sampleEndpoint "b" "n3" "e1" none,
    sampleEndpoint "b" "n3" "e2" none, sampleEndpoint "b" "n3" "e3" none]
  nodup := by decide +kernel
  listErr _ := none

def sampleGrowing : LogicalInterconnect referenceLibrary :=
  sampleInterconnect 3 (sampleSide "a" (some 2)) (sampleSide "b" none)

def growingResult : Result :=
  resultOf sampleGrowing (sampleSide "a" (some 2)) (sampleSide "b" none)
    [("a", sampleEndpoint "a" "n1" "e1" (some sampleRef)), ("a", sampleEndpoint "a" "n2" "e2" none),
      ("a", sampleEndpoint "a" "n1" "e3" none)]
    [("b", sampleEndpoint "b" "n3" "e1" none), ("b", sampleEndpoint "b" "n3" "e2" none),
      ("b", sampleEndpoint "b" "n3" "e3" none)]

/-- One node for two links does not alternate. -/
theorem not_alternates_replicate {n : Nat} (hn : 2 ≤ n) (node : String) :
    ¬Alternates (List.replicate n node) := by
  rintro ⟨even, odd, hnode, hne⟩
  have heven := hnode 0 node (by rw [List.getElem?_replicate, if_pos (by omega)])
  have hodd := hnode 1 node (by rw [List.getElem?_replicate, if_pos (by omega)])
  exact hne (by simpa using hn) (heven.symm.trans hodd)

/-- The first link has an endpoint already, and the second one is new. -/
def grownCluster : Cluster where
  endpoints := [sampleEndpoint "a" "n1" "e1" (some sampleRef), sampleEndpoint "a" "n1" "e2" none,
    sampleEndpoint "a" "n2" "e3" none, sampleEndpoint "b" "n3" "e1" none,
    sampleEndpoint "b" "n3" "e2" none]
  nodup := by decide +kernel
  listErr _ := none

end K8sIpam.Interconnect
