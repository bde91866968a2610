import K8sIpam.Controllers.Selector

/-! # What a selection guarantees

Within a side no endpoint is selected twice, but the two sides do not look at each other. The
selected nodes are kept for the endpoints that a side newly takes, and not for those that the
resource has already. -/

namespace K8sIpam.Interconnect
open Std Atomic K8sIpam.Inv RawTopology

variable {L : Library} {c : Cluster} {cr : LogicalInterconnect L}
  {ep ep₀ ep₁ : LogicalInterconnectEndpoint L} {ps ps₀ ps₁ : List (String × Endpoint)} {r : Result}

/-! ## Each endpoint once -/

/-- No endpoint is selected twice. -/
def Distinct (r : Result) : Prop := (r.endpoints.map Endpoint.key).Nodup

instance (r : Result) : Decidable (Distinct r) := inferInstanceAs (Decidable (List.Nodup _))

/-- Some link of the side may take an endpoint with these labels. -/
def Offers (cr : LogicalInterconnect L) (ep : LogicalInterconnectEndpoint L) (l : Labels) : Prop :=
  (∃ i < cr.links.toNat, ∃ t, ep.topology i = some t ∧ l[nephioTopologyKey]? = some t) ∧
    L.selects ep.selector l = true

/-- An endpoint that both sides may take. -/
def Shared (cr : LogicalInterconnect L) (e : Endpoint) : Prop :=
  e.isAllocated cr.ref = false ∧ ∀ ep ∈ cr.endpoints, Offers cr ep e.labels

theorem SidePicks.mem_cluster (h : SidePicks c cr ep ps) {p : String × Endpoint} (hp : p ∈ ps) :
    p.2 ∈ c.endpoints ∧ p.2.labels[nephioTopologyKey]? = some p.1 := by
  obtain ⟨hc, hlabel, -⟩ := mem_candidates (h.mem hp).2.1
  exact ⟨hc, hlabel⟩

theorem SidePicks.offers (h : SidePicks c cr ep ps) {p : String × Endpoint} (hp : p ∈ ps) :
    Offers cr ep p.2.labels := by
  obtain ⟨-, hlabel, hsel⟩ := mem_candidates (h.mem hp).2.1
  refine ⟨?_, hsel⟩
  have htop : some p.1 ∈ (List.range cr.links.toNat).map ep.topology := by
    rw [(picks_eq_ok.mp h.picks).1]
    exact List.mem_map_of_mem hp
  obtain ⟨i, hi, hti⟩ := List.mem_map.mp htop
  exact ⟨i, List.mem_range.mp hi, p.1, hti, hlabel⟩

/-- Picks are different when those of each topology are. -/
theorem nodup_of_picked (hpicked : ∀ t, ((picked t ps).map Endpoint.key).Nodup)
    (htop : ∀ p ∈ ps, ∀ q ∈ ps, p.2.key = q.2.key → p.1 = q.1) :
    (ps.map fun p => p.2.key).Nodup := by
  induction ps with
  | nil => exact List.nodup_nil
  | cons p ps ih =>
    have hcons : ∀ t, (picked t ps).Sublist (picked t (p :: ps)) := fun t =>
      ((List.sublist_cons_self p ps).filter _).map _
    refine List.nodup_cons.mpr ⟨fun hmem => ?_, ih (fun t => (hpicked t).sublist ((hcons t).map _))
      fun a ha b hb => htop a (List.mem_cons_of_mem p ha) b (List.mem_cons_of_mem p hb)⟩
    obtain ⟨q, hq, hkey⟩ := List.mem_map.mp hmem
    have ht := htop q (List.mem_cons_of_mem p hq) p List.mem_cons_self hkey
    have hnodup := hpicked p.1
    rw [picked_cons, if_pos rfl, List.map_cons, List.nodup_cons] at hnodup
    refine hnodup.1 (List.mem_map.mpr ⟨q.2, ?_, hkey⟩)
    rw [← ht]
    exact mem_picked hq

theorem SidePicks.nodup (h : SidePicks c cr ep ps) : (ps.map fun p => p.2.key).Nodup := by
  refine nodup_of_picked (fun t => ?_) fun p hp q hq hkey => ?_
  · obtain ⟨es, hperm, hsub⟩ := FirstFit.subperm_of_takeAll (h.taken t)
    have hpool : ((sidePools c ep t).endpoints.map Endpoint.key).Nodup := by
      unfold sidePools
      split
      · exact nodup_candidates
      · exact List.nodup_nil
    exact (hperm.map _).nodup_iff.mp (hpool.sublist (hsub.map _))
  · obtain ⟨hp, hlp⟩ := h.mem_cluster hp
    obtain ⟨hq, hlq⟩ := h.mem_cluster hq
    rw [eq_of_key_eq c.nodup hp hq hkey, hlq] at hlp
    exact (Option.some.inj hlp).symm

/-- A selection takes each endpoint once, or there is an endpoint that both sides may take. -/
theorem distinct_or_shared (h : selectEndpoints c cr = .ok r) :
    Distinct r ∨ ∃ e ∈ c.endpoints, Shared cr e := by
  obtain ⟨ep₀, ep₁, ps₀, ps₁, hsides, hps₀, hps₁, rfl⟩ := exists_sidePicks h
  by_cases hdisjoint : (ps₀.map fun p => p.2.key).Disjoint (ps₁.map fun p => p.2.key)
  · left
    unfold Distinct resultOf
    rw [List.map_append, List.map_map, List.map_map]
    exact List.nodup_append'.mpr ⟨hps₀.nodup, hps₁.nodup, hdisjoint⟩
  · right
    simp only [List.Disjoint, not_forall, not_false_eq_true, exists_prop, and_true] at hdisjoint
    obtain ⟨key, hkey₀, hkey₁⟩ := hdisjoint
    obtain ⟨p, hp, rfl⟩ := List.mem_map.mp hkey₀
    obtain ⟨q, hq, hkey⟩ := List.mem_map.mp hkey₁
    have heq := eq_of_key_eq c.nodup (hps₁.mem_cluster hq).1 (hps₀.mem_cluster hp).1 hkey
    refine ⟨p.2, (hps₀.mem_cluster hp).1, (hps₀.mem hp).2.2, ?_⟩
    rw [hsides]
    refine List.forall_mem_cons.mpr ⟨hps₀.offers hp, List.forall_mem_cons.mpr ⟨?_, by simp⟩⟩
    rw [← heq]
    exact hps₁.offers hq

/-! ## Node diversity -/

/-- The nodes of a side, link by link. -/
def Result.sideNodes (r : Result) (epIdx : Nat) : List String :=
  r.linkSpecs.map fun l => ((l.endpoints[epIdx]?).map LinkEndpointSpec.nodeName).getD ""

/-- The links with an even index are on one node and those with an odd index are on one node; with
two links these are different. -/
def Alternates (nodes : List String) : Prop :=
  ∃ even odd, (∀ i n, nodes[i]? = some n → n = if i % 2 = 0 then even else odd) ∧
    (2 ≤ nodes.length → even ≠ odd)

/-- The candidates of a side are not claimed by the resource, and the free ones have a node. -/
def Fresh (c : Cluster) (cr : LogicalInterconnect L) (ep : LogicalInterconnectEndpoint L) : Prop :=
  ∀ t ∈ ep.topologies, ∀ e ∈ candidates L c t ep.selector,
    e.wasAllocated cr.ref = false ∧ (e.isAllocated cr.ref = false → e.spec.nodeName ≠ "")

/-- Two selected nodes are different. -/
def Different (nodes : Nodes) : Prop := nodes 0 ≠ "" → nodes 1 ≠ "" → nodes 0 ≠ nodes 1

theorem different_iff {nodes : Nodes} : Different nodes ↔
    ∀ i j : Fin 2, i ≠ j → nodes i ≠ "" → nodes j ≠ "" → nodes i ≠ nodes j := by
  unfold Different
  simp only [Fin.forall_fin_two]
  constructor
  · intro h
    exact ⟨⟨fun hne => absurd rfl hne, fun _ => h⟩,
      fun _ h₁ h₀ => (h h₀ h₁).symm, fun hne => absurd rfl hne⟩
  · intro h
    exact h.1.2 (by decide)

section
variable {cr : CoreRef} {nodes : Nodes} {idx : Fin 2} {tep : Endpoint}

/-- A new endpoint is on the node that is then selected in its slot, the nodes that were selected
before stay, and the two slots stay different. -/
theorem nodesAfter_spec (hsuits : suits cr true nodes idx tep = true)
    (hwas : tep.wasAllocated cr = false) (hnodes : Different nodes) :
    nodesAfter cr nodes idx tep idx = tep.spec.nodeName ∧
      (∀ s, nodes s ≠ "" → nodesAfter cr nodes idx tep s = nodes s) ∧
      Different (nodesAfter cr nodes idx tep) := by
  have hno : ¬tep.wasAllocated cr = true := by simp [hwas]
  unfold suits at hsuits
  unfold nodesAfter
  rw [if_neg hno] at hsuits ⊢
  by_cases hidx : nodes idx ≠ ""
  · rw [if_pos hidx] at hsuits ⊢
    have hnode := (Bool.and_eq_true_iff.mp hsuits).1
    exact ⟨(of_decide_eq_true hnode).symm, fun _ _ => rfl, hnodes⟩
  · rw [if_neg hidx, if_pos rfl] at hsuits
    rw [if_neg hidx]
    have hdiverse := of_decide_eq_true (Bool.and_eq_true_iff.mp hsuits).1
    refine ⟨Function.update_self .., fun s hs => ?_, different_iff.mpr fun i j hij hi hj => ?_⟩
    · have hne : s ≠ idx := by
        rintro rfl
        exact hidx hs
      rw [Function.update_of_ne hne]
    · by_cases hii : i = idx
      · subst hii
        rw [Function.update_self, Function.update_of_ne hij.symm]
        rw [Function.update_of_ne hij.symm] at hj
        exact fun heq => hdiverse j ⟨hij.symm, hj, heq.symm⟩
      · rw [Function.update_of_ne hii] at hi ⊢
        by_cases hjj : j = idx
        · subst hjj
          rw [Function.update_self]
          exact fun heq => hdiverse i ⟨hii, hi, heq⟩
        · rw [Function.update_of_ne hjj] at hj ⊢
          exact different_iff.mp hnodes i j hij hi hj

/-- New endpoints are on the nodes that are selected in the end. -/
theorem takeAll_nodes {idxs : List (Fin 2)} {l es : List Endpoint}
    (hl : ∀ e ∈ l, e.wasAllocated cr = false ∧ (e.isAllocated cr = false → e.spec.nodeName ≠ ""))
    (hnodes : Different nodes)
    (h : FirstFit.takeAll (suits cr true) (nodesAfter cr) idxs nodes l = some es) :
    ∃ final : Nodes, (∀ s, nodes s ≠ "" → final s = nodes s) ∧ Different final ∧
      List.Forall₂ (fun s e => e.spec.nodeName = final s ∧ final s ≠ "") idxs es := by
  induction idxs generalizing nodes l es with
  | nil =>
    cases h
    exact ⟨nodes, fun _ _ => rfl, hnodes, .nil⟩
  | cons idx idxs ih =>
    obtain ⟨e, es', hfind, hrest, rfl⟩ := FirstFit.takeAll_cons.mp h
    have hsuits := List.find?_some hfind
    obtain ⟨hwas, hnamed⟩ := hl e (List.mem_of_find?_eq_some hfind)
    have hname := hnamed (not_isAllocated_of_suits hsuits)
    obtain ⟨hself, hkeep, hdiff⟩ := nodesAfter_spec hsuits hwas hnodes
    obtain ⟨final, hfinal, hdifferent, hall⟩ :=
      ih (fun e he => hl e (List.mem_of_mem_eraseP he)) hdiff hrest
    have hslot : final idx = e.spec.nodeName := by
      rw [hfinal idx (hself ▸ hname), hself]
    refine ⟨final, fun s hs => ?_, hdifferent, .cons ⟨hslot.symm, hslot ▸ hname⟩ hall⟩
    rw [hfinal s (by rw [hkeep s hs]; exact hs), hkeep s hs]

end

theorem sideNodes_resultOf (cr : LogicalInterconnect L) (ep₀ ep₁ : LogicalInterconnectEndpoint L)
    (h : ps₀.length = ps₁.length) :
    (resultOf cr ep₀ ep₁ ps₀ ps₁).sideNodes 0 = ps₀.map (fun p => p.2.spec.nodeName) ∧
      (resultOf cr ep₀ ep₁ ps₀ ps₁).sideNodes 1 = ps₁.map fun p => p.2.spec.nodeName := by
  unfold Result.sideNodes resultOf
  dsimp only
  induction ps₀ generalizing ps₁ with
  | nil =>
    cases List.length_eq_zero_iff.mp h.symm
    exact ⟨rfl, rfl⟩
  | cons p ps₀ ih =>
    obtain _ | ⟨q, ps₁⟩ := ps₁
    · cases h
    · obtain ⟨h₀, h₁⟩ := ih (Nat.succ.inj h)
      simp only [List.zipWith_cons_cons, List.map_cons, h₀, h₁]
      exact ⟨rfl, rfl⟩

/-- A side with one topology that asks for diversity. -/
theorem diversity_topologies (h : ep.diversity = true) : ∃ t, ep.topologies = [t] :=
  List.length_eq_one_iff.mp (of_decide_eq_true h).1

/-- The links of such a side take from the candidates of its topology, in the two slots by turns. -/
theorem SidePicks.takeAll (h : SidePicks c cr ep ps) (hdiv : ep.diversity = true) {t : String}
    (ht : ep.topologies = [t]) :
    FirstFit.takeAll (suits cr.ref true) (nodesAfter cr.ref)
      ((List.range cr.links.toNat).map (Fin.ofNat 2)) (fun _ => "") (candidates L c t ep.selector) =
        some (ps.map Prod.snd) := by
  have htop : ∀ i, ep.topology i = some t := fun i => by
    rw [LogicalInterconnectEndpoint.topology, ht, List.length_singleton, Nat.mod_one]
    rfl
  have hslots : slots ep t (List.range cr.links.toNat) =
      (List.range cr.links.toNat).map (Fin.ofNat 2) := by
    unfold slots
    rw [List.filter_eq_self.mpr fun i _ => decide_eq_true (htop i)]
    refine List.map_congr_left fun i _ => ?_
    rw [LogicalInterconnectEndpoint.selectedNodeIdx, ht, if_pos List.length_singleton]
  have hpicked : picked t ps = ps.map Prod.snd := by
    unfold picked
    rw [List.filter_eq_self.mpr fun p hp => ?_]
    have hmem := (h.mem hp).1
    rw [ht, List.mem_singleton] at hmem
    exact decide_eq_true hmem
  have hmem : t ∈ ep.topologies := by rw [ht]; exact List.mem_singleton_self t
  have htakes := h.taken t
  rwa [hslots, hpicked, sidePools_of_mem hmem, takes, hdiv] at htakes

theorem SidePicks.alternates (h : SidePicks c cr ep ps) (hdiv : ep.diversity = true)
    (hfresh : Fresh c cr ep) : Alternates (ps.map fun p => p.2.spec.nodeName) := by
  obtain ⟨t, ht⟩ := diversity_topologies hdiv
  have hmem : t ∈ ep.topologies := by rw [ht]; exact List.mem_singleton_self t
  obtain ⟨final, -, hdiff, hall⟩ :=
    takeAll_nodes (hfresh t hmem) (fun h => absurd rfl h) (h.takeAll hdiv ht)
  have hnode : ∀ i n, (ps.map fun p => p.2.spec.nodeName)[i]? = some n →
      n = final (Fin.ofNat 2 i) ∧ final (Fin.ofNat 2 i) ≠ "" := by
    intro i n hn
    rw [List.getElem?_map, Option.map_eq_some_iff] at hn
    obtain ⟨p, hp, rfl⟩ := hn
    have hi : i < cr.links.toNat := by
      rw [← h.length]
      exact (List.getElem?_eq_some_iff.mp hp).1
    have hget := (List.forall₂_iff_get.mp hall).2 i (by simpa using hi)
      (by rw [List.length_map, h.length]; exact hi)
    obtain ⟨hlt, rfl⟩ := List.getElem?_eq_some_iff.mp hp
    simpa using hget
  refine ⟨final 0, final 1, fun i n hn => ?_, fun hlen => ?_⟩
  · rw [(hnode i n hn).1]
    rcases Nat.mod_two_eq_zero_or_one i with hi | hi
    · rw [if_pos hi]
      congr 1
      exact Fin.ext hi
    · rw [if_neg (by omega)]
      congr 1
      exact Fin.ext hi
  · have h₀ := (hnode 0 _ (List.getElem?_eq_getElem (by omega))).2
    have h₁ := (hnode 1 _ (List.getElem?_eq_getElem (by omega))).2
    exact hdiff h₀ h₁

/-- The nodes of a side are those of its picks. -/
theorem exists_sideNodes (h : selectEndpoints c cr = .ok r) {epIdx : Nat}
    (hep : cr.endpoints[epIdx]? = some ep) :
    ∃ ps, SidePicks c cr ep ps ∧ r.sideNodes epIdx = ps.map fun p => p.2.spec.nodeName := by
  obtain ⟨ep₀, ep₁, ps₀, ps₁, hsides, hps₀, hps₁, rfl⟩ := exists_sidePicks h
  obtain ⟨hn₀, hn₁⟩ := sideNodes_resultOf cr ep₀ ep₁ (hps₀.length.trans hps₁.length.symm)
  rw [hsides] at hep
  match epIdx, hep with
  | 0, hep =>
    cases hep
    exact ⟨ps₀, hps₀, hn₀⟩
  | 1, hep =>
    cases hep
    exact ⟨ps₁, hps₁, hn₁⟩

/-! ## Interconnects that have their endpoints already

Endpoints that the resource has suit every link. With enough of them in every topology a selection
always succeeds, whatever the selectors, the sort and the policy are. -/

/-- For each topology of each side there are labels that the side selects. -/
def Satisfiable (cr : LogicalInterconnect L) : Prop :=
  ∀ ep ∈ cr.endpoints, ep.topologies ≠ [] ∧ ∀ t ∈ ep.topologies,
    ∃ l : Labels, l[nephioTopologyKey]? = some t ∧ L.selects ep.selector l = true

theorem SidePicks.satisfiable (h : SidePicks c cr ep ps) (hlinks : 0 < cr.links.toNat) :
    ep.topologies ≠ [] ∧ ∀ t ∈ ep.topologies,
      ∃ l : Labels, l[nephioTopologyKey]? = some t ∧ L.selects ep.selector l = true := by
  refine ⟨fun hnil => ?_, fun t ht => ?_⟩
  · obtain ⟨p, hp⟩ := List.exists_mem_of_length_pos (h.length ▸ hlinks)
    have hmem := (h.mem hp).1
    rw [hnil] at hmem
    cases hmem
  · obtain ⟨e, he⟩ := List.exists_mem_of_ne_nil _ (h.offered t ht)
    obtain ⟨-, hlabel, hsel⟩ := mem_candidates he
    exact ⟨e.labels, hlabel, hsel⟩

theorem satisfiable_of_selectEndpoints (h : selectEndpoints c cr = .ok r)
    (hlinks : 0 < cr.links.toNat) : Satisfiable cr := by
  obtain ⟨ep₀, ep₁, ps₀, ps₁, hsides, hps₀, hps₁, rfl⟩ := exists_sidePicks h
  unfold Satisfiable
  rw [hsides, List.forall_mem_cons, List.forall_mem_singleton]
  exact ⟨hps₀.satisfiable hlinks, hps₁.satisfiable hlinks⟩

/-- An endpoint that a resource has, with a number in its name. All are on one node. -/
def ownEndpoint (ref : CoreRef) (l : Labels) (n : Nat) : Endpoint where
  ns := ""
  name := String.ofList (List.replicate n 'x')
  labels := l
  spec := ⟨"", "node", none⟩
  claimRef := some ref

theorem ownEndpoint_name_injective : Function.Injective fun n : Nat =>
    String.ofList (List.replicate n 'x') := by
  intro m n h
  have hlen := congrArg List.length (String.ofList_inj.mp h)
  simpa using hlen

theorem nodup_map_zipIdx {α β : Type} (l : List α) {f : α × Nat → β}
    (hf : ∀ a b, f a = f b → a.2 = b.2) : (l.zipIdx.map f).Nodup := by
  have hnodup : (l.zipIdx.map Prod.snd).Nodup := by
    rw [List.zipIdx_map_snd]
    exact List.nodup_range'
  exact List.pairwise_map.mpr ((List.pairwise_map.mp hnodup).imp fun hne heq => hne (hf _ _ heq))

/-- So many endpoints with each of the labels. -/
def ownCluster (ref : CoreRef) (n : Nat) (ls : List Labels) : Cluster where
  endpoints := (ls.flatMap (List.replicate n)).zipIdx.map fun li => ownEndpoint ref li.1 li.2
  nodup := by
    rw [List.map_map]
    exact nodup_map_zipIdx _ fun a b h => ownEndpoint_name_injective (Prod.mk.inj h).2
  listErr _ := none

section
variable {ref : CoreRef} {n : Nat} {ls : List Labels} {l : Labels} {t : String}
  {sel : Option L.Sel} {e : Endpoint}

theorem mem_ownCluster (h : e ∈ (ownCluster ref n ls).endpoints) :
    e.labels ∈ ls ∧ e.wasAllocated ref = true ∧ e.spec.nodeName = "node" := by
  obtain ⟨li, hli, rfl⟩ := List.mem_map.mp h
  obtain ⟨l, hl, hrep⟩ := List.mem_flatMap.mp (List.fst_mem_of_mem_zipIdx hli)
  refine ⟨?_, Endpoint.wasAllocated_iff.mpr rfl, rfl⟩
  rw [show (ownEndpoint ref li.1 li.2).labels = l from List.eq_of_mem_replicate hrep]
  exact hl

/-- Objects with different names are all kept. -/
theorem unique_eq_self {seen : List String} {es : List Endpoint}
    (hnodup : (es.map Endpoint.namespacedName).Nodup)
    (hseen : ∀ e ∈ es, e.namespacedName ∉ seen) : unique seen es = es := by
  induction es generalizing seen with
  | nil => rfl
  | cons e es ih =>
    obtain ⟨hnew, hnodup⟩ := List.nodup_cons.mp hnodup
    rw [unique, if_neg (hseen e List.mem_cons_self), ih hnodup]
    intro e' he' hmem
    rcases List.mem_cons.mp hmem with heq | hmem
    · exact hnew (heq ▸ List.mem_map_of_mem he')
    · exact hseen e' (List.mem_cons_of_mem e he') hmem

theorem le_length_candidates (hl : l ∈ ls) (ht : l[nephioTopologyKey]? = some t)
    (hsel : L.selects sel l = true) : n ≤ (candidates L (ownCluster ref n ls) t sel).length := by
  have hnames : ((ownCluster ref n ls).endpoints.map Endpoint.namespacedName).Nodup := by
    unfold ownCluster
    rw [List.map_map]
    refine nodup_map_zipIdx _ fun a b h => ownEndpoint_name_injective ?_
    simpa [Endpoint.namespacedName, ownEndpoint, String.append_right_inj] using h
  have hsub := List.Sublist.trans (List.filter_sublist (p := fun e : Endpoint =>
    L.selects sel e.labels)) (List.filter_sublist (l := (ownCluster ref n ls).endpoints)
      (p := fun e => decide (e.labels[nephioTopologyKey]? = some t)))
  unfold candidates
  rw [(L.sort_perm _).length_eq, Cluster.ofTopology, unique_eq_self (hnames.sublist (hsub.map _))
    (by simp), List.filter_filter, ← List.countP_eq_length_filter]
  have hblock : (List.replicate n l).Sublist (ls.flatMap (List.replicate n)) :=
    List.sublist_flatten_of_mem (List.mem_map_of_mem hl)
  calc n = (List.replicate n l).countP fun l =>
        L.selects sel l && decide (l[nephioTopologyKey]? = some t) := by
        rw [List.countP_replicate, if_pos (by simp [hsel, ht])]
    _ ≤ _ := hblock.countP_le
    _ = _ := by
        conv_lhs => rw [← List.zipIdx_map_fst 0 (ls.flatMap (List.replicate n))]
        unfold ownCluster
        rw [List.countP_map, List.countP_map]
        rfl

end

section
variable {ref : CoreRef} {pools : Pools} {links : List Nat}

/-- Endpoints that the resource has are taken from the front. -/
theorem takes_own {idxs : List (Fin 2)} {p : Pool}
    (hown : ∀ e ∈ p.endpoints, e.wasAllocated ref = true)
    (hlen : idxs.length ≤ p.endpoints.length) :
    takes ref ep idxs p = some (p.endpoints.take idxs.length) := by
  induction idxs generalizing p with
  | nil => rfl
  | cons idx idxs ih =>
    obtain ⟨es, nodes⟩ := p
    obtain _ | ⟨e, es⟩ := es
    · cases hlen
    have he := hown e List.mem_cons_self
    have hsuits : suits ref ep.diversity nodes idx e = true := if_pos he
    refine takes_cons.mpr ⟨e, ⟨es, nodes⟩, _, ?_, ih (fun e' he' => hown e' (by simp [he']))
      (Nat.le_of_succ_le_succ hlen), rfl⟩
    unfold Pool.take
    rw [List.find?_cons_of_pos hsuits, List.eraseP_cons_of_pos hsuits, Option.map_some, nodesAfter,
      if_pos he]

theorem picks_own (hne : ep.topologies ≠ [])
    (hown : ∀ t, ∀ e ∈ (pools t).endpoints, e.wasAllocated ref = true)
    (hlen : ∀ t, (slots ep t links).length ≤ (pools t).endpoints.length) :
    ∃ ps, picks ref ep links pools = .ok ps := by
  -- the topologies of the links decide which pools are taken from, and each has enough
  have htop : ∀ i, ∃ t, ep.topology i = some t := fun i =>
    ⟨_, List.getElem?_eq_getElem (Nat.mod_lt i (List.length_pos_iff.mpr hne))⟩
  induction links generalizing pools with
  | nil => exact ⟨[], rfl⟩
  | cons i links ih =>
    obtain ⟨t, ht⟩ := htop i
    have hle := hlen t
    rw [slots_cons, if_pos ht] at hle
    obtain ⟨e, pool, es, htake, hrest, -⟩ := takes_cons.mp (takes_own (hown t) hle)
    have hpick : pickEndpoint ref ep i pools = .ok (t, e, Function.update pools t pool) :=
      pickEndpoint_eq_ok.mpr ⟨ht, pool, htake, rfl⟩
    have hpool : (pools t).endpoints.Perm (e :: pool.endpoints) := by
      obtain ⟨e', hfind, heq⟩ := Option.map_eq_some_iff.mp htake
      cases heq
      exact FirstFit.perm_cons_eraseP hfind
    have hown' : ∀ t', ∀ e' ∈ (Function.update pools t pool t').endpoints,
        e'.wasAllocated ref = true := by
      intro t' e' he'
      by_cases heq : t' = t
      · subst heq
        rw [Function.update_self] at he'
        exact hown t' e' (hpool.mem_iff.mpr (List.mem_cons_of_mem e he'))
      · rw [Function.update_of_ne heq] at he'
        exact hown t' e' he'
    have hlen' : ∀ t', (slots ep t' links).length ≤
        (Function.update pools t pool t').endpoints.length := by
      intro t'
      by_cases heq : t' = t
      · subst heq
        rw [Function.update_self]
        have hcount := hpool.length_eq
        rw [List.length_cons] at hle hcount
        omega
      · rw [Function.update_of_ne heq]
        have hother := hlen t'
        rw [slots_cons, ht, if_neg fun h => heq (Option.some.inj h).symm] at hother
        exact hother
    obtain ⟨ps, hps⟩ := ih hown' hlen'
    exact ⟨_, picks_cons.mpr ⟨t, e, _, ps, hpick, hps, rfl⟩⟩

end

theorem length_slots_le (ep : LogicalInterconnectEndpoint L) (t : String) (n : Nat) :
    (slots ep t (List.range n)).length ≤ n := by
  unfold slots
  rw [List.length_map]
  exact (List.length_filter_le _ _).trans List.length_range.le

/-- No link belongs to another topology. -/
theorem slots_of_not_mem {t : String} (h : t ∉ ep.topologies) (links : List Nat) :
    slots ep t links = [] := by
  unfold slots
  rw [List.map_eq_nil_iff, List.filter_eq_nil_iff]
  intro i _ htop
  exact h (List.mem_of_getElem? (of_decide_eq_true htop))

theorem slots_ne_nil {i n : Nat} {t : String} (hi : i < n) (ht : ep.topology i = some t) :
    slots ep t (List.range n) ≠ [] := by
  unfold slots
  rw [ne_eq, List.map_eq_nil_iff, List.filter_eq_nil_iff]
  exact fun hno => hno i (List.mem_range.mpr hi) (decide_eq_true ht)

/-- Labels that each side selects in its topologies. -/
def Chosen (cr : LogicalInterconnect L) (lab : LogicalInterconnectEndpoint L → String → Labels) :
    Prop :=
  ∀ ep ∈ cr.endpoints, ∀ t ∈ ep.topologies,
    (lab ep t)[nephioTopologyKey]? = some t ∧ L.selects ep.selector (lab ep t) = true

/-- The resource has enough endpoints with the labels that were chosen. -/
def chosenCluster (cr : LogicalInterconnect L)
    (lab : LogicalInterconnectEndpoint L → String → Labels) : Cluster :=
  ownCluster cr.ref cr.links.toNat (cr.endpoints.flatMap fun ep => ep.topologies.map (lab ep))

section
variable {lab : LogicalInterconnectEndpoint L → String → Labels}

theorem mem_chosenCluster {e : Endpoint} (h : e ∈ (chosenCluster cr lab).endpoints) :
    (∃ ep ∈ cr.endpoints, ∃ t ∈ ep.topologies, lab ep t = e.labels) ∧
      e.wasAllocated cr.ref = true ∧ e.spec.nodeName = "node" := by
  obtain ⟨hlabels, hown, hnode⟩ := mem_ownCluster h
  obtain ⟨ep, hep, hlabels⟩ := List.mem_flatMap.mp hlabels
  exact ⟨⟨ep, hep, List.mem_map.mp hlabels⟩, hown, hnode⟩

theorem Chosen.exists_sidePicks (hlab : Chosen cr lab) (hlinks : 0 < cr.links.toNat)
    (hep : ep ∈ cr.endpoints) (hne : ep.topologies ≠ []) :
    ∃ ps, SidePicks (chosenCluster cr lab) cr ep ps := by
  have hmany : ∀ t ∈ ep.topologies,
      cr.links.toNat ≤ (candidates L (chosenCluster cr lab) t ep.selector).length := by
    intro t ht
    obtain ⟨hlabel, hsel⟩ := hlab ep hep t ht
    exact le_length_candidates
      (List.mem_flatMap.mpr ⟨ep, hep, List.mem_map_of_mem ht⟩) hlabel hsel
  have hown : ∀ t, ∀ e ∈ (sidePools (chosenCluster cr lab) ep t).endpoints,
      e.wasAllocated cr.ref = true := by
    intro t e he
    unfold sidePools at he
    split at he
    · exact (mem_chosenCluster (mem_candidates he).1).2.1
    · cases he
  have hlen : ∀ t, (slots ep t (List.range cr.links.toNat)).length ≤
      (sidePools (chosenCluster cr lab) ep t).endpoints.length := by
    intro t
    by_cases ht : t ∈ ep.topologies
    · rw [sidePools_of_mem ht]
      exact (length_slots_le ep t _).trans (hmany t ht)
    · rw [slots_of_not_mem ht]
      exact Nat.zero_le _
  obtain ⟨ps, hps⟩ := picks_own hne hown hlen
  refine ⟨ps, fun t ht hnil => ?_, hps⟩
  have hle := hmany t ht
  rw [hnil] at hle
  exact absurd hlinks (Nat.not_lt.mpr hle)

/-- The selection for an interconnect that has all its endpoints succeeds. -/
theorem Chosen.selectEndpoints_ok (hlab : Chosen cr lab) (hsat : Satisfiable cr)
    (hlinks : 0 < cr.links.toNat) : ∃ r, selectEndpoints (chosenCluster cr lab) cr = .ok r := by
  obtain ⟨ep₀, ep₁, hsides⟩ := List.length_eq_two.mp cr.two
  have hep₀ : ep₀ ∈ cr.endpoints := by simp [hsides]
  have hep₁ : ep₁ ∈ cr.endpoints := by simp [hsides]
  obtain ⟨ps₀, hps₀⟩ := hlab.exists_sidePicks hlinks hep₀ (hsat ep₀ hep₀).1
  obtain ⟨ps₁, hps₁⟩ := hlab.exists_sidePicks hlinks hep₁ (hsat ep₁ hep₁).1
  exact ⟨_, (selectEndpoints_eq_ok hsides).mpr
    ⟨initInventory_isOk (fun _ _ => rfl) ∅, ps₀, ps₁, hps₀, hps₁, rfl⟩⟩

/-- A side that has all endpoints picks the first ones. -/
theorem SidePicks.picked_own (h : SidePicks c cr ep ps)
    (hown : ∀ e ∈ c.endpoints, e.wasAllocated cr.ref = true) {t : String} (ht : t ∈ ep.topologies) :
    picked t ps = (candidates L c t ep.selector).take
      (slots ep t (List.range cr.links.toNat)).length := by
  have htaken := h.taken t
  have hlen := (FirstFit.subperm_of_takeAll htaken).length_le
  rw [FirstFit.length_takeAll htaken, sidePools_of_mem ht] at hlen
  rw [sidePools_of_mem ht, takes_own (fun e he => hown e (mem_candidates he).1) hlen] at htaken
  exact (Option.some.inj htaken).symm

/-- So the first candidate is picked. -/
theorem SidePicks.first_mem (h : SidePicks c cr ep ps)
    (hown : ∀ e ∈ c.endpoints, e.wasAllocated cr.ref = true) {i : Nat} {t : String}
    (hi : i < cr.links.toNat) (ht : ep.topology i = some t) {e : Endpoint} {es : List Endpoint}
    (hfirst : candidates L c t ep.selector = e :: es) : e.key ∈ ps.map fun p => p.2.key := by
  have hmem : e ∈ picked t ps := by
    obtain ⟨idx, idxs, hslots⟩ := List.exists_cons_of_ne_nil (slots_ne_nil hi ht)
    rw [h.picked_own hown (List.mem_of_getElem? ht), hfirst, hslots]
    exact List.mem_cons_self
  obtain ⟨p, hp, rfl⟩ := List.mem_map.mp hmem
  exact List.mem_map.mpr ⟨p, (List.mem_filter.mp hp).1, rfl⟩

end

/-- Labels for every topology, chosen once. -/
theorem Satisfiable.choose (h : Satisfiable cr) : ∃ lab, Chosen cr lab := by
  classical
  refine ⟨fun ep t => if hl : ∃ l : Labels, l[nephioTopologyKey]? = some t ∧
    L.selects ep.selector l = true then hl.choose else ∅, fun ep hep t ht => ?_⟩
  have hl := (h ep hep).2 t ht
  beta_reduce
  rw [dif_pos hl]
  exact hl.choose_spec

/-- Both sides may take an endpoint with the same labels. -/
def Overlapping (cr : LogicalInterconnect L) : Prop :=
  Satisfiable cr ∧ ∃ l : Labels, ∀ ep ∈ cr.endpoints, Offers cr ep l

theorem Offers.exists_link {l : Labels} {t : String} (h : Offers cr ep l)
    (hl : l[nephioTopologyKey]? = some t) : ∃ i < cr.links.toNat, ep.topology i = some t := by
  obtain ⟨⟨i, hi, t', ht, hl'⟩, -⟩ := h
  cases hl.symm.trans hl'
  exact ⟨i, hi, ht⟩

/-- A selector that takes all endpoints of a topology does not change which they are. -/
theorem candidates_of_selects {t : String} {s : Option L.Sel}
    (h : ∀ e ∈ c.ofTopology t, L.selects s e.labels = true) :
    candidates L c t s = L.sort (unique [] (c.ofTopology t)) := by
  unfold candidates
  rw [List.filter_eq_self.mpr h]

/-- If both sides may take endpoints with the same labels, they take the same one when the resource
has claimed all endpoints. -/
theorem Overlapping.not_distinct (h : Overlapping cr) :
    ∃ c r, selectEndpoints c cr = .ok r ∧ ¬Distinct r := by
  obtain ⟨hsat, l, hoffers⟩ := h
  obtain ⟨ep, hep⟩ := List.exists_mem_of_length_pos (cr.two ▸ Nat.zero_lt_two)
  obtain ⟨⟨i, hi, t, -, hl⟩, -⟩ := hoffers ep hep
  obtain ⟨lab, hlab⟩ := hsat.choose
  -- in the common topology all endpoints have the common labels
  have hcommon : Chosen cr fun ep t' => if t' = t then l else lab ep t' := by
    intro ep hep t' ht'
    dsimp only
    split
    next heq =>
      subst heq
      exact ⟨hl, (hoffers ep hep).2⟩
    next => exact hlab ep hep t' ht'
  obtain ⟨r, hok⟩ := hcommon.selectEndpoints_ok hsat (by omega)
  refine ⟨_, r, hok, fun hdistinct => ?_⟩
  obtain ⟨ep₀, ep₁, ps₀, ps₁, hsides, hps₀, hps₁, rfl⟩ := exists_sidePicks hok
  have hoffers₀ := hoffers ep₀ (by simp [hsides])
  have hoffers₁ := hoffers ep₁ (by simp [hsides])
  generalize hc : chosenCluster cr (fun ep t' => if t' = t then l else lab ep t') = c at *
  have hmem : ∀ e ∈ c.endpoints, (∃ ep ∈ cr.endpoints, ∃ t' ∈ ep.topologies,
      (if t' = t then l else lab ep t') = e.labels) ∧ e.wasAllocated cr.ref = true ∧ _ :=
    fun e he => mem_chosenCluster (hc ▸ he)
  have hlabels : ∀ e ∈ c.ofTopology t, e.labels = l := by
    intro e he
    obtain ⟨he, hlabel⟩ := List.mem_filter.mp he
    obtain ⟨⟨ep, hep, t', ht', hlabels⟩, -⟩ := hmem e he
    have htopology := (hcommon ep hep t' ht').1
    beta_reduce at htopology
    rw [hlabels, of_decide_eq_true hlabel] at htopology
    rw [← hlabels, if_pos (Option.some.inj htopology).symm]
  have hall : ∀ s : Option L.Sel, L.selects s l = true →
      candidates L c t s = L.sort (unique [] (c.ofTopology t)) := fun s hs =>
    candidates_of_selects fun e he => by rw [hlabels e he, hs]
  have hown : ∀ e ∈ c.endpoints, e.wasAllocated cr.ref = true := fun e he => (hmem e he).2.1
  -- so both sides have the same first candidate
  obtain ⟨i₀, hi₀, ht₀⟩ := hoffers₀.exists_link hl
  obtain ⟨i₁, hi₁, ht₁⟩ := hoffers₁.exists_link hl
  obtain ⟨e, es, hfirst⟩ :=
    List.exists_cons_of_ne_nil (hps₀.offered t (List.mem_of_getElem? ht₀))
  have hkey₀ := hps₀.first_mem hown hi₀ ht₀ hfirst
  rw [hall _ hoffers₀.2, ← hall _ hoffers₁.2] at hfirst
  have hkey₁ := hps₁.first_mem hown hi₁ ht₁ hfirst
  unfold Distinct resultOf at hdistinct
  rw [List.map_append, List.map_map, List.map_map] at hdistinct
  exact (List.nodup_append'.mp hdistinct).2.2 hkey₀ hkey₁

/-- An inventory without an endpoint for both sides gives a selection that takes each endpoint once.
All inventories do if and only if the two sides do not overlap. -/
theorem selectEndpoints_distinct_iff (cr : LogicalInterconnect L) :
    (∀ c r, selectEndpoints c cr = .ok r → (∀ e ∈ c.endpoints, ¬Shared cr e) → Distinct r) ∧
      ((∀ c r, selectEndpoints c cr = .ok r → Distinct r) ↔ ¬Overlapping cr) := by
  refine ⟨fun c r h hshared => ?_, fun hall hover => ?_, fun hover c r h => ?_⟩
  · refine (distinct_or_shared h).resolve_right ?_
    rintro ⟨e, he, hboth⟩
    exact hshared e he hboth
  · obtain ⟨c, r, h, hdistinct⟩ := hover.not_distinct
    exact hdistinct (hall c r h)
  · refine (distinct_or_shared h).resolve_right ?_
    rintro ⟨e, -, -, hoffers⟩
    obtain ⟨ep₀, ep₁, hsides⟩ := List.length_eq_two.mp cr.two
    obtain ⟨⟨i, hi, -⟩, -⟩ := hoffers ep₀ (by simp [hsides])
    exact hover ⟨satisfiable_of_selectEndpoints h (by omega), e.labels, hoffers⟩

/-- One free endpoint. -/
def oneEndpoint : Cluster where
  endpoints := [sampleEndpoint "a" "n1" "e1" none]
  nodup := by decide
  listErr _ := none

/-- A link from an endpoint to itself. -/
theorem link_to_itself :
    selectEndpoints oneEndpoint (sampleInterconnect 1 (sampleSide "a" none) (sampleSide "a" none)) =
        .ok (resultOf (sampleInterconnect 1 (sampleSide "a" none) (sampleSide "a" none))
          (sampleSide "a" none) (sampleSide "a" none)
          [("a", sampleEndpoint "a" "n1" "e1" none)] [("a", sampleEndpoint "a" "n1" "e1" none)]) ∧
      ¬Distinct (resultOf (sampleInterconnect 1 (sampleSide "a" none) (sampleSide "a" none))
        (sampleSide "a" none) (sampleSide "a" none)
        [("a", sampleEndpoint "a" "n1" "e1" none)] [("a", sampleEndpoint "a" "n1" "e1" none)]) := by
  constructor
  · decide +kernel
  · decide +kernel

def sampleDiverse : LogicalInterconnect referenceLibrary :=
  sampleInterconnect 2 (sampleSide "a" (some 2)) (sampleSide "b" none)

end K8sIpam.Interconnect
