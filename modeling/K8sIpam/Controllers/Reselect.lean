import K8sIpam.Controllers.EndpointClaims
import K8sIpam.Resources.AnyOrder

/-! # Selecting again

A selection that is made again after its endpoints were claimed. When the endpoints are listed in the
same order, the second run meets the same candidates, but it selects no node for an endpoint that the
resource has. So it takes the first usable candidates, whichever the first run has passed over. -/

namespace K8sIpam.Interconnect
open Std Atomic K8sIpam.Inv RawTopology

variable {L : Library} {c : Cluster} {cr : LogicalInterconnect L}
  {ep ep₀ ep₁ : LogicalInterconnectEndpoint L} {ps ps₀ ps₁ : List (String × Endpoint)} {r : Result}

/-- The result, with the claims that `Claim` writes. -/
def Result.claimed (cr : CoreRef) (r : Result) : Result :=
  { r with endpoints := r.endpoints.map fun e => { e with claimRef := some cr } }

/-- The endpoints as they are listed after the claims of some of them were written. -/
structure ListedAgain (cr : CoreRef) (es : List Endpoint) (c c' : Cluster) : Prop where
  sameOrder : c'.endpoints.map Endpoint.key = c.endpoints.map Endpoint.key
  claims : ∀ e ∈ c.endpoints, setClaim (some cr) (es.map Endpoint.key) e ∈ c'.endpoints
  listErr : c'.listErr = c.listErr

/-- On endpoints that have the claims of a selection, it is made again in the same way, and nothing is
deleted. -/
structure Stable (c' : Cluster) (cr : LogicalInterconnect L) (r : Result) : Prop where
  same : selectEndpoints c' cr = .ok (r.claimed cr.ref)
  claims : tobeDeletedClaims (getClaimedEndpoints c' cr.ref) (r.claimed cr.ref).endpoints = []
  resources : ∀ owner, ∃ rs, newResources owner r = .ok rs ∧
    newResources owner (r.claimed cr.ref) = .ok rs ∧
    ∀ (P : Resources.Patch Content) (orders orders' : Resources.Orders)
      (s s' s'' : Resources.Server Content),
      (Resources.apiApply orders interconnectConfig [] owner rs ∅).run (Resources.handler P) s =
        (.ok (), s') →
      (Resources.apiApply orders' interconnectConfig [] owner rs ∅).run (Resources.handler P) s' =
        (.ok (), s'') →
      ∀ ref, .delete ref ∉ Resources.requests P
        (Resources.apiApply orders' interconnectConfig [] owner rs ∅) s'

/-- The candidates that no other resource has. -/
def usableCandidates (c : Cluster) (cr : LogicalInterconnect L) (ep : LogicalInterconnectEndpoint L)
    (topology : String) : List Endpoint :=
  (candidates L c topology ep.selector).filter fun e => !e.isAllocated cr.ref

/-- The links of a side can take the usable candidates of each topology in their order. -/
def TakesInOrder (c : Cluster) (cr : LogicalInterconnect L) (ep : LogicalInterconnectEndpoint L) :
    Prop :=
  ∀ t ∈ ep.topologies, FirstFit.InOrder (suits cr.ref ep.diversity) (nodesAfter cr.ref)
    (slots ep t (List.range cr.links.toNat)) (fun _ => "") (usableCandidates c cr ep t)

instance (c : Cluster) (cr : LogicalInterconnect L) (ep : LogicalInterconnectEndpoint L) :
    Decidable (TakesInOrder c cr ep) := inferInstanceAs (Decidable (∀ t ∈ ep.topologies, _))

/-- The first usable candidates, as many as a topology has links. -/
def firstUsable (c : Cluster) (cr : LogicalInterconnect L) (ep : LogicalInterconnectEndpoint L)
    (topology : String) : List Endpoint :=
  (usableCandidates c cr ep topology).take (slots ep topology (List.range cr.links.toNat)).length

/-- The links can take the first usable candidates in their order, and the resource has no other
endpoints than these. -/
structure Steady (c : Cluster) (cr : LogicalInterconnect L) : Prop where
  inOrder : ∀ ep ∈ cr.endpoints, TakesInOrder c cr ep
  claimed : ∀ e ∈ c.endpoints, e.wasAllocated cr.ref = true →
    ∃ ep ∈ cr.endpoints, ∃ t ∈ ep.topologies, e ∈ firstUsable c cr ep t

theorem eq_map_of_map_eq {α κ : Type} {key : α → κ} {f : α → α} {l l' : List α}
    (hkey : l'.map key = l.map key) (hnodup : (l'.map key).Nodup) (hf : ∀ a, key (f a) = key a)
    (hmem : ∀ a ∈ l, f a ∈ l') : l' = l.map f := by
  have hlen : l'.length = l.length := by simpa using congrArg List.length hkey
  refine List.ext_getElem (by simpa using hlen) fun n hn hn' => ?_
  have hln : n < l.length := hlen ▸ hn
  have hsame : key l'[n] = key l[n] := by
    have hget := congrArg (fun ks : List κ => ks[n]?) hkey
    simpa [hn, hln] using hget
  rw [List.getElem_map]
  exact List.inj_on_of_nodup_map hnodup (List.getElem_mem hn) (hmem _ (List.getElem_mem hln))
    (hsame.trans (hf _).symm)

theorem ListedAgain.eq_setClaims {cr : CoreRef} {es : List Endpoint} {c' : Cluster}
    (h : ListedAgain cr es c c') : c' = setClaims (some cr) es c := by
  exact cluster_ext (eq_map_of_map_eq h.sameOrder c'.nodup (setClaim_key _ _) h.claims) h.listErr

/-! ## The candidates of the second run -/

section
variable {claimRef : Option CoreRef} {keys : List (String × String)} {es : List Endpoint}

@[simp] theorem setClaim_labels (e : Endpoint) : (setClaim claimRef keys e).labels = e.labels := by
  unfold setClaim
  split <;> rfl

@[simp] theorem setClaim_spec (e : Endpoint) : (setClaim claimRef keys e).spec = e.spec := by
  unfold setClaim
  split <;> rfl

@[simp] theorem setClaim_namespacedName (e : Endpoint) :
    (setClaim claimRef keys e).namespacedName = e.namespacedName := by
  unfold setClaim
  split <;> rfl

/-- The candidates are the same ones, with the claims. -/
theorem candidates_setClaims (t : String) (s : Option L.Sel) :
    candidates L (setClaims claimRef es c) t s =
      (candidates L c t s).map (setClaim claimRef (es.map Endpoint.key)) := by
  have htopology : (setClaims claimRef es c).ofTopology t =
      (c.ofTopology t).map (setClaim claimRef (es.map Endpoint.key)) := by
    unfold Cluster.ofTopology setClaims
    rw [List.filter_map]
    simp [Function.comp_def]
  unfold candidates
  rw [htopology, List.filter_map, ← L.sort_map _ _ fun e => by rw [setClaim_spec],
    ← unique_map setClaim_namespacedName]
  simp [Function.comp_def]

theorem sidePools_setClaims (t : String) :
    sidePools (setClaims claimRef es c) ep t = ⟨(sidePools c ep t).endpoints.map
      (setClaim claimRef (es.map Endpoint.key)), (sidePools c ep t).nodes⟩ := by
  unfold sidePools
  split
  · rw [candidates_setClaims]
  · rfl

end

/-- A pick with its claim. -/
def claimPick (cr : CoreRef) (es : List Endpoint) (p : String × Endpoint) : String × Endpoint :=
  (p.1, setClaim (some cr) (es.map Endpoint.key) p.2)

theorem picked_claimPick (cr : CoreRef) (es : List Endpoint) (t : String)
    (ps : List (String × Endpoint)) : picked t (ps.map (claimPick cr es)) =
      (picked t ps).map (setClaim (some cr) (es.map Endpoint.key)) := by
  unfold picked
  rw [List.filter_map, List.map_map, List.map_map]
  rfl

/-- The same picks with their claims make the same result with its claims. -/
theorem resultOf_claimPick {es : List Endpoint} (hps₀ : ∀ p ∈ ps₀, p.2 ∈ es)
    (hps₁ : ∀ p ∈ ps₁, p.2 ∈ es) :
    resultOf cr ep₀ ep₁ (ps₀.map (claimPick cr.ref es)) (ps₁.map (claimPick cr.ref es)) =
      (resultOf cr ep₀ ep₁ ps₀ ps₁).claimed cr.ref := by
  have hsnd : ∀ {ps : List (String × Endpoint)}, (∀ p ∈ ps, p.2 ∈ es) →
      (ps.map (claimPick cr.ref es)).map Prod.snd =
        (ps.map Prod.snd).map fun e => { e with claimRef := some cr.ref } := by
    intro ps hps
    rw [List.map_map, List.map_map]
    exact List.map_congr_left fun p hp => if_pos (List.mem_map_of_mem (hps p hp))
  have hlogical : ∀ (ep : LogicalInterconnectEndpoint L) (ps : List (String × Endpoint)),
      logicalEndpoint cr ep (ps.map (claimPick cr.ref es)) = logicalEndpoint cr ep ps := by
    intro ep ps
    simp [logicalEndpoint, List.foldl_map, LogicalEndpointSpec.addEnd, claimPick]
  have hlinks : List.zipWith linkOfPicks (ps₀.map (claimPick cr.ref es))
      (ps₁.map (claimPick cr.ref es)) = List.zipWith linkOfPicks ps₀ ps₁ := by
    have hlink : ∀ p q, linkOfPicks (claimPick cr.ref es p) (claimPick cr.ref es q) =
        linkOfPicks p q := by
      intro p q
      simp [linkOfPicks, linkEnd, claimPick]
    rw [List.zipWith_map]
    exact congrArg (fun f => List.zipWith f ps₀ ps₁) (funext₂ hlink)
  unfold resultOf Result.claimed
  rw [hsnd hps₀, hsnd hps₁, hlogical, hlogical, hlinks, List.map_append]

section
variable {es : List Endpoint} (hes : ∀ e ∈ es, e ∈ c.endpoints ∧ e.isAllocated cr.ref = false)
include hes

/-- Where no node is selected, each usable endpoint suits, be it claimed or not. -/
theorem suits_setClaim (diversity : Bool) (idx : Fin 2) {e : Endpoint} (he : e ∈ c.endpoints) :
    suits cr.ref diversity (fun _ => "") idx (setClaim (some cr.ref) (es.map Endpoint.key) e) =
      !e.isAllocated cr.ref := by
  by_cases hkey : e.key ∈ es.map Endpoint.key
  · obtain ⟨e', he', heq⟩ := List.mem_map.mp hkey
    obtain ⟨hmem, hfree⟩ := hes e' he'
    rw [← eq_of_key_eq c.nodup hmem he heq, hfree]
    have hwas : (setClaim (some cr.ref) (es.map Endpoint.key) e').wasAllocated cr.ref = true := by
      rw [Endpoint.wasAllocated_iff, setClaim_claimRef, if_pos (List.mem_map_of_mem he')]
    rw [suits, if_pos hwas]
    rfl
  · have hsame : setClaim (some cr.ref) (es.map Endpoint.key) e = e := if_neg hkey
    rw [hsame, suits]
    split
    next hwas => rw [Endpoint.isAllocated_of_wasAllocated hwas]; rfl
    next =>
      have hdiverse : e.isNodeDiverse idx (fun _ => "") = true := by simp [Endpoint.isNodeDiverse]
      simp [hdiverse]

/-- A side picks the same endpoints again exactly if it has passed over no usable candidate. -/
theorem SidePicks.again_iff (h : SidePicks c cr ep ps) (hps : ∀ p ∈ ps, p.2 ∈ es) :
    SidePicks (setClaims (some cr.ref) es c) cr ep (ps.map (claimPick cr.ref es)) ↔
      TakesInOrder c cr ep := by
  have htakes : ∀ t ∈ ep.topologies, takes cr.ref ep (slots ep t (List.range cr.links.toNat))
      (sidePools (setClaims (some cr.ref) es c) ep t) =
        some (picked t (ps.map (claimPick cr.ref es))) ↔
      FirstFit.InOrder (suits cr.ref ep.diversity) (nodesAfter cr.ref)
        (slots ep t (List.range cr.links.toNat)) (fun _ => "") (usableCandidates c cr ep t) := by
    intro t ht
    have htaken := h.taken t
    rw [sidePools_setClaims, picked_claimPick, sidePools_of_mem ht]
    rw [sidePools_of_mem ht] at htaken
    refine FirstFit.takeAll_map_iff (fun nodes idx e _ hsuits => ?_) (fun idx e he => ?_)
      (fun a ha b hb heq => ?_) htaken fun idx e he => ?_
    · rw [not_isAllocated_of_suits hsuits]
      rfl
    · exact suits_setClaim hes ep.diversity idx (mem_candidates he).1
    · have hkey := congrArg Endpoint.key heq
      rw [setClaim_key, setClaim_key] at hkey
      exact eq_of_key_eq c.nodup (mem_candidates ha).1 (mem_candidates hb).1 hkey
    · obtain ⟨p, hp, rfl⟩ := List.mem_map.mp he
      have hmem := hps p (List.mem_filter.mp hp).1
      rw [nodesAfter, if_pos]
      rw [Endpoint.wasAllocated_iff, setClaim_claimRef, if_pos (List.mem_map_of_mem hmem)]
  obtain ⟨htop, -⟩ := picks_eq_ok.mp h.picks
  constructor
  · intro hagain t ht
    exact (htakes t ht).mp (hagain.taken t)
  · intro hall
    refine ⟨fun t ht => ?_, picks_eq_ok.mpr ⟨?_, fun t => ?_⟩⟩
    · rw [candidates_setClaims, ne_eq, List.map_eq_nil_iff]
      exact h.offered t ht
    · rw [htop, List.map_map]
      rfl
    · by_cases ht : t ∈ ep.topologies
      · exact (htakes t ht).mpr (hall t ht)
      · have htaken := h.taken t
        rw [sidePools_of_not_mem ht, slots_of_not_mem ht] at htaken
        rw [sidePools_setClaims, picked_claimPick, sidePools_of_not_mem ht, slots_of_not_mem ht,
          ← Option.some.inj htaken]
        rfl

end

/-- The topology of each link is known, so the endpoints decide which picks they are. -/
theorem SidePicks.ext {ps' : List (String × Endpoint)} (h : SidePicks c cr ep ps)
    (hps' : (List.range cr.links.toNat).map ep.topology = ps'.map fun p => some p.1)
    (heq : ps.map Prod.snd = ps'.map Prod.snd) : ps = ps' := by
  have hfst : ps.map Prod.fst = ps'.map Prod.fst := by
    have htop := (picks_eq_ok.mp h.picks).1.symm.trans hps'
    have hsome : (ps.map Prod.fst).map some = (ps'.map Prod.fst).map some := by
      rw [List.map_map, List.map_map]
      exact htop
    exact List.map_injective_iff.mpr (Option.some_injective _) hsome
  rw [List.zip_of_prod hfst heq, ← List.zip_of_prod rfl rfl]

/-- Only the listings decide whether there is an inventory, and they fail as before. -/
theorem initInventory_setClaims {claimRef : Option CoreRef} {es : List Endpoint}
    {topologies : List String} (h : ∃ inventory, initInventory c topologies ∅ = .ok inventory) :
    ∃ inventory, initInventory (setClaims claimRef es c) topologies ∅ = .ok inventory := by
  obtain ⟨inventory, hinit⟩ := h
  refine initInventory_isOk (fun t ht => ?_) ∅
  exact (listErr_of_initInventory hinit t ht).resolve_left (by simp)

/-- The selected endpoints can be claimed. -/
theorem claimable_of_selectEndpoints (h : selectEndpoints c cr = .ok r) :
    ∀ e ∈ r.endpoints, e ∈ c.endpoints ∧ e.isAllocated cr.ref = false := by
  intro e he
  obtain ⟨ep, -, ps, hps, p, hp, rfl⟩ := exists_pick h he
  exact ⟨(hps.mem_cluster hp).1, (hps.mem hp).2.2⟩

/-- A selection is made again in the same way exactly if no side has passed over a usable
candidate. -/
theorem selectEndpoints_again_iff (h : selectEndpoints c cr = .ok r) :
    selectEndpoints (setClaims (some cr.ref) r.endpoints c) cr = .ok (r.claimed cr.ref) ↔
      ∀ ep ∈ cr.endpoints, TakesInOrder c cr ep := by
  have hes := claimable_of_selectEndpoints h
  obtain ⟨ep₀, ep₁, hsides⟩ := List.length_eq_two.mp cr.two
  obtain ⟨hinit, ps₀, ps₁, hps₀, hps₁, rfl⟩ := (selectEndpoints_eq_ok hsides).mp h
  have hmem₀ : ∀ p ∈ ps₀, p.2 ∈ (resultOf cr ep₀ ep₁ ps₀ ps₁).endpoints := fun p hp =>
    List.mem_append_left _ (List.mem_map_of_mem hp)
  have hmem₁ : ∀ p ∈ ps₁, p.2 ∈ (resultOf cr ep₀ ep₁ ps₀ ps₁).endpoints := fun p hp =>
    List.mem_append_right _ (List.mem_map_of_mem hp)
  rw [selectEndpoints_eq_ok hsides, ← resultOf_claimPick hmem₀ hmem₁, hsides,
    List.forall_mem_cons, List.forall_mem_singleton, ← hps₀.again_iff hes hmem₀,
    ← hps₁.again_iff hes hmem₁]
  constructor
  · rintro ⟨-, qs₀, qs₁, hqs₀, hqs₁, heq⟩
    have hends := congrArg Result.endpoints heq
    have hlen : ((ps₀.map (claimPick cr.ref (resultOf cr ep₀ ep₁ ps₀ ps₁).endpoints)).map
        Prod.snd).length = (qs₀.map Prod.snd).length := by
      simp [hps₀.length, hqs₀.length]
    obtain ⟨h₀, h₁⟩ := List.append_inj hends hlen
    have htop : ∀ {ep ps}, SidePicks c cr ep ps → (List.range cr.links.toNat).map ep.topology =
        (ps.map (claimPick cr.ref (resultOf cr ep₀ ep₁ ps₀ ps₁).endpoints)).map
          fun p => some p.1 := by
      intro ep ps hps
      rw [(picks_eq_ok.mp hps.picks).1, List.map_map]
      rfl
    rw [← hqs₀.ext (htop hps₀) h₀.symm, ← hqs₁.ext (htop hps₁) h₁.symm]
    exact ⟨hqs₀, hqs₁⟩
  · rintro ⟨hagain₀, hagain₁⟩
    exact ⟨initInventory_setClaims hinit, _, _, hagain₀, hagain₁, rfl⟩

/-! ## What is deleted -/

theorem SidePicks.mem_iff (h : SidePicks c cr ep ps) (hin : TakesInOrder c cr ep) (e : Endpoint) :
    e ∈ ps.map Prod.snd ↔ ∃ t ∈ ep.topologies, e ∈ firstUsable c cr ep t := by
  have hpicked : ∀ t ∈ ep.topologies, picked t ps = firstUsable c cr ep t := by
    intro t ht
    have htaken := h.taken t
    rw [sidePools_of_mem ht] at htaken
    have htake := FirstFit.takeAll_of_inOrder (fun nodes idx a _ hsuits => by
      rw [not_isAllocated_of_suits hsuits]; rfl) (hin t ht)
    exact Option.some.inj (htaken.symm.trans htake)
  constructor
  · intro he
    obtain ⟨p, hp, rfl⟩ := List.mem_map.mp he
    have ht := (h.mem hp).1
    refine ⟨p.1, ht, ?_⟩
    rw [← hpicked p.1 ht]
    exact mem_picked hp
  · rintro ⟨t, ht, he⟩
    rw [← hpicked t ht] at he
    exact (List.filter_sublist.map Prod.snd).subset he

theorem mem_endpoints_iff (h : selectEndpoints c cr = .ok r)
    (hin : ∀ ep ∈ cr.endpoints, TakesInOrder c cr ep) (e : Endpoint) : e ∈ r.endpoints ↔
      ∃ ep ∈ cr.endpoints, ∃ t ∈ ep.topologies, e ∈ firstUsable c cr ep t := by
  obtain ⟨ep₀, ep₁, ps₀, ps₁, hsides, hps₀, hps₁, rfl⟩ := exists_sidePicks h
  rw [resultOf, List.mem_append, hps₀.mem_iff (hin ep₀ (by simp [hsides])),
    hps₁.mem_iff (hin ep₁ (by simp [hsides])), hsides]
  simp

/-- No claim is deleted exactly if the selection has all endpoints that the resource had. -/
theorem tobeDeletedClaims_eq_nil (hes : ∀ e ∈ r.endpoints, e ∈ c.endpoints) {cr : CoreRef} :
    tobeDeletedClaims (getClaimedEndpoints (setClaims (some cr) r.endpoints c) cr)
      (r.claimed cr).endpoints = [] ↔
      ∀ e ∈ c.endpoints, e.wasAllocated cr = true → e ∈ r.endpoints := by
  have hkey : ∀ e ∈ c.endpoints, e.key ∈ r.endpoints.map Endpoint.key ↔ e ∈ r.endpoints := by
    intro e he
    constructor
    · intro hmem
      obtain ⟨e', he', heq⟩ := List.mem_map.mp hmem
      rwa [← eq_of_key_eq c.nodup (hes e' he') he heq]
    · exact List.mem_map_of_mem
  have hfound : ∀ e : Endpoint, (∃ ep ∈ (r.claimed cr).endpoints, e.name = ep.name ∧ e.ns = ep.ns) ↔
      e.key ∈ r.endpoints.map Endpoint.key := by
    intro e
    simp [Result.claimed, Endpoint.key, and_comm, eq_comm]
  unfold tobeDeletedClaims
  rw [List.filter_eq_nil_iff]
  constructor
  · intro h e he hwas
    have hown : (setClaim (some cr) (r.endpoints.map Endpoint.key) e).wasAllocated cr = true := by
      rw [Endpoint.wasAllocated_iff, setClaim_claimRef]
      split
      · rfl
      · exact Endpoint.wasAllocated_iff.mp hwas
    have hkept := h _ (List.mem_filter.mpr ⟨List.mem_map_of_mem he, hown⟩)
    rw [decide_eq_true_iff, not_not, hfound, setClaim_key] at hkept
    exact (hkey e he).mp hkept
  · intro h x hx hlost
    obtain ⟨hmem, hwas⟩ := List.mem_filter.mp hx
    obtain ⟨e, he, rfl⟩ := List.mem_map.mp hmem
    refine of_decide_eq_true hlost ((hfound _).mpr ?_)
    rw [setClaim_key]
    by_contra hno
    rw [Endpoint.wasAllocated_iff, setClaim_claimRef, if_neg hno] at hwas
    exact hno (List.mem_map_of_mem (h e he (Endpoint.wasAllocated_iff.mpr hwas)))

/-- A selection is stable if and only if its links take the usable candidates in their order and the
resource has no other endpoints. -/
theorem selection_stable_iff (c c' : Cluster) (cr : LogicalInterconnect L) (r : Result)
    (h : selectEndpoints c cr = .ok r) (hagain : ListedAgain cr.ref r.endpoints c c') :
    Stable c' cr r ↔ Steady c cr := by
  obtain rfl := hagain.eq_setClaims
  have hclaims : tobeDeletedClaims (getClaimedEndpoints (setClaims (some cr.ref) r.endpoints c)
      cr.ref) (r.claimed cr.ref).endpoints = [] ↔ _ :=
    tobeDeletedClaims_eq_nil fun e he => (claimable_of_selectEndpoints h e he).1
  constructor
  · intro S
    have hin := (selectEndpoints_again_iff h).mp S.same
    refine ⟨hin, fun e he hwas => ?_⟩
    exact (mem_endpoints_iff h hin e).mp (hclaims.mp S.claims e he hwas)
  · intro S
    refine ⟨(selectEndpoints_again_iff h).mpr S.inOrder, hclaims.mpr fun e he hwas => ?_,
      fun owner => ?_⟩
    · exact (mem_endpoints_iff h S.inOrder e).mpr (S.claimed e he hwas)
    · obtain ⟨rs, hrs⟩ := newResources_ok h owner
      exact ⟨rs, hrs, hrs, fun P orders orders' s s' s'' hfirst hagain =>
        Resources.apiApply_again hfirst hagain⟩

/-- Several endpoints for each side, one of them with another claim; two of each side are claimed or
not. -/
def crowdedCluster (claimed : Bool) : Cluster where
  endpoints :=
    let claim := if claimed then some sampleRef else none
    [sampleEndpoint "a" "n1" "e1" claim,
      sampleEndpoint "a" "n1" "e2" (some { sampleRef with name := "other" }),
      sampleEndpoint "a" "n2" "e3" claim, sampleEndpoint "a" "n2" "e4" none,
      sampleEndpoint "b" "n3" "e1" claim, sampleEndpoint "b" "n4" "e2" claim,
      sampleEndpoint "b" "n5" "e3" none]
  nodup := by cases claimed <;> decide +kernel
  listErr _ := none

def crowdedResult : Result :=
  resultOf sampleTwoLinks (sampleSide "a" none) (sampleSide "b" (some 2))
    [("a", sampleEndpoint "a" "n1" "e1" none), ("a", sampleEndpoint "a" "n2" "e3" none)]
    [("b", sampleEndpoint "b" "n3" "e1" none), ("b", sampleEndpoint "b" "n4" "e2" none)]

/-- Two links take the first two usable endpoints of each side, and they do so again. -/
theorem selection_stable_sample :
    Stable (crowdedCluster true) sampleTwoLinks crowdedResult := by
  have hfree : ∀ e ∈ (crowdedCluster false).endpoints, ¬e.wasAllocated sampleRef = true := by
    decide +kernel
  have hagain : ListedAgain sampleRef crowdedResult.endpoints (crowdedCluster false)
      (crowdedCluster true) := ⟨by decide +kernel, by decide +kernel, rfl⟩
  refine (selection_stable_iff (crowdedCluster false) (crowdedCluster true) sampleTwoLinks
    crowdedResult (by decide +kernel) hagain).mpr ⟨by decide +kernel, fun e he hwas => ?_⟩
  exact absurd hwas (hfree e he)

/-- Two interfaces of one node before that of another one. -/
def skippedCluster : Cluster where
  endpoints := [sampleEndpoint "a" "n1" "e1" none, sampleEndpoint "a" "n1" "e2" none,
    sampleEndpoint "a" "n2" "e3" none, sampleEndpoint "b" "n3" "e1" none,
    sampleEndpoint "b" "n3" "e2" none]
  nodup := by decide +kernel
  listErr _ := none

/-- The links take the first and the third interface. -/
def skippedResult : Result :=
  resultOf sampleDiverse (sampleSide "a" (some 2)) (sampleSide "b" none)
    [("a", sampleEndpoint "a" "n1" "e1" none), ("a", sampleEndpoint "a" "n2" "e3" none)]
    [("b", sampleEndpoint "b" "n3" "e1" none), ("b", sampleEndpoint "b" "n3" "e2" none)]

/-- The second run takes the interface that the first run has passed over. -/
theorem reselection_moves :
    selectEndpoints skippedCluster sampleDiverse = .ok skippedResult ∧
      selectEndpoints (setClaims (some sampleRef) skippedResult.endpoints skippedCluster)
          sampleDiverse =
        .ok (resultOf sampleDiverse (sampleSide "a" (some 2)) (sampleSide "b" none)
          [("a", sampleEndpoint "a" "n1" "e1" (some sampleRef)),
            ("a", sampleEndpoint "a" "n1" "e2" none)]
          [("b", sampleEndpoint "b" "n3" "e1" (some sampleRef)),
            ("b", sampleEndpoint "b" "n3" "e2" (some sampleRef))]) ∧
      ¬Stable (setClaims (some sampleRef) skippedResult.endpoints skippedCluster) sampleDiverse
        skippedResult := by
  refine ⟨by decide +kernel, by decide +kernel, fun S => ?_⟩
  have hother : ¬selectEndpoints (setClaims (some sampleRef) skippedResult.endpoints
      skippedCluster) sampleDiverse = .ok (skippedResult.claimed sampleRef) := by decide +kernel
  exact hother S.same

end K8sIpam.Interconnect
