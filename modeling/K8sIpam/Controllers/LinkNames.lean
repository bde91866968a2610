import Mathlib.Data.List.Nodup
import K8sIpam.Controllers.RawTopology

/-! # The names of the links of a raw topology

A link is named after the nodes and interfaces of its two endpoints, joined by dashes. Two links have
one name when the parts between the dashes are the same, in whatever way these are spread over the
nodes and interfaces; then the inventory has one object for both. -/

namespace K8sIpam.RawTopology
open Std Atomic Resources

/-- The parts of a name between its dashes. -/
def dashParts (s : String) : List (List Char) := s.toList.splitOn '-'

def endpointParts (e : LinkEndpointSpec) : List (List Char) :=
  dashParts e.nodeName ++ dashParts e.interfaceName

/-- The parts of the nodes and interfaces of a link, one after the other. -/
def linkParts (l : LinkSpec) : List (List Char) := (l.endpoints.take 2).flatMap endpointParts

theorem dashParts_append (s t : String) :
    dashParts (s ++ "-" ++ t) = dashParts s ++ dashParts t := by
  unfold dashParts
  rw [String.toList_append, String.toList_append, List.append_assoc]
  exact List.splitOnP_append_cons s.toList t.toList rfl

theorem dashParts_inj {s t : String} : dashParts s = dashParts t ↔ s = t := by
  refine ⟨fun h => ?_, fun h => h ▸ rfl⟩
  have hjoin := congrArg (List.intercalate ['-']) h
  unfold dashParts at hjoin
  rw [List.intercalate_splitOn, List.intercalate_splitOn] at hjoin
  exact String.toList_inj.mp hjoin

/-- A link with two endpoints. -/
def TwoEnds (l : LinkSpec) : Prop := l.endpoints.length = 2

instance (l : LinkSpec) : Decidable (TwoEnds l) := inferInstanceAs (Decidable (_ = _))

section
variable {cr : CR} {l l' : LinkSpec}

theorem dashParts_linkName (h : TwoEnds l) : dashParts (linkName l) = linkParts l := by
  obtain ⟨endpoints⟩ := l
  obtain ⟨e₀, e₁, rfl⟩ := List.length_eq_two.mp h
  simp [linkName, linkParts, endpointParts, dashParts_append]

theorem linkName_eq_iff (h : TwoEnds l) (h' : TwoEnds l') :
    linkName l = linkName l' ↔ linkParts l = linkParts l' := by
  rw [← dashParts_inj, dashParts_linkName h, dashParts_linkName h']

theorem nodup_linkName (h : ∀ l ∈ cr.links, TwoEnds l) :
    (cr.links.map linkName).Nodup ↔ (cr.links.map linkParts).Nodup := by
  unfold List.Nodup
  rw [List.pairwise_map, List.pairwise_map]
  refine List.Pairwise.iff_of_mem fun hl hl' => not_congr ?_
  exact linkName_eq_iff (h _ hl) (h _ hl')

/-- Links with two endpoints can be added. -/
theorem addLinks_isOk (cr : CR) {ls : List LinkSpec} (h : ∀ l ∈ ls, TwoEnds l)
    (new : Objects Spec) :
    ∃ new', addLinks cr ls new = .ok new' := by
  induction ls generalizing new with
  | nil => exact ⟨new, rfl⟩
  | cons l ls ih =>
    obtain ⟨endpoints⟩ := l
    obtain ⟨e₀, e₁, rfl⟩ := List.length_eq_two.mp (h _ List.mem_cons_self)
    exact ih (fun l hl => h l (List.mem_cons_of_mem _ hl)) _

end

/-- The Links of an inventory. -/
def links (new : Objects Spec) : List Ref := new.keys.filter fun r => r.gvk = linkGVK

/-- Every link has a name of its own, and the inventory has as many Links as there are links. -/
structure LinksKept (cr : CR) : Prop where
  names : (cr.links.map linkName).Nodup
  inventory : ∃ new, addLinks cr cr.links (addNodes cr) = .ok new ∧
    (links new).length = cr.links.length

theorem mem_links {cr : CR} {new : Objects Spec}
    (h : addLinks cr cr.links (addNodes cr) = .ok new) (r : Ref) :
    r ∈ links new ↔ r ∈ cr.links.map (linkRef cr) := by
  obtain ⟨hnodes, hmemNodes⟩ := addNodes_spec cr
  obtain ⟨-, hmem⟩ := addLinks_spec h hnodes
  unfold links
  rw [List.mem_filter, ExtTreeMap.mem_keys, hmem, hmemNodes, decide_eq_true_eq]
  constructor
  · rintro ⟨hnode | hlink, hgvk⟩
    · obtain ⟨nodeSpec, -, rfl⟩ := List.mem_map.mp hnode
      have hne : nodeGVK ≠ linkGVK := by decide
      exact absurd hgvk hne
    · exact hlink
  · intro hlink
    refine ⟨.inr hlink, ?_⟩
    obtain ⟨l, -, rfl⟩ := List.mem_map.mp hlink
    rfl

/-- No link is lost if and only if no two links have the same parts between the dashes of their
nodes and interfaces. -/
theorem linksKept_iff (cr : CR) (htwo : ∀ l ∈ cr.links, TwoEnds l) :
    LinksKept cr ↔ (cr.links.map linkParts).Nodup := by
  rw [← nodup_linkName htwo]
  refine ⟨fun h => h.names, fun hnames => ⟨hnames, ?_⟩⟩
  obtain ⟨new, hnew⟩ := addLinks_isOk cr htwo (addNodes cr)
  refine ⟨new, hnew, ?_⟩
  have hrefs : (cr.links.map (linkRef cr)).Nodup :=
    (List.nodup_append'.mp (specRefs_nodup.mpr hnames)).2.1
  have hlinks : (links new).Nodup := ExtTreeMap.nodup_keys.filter _
  have hperm := (List.perm_ext_iff_of_nodup hlinks hrefs).mpr (mem_links hnew)
  rw [hperm.length_eq, List.length_map]

theorem linksKept_sample :
    LinksKept (sampleTopology "default" "topo" ["a", "b"] [sampleLink]) :=
  (linksKept_iff _ (by decide +kernel)).mpr (by decide +kernel)

/-- The link of two node interfaces. -/
def linkOf (node₀ interface₀ node₁ interface₁ : String) : LinkSpec :=
  ⟨[⟨"", interface₀, node₀, none⟩, ⟨"", interface₁, node₁, none⟩]⟩

/-- Two links without a common endpoint. -/
def dashedTopology : CR :=
  sampleTopology "default" "topo" ["a", "a-b", "x", "x-e"]
    [linkOf "a" "b-c" "x" "e-1", linkOf "a-b" "c" "x-e" "1"]

/-- Both links are called a-b-c-x-e-1, and the inventory has one Link. -/
theorem link_is_lost :
    validate dashedTopology = none ∧
    dashedTopology.links.map linkName = ["a-b-c-x-e-1", "a-b-c-x-e-1"] ∧
    (addLinks dashedTopology dashedTopology.links (addNodes dashedTopology)).toOption.map
      (fun new => (links new).length) = some 1 ∧
    ¬LinksKept dashedTopology := by
  refine ⟨by decide +kernel, by decide +kernel, by decide +kernel, fun H => ?_⟩
  have hnames := H.names
  revert hnames
  decide +kernel

end K8sIpam.RawTopology
