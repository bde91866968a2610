import Mathlib
import K8sIpam.Lib.Prog

/-! # Labels, selectors and claim owners

`apis/resource/common/v1alpha1`: label sets, the selectors built from them, and the five labels
by which the backends recognise the owner of an entry. A label set is a finite map; a selector
built with `labels.NewRequirement(k, Equals, v)` is a finite map of requirements. Which keys and
values `labels.NewRequirement` refuses, and with which text, is decided by the Kubernetes
libraries and is a parameter here. -/

namespace K8sIpam
open Std Atomic

/-- `map[string]string`, also under its name `labels.Set`. -/
abbrev Labels := ExtTreeMap String String

namespace Labels

/-- A Go map read: a missing key reads as the empty string. -/
def get (l : Labels) (k : String) : String := l[k]?.getD ""

theorem get_insert (l : Labels) (k v a : String) :
    Labels.get (l.insert k v) a = if k = a then v else l.get a := by
  simp only [Labels.get, ExtTreeMap.getElem?_insert, LawfulEqCmp.compare_eq_iff_eq]
  split <;> rfl

theorem get_erase_of_ne (l : Labels) {k a : String} (h : k ≠ a) :
    Labels.get (l.erase k) a = l.get a := by
  simp [Labels.get, ExtTreeMap.getElem?_erase, h]

theorem get_of_getElem? {l : Labels} {k v : String} (h : l[k]? = some v) : l.get k = v := by
  simp [Labels.get, h]

end Labels

/-! ## Label keys -/

def nephioOwnerGvkKey := "nephio.org/owner-gvk"
def nephioOwnerNsnNameKey := "nephio.org/owner-nsn-name"
def nephioOwnerNsnNamespaceKey := "nephio.org/owner-nsn-namespace"
def nephioGvkKey := "nephio.org/gvk"
def nephioNsnNameKey := "nephio.org/nsn-name"
def nephioNsnNamespaceKey := "nephio.org/nsn-namespace"
def nephioPrefixKindKey := "nephio.org/prefix-kind"
def nephioAddressFamilyKey := "nephio.org/address-family"
def nephioSubnetKey := "nephio.org/subnet"
def nephioPoolKey := "nephio.org/pool"
def nephioGatewayKey := "nephio.org/gateway"

/-- The labels by which an owner is recognised, in the order `GetOwnerSelector` lists them. -/
def ownerKeys : List String :=
  [nephioNsnNameKey, nephioNsnNamespaceKey, nephioOwnerGvkKey, nephioOwnerNsnNameKey,
    nephioOwnerNsnNamespaceKey]

/-- The values of the five owner labels. -/
def ownerKey (l : Labels) : List String := ownerKeys.map l.get

/-- All five owner labels are set, and none of them to the empty string. -/
def OwnerComplete (l : Labels) : Prop := ∀ k ∈ ownerKeys, l.get k ≠ ""

instance (l : Labels) : Decidable (OwnerComplete l) :=
  inferInstanceAs (Decidable (∀ k ∈ ownerKeys, l.get k ≠ ""))

/-- The labels have all five owner labels, with the values that `own` gives. -/
def HasOwner (own l : Labels) : Prop := ∀ k ∈ ownerKeys, l[k]? = some (own.get k)

instance (own l : Labels) : Decidable (HasOwner own l) :=
  inferInstanceAs (Decidable (∀ k ∈ ownerKeys, l[k]? = some (own.get k)))

theorem HasOwner.congr {own own' l : Labels} (h : HasOwner own l)
    (heq : ∀ k ∈ ownerKeys, own[k]? = own'[k]?) : HasOwner own' l := by
  intro k hk
  rw [h k hk, Labels.get, heq k hk, Labels.get]

/-- Owner labels that one label set has both of are the same. -/
theorem HasOwner.agree {own own' l l' : Labels} (h : HasOwner own l) (h' : HasOwner own' l)
    (hl : HasOwner own l') : HasOwner own' l' := by
  intro k hk
  rw [hl k hk, ← h k hk, h' k hk]

theorem ownerKey_eq_iff {l l' : Labels} :
    ownerKey l = ownerKey l' ↔ ∀ k ∈ ownerKeys, l.get k = l'.get k :=
  List.map_inj_left

/-- Writing another label leaves the owner as it is. -/
@[simp] theorem ownerKey_insert {l : Labels} {k v : String} (hk : k ∉ ownerKeys) :
    ownerKey (l.insert k v) = ownerKey l := by
  refine ownerKey_eq_iff.mpr fun a ha => ?_
  rw [Labels.get_insert, if_neg fun h : k = a => hk (h ▸ ha)]

@[simp] theorem ownerKey_erase {l : Labels} {k : String} (hk : k ∉ ownerKeys) :
    ownerKey (l.erase k) = ownerKey l :=
  ownerKey_eq_iff.mpr fun _ ha => Labels.get_erase_of_ne l fun h => hk (h ▸ ha)

/-! ## Selectors -/

/-- `labels.Selector`: a conjunction of equality requirements. -/
structure Selector where
  reqs : Labels
  deriving DecidableEq

namespace Selector

/-- `Selector.Matches`: every required key is there with the required value. -/
def Matches (s : Selector) (l : Labels) : Bool := s.reqs.toList.all fun kv => l[kv.1]? = some kv.2

theorem matches_iff {s : Selector} {l : Labels} :
    s.Matches l = true ↔ ∀ k v : String, s.reqs[k]? = some v → l[k]? = some v := by
  simp only [Matches, List.all_eq_true, decide_eq_true_eq, Prod.forall,
    ExtTreeMap.mem_toList_iff_getElem?_eq_some]

end Selector

/-- The text of the error of `labels.NewRequirement(k, selection.Equals, []string{v})`, if it
returns one. -/
abbrev NewRequirement := String → String → Option String

/-- The selector of a map of requirements. The first refusal in key order stands for the one that
Go's iteration over the map meets first. -/
def newSelector (refuses : NewRequirement) (m : Labels) : Except Failure Selector :=
  match m.toList.findSome? fun kv => refuses kv.1 kv.2 with
  | some msg => .error (.error msg)
  | none => .ok ⟨m⟩

theorem newSelector_eq_ok {refuses : NewRequirement} {m : Labels} {s : Selector}
    (h : newSelector refuses m = .ok s) : s = ⟨m⟩ := by
  unfold newSelector at h
  split at h <;> cases h
  rfl

/-! ## The labels of a claim -/

/-- `ClaimLabels`: the user defined labels of a claim and the labels it selects by. -/
structure ClaimLabels where
  labels : Labels
  selector : Option Labels
  deriving DecidableEq

namespace ClaimLabels

def getUserDefinedLabels (c : ClaimLabels) : Labels := c.labels

def getSelectorLabels (c : ClaimLabels) : Labels := c.selector.getD ∅

/-- User defined labels, overwritten by the selector labels. -/
def getFullLabels (c : ClaimLabels) : Labels :=
  c.getSelectorLabels.toList.foldl (fun l kv => l.insert kv.1 kv.2) c.getUserDefinedLabels

def getLabelSelector (refuses : NewRequirement) (c : ClaimLabels) : Except Failure Selector :=
  newSelector refuses c.getSelectorLabels

/-- The requirements of `GetOwnerSelector`: a label that is not set is required to be empty. -/
def ownerRequirements (c : ClaimLabels) : Labels :=
  ownerKeys.foldl (fun m k => m.insert k (c.labels.get k)) ∅

def getOwnerSelector (refuses : NewRequirement) (c : ClaimLabels) : Except Failure Selector :=
  newSelector refuses c.ownerRequirements

private theorem foldl_insert_getElem? (f : String → String) (keys : List String) (m : Labels)
    (a : String) : (keys.foldl (fun m k => m.insert k (f k)) m)[a]? =
      if a ∈ keys then some (f a) else m[a]? := by
  induction keys generalizing m with
  | nil => simp
  | cons k keys ih =>
    rw [List.foldl_cons, ih]
    by_cases ha : a ∈ keys
    · simp [ha]
    · by_cases hk : k = a
      · subst hk; simp [ha]
      · have hk' : a ≠ k := fun h => hk h.symm
        simp [ha, hk, hk', ExtTreeMap.getElem?_insert]

theorem ownerRequirements_getElem? (c : ClaimLabels) (a : String) :
    c.ownerRequirements[a]? = if a ∈ ownerKeys then some (c.labels.get a) else none := by
  rw [ownerRequirements, foldl_insert_getElem?]
  simp

/-- The owner selector finds exactly the entries that carry all five labels with the values of
the claim. -/
theorem ownerSelector_matches {refuses : NewRequirement} {c : ClaimLabels} {s : Selector}
    (h : c.getOwnerSelector refuses = .ok s) {l : Labels} :
    s.Matches l = true ↔ ∀ k ∈ ownerKeys, l[k]? = some (c.labels.get k) := by
  rw [newSelector_eq_ok h, Selector.matches_iff]
  constructor
  · intro H k hk
    exact H k _ (by rw [ownerRequirements_getElem?, if_pos hk])
  · intro H k v hv
    rw [ownerRequirements_getElem?] at hv
    split at hv
    · cases hv; exact H k ‹_›
    · cases hv

/-- An entry found by the owner selector has the owner of the claim. -/
theorem ownerKey_of_matches {refuses : NewRequirement} {c : ClaimLabels} {s : Selector}
    (h : c.getOwnerSelector refuses = .ok s) {l : Labels} (hm : s.Matches l = true) :
    ownerKey l = ownerKey c.labels :=
  ownerKey_eq_iff.mpr fun k hk => Labels.get_of_getElem? ((ownerSelector_matches h).mp hm k hk)

/-- The selector of a claim with all five labels finds exactly the entries of its owner. -/
theorem matches_iff_ownerKey {refuses : NewRequirement} {c : ClaimLabels} {s : Selector}
    (h : c.getOwnerSelector refuses = .ok s) (hc : OwnerComplete c.labels) {l : Labels} :
    s.Matches l = true ↔ ownerKey l = ownerKey c.labels := by
  refine ⟨ownerKey_of_matches h, fun ho => (ownerSelector_matches h).mpr fun k hk => ?_⟩
  have hget := ownerKey_eq_iff.mp ho k hk
  have hne := hget ▸ hc k hk
  cases hl : l[k]? with
  | none => simp [Labels.get, hl] at hne
  | some v => rw [← hget, Labels.get_of_getElem? hl]

end ClaimLabels
end K8sIpam
