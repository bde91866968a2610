import K8sIpam.Api.Labels

/-! # Object references and the owner labels of a resource

The parts of the Kubernetes object model that claims are made of, and
`GetHierOwnerLabelsFromCR`, which derives the owner labels of a claim from the resource it is
made for. -/

namespace K8sIpam
open Std

/-- The name and namespace of a `corev1.ObjectReference`; the code sets no other field. -/
structure ObjectReference where
  name : String
  ns : String
  deriving DecidableEq

/-- An empty namespace is the default one. -/
def getNamespace (ns : String) : String := if ns = "" then "default" else ns

/-- The key of an index in the cache. -/
def getCacheID (ref : ObjectReference) : ObjectReference := ⟨ref.name, getNamespace ref.ns⟩

structure GroupVersionKind where
  group : String
  version : String
  kind : String
  deriving DecidableEq

def gvkToString (gvk : GroupVersionKind) : String :=
  if gvk.kind = "" then "empty kind in gvk"
  else gvk.kind ++ (if gvk.version = "" then "" else "." ++ gvk.version) ++
    (if gvk.group = "" then "" else "." ++ gvk.group)

structure ObjectMeta where
  name : String
  ns : String
  labels : Labels
  deriving DecidableEq

/-- The owner labels of a resource. Labels of its metadata override the owner: its gvk and
namespaced name. -/
def getHierOwnerLabelsFromCR (gvk : GroupVersionKind) (cr : ObjectMeta) : List (String × String) :=
  [(nephioOwnerGvkKey, (cr.labels[nephioOwnerGvkKey]?).getD (gvkToString gvk)),
    (nephioOwnerNsnNameKey, (cr.labels[nephioOwnerNsnNameKey]?).getD cr.name),
    (nephioOwnerNsnNamespaceKey,
      getNamespace ((cr.labels[nephioOwnerNsnNamespaceKey]?).getD cr.ns)),
    (nephioGvkKey, gvkToString gvk),
    (nephioNsnNameKey, cr.name),
    (nephioNsnNamespaceKey, getNamespace cr.ns)]

/-- `AddOwnerLabelsToCR`: the owner labels are written over the user defined labels. -/
def addOwnerLabels (gvk : GroupVersionKind) (cr : ObjectMeta) (labels : Labels) : Labels :=
  (getHierOwnerLabelsFromCR gvk cr).foldl (fun l kv => l.insert kv.1 kv.2) labels

private theorem foldl_insert_congr {kvs : List (String × String)} {l l' : Labels} {k : String}
    (h : k ∈ kvs.map Prod.fst ∨ l[k]? = l'[k]?) :
    (kvs.foldl (fun l kv => l.insert kv.1 kv.2) l)[k]? =
      (kvs.foldl (fun l kv => l.insert kv.1 kv.2) l')[k]? := by
  induction kvs generalizing l l' with
  | nil => simpa using h
  | cons kv kvs ih =>
    refine ih ?_
    by_cases hk : kv.1 = k
    · subst hk
      simp
    · have hk' : k ≠ kv.1 := fun heq => hk heq.symm
      rcases h with h | h
      · left
        simpa [hk'] using h
      · right
        simp [ExtTreeMap.getElem?_insert, hk, h]

private theorem foldl_insert_isSome {kvs : List (String × String)} {l : Labels} {k : String}
    (h : k ∈ kvs.map Prod.fst ∨ l[k]?.isSome = true) :
    (kvs.foldl (fun l kv => l.insert kv.1 kv.2) l)[k]?.isSome = true := by
  induction kvs generalizing l with
  | nil => simpa using h
  | cons kv kvs ih =>
    refine ih ?_
    by_cases hk : kv.1 = k
    · subst hk
      simp
    · have hk' : k ≠ kv.1 := fun heq => hk heq.symm
      rcases h with h | h
      · left
        simpa [hk'] using h
      · right
        rwa [ExtTreeMap.getElem?_insert, if_neg (by simpa using hk)]

theorem mem_keys_of_mem_ownerKeys (gvk : GroupVersionKind) (cr : ObjectMeta) {k : String}
    (hk : k ∈ ownerKeys) : k ∈ (getHierOwnerLabelsFromCR gvk cr).map Prod.fst := by
  have hall : ∀ k ∈ ownerKeys, k ∈ [nephioOwnerGvkKey, nephioOwnerNsnNameKey,
      nephioOwnerNsnNamespaceKey, nephioGvkKey, nephioNsnNameKey, nephioNsnNamespaceKey] := by
    decide
  exact hall k hk

/-- Each of the owner labels is written. -/
theorem addOwnerLabels_isSome (gvk : GroupVersionKind) (cr : ObjectMeta) (l : Labels) {k : String}
    (hk : k ∈ ownerKeys) : (addOwnerLabels gvk cr l)[k]?.isSome = true :=
  foldl_insert_isSome (.inl (mem_keys_of_mem_ownerKeys gvk cr hk))

/-- The owner labels do not depend on what they are written over. -/
theorem addOwnerLabels_getElem? (gvk : GroupVersionKind) (cr : ObjectMeta) (l l' : Labels)
    {k : String} (hk : k ∈ ownerKeys) :
    (addOwnerLabels gvk cr l)[k]? = (addOwnerLabels gvk cr l')[k]? :=
  foldl_insert_congr (.inl (mem_keys_of_mem_ownerKeys gvk cr hk))

/-- The labels name a resource. -/
def Names (labels : Labels) (cr : ObjectMeta) : Prop :=
  labels.get nephioNsnNameKey = cr.name ∧ labels.get nephioNsnNamespaceKey = cr.ns

instance (labels : Labels) (cr : ObjectMeta) : Decidable (Names labels cr) := by
  unfold Names; infer_instance

end K8sIpam
