import K8sIpam.Ipam.Rib

/-! # The watcher of the IPAM backend

`pkg/backend/ipam/watcher.go`: callbacks by the value of an owner label. A callback is whatever
identifies it; what an update calls is the list of the callbacks with their routes. -/

namespace K8sIpam.Ipam
open Std

variable {F : Type}

/-- The first key is the label key, the second one its value. -/
abbrev Watches (F : Type) := ExtTreeMap String (ExtTreeMap String F)

abbrev UpdateMap (F : Type) := ExtTreeMap String (F × List Route)

namespace Watches

def addWatch (d : Watches F) (ownerGvkKey ownerGvk : String) (fn : F) : Watches F :=
  d.insert ownerGvkKey ((d[ownerGvkKey]?.getD ∅).insert ownerGvk fn)

def deleteWatch (d : Watches F) (ownerGvkKey ownerGvk : String) : Watches F :=
  let d := match d[ownerGvkKey]? with
    | some values => d.insert ownerGvkKey (values.erase ownerGvk)
    | none => d
  if (d[ownerGvkKey]?.getD ∅).size = 0 then d.erase ownerGvkKey else d

/-- A route is added to the ones of its callback. -/
def addRoute (u : UpdateMap F) (value : String) (fn : F) (route : Route) : UpdateMap F :=
  match u[value]? with
  | some (fn, routes) => u.insert value (fn, routes ++ [route])
  | none => u.insert value (fn, [route])

def updateRoute (d : Watches F) (u : UpdateMap F) (route : Route) : UpdateMap F :=
  d.toList.foldl (fun u entry =>
    match route.labels[entry.1]? with
    | some ownerGvkValue =>
      entry.2.toList.foldl (fun u watch =>
        if ownerGvkValue = watch.1 then addRoute u ownerGvkValue watch.2 route else u) u
    | none => u) u

def updateMap (d : Watches F) (routes : List Route) : UpdateMap F :=
  routes.foldl (updateRoute d) ∅

/-- The calls that an update makes, with the routes of each. -/
def handleUpdate (d : Watches F) (routes : List Route) : List (F × List Route) :=
  (updateMap d routes).toList.map Prod.snd

/-- The callback for a value of a label. -/
def callback (d : Watches F) (ownerGvkKey ownerGvk : String) : Option F :=
  d[ownerGvkKey]?.bind fun values => values[ownerGvk]?

/-! ## Callbacks -/

section
variable (d : Watches F) (key gvk key' gvk' : String)

theorem callback_addWatch (fn : F) :
    (d.addWatch key gvk fn).callback key' gvk' =
      if key = key' ∧ gvk = gvk' then some fn else d.callback key' gvk' := by
  unfold addWatch callback
  rw [ExtTreeMap.getElem?_insert]
  by_cases hkey : key = key'
  · subst hkey
    simp only [compare_self, if_true, Option.bind_some, true_and, ExtTreeMap.getElem?_insert,
      LawfulEqCmp.compare_eq_iff_eq]
    split
    · rfl
    · cases d[key]? with
      | none => simp
      | some values => rfl
  · rw [if_neg (by simpa using hkey), if_neg fun h => hkey h.1]

end

/-- Every label key of the watches is the given one. -/
def OnlyKey (key : String) (d : Watches F) : Prop := ∀ k, k ∈ d → k = key

section
variable {d : Watches F} {key : String}

theorem OnlyKey.addWatch (h : OnlyKey key d) (gvk : String) (fn : F) :
    OnlyKey key (d.addWatch key gvk fn) := by
  intro k hk
  rcases ExtTreeMap.mem_insert.mp hk with hk | hk
  · exact (LawfulEqCmp.compare_eq_iff_eq.mp hk).symm
  · exact h k hk

/-! ## Updates -/

/-- A list with different keys that are all the same has at most one element. -/
theorem eq_singleton_of_keys {α : Type} {k : String} {l : List (String × α)}
    (hdistinct : l.Pairwise fun a b => a.1 ≠ b.1) (hkeys : ∀ kv ∈ l, kv.1 = k) :
    l = [] ∨ ∃ a, l = [(k, a)] := by
  match l, hdistinct, hkeys with
  | [], _, _ => exact .inl rfl
  | [(k', a)], _, hkeys =>
    obtain rfl : k' = k := hkeys (k', a) List.mem_cons_self
    exact .inr ⟨a, rfl⟩
  | kv :: kv' :: l, hdistinct, hkeys =>
    have hne := (List.pairwise_cons.mp hdistinct).1 kv' List.mem_cons_self
    exact absurd ((hkeys kv List.mem_cons_self).trans (hkeys kv' (by simp)).symm) hne

theorem pairwise_toList {α : Type} (t : ExtTreeMap String α) :
    t.toList.Pairwise fun a b => a.1 ≠ b.1 :=
  t.distinct_keys_toList.imp fun h heq => h (LawfulEqCmp.compare_eq_iff_eq.mpr heq)

theorem toList_filter_key {α : Type} (t : ExtTreeMap String α) (k : String) :
    t.toList.filter (fun kv => k = kv.1) = (t[k]?.toList).map fun a => (k, a) := by
  have hmem : ∀ a, (k, a) ∈ t.toList.filter (fun kv => k = kv.1) ↔ t[k]? = some a := fun a => by
    rw [List.mem_filter, ExtTreeMap.mem_toList_iff_getElem?_eq_some]
    simp
  have hkeys : ∀ kv ∈ t.toList.filter (fun kv => k = kv.1), kv.1 = k := fun kv hkv => by
    have heq : k = kv.1 := by simpa using (List.mem_filter.mp hkv).2
    exact heq.symm
  rcases eq_singleton_of_keys ((pairwise_toList t).filter _) hkeys with hnil | ⟨a, ha⟩
  · rw [hnil]
    cases hk : t[k]? with
    | none => rfl
    | some a =>
      have := (hmem a).mpr hk
      rw [hnil] at this
      cases this
  · rw [ha, (hmem a).mp (ha ▸ List.mem_singleton_self _)]
    rfl

theorem OnlyKey.toList (h : OnlyKey key d) : d.toList = (d[key]?.toList).map fun a => (key, a) := by
  rw [← toList_filter_key, List.filter_eq_self.mpr]
  intro kv hkv
  have hmem : kv.1 ∈ d := by
    rw [ExtTreeMap.mem_iff_isSome_getElem?, ExtTreeMap.mem_toList_iff_getElem?_eq_some.mp hkv]
    rfl
  exact decide_eq_true (h kv.1 hmem).symm

theorem OnlyKey.updateRoute_eq (h : OnlyKey key d) (u : UpdateMap F) (route : Route) :
    updateRoute d u route = match route.labels[key]? with
      | none => u
      | some gvk => match d.callback key gvk with
        | none => u
        | some fn => addRoute u gvk fn route := by
  unfold updateRoute callback
  rw [h.toList]
  cases d[key]? with
  | none => cases route.labels[key]? <;> rfl
  | some values =>
    cases hl : route.labels[key]? with
    | none => simp [hl]
    | some gvk =>
      have hfold : values.toList.foldl (fun u watch =>
          if gvk = watch.1 then addRoute u gvk watch.2 route else u) u =
          (values.toList.filter fun watch => gvk = watch.1).foldl
            (fun u watch => addRoute u gvk watch.2 route) u := by
        rw [List.foldl_filter]
        simp
      simp only [Option.toList_some, List.map_cons, List.map_nil, List.foldl_cons, List.foldl_nil,
        hl, Option.bind_some]
      rw [hfold, toList_filter_key]
      cases values[gvk]? with
      | none => rfl
      | some fn => rfl

theorem addRoute_getElem? (u : UpdateMap F) (gvk gvk' : String) (fn : F) (route : Route) :
    (addRoute u gvk fn route)[gvk']? = if gvk = gvk' then
      some ((u[gvk]?.map Prod.fst).getD fn, (u[gvk]?.map Prod.snd).getD [] ++ [route])
      else u[gvk']? := by
  unfold addRoute
  cases u[gvk]? with
  | none => simp [ExtTreeMap.getElem?_insert]
  | some v => simp [ExtTreeMap.getElem?_insert]

/-- The routes whose label has a given value. -/
def routesOf (key gvk : String) (routes : List Route) : List Route :=
  routes.filter fun route => route.labels[key]? = some gvk

theorem OnlyKey.updateMap_getElem? (h : OnlyKey key d) (routes : List Route) (gvk : String) :
    (updateMap d routes)[gvk]? = (d.callback key gvk).bind fun fn =>
      if routesOf key gvk routes = [] then none else some (fn, routesOf key gvk routes) := by
  induction routes using List.reverseRecOn with
  | nil => cases d.callback key gvk <;> simp [updateMap, routesOf]
  | append_singleton routes route ih =>
    unfold updateMap at ih ⊢
    rw [List.foldl_append, List.foldl_cons, List.foldl_nil, h.updateRoute_eq]
    have hroutes : routesOf key gvk (routes ++ [route]) = routesOf key gvk routes ++
        if route.labels[key]? = some gvk then [route] else [] := by
      unfold routesOf
      rw [List.filter_append, List.filter_singleton]
      simp
    rw [hroutes]
    cases hl : route.labels[key]? with
    | none => simpa [hl] using ih
    | some gvk' =>
      dsimp only
      by_cases hg : gvk' = gvk
      · subst hg
        cases hcb : d.callback key gvk' with
        | none => simpa [hcb] using ih
        | some fn =>
          rw [hcb] at ih
          simp only [addRoute_getElem?, if_true, ih]
          by_cases hnil : routesOf key gvk' routes = []
          · simp [hnil]
          · simp [hnil]
      · have hother : some gvk' ≠ some gvk := fun heq => hg (Option.some.inj heq)
        rw [if_neg hother, List.append_nil, ← ih]
        cases d.callback key gvk' with
        | none => rfl
        | some fn => simp [addRoute_getElem?, hg]

/-- An update calls the callback of each value that one of the routes has, with the routes that have
it. -/
theorem OnlyKey.mem_handleUpdate (h : OnlyKey key d) (routes rs : List Route) (fn : F) :
    (fn, rs) ∈ handleUpdate d routes ↔
      ∃ gvk, d.callback key gvk = some fn ∧ rs = routesOf key gvk routes ∧ rs ≠ [] := by
  unfold handleUpdate
  rw [List.mem_map]
  constructor
  · rintro ⟨⟨gvk, v⟩, hv, rfl⟩
    rw [ExtTreeMap.mem_toList_iff_getElem?_eq_some, h.updateMap_getElem?,
      Option.bind_eq_some_iff] at hv
    obtain ⟨fn', hfn', hif⟩ := hv
    split at hif
    · cases hif
    · next hne =>
      cases hif
      exact ⟨gvk, hfn', rfl, hne⟩
  · rintro ⟨gvk, hfn, rfl, hne⟩
    refine ⟨(gvk, (fn, routesOf key gvk routes)), ?_, rfl⟩
    rw [ExtTreeMap.mem_toList_iff_getElem?_eq_some, h.updateMap_getElem?, hfn, Option.bind_some,
      if_neg hne]

end

end Watches
end K8sIpam.Ipam
