import K8sIpam.Lib.RangeOrder
import K8sIpam.Lib.Run
import K8sIpam.Ipam.Watcher

/-! # Which callbacks an update reaches

`handleUpdate` collects the routes by the value of the label only, while the callbacks are
registered by its key and its value. The maps are iterated over in any order, each time another
one. -/

namespace K8sIpam.Ipam
open Std

/-- The orders in which the registry is walked through for one route: the one of the label keys, and
that of the values of each key. -/
structure RouteOrder where
  keys : RangeOrder String
  values : String → RangeOrder String

theorem entries_filter_key (o : RangeOrder String) {α : Type} (t : ExtTreeMap String α)
    (k : String) :
    (o.entries t).filter (fun kv => k = kv.1) = (t[k]?.toList).map fun a => (k, a) := by
  have hperm := (o.perm t).filter fun kv => decide (k = kv.1)
  rw [Watches.toList_filter_key] at hperm
  cases ht : t[k]? with
  | none =>
    rw [ht] at hperm
    exact hperm.eq_nil
  | some a =>
    rw [ht] at hperm
    exact List.perm_singleton.mp hperm

inductive WatchCall (F : Type) where
  | addWatch (ownerGvkKey ownerGvk : String) (fn : F)
  | deleteWatch (ownerGvkKey ownerGvk : String)

variable {F : Type}

namespace Watches

def call (d : Watches F) : WatchCall F → Watches F
  | .addWatch key gvk fn => d.addWatch key gvk fn
  | .deleteWatch key gvk => d.deleteWatch key gvk

/-- The registry after a list of calls. -/
def after (cs : List (WatchCall F)) : Watches F := Run.run call ∅ cs

def updateRouteIn (o : RouteOrder) (d : Watches F) (u : UpdateMap F) (route : Route) :
    UpdateMap F :=
  (o.keys.entries d).foldl (fun u entry =>
    match route.labels[entry.1]? with
    | some ownerGvkValue =>
      ((o.values entry.1).entries entry.2).foldl (fun u watch =>
        if ownerGvkValue = watch.1 then addRoute u ownerGvkValue watch.2 route else u) u
    | none => u) u

def updateMapIn (d : Watches F) (routes : List (RouteOrder × Route)) : UpdateMap F :=
  routes.foldl (fun u r => updateRouteIn r.1 d u r.2) ∅

/-- The calls that an update makes, in the order of the last loop. -/
def handleUpdateIn (last : RangeOrder String) (d : Watches F) (routes : List (RouteOrder × Route)) :
    List (F × List Route) :=
  (last.entries (updateMapIn d routes)).map Prod.snd

theorem handleUpdateIn_byKey (d : Watches F) (routes : List Route) :
    handleUpdateIn .byKey d (routes.map fun route => (⟨.byKey, fun _ => .byKey⟩, route)) =
      handleUpdate d routes := by
  unfold handleUpdateIn handleUpdate updateMapIn updateMap
  rw [List.foldl_map]
  rfl

/-! ## The calls that are due -/

/-- A callback is registered for the value of the label, and one of the routes has it. -/
def Concerns (d : Watches F) (routes : List Route) (key gvk : String) : Prop :=
  (d.callback key gvk).isSome ∧ ∃ route ∈ routes, route.labels[key]? = some gvk

/-- The callbacks that one of the routes concerns, with the key and the value of each. -/
def concerned (d : Watches F) (routes : List Route) : List (String × String × F) :=
  d.toList.flatMap fun entry =>
    (entry.2.toList.filter fun watch => routesOf entry.1 watch.1 routes ≠ []).map
      fun watch => (entry.1, watch.1, watch.2)

/-- One call for each of them, with the routes whose label has the value. -/
def dueCalls (d : Watches F) (routes : List Route) : List (F × List Route) :=
  (concerned d routes).map fun c => (c.2.2, routesOf c.1 c.2.1 routes)

section
variable {d : Watches F} {routes : List Route} {key gvk : String} {fn : F}

theorem routesOf_ne_nil :
    routesOf key gvk routes ≠ [] ↔ ∃ route ∈ routes, route.labels[key]? = some gvk := by
  unfold routesOf
  rw [ne_eq, List.filter_eq_nil_iff]
  simp

theorem mem_concerned : (key, gvk, fn) ∈ concerned d routes ↔
    d.callback key gvk = some fn ∧ routesOf key gvk routes ≠ [] := by
  unfold concerned callback
  simp only [List.mem_flatMap, List.mem_map, List.mem_filter, decide_eq_true_eq, Prod.exists,
    ExtTreeMap.mem_toList_iff_getElem?_eq_some, Prod.mk.injEq, Option.bind_eq_some_iff]
  constructor
  · rintro ⟨k, values, hk, v, f, ⟨hv, hne⟩, rfl, rfl, rfl⟩
    exact ⟨⟨values, hk, hv⟩, hne⟩
  · rintro ⟨⟨values, hk, hv⟩, hne⟩
    exact ⟨key, values, hk, gvk, fn, ⟨hv, hne⟩, rfl, rfl, rfl⟩

/-- No label is listed twice. -/
theorem nodup_concerned (d : Watches F) (routes : List Route) :
    ((concerned d routes).map fun c => (c.1, c.2.1)).Nodup := by
  unfold concerned
  rw [List.map_flatMap, List.nodup_flatMap]
  constructor
  · intro entry _
    rw [List.map_map]
    refine List.pairwise_map.mpr (((pairwise_toList entry.2).filter _).imp fun hne heq => hne ?_)
    exact (Prod.mk.inj heq).2
  · refine (pairwise_toList d).imp fun hne c hc hc' => hne ?_
    simp only [List.mem_map, List.mem_filter] at hc hc'
    obtain ⟨_, ⟨_, _, rfl⟩, rfl⟩ := hc
    obtain ⟨_, ⟨_, _, rfl⟩, heq⟩ := hc'
    exact (Prod.mk.inj heq).1.symm

theorem concerns_iff : Concerns d routes key gvk ↔ ∃ fn, (key, gvk, fn) ∈ concerned d routes := by
  unfold Concerns
  simp only [mem_concerned, Option.isSome_iff_exists, exists_and_right, routesOf_ne_nil]

end

/-! ## What is collected -/

/-- The values and callbacks that a route is added for, in the order in which they are met. -/
def hits (o : RouteOrder) (d : Watches F) (route : Route) : List (String × F) :=
  (o.keys.entries d).flatMap fun entry =>
    (route.labels[entry.1]?.bind fun gvk => entry.2[gvk]?.map fun fn => (gvk, fn)).toList

/-- What all routes are added for. -/
def adds (d : Watches F) (routes : List (RouteOrder × Route)) : List (String × F × Route) :=
  routes.flatMap fun r => (hits r.1 d r.2).map fun hit => (hit.1, hit.2, r.2)

theorem updateRouteIn_eq (o : RouteOrder) (d : Watches F) (u : UpdateMap F) (route : Route) :
    updateRouteIn o d u route =
      (hits o d route).foldl (fun u hit => addRoute u hit.1 hit.2 route) u := by
  unfold updateRouteIn hits
  rw [List.foldl_flatMap]
  congr 1
  funext u entry
  cases route.labels[entry.1]? with
  | none => rfl
  | some gvk =>
    have hfold : ((o.values entry.1).entries entry.2).foldl (fun u watch =>
        if gvk = watch.1 then addRoute u gvk watch.2 route else u) u =
        (((o.values entry.1).entries entry.2).filter fun watch => gvk = watch.1).foldl
          (fun u watch => addRoute u gvk watch.2 route) u := by
      rw [List.foldl_filter]
      simp
    dsimp only [Option.bind_some]
    rw [hfold, entries_filter_key]
    cases entry.2[gvk]? <;> rfl

theorem updateMapIn_eq (d : Watches F) (routes : List (RouteOrder × Route)) :
    updateMapIn d routes = (adds d routes).foldl (fun u a => addRoute u a.1 a.2.1 a.2.2) ∅ := by
  unfold updateMapIn adds
  rw [List.foldl_flatMap]
  congr 1
  funext u r
  rw [updateRouteIn_eq, List.foldl_map]

/-- Under each value stand the first callback and all routes that were added for it. -/
theorem foldl_addRoute_getElem? (as : List (String × F × Route)) (gvk : String) :
    (as.foldl (fun u a => addRoute u a.1 a.2.1 a.2.2) (∅ : UpdateMap F))[gvk]? =
      (as.filter fun a => gvk = a.1).head?.map fun a =>
        (a.2.1, (as.filter fun a => gvk = a.1).map fun a => a.2.2) := by
  induction as using List.reverseRecOn with
  | nil => simp
  | append_singleton as a ih =>
    rw [List.foldl_append, List.foldl_cons, List.foldl_nil, addRoute_getElem?, List.filter_append]
    by_cases hgvk : gvk = a.1
    · subst hgvk
      rw [ih]
      cases as.filter fun b => a.1 = b.1 with
      | nil => simp
      | cons b bs => simp
    · rw [if_neg fun heq => hgvk heq.symm, ih]
      simp [hgvk]

section
variable {d : Watches F} {o : RouteOrder} {route : Route} {routes : List (RouteOrder × Route)}
  {key gvk : String} {fn : F}

theorem mem_hits : (gvk, fn) ∈ hits o d route ↔
    ∃ key, route.labels[key]? = some gvk ∧ d.callback key gvk = some fn := by
  unfold hits callback
  simp only [List.mem_flatMap, Prod.exists, o.keys.mem_entries, Option.mem_toList,
    Option.bind_eq_some_iff, Option.map_eq_some_iff, Prod.mk.injEq]
  constructor
  · rintro ⟨k, values, hk, v, hv, f, hf, rfl, rfl⟩
    exact ⟨k, hv, values, hk, hf⟩
  · rintro ⟨k, hv, values, hk, hf⟩
    exact ⟨k, values, hk, gvk, hv, fn, hf, rfl, rfl⟩

/-- A value is collected when some label concerns it. -/
theorem updateMapIn_isSome : (updateMapIn d routes)[gvk]?.isSome ↔
    ∃ key, Concerns d (routes.map Prod.snd) key gvk := by
  rw [updateMapIn_eq, foldl_addRoute_getElem?, Option.isSome_map, Option.isSome_iff_ne_none,
    ne_eq, List.head?_eq_none_iff, List.filter_eq_nil_iff]
  simp only [not_forall, decide_eq_true_eq, not_not, Concerns, List.mem_map, Prod.exists, adds,
    List.mem_flatMap, Option.isSome_iff_exists]
  constructor
  · rintro ⟨v, f, _, ⟨o, route, hr, v', f', hhit, heq⟩, rfl⟩
    obtain ⟨rfl, rfl, rfl⟩ : v' = gvk ∧ f' = f ∧ route = _ := by simpa using heq
    obtain ⟨key, hlabel, hfn⟩ := mem_hits.mp hhit
    exact ⟨key, ⟨_, hfn⟩, route, ⟨o, route, hr, rfl⟩, hlabel⟩
  · rintro ⟨key, ⟨f, hfn⟩, _, ⟨o, route, hr, rfl⟩, hlabel⟩
    exact ⟨gvk, f, route, ⟨o, route, hr, gvk, f, mem_hits.mpr ⟨key, hlabel, hfn⟩, rfl⟩, rfl⟩

/-- Entries that give nothing can be left out. -/
theorem flatMap_eq_flatMap_filter {α β : Type} {f : α → List β} {p : α → Bool} {l : List α}
    (h : ∀ a ∈ l, p a = false → f a = []) : l.flatMap f = (l.filter p).flatMap f := by
  induction l with
  | nil => rfl
  | cons a l ih =>
    have ih := ih fun b hb => h b (List.mem_cons_of_mem a hb)
    cases hp : p a with
    | false => rw [List.flatMap_cons, h a List.mem_cons_self hp, ih, List.filter_cons, hp]; rfl
    | true => rw [List.filter_cons, hp, List.flatMap_cons, ih]; rfl

/-- A route is added once for a value whose only label is a given one. -/
theorem hits_filter (hfn : d.callback key gvk = some fn)
    (honly : ∀ k, route.labels[k]? = some gvk → (d.callback k gvk).isSome → k = key) :
    (hits o d route).filter (fun hit => gvk = hit.1) =
      if route.labels[key]? = some gvk then [(gvk, fn)] else [] := by
  unfold hits
  rw [List.filter_flatMap, flatMap_eq_flatMap_filter (p := fun entry => decide (key = entry.1)),
    entries_filter_key]
  · obtain ⟨values, hd, hv⟩ := Option.bind_eq_some_iff.mp hfn
    simp only [hd, Option.toList_some, List.map_cons, List.map_nil, List.flatMap_cons,
      List.flatMap_nil, List.append_nil]
    cases hlabel : route.labels[key]? with
    | none => rfl
    | some v =>
      by_cases hgvk : gvk = v
      · subst hgvk
        simp [hv]
      · have hne : some v ≠ some gvk := fun heq => hgvk (Option.some.inj heq).symm
        rw [if_neg hne, List.filter_eq_nil_iff]
        intro hit hhit
        obtain ⟨f, -, rfl⟩ := Option.map_eq_some_iff.mp (Option.mem_toList.mp hhit)
        simpa using hgvk
  · rintro ⟨k, values⟩ hentry hkey
    have hk : key ≠ k := of_decide_eq_false hkey
    have hd : d[k]? = some values := o.keys.mem_entries.mp hentry
    rw [List.filter_eq_nil_iff]
    intro hit hhit
    obtain ⟨v, hlabel, hmap⟩ := Option.bind_eq_some_iff.mp (Option.mem_toList.mp hhit)
    obtain ⟨f, hf, rfl⟩ := Option.map_eq_some_iff.mp hmap
    simp only [decide_eq_true_eq]
    rintro rfl
    refine hk (honly k hlabel ?_).symm
    rw [callback, hd, Option.bind_some, hf]
    rfl

theorem adds_filter (hfn : d.callback key gvk = some fn)
    (honly : ∀ k, Concerns d (routes.map Prod.snd) k gvk → k = key) :
    (adds d routes).filter (fun a => gvk = a.1) =
      (routesOf key gvk (routes.map Prod.snd)).map fun route => (gvk, fn, route) := by
  induction routes with
  | nil => rfl
  | cons r routes ih =>
    have hhead : ∀ k, r.2.labels[k]? = some gvk → (d.callback k gvk).isSome → k = key :=
      fun k hlabel hcb => honly k ⟨hcb, r.2, List.mem_cons_self, hlabel⟩
    have htail : ∀ k, Concerns d (routes.map Prod.snd) k gvk → k = key :=
      fun k ⟨hcb, route, hroute, hlabel⟩ =>
        honly k ⟨hcb, route, List.mem_cons_of_mem _ hroute, hlabel⟩
    have hmap : ((hits r.1 d r.2).map fun hit => (hit.1, hit.2, r.2)).filter
        (fun a => gvk = a.1) = if r.2.labels[key]? = some gvk then [(gvk, fn, r.2)] else [] := by
      rw [List.filter_map]
      have hhits := hits_filter (o := r.1) hfn hhead
      simp only [Function.comp_def, hhits]
      split <;> rfl
    unfold adds at ih ⊢
    rw [List.flatMap_cons, List.filter_append, hmap, ih htail]
    unfold routesOf
    rw [List.map_cons, List.filter_cons]
    by_cases hlabel : r.2.labels[key]? = some gvk
    · simp [hlabel]
    · simp [hlabel]

/-- A value that one label concerns has the callback and the routes of that label. -/
theorem updateMapIn_getElem? (hfn : d.callback key gvk = some fn)
    (hroutes : routesOf key gvk (routes.map Prod.snd) ≠ [])
    (honly : ∀ k, Concerns d (routes.map Prod.snd) k gvk → k = key) :
    (updateMapIn d routes)[gvk]? = some (fn, routesOf key gvk (routes.map Prod.snd)) := by
  rw [updateMapIn_eq, foldl_addRoute_getElem?, adds_filter hfn honly, List.map_map]
  obtain ⟨route, rs, hrs⟩ := List.exists_cons_of_ne_nil hroutes
  rw [hrs]
  simp [Function.comp_def]

end

/-! ## The calls that are made -/

/-- At most one label concerns each value. -/
def OneKey (d : Watches F) (routes : List Route) : Prop :=
  ∀ key key' gvk, Concerns d routes key gvk → Concerns d routes key' gvk → key = key'

section
variable {d : Watches F} {routes : List (RouteOrder × Route)} {last : RangeOrder String}

theorem mem_updateMapIn (h : OneKey d (routes.map Prod.snd)) {gvk : String} {fn : F}
    {rs : List Route} : (gvk, fn, rs) ∈ (updateMapIn d routes).toList ↔
      ∃ key, (key, gvk, fn) ∈ concerned d (routes.map Prod.snd) ∧
        rs = routesOf key gvk (routes.map Prod.snd) := by
  rw [ExtTreeMap.mem_toList_iff_getElem?_eq_some]
  constructor
  · intro hget
    obtain ⟨key, hc⟩ := updateMapIn_isSome.mp (by rw [hget]; rfl)
    obtain ⟨fn', hmem⟩ := concerns_iff.mp hc
    obtain ⟨hfn, hne⟩ := mem_concerned.mp hmem
    have hget' := updateMapIn_getElem? hfn hne fun k hk => h k key gvk hk hc
    cases hget.symm.trans hget'
    exact ⟨key, hmem, rfl⟩
  · rintro ⟨key, hmem, rfl⟩
    obtain ⟨hfn, hne⟩ := mem_concerned.mp hmem
    exact updateMapIn_getElem? hfn hne fun k hk => h k key gvk hk (concerns_iff.mpr ⟨fn, hmem⟩)

theorem handleUpdateIn_perm (h : OneKey d (routes.map Prod.snd)) :
    (handleUpdateIn last d routes).Perm (dueCalls d (routes.map Prod.snd)) := by
  -- both sides with the value of each call
  have hvalues : (updateMapIn d routes).toList.Perm ((concerned d (routes.map Prod.snd)).map
      fun c => (c.2.1, c.2.2, routesOf c.1 c.2.1 (routes.map Prod.snd))) := by
    refine (List.perm_ext_iff_of_nodup ?_ ?_).mpr ?_
    · exact (pairwise_toList _).imp fun hne heq => hne (by rw [heq])
    · refine List.pairwise_map.mpr ?_
      have hdistinct := List.pairwise_map.mp (nodup_concerned d (routes.map Prod.snd))
      refine hdistinct.imp_of_mem fun {c c'} hc hc' hne heq => hne ?_
      obtain ⟨hgvk, -⟩ := Prod.mk.inj heq
      have hkey := h c.1 c'.1 c.2.1 (concerns_iff.mpr ⟨_, hc⟩)
        (concerns_iff.mpr ⟨c'.2.2, hgvk ▸ hc'⟩)
      rw [hkey, hgvk]
    · rintro ⟨gvk, fn, rs⟩
      rw [mem_updateMapIn h, List.mem_map]
      constructor
      · rintro ⟨key, hmem, rfl⟩
        exact ⟨(key, gvk, fn), hmem, rfl⟩
      · rintro ⟨⟨key, gvk', fn'⟩, hmem, heq⟩
        cases heq
        exact ⟨key, hmem, rfl⟩
  have hcalls := ((last.perm (updateMapIn d routes)).trans hvalues).map Prod.snd
  rw [List.map_map] at hcalls
  exact hcalls

/-- There is one call for each value, so with as many calls as are due no value has two labels. -/
theorem oneKey_of_length
    (h : (handleUpdateIn last d routes).length = (dueCalls d (routes.map Prod.snd)).length) :
    OneKey d (routes.map Prod.snd) := by
  have hkeys : ((updateMapIn d routes).toList.map Prod.fst).toFinset =
      ((concerned d (routes.map Prod.snd)).map fun c => c.2.1).toFinset := by
    ext gvk
    have hsome : (updateMapIn d routes)[gvk]?.isSome ↔ _ := updateMapIn_isSome
    simp only [Option.isSome_iff_exists, concerns_iff] at hsome
    simp only [List.mem_toFinset, List.mem_map, Prod.exists, exists_and_right, exists_eq_right,
      ExtTreeMap.mem_toList_iff_getElem?_eq_some]
    simpa using hsome
  have hnodup : ((updateMapIn d routes).toList.map Prod.fst).Nodup :=
    List.pairwise_map.mpr (pairwise_toList _)
  have hcard := List.toFinset_card_of_nodup hnodup
  rw [hkeys, List.length_map] at hcard
  unfold handleUpdateIn dueCalls at h
  rw [List.length_map, List.length_map, (last.perm _).length_eq, ← hcard] at h
  have hinj : ((concerned d (routes.map Prod.snd)).map fun c => c.2.1).Nodup := by
    rw [← Multiset.coe_nodup, ← Multiset.toFinset_card_eq_card_iff_nodup, Multiset.coe_card,
      List.length_map]
    exact h
  intro key key' gvk hc hc'
  obtain ⟨fn, hmem⟩ := concerns_iff.mp hc
  obtain ⟨fn', hmem'⟩ := concerns_iff.mp hc'
  have heq := List.inj_on_of_nodup_map hinj hmem hmem' rfl
  exact (Prod.mk.inj heq).1

theorem OnlyKey.oneKey {key : String} (h : OnlyKey key d) (rs : List Route) : OneKey d rs := by
  have hkey : ∀ {k gvk}, Concerns d rs k gvk → k = key := by
    rintro k gvk ⟨hfn, -⟩
    obtain ⟨fn, hfn⟩ := Option.isSome_iff_exists.mp hfn
    obtain ⟨values, hget, -⟩ := Option.bind_eq_some_iff.mp hfn
    exact h k (ExtTreeMap.mem_iff_isSome_getElem?.mpr (by rw [hget]; rfl))
  exact fun k k' gvk hc hc' => (hkey hc).trans (hkey hc').symm

/-- With one key the calls are those of an update in key order. -/
theorem OnlyKey.mem_handleUpdateIn {key : String} (h : OnlyKey key d) {call : F × List Route} :
    call ∈ handleUpdateIn last d routes ↔ call ∈ handleUpdate d (routes.map Prod.snd) := by
  have hdue := h.oneKey (routes.map Prod.snd)
  let byKey := (routes.map Prod.snd).map fun route =>
    ((⟨.byKey, fun _ => .byKey⟩ : RouteOrder), route)
  have hroutes : byKey.map Prod.snd = routes.map Prod.snd := by simp [byKey]
  have hperm : (handleUpdateIn .byKey d byKey).Perm (dueCalls d (byKey.map Prod.snd)) :=
    handleUpdateIn_perm (hroutes.symm ▸ hdue)
  rw [hroutes, handleUpdateIn_byKey] at hperm
  exact ((handleUpdateIn_perm hdue).trans hperm.symm).mem_iff

end

/-- An update makes exactly the calls that are due, in whatever order the maps are iterated over, if
and only if no two labels with one value concern the routes. -/
theorem handleUpdateIn_perm_iff (cs : List (WatchCall F)) (last : RangeOrder String)
    (routes : List (RouteOrder × Route)) :
    (handleUpdateIn last (after cs) routes).Perm (dueCalls (after cs) (routes.map Prod.snd)) ↔
      OneKey (after cs) (routes.map Prod.snd) :=
  ⟨fun h => oneKey_of_length h.length_eq, handleUpdateIn_perm⟩

/-- Two labels with one value, whose callbacks are named after them. -/
def twoLabels : List (WatchCall String) :=
  [.addWatch "ipam" "a" "onIpam", .addWatch "vlan" "a" "onVlan"]

/-- A route of each of the two labels. -/
def ipamRoute : Route := ⟨.single ⟨.ipv4, 1, by decide⟩, (∅ : Labels).insert "ipam" "a"⟩
def vlanRoute : Route := ⟨.single ⟨.ipv4, 2, by decide⟩, (∅ : Labels).insert "vlan" "a"⟩

/-- The callback of the first label gets the route of the other one too, and that of the second label
is not called. -/
theorem update_merges_labels :
    handleUpdate (after twoLabels) [ipamRoute, vlanRoute] =
      [("onIpam", [ipamRoute, vlanRoute])] ∧
    dueCalls (after twoLabels) [ipamRoute, vlanRoute] =
      [("onIpam", [ipamRoute]), ("onVlan", [vlanRoute])] ∧
    ¬(handleUpdate (after twoLabels) [ipamRoute, vlanRoute]).Perm
      (dueCalls (after twoLabels) [ipamRoute, vlanRoute]) := by
  decide +kernel

end Watches
end K8sIpam.Ipam
