import K8sIpam.Resources.Resources

/-! # Applying resources in any order

Whatever the orders of the loops of `pkg/resources` over its maps: where they lead to, and which
requests they make in which order. -/

namespace K8sIpam.Resources
open Std Atomic

variable {X : Type}

/-! ## Requests -/

/-- The requests that a program makes. -/
def requests {α : Type} (P : Patch X) (p : Prog (sig X) Failure α) (s : Server X) : List (Op X) :=
  (p.trace (handler P) s).map Sigma.fst

section
variable {α β : Type} {P : Patch X} {s s' t : Server X}

/-- The requests of a sequence are those of its parts. -/
theorem requests_bind {p : Prog (sig X) Failure α} {f : α → Prog (sig X) Failure β} {a : α}
    (h : p.run (handler P) s = (.ok a, t)) :
    requests P (p >>= f) s = requests P p s ++ requests P (f a) t := by
  unfold requests
  rw [Prog.trace_bind_of_ok h, List.map_append]

theorem requests_op (o : Op X) (k : (sig X).Resp o → Prog (sig X) Failure α) :
    requests P (.op o k) s = o :: requests P (k (handler P o s).1) (handler P o s).2 := rfl

theorem requests_deleteAll {l : List (Ref × Object X)}
    (h : (deleteAll l).run (handler P) s = (.ok (), s')) :
    requests P (deleteAll l) s = l.map fun ro => .delete ro.1 := by
  induction l generalizing s with
  | nil => rfl
  | cons ro l ih =>
    simp only [deleteAll, Prog.run_op] at h
    rw [deleteAll, requests_op, List.map_cons]
    rcases hresp : handler P (.delete ro.1) s with ⟨(_ | e) | _, t⟩
    · rw [hresp] at h
      exact congrArg _ (ih h)
    · rw [hresp] at h
      cases h
    · rw [hresp] at h
      exact congrArg _ (ih h)

theorem requests_applyAll {l : List (Ref × Object X)}
    (h : (applyAll l).run (handler P) s = (.ok (), s')) :
    requests P (applyAll l) s = l.map fun ro => .apply ro.1 ro.2 := by
  induction l generalizing s with
  | nil => rfl
  | cons ro l ih =>
    simp only [applyAll, Prog.run_op] at h
    rw [applyAll, requests_op, List.map_cons]
    rcases hresp : handler P (.apply ro.1 ro.2) s with ⟨_ | _, t⟩
    · rw [hresp] at h
      cases h
    · rw [hresp] at h
      exact congrArg _ (ih h)

/-- The first loop deletes what is not a Namespace. -/
theorem requests_deletePriority {l kept : List (Ref × Object X)}
    (h : (deletePriority l).run (handler P) s = (.ok kept, s')) :
    requests P (deletePriority l) s =
      (l.filter fun ro => ¬ro.1.gvk.kind = "Namespace").map fun ro => .delete ro.1 := by
  induction l generalizing s s' kept with
  | nil => rfl
  | cons ro l ih =>
    unfold deletePriority at h ⊢
    by_cases hns : ro.1.gvk.kind = "Namespace"
    · rw [if_pos hns] at h ⊢
      obtain ⟨kept', t, hrest, -⟩ := (Prog.run_bind_ok _).mp h
      rw [requests_bind hrest, ih hrest, List.filter_cons_of_neg (by simpa using hns)]
      exact List.append_nil _
    · rw [if_neg hns] at h ⊢
      rw [requests_op, List.filter_cons_of_pos (by simpa using hns), List.map_cons]
      simp only [Prog.run_op] at h
      rcases hresp : handler P (.delete ro.1) s with ⟨(_ | e) | _, t⟩
      · rw [hresp] at h
        exact congrArg _ (ih h)
      · rw [hresp] at h
        cases h
      · rw [hresp] at h
        obtain ⟨kept', t', hrest, -⟩ := (Prog.run_bind_ok _).mp h
        dsimp only
        rw [requests_bind hrest, ih hrest]
        exact congrArg _ (List.append_nil _)

/-- Looking for the existing resources only lists. -/
theorem requests_getExistingResources {cfg : Config} {ml : List (String × String)} {cr : Owner}
    {gvks : List GroupVersionKind} {existing : Objects X} {op : Op X}
    (h : op ∈ requests P (getExistingResources cfg ml cr gvks existing) s) :
    ∃ gvk, op = .list gvk ml := by
  induction gvks generalizing existing s with
  | nil => cases h
  | cons gvk gvks ih =>
    rw [getExistingResources, requests_op] at h
    rcases List.mem_cons.mp h with rfl | h
    · exact ⟨gvk, rfl⟩
    · split at h
      · cases h
      · exact ih h

theorem delete_not_mem_getExistingResources {cfg : Config} {ml : List (String × String)}
    {cr : Owner} {gvks : List GroupVersionKind} {existing : Objects X} (r : Ref) :
    .delete r ∉ requests P (getExistingResources cfg ml cr gvks existing) s := by
  intro h
  obtain ⟨gvk, heq⟩ := requests_getExistingResources h
  cases heq

end

/-! ## What is applied and deleted -/

/-- `getExistingResources` lists the object for the resource. -/
def Listed (cfg : Config) (ml : List (String × String)) (cr : Owner) (s : Server X) (r : Ref) :
    Prop :=
  ∃ o, s.objects[r]? = some o ∧ r.gvk ∈ cfg.owns ∧ Matching ml o ∧ Owned cfg cr o

/-- The objects that are listed are deleted, and the other ones are as before. Other kinds come
before the Namespaces. -/
structure Deletes (listed : Ref → Prop) (s s' : Server X) (ops : List (Op X)) : Prop where
  gone : ∀ r, listed r → s'.objects[r]? = none
  untouched : ∀ r, ¬listed r → s'.objects[r]? = s.objects[r]?
  deleted : ∀ r, .delete r ∈ ops → listed r
  namespacesLast : ∀ xs ys r, ops = xs ++ .delete r :: ys → r.gvk.kind = "Namespace" →
    ∀ r', listed r' → r'.gvk.kind ≠ "Namespace" → .delete r' ∈ xs

/-- The API server matches the inventory of new resources. -/
structure Matches (P : Patch X) (listed : Ref → Prop) (newResources : Objects X)
    (s s' : Server X) (ops : List (Op X)) : Prop where
  gone : ∀ r, listed r → r ∉ newResources → s'.objects[r]? = none
  present : ∀ (r : Ref) o, newResources[r]? = some o →
    s'.objects[r]? = some (P.result s.objects[r]? o)
  untouched : ∀ r, ¬listed r → r ∉ newResources → s'.objects[r]? = s.objects[r]?
  notDeleted : ∀ r ∈ newResources, .delete r ∉ ops
  namespacesFirst : ∀ xs ys r o, ops = xs ++ .apply r o :: ys → r.gvk.kind ≠ "Namespace" →
    ∀ r' o', .apply r' o' ∈ ys → r'.gvk.kind ≠ "Namespace"
  namespacesLast : ∀ xs ys r, ops = xs ++ .delete r :: ys → r.gvk.kind = "Namespace" →
    ∀ r', listed r' → r' ∉ newResources → r'.gvk.kind ≠ "Namespace" → .delete r' ∈ xs

/-- What is not in the first part of a list is met after all of it. -/
theorem append_eq_of_not_mem {α : Type} {as bs xs ys : List α} {a : α}
    (h : as ++ bs = xs ++ a :: ys) (ha : a ∉ as) : ∃ zs, xs = as ++ zs ∧ bs = zs ++ a :: ys := by
  rcases List.append_eq_append_iff.mp h with ⟨zs, hxs, hbs⟩ | ⟨zs, has, hys⟩
  · exact ⟨zs, hxs, hbs⟩
  · cases zs with
    | nil => exact ⟨[], by simpa using has.symm, by simpa using hys.symm⟩
    | cons z zs =>
      obtain ⟨rfl, -⟩ := List.cons.inj hys
      exact absurd (has ▸ by simp) ha

/-- What is not in the last part of a list is met before it. -/
theorem append_eq_of_not_mem_right {α : Type} {as bs xs ys : List α} {a : α}
    (h : as ++ bs = xs ++ a :: ys) (ha : a ∉ bs) : ∃ zs, as = xs ++ a :: zs := by
  rcases List.append_eq_append_iff.mp h with ⟨zs, -, hbs⟩ | ⟨zs, has, hys⟩
  · exact absurd (hbs ▸ by simp) ha
  · cases zs with
    | nil => exact absurd (show a ∈ [] ++ bs from hys ▸ List.mem_cons_self) ha
    | cons z zs =>
      obtain ⟨rfl, -⟩ := List.cons.inj hys
      exact ⟨zs, has⟩

section
variable {P : Patch X} {s s' : Server X} {orders : Orders}

/-- The deletions, as a list: first of what is no Namespace, then of what the first loop keeps. -/
theorem apiDelete_requests {existing : Objects X}
    (h : (apiDelete orders existing).run (handler P) s = (.ok (), s')) :
    ∃ firsts rests : List (Op X), requests P (apiDelete orders existing) s = firsts ++ rests ∧
      (∀ op, op ∈ firsts ↔ ∃ r, op = .delete r ∧ r ∈ existing ∧ r.gvk.kind ≠ "Namespace") ∧
      ∀ op ∈ rests, ∃ r, op = .delete r ∧ r ∈ existing := by
  obtain ⟨kept, t, hfirst, hsecond⟩ := (Prog.run_bind_ok _).mp h
  have hall : requests P (apiDelete orders existing) s = _ := requests_bind hfirst
  rw [requests_deletePriority hfirst, requests_deleteAll hsecond] at hall
  refine ⟨_, _, hall, fun op => ?_, ?_⟩
  · constructor
    · intro hop
      obtain ⟨ro, hro, rfl⟩ := List.mem_map.mp hop
      obtain ⟨hmem, hns⟩ := List.mem_filter.mp hro
      exact ⟨ro.1, rfl, orders.priority.mem_keys.mp (List.mem_map_of_mem hmem), by simpa using hns⟩
    · rintro ⟨r, rfl, hr, hns⟩
      obtain ⟨ro, hro, rfl⟩ := List.mem_map.mp (orders.priority.mem_keys.mpr hr)
      exact List.mem_map.mpr ⟨ro, List.mem_filter.mpr ⟨hro, by simpa using hns⟩, rfl⟩
  · intro op hop
    obtain ⟨ro, hro, rfl⟩ := List.mem_map.mp hop
    have hmem := List.mem_map_of_mem (f := Prod.fst) (List.mem_filter.mp hro).1
    exact ⟨ro.1, rfl, orders.rest.mem_keys.mp hmem⟩

theorem apply_not_mem_apiDelete {existing : Objects X}
    (h : (apiDelete orders existing).run (handler P) s = (.ok (), s')) (r : Ref) (o : Object X) :
    .apply r o ∉ requests P (apiDelete orders existing) s := by
  intro hr
  obtain ⟨firsts, rests, hall, hfirsts, hrests⟩ := apiDelete_requests h
  rw [hall] at hr
  rcases List.mem_append.mp hr with hr | hr
  · obtain ⟨_, heq, -⟩ := (hfirsts _).mp hr
    cases heq
  · obtain ⟨_, heq, -⟩ := hrests _ hr
    cases heq

theorem apiCreate_requests {newResources : Objects X}
    (h : (apiCreate orders newResources).run (handler P) s = (.ok (), s')) :
    ∃ firsts rests : List (Op X), requests P (apiCreate orders newResources) s =
        firsts ++ rests ∧
      (∀ op ∈ firsts, ∃ r o, op = .apply r o ∧ r.gvk.kind = "Namespace") ∧
      ∀ op ∈ rests, ∃ r o, op = .apply r o ∧ r.gvk.kind ≠ "Namespace" := by
  obtain ⟨_, t, hfirst, hsecond⟩ := (Prog.run_bind_ok _).mp h
  have hall : requests P (apiCreate orders newResources) s = _ := requests_bind hfirst
  rw [requests_applyAll hfirst, requests_applyAll hsecond] at hall
  refine ⟨_, _, hall, fun op hop => ?_, fun op hop => ?_⟩
  · obtain ⟨ro, hro, rfl⟩ := List.mem_map.mp hop
    exact ⟨ro.1, ro.2, rfl, by simpa using (List.mem_filter.mp hro).2⟩
  · obtain ⟨ro, hro, rfl⟩ := List.mem_map.mp hop
    exact ⟨ro.1, ro.2, rfl, by simpa using (List.mem_filter.mp hro).2⟩

theorem delete_not_mem_apiCreate {newResources : Objects X}
    (h : (apiCreate orders newResources).run (handler P) s = (.ok (), s')) (r : Ref) :
    .delete r ∉ requests P (apiCreate orders newResources) s := by
  intro hr
  obtain ⟨firsts, rests, hall, hfirsts, hrests⟩ := apiCreate_requests h
  rw [hall] at hr
  rcases List.mem_append.mp hr with hr | hr
  · obtain ⟨_, _, heq, -⟩ := hfirsts _ hr
    cases heq
  · obtain ⟨_, _, heq, -⟩ := hrests _ hr
    cases heq

variable {cfg : Config} {ml : List (String × String)} {cr : Owner}

/-- Deleting what is in a map, after requests that do not delete. -/
theorem deletes_of_requests {existing : Objects X} {listed : Ref → Prop} {lists : List (Op X)}
    (hex : ∀ r, r ∈ existing ↔ listed r) (hlists : ∀ r, .delete r ∉ lists)
    (h : (apiDelete orders existing).run (handler P) s = (.ok (), s')) :
    Deletes listed s s' (lists ++ requests P (apiDelete orders existing) s) := by
  have hobj := apiDelete_ok h
  obtain ⟨firsts, rests, hall, hfirsts, hrests⟩ := apiDelete_requests h
  rw [hall]
  refine ⟨fun r hr => ?_, fun r hr => ?_, fun r hr => ?_, fun xs ys r hops hns r' hr' hns' => ?_⟩
  · rw [hobj, if_pos ((hex r).mpr hr)]
  · rw [hobj, if_neg fun h => hr ((hex r).mp h)]
  · rcases List.mem_append.mp hr with hlist | hr
    · exact absurd hlist (hlists r)
    rcases List.mem_append.mp hr with hr | hr
    · obtain ⟨r', heq, hmem, -⟩ := (hfirsts _).mp hr
      cases heq
      exact (hex r).mp hmem
    · obtain ⟨r', heq, hmem⟩ := hrests _ hr
      cases heq
      exact (hex r).mp hmem
  · -- the deletion of a Namespace is in the second loop
    rw [← List.append_assoc] at hops
    obtain ⟨zs, rfl, -⟩ := append_eq_of_not_mem hops fun hmem => by
      rcases List.mem_append.mp hmem with hlist | hr
      · exact hlists r hlist
      · obtain ⟨r'', heq, -, hne⟩ := (hfirsts _).mp hr
        cases heq
        exact hne hns
    have hfirst := (hfirsts (.delete r')).mpr ⟨r', rfl, (hex r').mpr hr', hns'⟩
    exact List.mem_append_left _ (List.mem_append_right _ hfirst)

/-- `APIApply` deletes what is listed and not wanted, and then applies what is wanted. -/
theorem apiApply_parts {newResources : Objects X}
    (h : (apiApply orders cfg ml cr newResources ∅).run (handler P) s = (.ok (), s')) :
    ∃ (s₁ : Server X) (deletes : List (Op X)),
      requests P (apiApply orders cfg ml cr newResources ∅) s =
        deletes ++ requests P (apiCreate orders newResources) s₁ ∧
      Deletes (fun r => Listed cfg ml cr s r ∧ r ∉ newResources) s s₁ deletes ∧
      (∀ r o, .apply r o ∉ deletes) ∧
      (apiCreate orders newResources).run (handler P) s₁ = (.ok (), s') := by
  obtain ⟨existing, s₀, hget, h⟩ := (Prog.run_bind_ok _).mp h
  have hops : requests P (apiApply orders cfg ml cr newResources ∅) s = _ := requests_bind hget
  obtain ⟨_, s₁, hdel, hcreate⟩ := (Prog.run_bind_ok _).mp h
  rw [requests_bind hdel, ← List.append_assoc] at hops
  obtain ⟨hobj, hex⟩ := getExistingResources_ok hget
  have hunwanted : ∀ r, r ∈ (orders.overlap.entries newResources).foldl
      (fun ex ro => ex.erase ro.1) existing ↔ Listed cfg ml cr s r ∧ r ∉ newResources := by
    intro r
    rw [mem_eraseAll, orders.overlap.mem_keys, hex]
    simp [Listed]
  have hlists : ∀ r, .delete r ∉ requests P (getExistingResources cfg ml cr cfg.owns ∅) s :=
    delete_not_mem_getExistingResources
  have D := deletes_of_requests hunwanted hlists hdel
  refine ⟨s₁, _, hops, ⟨D.gone, fun r hr => ?_, D.deleted, D.namespacesLast⟩, fun r o hmem => ?_,
    hcreate⟩
  · rw [D.untouched r hr, hobj]
  · rcases List.mem_append.mp hmem with hmem | hmem
    · obtain ⟨_, heq⟩ := requests_getExistingResources hmem
      cases heq
    · exact apply_not_mem_apiDelete hdel r o hmem

theorem apiApply_matches {newResources : Objects X}
    (h : (apiApply orders cfg ml cr newResources ∅).run (handler P) s = (.ok (), s')) :
    Matches P (Listed cfg ml cr s) newResources s s'
      (requests P (apiApply orders cfg ml cr newResources ∅) s) := by
  obtain ⟨s₁, deletes, hops, D, happly, hcreate⟩ := apiApply_parts h
  obtain ⟨hin, hout⟩ := apiCreate_ok hcreate
  obtain ⟨firsts, rests, hall, hfirsts, hrests⟩ := apiCreate_requests hcreate
  rw [hops]
  refine ⟨fun r hr hnew => ?_, fun r o hr => ?_, fun r hr hnew => ?_, fun r hr hmem => ?_,
    fun xs ys r o heq hns r' o' hmem => ?_, fun xs ys r heq hns r' hr' hnew' hns' => ?_⟩
  · rw [hout r hnew, D.gone r ⟨hr, hnew⟩]
  · have hnew : r ∈ newResources := ExtTreeMap.mem_iff_isSome_getElem?.mpr (by rw [hr]; rfl)
    rw [hin r o hr, D.untouched r fun hun => hun.2 hnew]
  · rw [hout r hnew, D.untouched r fun hun => hr hun.1]
  · rcases List.mem_append.mp hmem with hmem | hmem
    · exact (D.deleted r hmem).2 hr
    · exact delete_not_mem_apiCreate hcreate r hmem
  · -- it is applied by the last loop
    rw [hall, ← List.append_assoc] at heq
    obtain ⟨zs, -, hzs⟩ := append_eq_of_not_mem heq fun hmem => by
      rcases List.mem_append.mp hmem with hmem | hmem
      · exact happly r o hmem
      · obtain ⟨_, _, heq, hkind⟩ := hfirsts _ hmem
        cases heq
        exact hns hkind
    have hlast : .apply r' o' ∈ rests := by
      rw [hzs]
      exact List.mem_append_right _ (List.mem_cons_of_mem _ hmem)
    obtain ⟨_, _, heq, hkind⟩ := hrests _ hlast
    cases heq
    exact hkind
  · -- a deletion is not among the requests of the last two loops
    obtain ⟨zs, hzs⟩ := append_eq_of_not_mem_right heq (delete_not_mem_apiCreate hcreate r)
    exact D.namespacesLast xs zs r hzs hns r' ⟨hr', hnew'⟩ hns'

/-- Applying the same resources again deletes nothing. -/
theorem apiApply_again {orders' : Orders} {newResources : Objects X} {s'' : Server X}
    (h : (apiApply orders cfg ml cr newResources ∅).run (handler P) s = (.ok (), s'))
    (hagain : (apiApply orders' cfg ml cr newResources ∅).run (handler P) s' = (.ok (), s''))
    (r : Ref) : .delete r ∉ requests P (apiApply orders' cfg ml cr newResources ∅) s' := by
  intro hmem
  have M := apiApply_matches h
  obtain ⟨s₁, deletes, hops, D, -, hcreate⟩ := apiApply_parts hagain
  rw [hops] at hmem
  have hdelete := (List.mem_append.mp hmem).resolve_right (delete_not_mem_apiCreate hcreate r)
  obtain ⟨⟨o, ho, howned⟩, hnew⟩ := D.deleted r hdelete
  by_cases hlisted : Listed cfg ml cr s r
  · rw [M.gone r hlisted hnew] at ho
    cases ho
  · rw [M.untouched r hlisted hnew] at ho
    exact hlisted ⟨o, ho, howned⟩

/-- `APIDelete` deletes what it lists, and what an earlier call has left in the map. -/
theorem apiDeleteOwned_ok {existing : Objects X}
    (h : (apiDeleteOwned orders cfg ml cr existing).run (handler P) s = (.ok (), s')) :
    Deletes (fun r => r ∈ existing ∨ Listed cfg ml cr s r) s s'
      (requests P (apiDeleteOwned orders cfg ml cr existing) s) := by
  obtain ⟨existing', s₁, hget, hdel⟩ := (Prog.run_bind_ok _).mp h
  have hops : requests P (apiDeleteOwned orders cfg ml cr existing) s = _ := requests_bind hget
  obtain ⟨hobj, hex⟩ := getExistingResources_ok hget
  rw [hops]
  have hlists : ∀ r, .delete r ∉ requests P (getExistingResources cfg ml cr cfg.owns existing) s :=
    delete_not_mem_getExistingResources
  have D := deletes_of_requests hex hlists hdel
  exact ⟨D.gone, fun r hr => by rw [D.untouched r hr, hobj], D.deleted, D.namespacesLast⟩

end

/-- In whatever order the maps are iterated over: `APIApply` makes the API server match the inventory,
and `APIDelete` deletes exactly what it lists. After an `APIApply` that failed it deletes the objects
that are still in the map as well. -/
theorem resources_match (P : Patch X) (orders : Orders) (cfg : Config)
    (ml : List (String × String)) (cr : Owner) (newResources : Objects X) (s : Server X) :
    (∀ s', (apiApply orders cfg ml cr newResources ∅).run (handler P) s = (.ok (), s') →
      Matches P (Listed cfg ml cr s) newResources s s'
        (requests P (apiApply orders cfg ml cr newResources ∅) s)) ∧
    (∀ s', (apiDeleteOwned orders cfg ml cr ∅).run (handler P) s = (.ok (), s') →
      Deletes (Listed cfg ml cr s) s s' (requests P (apiDeleteOwned orders cfg ml cr ∅) s)) ∧
    ∀ existing s', (apiDeleteOwned orders cfg ml cr existing).run (handler P) s = (.ok (), s') →
      Deletes (fun r => r ∈ existing ∨ Listed cfg ml cr s r) s s'
        (requests P (apiDeleteOwned orders cfg ml cr existing) s) := by
  refine ⟨fun _ h => apiApply_matches h, fun _ h => ?_, fun _ _ h => apiDeleteOwned_ok h⟩
  have hlisted : (fun r => r ∈ (∅ : Objects X) ∨ Listed cfg ml cr s r) = Listed cfg ml cr s := by
    funext r
    simp
  exact hlisted ▸ apiDeleteOwned_ok h

/-- An object of an owner with a given content. -/
def ownedObject (cr : Owner) (content : Nat) : Object Nat := ⟨∅, [ownerReference cr], content⟩

def sampleOwner : Owner := ⟨⟨"topo.nephio.org", "v1alpha1", "RawTopology"⟩, "ns", "topo", "uid"⟩

def sampleRef (kind name : String) : Ref := ⟨⟨"inv.nephio.org", "v1alpha1", kind⟩, "ns", name⟩

def sampleConfig : Config := ⟨true, [(sampleRef "Namespace" "").gvk, (sampleRef "Link" "").gvk]⟩

/-- The server has a Namespace and two Links of the owner. -/
def sampleServer : Server Nat where
  objects := (((∅ : Objects Nat).insert (sampleRef "Namespace" "a") (ownedObject sampleOwner 1)).insert
    (sampleRef "Link" "b") (ownedObject sampleOwner 2)).insert
    (sampleRef "Link" "c") (ownedObject sampleOwner 3)
  fates := []

/-- An applied object replaces the one that is there. -/
def upsert : Patch Nat := ⟨fun _ new => new, fun _ _ => rfl⟩

def ordersByKey : Orders := ⟨.byKey, .byKey, .byKey, .byKey, .byKey⟩

/-- One of the Links is wanted with another content. -/
def sampleNew : Objects Nat := (∅ : Objects Nat).insert (sampleRef "Link" "b") (ownedObject sampleOwner 4)

/-- The map that an `APIApply` has left: a Link that the server lists, and one that is not there. -/
def sampleLeft : Objects Nat :=
  ((∅ : Objects Nat).insert (sampleRef "Link" "c") (ownedObject sampleOwner 3)).insert
    (sampleRef "Link" "d") (ownedObject sampleOwner 5)

theorem resources_match_sample :
    Matches upsert (Listed sampleConfig [] sampleOwner sampleServer) sampleNew sampleServer
      ((apiApply ordersByKey sampleConfig [] sampleOwner sampleNew ∅).run (handler upsert)
        sampleServer).2
      (requests upsert (apiApply ordersByKey sampleConfig [] sampleOwner sampleNew ∅)
        sampleServer) ∧
    Deletes (Listed sampleConfig [] sampleOwner sampleServer) sampleServer
      ((apiDeleteOwned ordersByKey sampleConfig [] sampleOwner ∅).run (handler upsert)
        sampleServer).2
      (requests upsert (apiDeleteOwned ordersByKey sampleConfig [] sampleOwner ∅) sampleServer) ∧
    Deletes (fun r => r ∈ sampleLeft ∨ Listed sampleConfig [] sampleOwner sampleServer r) sampleServer
      ((apiDeleteOwned ordersByKey sampleConfig [] sampleOwner sampleLeft).run (handler upsert)
        sampleServer).2
      (requests upsert (apiDeleteOwned ordersByKey sampleConfig [] sampleOwner sampleLeft)
        sampleServer) := by
  have H := resources_match upsert ordersByKey sampleConfig [] sampleOwner sampleNew sampleServer
  exact ⟨H.1 _ (Prod.ext (by decide +kernel) rfl), H.2.1 _ (Prod.ext (by decide +kernel) rfl),
    H.2.2 _ _ (Prod.ext (by decide +kernel) rfl)⟩

end K8sIpam.Resources
