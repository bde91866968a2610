import K8sIpam.Api.Meta
import K8sIpam.Lib.RangeOrder

/-! # The resources that a controller owns

`pkg/resources`: a controller collects the objects that it wants, and `APIApply` deletes the ones it
finds that are no longer wanted and applies the others. How a patch changes an object is decided by
the API server and is a parameter, but for the list of owner references, which it replaces. -/

namespace K8sIpam.Resources
open Std Atomic

/-- A `corev1.ObjectReference` with the fields that `pkg/resources` sets. -/
structure Ref where
  gvk : GroupVersionKind
  ns : String
  name : String
  deriving DecidableEq

def Ref.key (r : Ref) : List String := [r.gvk.group, r.gvk.version, r.gvk.kind, r.ns, r.name]

theorem Ref.key_injective : Function.Injective Ref.key := by
  rintro ⟨⟨g, v, k⟩, ns, name⟩ ⟨⟨g', v', k'⟩, ns', name'⟩ h
  simp only [Ref.key, List.cons.injEq, and_true] at h
  obtain ⟨rfl, rfl, rfl, rfl, rfl⟩ := h
  rfl

instance : Ord Ref := ⟨compareOn Ref.key⟩

instance : TransCmp (compare : Ref → Ref → Ordering) := inferInstanceAs (TransCmp (compareOn Ref.key))

instance : LawfulEqCmp (compare : Ref → Ref → Ordering) where
  eq_of_compare {r r'} h := by
    have hkey : compare r.key r'.key = .eq := h
    exact Ref.key_injective (LawfulEqCmp.eq_of_compare hkey)

structure OwnerReference where
  apiVersion : String
  kind : String
  name : String
  uid : String
  deriving DecidableEq

structure Object (X : Type) where
  labels : Labels
  owners : List OwnerReference
  spec : X
  deriving DecidableEq

abbrev Objects (X : Type) := ExtTreeMap Ref (Object X)

/-- What `pkg/resources` reads of the resource that the controller is for. -/
structure Owner where
  gvk : GroupVersionKind
  ns : String
  name : String
  uid : String
  deriving DecidableEq

structure Config where
  ownerRef : Bool
  owns : List GroupVersionKind

variable {X : Type}

/-! ## The API server -/

inductive DeleteError where
  | notFound
  | other (e : Failure)

inductive Op (X : Type) where
  | list (gvk : GroupVersionKind) (matchLabels : List (String × String))
  | delete (ref : Ref)
  | apply (ref : Ref) (o : Object X)

abbrev sig (X : Type) : Sig where
  Op := Op X
  Resp
    | .list _ _ => Except Failure (List (Ref × Object X))
    | .delete _ => Except DeleteError Unit
    | .apply _ _ => Except Failure Unit

/-- How the API server merges an applied object into the one it has. -/
structure Patch (X : Type) where
  patch : Object X → Object X → Object X
  patch_owners : ∀ old new, (patch old new).owners = new.owners

/-- The objects, and for the requests to come whether they fail. -/
structure Server (X : Type) where
  objects : Objects X
  fates : List (Option Failure)

def Server.tick (s : Server X) : Option Failure × Server X :=
  match s.fates with
  | [] => (none, s)
  | f :: fs => (f, { s with fates := fs })

def Matching (matchLabels : List (String × String)) (o : Object X) : Prop :=
  ∀ kv ∈ matchLabels, o.labels[kv.1]? = some kv.2

instance (matchLabels : List (String × String)) (o : Object X) : Decidable (Matching matchLabels o) :=
  inferInstanceAs (Decidable (∀ kv ∈ matchLabels, _))

/-- What is stored under a reference once an object was applied. -/
def Patch.result (P : Patch X) (old : Option (Object X)) (new : Object X) : Object X :=
  match old with
  | none => new
  | some old => P.patch old new

def handler (P : Patch X) : Handler (sig X) (Server X)
  | .list gvk ml, s =>
    match s.tick with
    | (some e, s') => (.error e, s')
    | (none, s') => (.ok (s'.objects.toList.filter fun ro => ro.1.gvk = gvk ∧ Matching ml ro.2), s')
  | .delete ref, s =>
    match s.tick with
    | (some e, s') => (.error (.other e), s')
    | (none, s') =>
      if ref ∈ s'.objects then (.ok (), { s' with objects := s'.objects.erase ref })
      else (.error .notFound, s')
  | .apply ref o, s =>
    match s.tick with
    | (some e, s') => (.error e, s')
    | (none, s') =>
      (.ok (), { s' with objects := s'.objects.insert ref (P.result s'.objects[ref]? o) })

/-! ## The code -/

def nephioOwnerRefKey := "nephio.org/owner-ref"

/-- `schema.GroupVersion.String`. -/
def groupVersion (gvk : GroupVersionKind) : String :=
  if gvk.group = "" then gvk.version else gvk.group ++ "/" ++ gvk.version

/-- `OwnerRef.String`: the parts that are set, with every slash replaced. -/
def ownerRefString (cr : Owner) : String :=
  let part (s : String) := if s = "" then "" else "." ++ s
  String.ofList <| ("ref" ++ part (groupVersion cr.gvk) ++ part cr.gvk.kind ++ part cr.ns ++
    part cr.name).toList.map fun c => if c = '/' then '_' else c

def ownerReference (cr : Owner) : OwnerReference :=
  ⟨groupVersion cr.gvk, cr.gvk.kind, cr.name, cr.uid⟩

def addNewResource (cfg : Config) (cr : Owner) (newResources : Objects X) (ref : Ref)
    (o : Object X) : Objects X :=
  newResources.insert ref <|
    if cfg.ownerRef then { o with owners := [ownerReference cr] }
    else { o with labels := o.labels.insert nephioOwnerRefKey (ownerRefString cr) }

/-- The test by which an object that was listed is taken to be owned. -/
def Owned (cfg : Config) (cr : Owner) (o : Object X) : Prop :=
  if cfg.ownerRef then ∃ ref ∈ o.owners, ref.uid = cr.uid
  else o.labels[nephioOwnerRefKey]? = some (ownerRefString cr)

instance (cfg : Config) (cr : Owner) (o : Object X) : Decidable (Owned cfg cr o) := by
  unfold Owned
  infer_instance

def addExisting (cfg : Config) (cr : Owner) (existing : Objects X) (items : List (Ref × Object X)) :
    Objects X :=
  items.foldl (fun ex ro => if Owned cfg cr ro.2 then ex.insert ro.1 ro.2 else ex) existing

/-- `getExistingResources`, for the kinds that are left. -/
def getExistingResources (cfg : Config) (ml : List (String × String)) (cr : Owner) :
    List GroupVersionKind → Objects X → Prog (sig X) Failure (Objects X)
  | [], existing => .ret existing
  | gvk :: gvks, existing =>
    .op (.list gvk ml) fun
    | .error e => .fail e
    | .ok items => getExistingResources cfg ml cr gvks (addExisting cfg cr existing items)

/-- The first loop of `apiDelete`, and what it leaves in the map for the second. -/
def deletePriority : List (Ref × Object X) → Prog (sig X) Failure (List (Ref × Object X))
  | [] => .ret []
  | ro :: rest =>
    if ro.1.gvk.kind = "Namespace" then do
      let kept ← deletePriority rest
      return ro :: kept
    else
      .op (.delete ro.1) fun
      | .error (.other e) => .fail e
      | .error .notFound => deletePriority rest
      | .ok () => do
        let kept ← deletePriority rest
        return ro :: kept

def deleteAll : List (Ref × Object X) → Prog (sig X) Failure Unit
  | [] => .ret ()
  | ro :: rest =>
    .op (.delete ro.1) fun
    | .error (.other e) => .fail e
    | .error .notFound | .ok () => deleteAll rest

/-- The orders of the loops over the maps: over the new resources when the overlap is taken out, twice
over the existing ones, and twice over the new ones. -/
structure Orders where
  overlap : RangeOrder Ref
  priority : RangeOrder Ref
  rest : RangeOrder Ref
  namespaces : RangeOrder Ref
  others : RangeOrder Ref

/-- The second loop meets what the first one has left in the map. -/
def apiDelete (orders : Orders) (existing : Objects X) : Prog (sig X) Failure Unit := do
  let kept ← deletePriority (orders.priority.entries existing)
  deleteAll ((orders.rest.entries existing).filter fun ro => ro.1 ∈ kept.map Prod.fst)

def applyAll : List (Ref × Object X) → Prog (sig X) Failure Unit
  | [] => .ret ()
  | ro :: rest =>
    .op (.apply ro.1 ro.2) fun
    | .error e => .fail e
    | .ok () => applyAll rest

/-- Namespaces are applied first. -/
def apiCreate (orders : Orders) (newResources : Objects X) : Prog (sig X) Failure Unit := do
  applyAll ((orders.namespaces.entries newResources).filter fun ro => ro.1.gvk.kind = "Namespace")
  applyAll ((orders.others.entries newResources).filter fun ro => ¬ro.1.gvk.kind = "Namespace")

def apiApply (orders : Orders) (cfg : Config) (ml : List (String × String)) (cr : Owner)
    (newResources existing : Objects X) : Prog (sig X) Failure Unit := do
  let existing ← getExistingResources cfg ml cr cfg.owns existing
  apiDelete orders
    ((orders.overlap.entries newResources).foldl (fun ex ro => ex.erase ro.1) existing)
  apiCreate orders newResources

/-- `APIDelete`. -/
def apiDeleteOwned (orders : Orders) (cfg : Config) (ml : List (String × String)) (cr : Owner)
    (existing : Objects X) : Prog (sig X) Failure Unit := do
  let existing ← getExistingResources cfg ml cr cfg.owns existing
  apiDelete orders existing

/-! ## What the loops do -/

section
variable {P : Patch X} {s s' : Server X} {r ref : Ref} {o : Object X} {e : Failure} {orders : Orders}

theorem Server.tick_objects (s : Server X) : s.tick.2.objects = s.objects := by
  unfold Server.tick
  split <;> rfl

theorem mem_addExisting {cfg : Config} {cr : Owner} {existing : Objects X}
    {items : List (Ref × Object X)} : r ∈ addExisting cfg cr existing items ↔
      r ∈ existing ∨ ∃ o, (r, o) ∈ items ∧ Owned cfg cr o := by
  unfold addExisting
  induction items generalizing existing with
  | nil => simp
  | cons ro items ih =>
    obtain ⟨ref, o⟩ := ro
    rw [List.foldl_cons, ih]
    by_cases ho : Owned cfg cr o
    · simp only [if_pos ho, ExtTreeMap.mem_insert, LawfulEqCmp.compare_eq_iff_eq, List.mem_cons,
        Prod.mk.injEq]
      constructor
      · rintro ((rfl | hr) | ⟨o', hmem, ho'⟩)
        · exact .inr ⟨o, .inl ⟨rfl, rfl⟩, ho⟩
        · exact .inl hr
        · exact .inr ⟨o', .inr hmem, ho'⟩
      · rintro (hr | ⟨o', ⟨rfl, rfl⟩ | hmem, ho'⟩)
        · exact .inl (.inr hr)
        · exact .inl (.inl rfl)
        · exact .inr ⟨o', hmem, ho'⟩
    · simp only [if_neg ho, List.mem_cons, Prod.mk.injEq]
      constructor
      · rintro (hr | ⟨o', hmem, ho'⟩)
        · exact .inl hr
        · exact .inr ⟨o', .inr hmem, ho'⟩
      · rintro (hr | ⟨o', ⟨rfl, rfl⟩ | hmem, ho'⟩)
        · exact .inl hr
        · exact absurd ho' ho
        · exact .inr ⟨o', hmem, ho'⟩

/-- A listing that succeeds gives the objects of a kind that have the labels. -/
theorem handler_list {gvk : GroupVersionKind} {ml : List (String × String)}
    {items : List (Ref × Object X)} (h : handler P (.list gvk ml) s = (.ok items, s')) :
    s'.objects = s.objects ∧
      ∀ ref o, (ref, o) ∈ items ↔ s.objects[ref]? = some o ∧ ref.gvk = gvk ∧ Matching ml o := by
  have hobj := s.tick_objects
  simp only [handler] at h
  split at h
  next => cases h
  next s₁ htick =>
    rw [htick] at hobj
    cases h
    refine ⟨hobj, fun ref o => ?_⟩
    rw [List.mem_filter, ExtTreeMap.mem_toList_iff_getElem?_eq_some, ← hobj]
    simp

theorem getExistingResources_ok {cfg : Config} {ml : List (String × String)} {cr : Owner}
    {gvks : List GroupVersionKind} {existing existing' : Objects X}
    (h : (getExistingResources cfg ml cr gvks existing).run (handler P) s = (.ok existing', s')) :
    s'.objects = s.objects ∧ ∀ r, r ∈ existing' ↔ r ∈ existing ∨
      ∃ o, s.objects[r]? = some o ∧ r.gvk ∈ gvks ∧ Matching ml o ∧ Owned cfg cr o := by
  induction gvks generalizing existing s with
  | nil =>
    cases h
    simp
  | cons gvk gvks ih =>
    simp only [getExistingResources, Prog.run_op] at h
    rcases hlist : handler P (.list gvk ml) s with ⟨_ | items, s₁⟩
    · rw [hlist] at h
      cases h
    · rw [hlist] at h
      obtain ⟨hobj, hitems⟩ := handler_list hlist
      obtain ⟨hobj', hmem⟩ := ih h
      refine ⟨hobj'.trans hobj, fun r => ?_⟩
      rw [hmem r, mem_addExisting, hobj]
      simp only [hitems, List.mem_cons]
      constructor
      · rintro ((hr | ⟨o, ⟨ho, hgvk, hml⟩, hown⟩) | ⟨o, ho, hgvk, hml, hown⟩)
        · exact .inl hr
        · exact .inr ⟨o, ho, .inl hgvk, hml, hown⟩
        · exact .inr ⟨o, ho, .inr hgvk, hml, hown⟩
      · rintro (hr | ⟨o, ho, hgvk | hgvk, hml, hown⟩)
        · exact .inl (.inl hr)
        · exact .inl (.inr ⟨o, ⟨ho, hgvk, hml⟩, hown⟩)
        · exact .inr ⟨o, ho, hgvk, hml, hown⟩

/-- Unless it is refused, a delete leaves nothing under the reference. -/
theorem handler_delete {resp : Except DeleteError Unit}
    (h : handler P (.delete ref) s = (resp, s')) :
    (∃ e, resp = .error (.other e)) ∨
      ∀ r, s'.objects[r]? = if r = ref then none else s.objects[r]? := by
  have hobj := s.tick_objects
  simp only [handler] at h
  split at h
  next e s₁ htick =>
    cases h
    exact .inl ⟨e, rfl⟩
  next s₁ htick =>
    rw [htick] at hobj
    right
    intro r
    rw [← hobj]
    split at h
    next hin =>
      cases h
      by_cases hr : r = ref
      · simp [hr]
      · simp [ExtTreeMap.getElem?_erase, hr, Ne.symm hr]
    next hin =>
      cases h
      split
      next hr => rw [hr, ExtTreeMap.getElem?_eq_none hin]
      · rfl

theorem deleteAll_ok {l : List (Ref × Object X)}
    (h : (deleteAll l).run (handler P) s = (.ok (), s')) (r : Ref) :
    s'.objects[r]? = if r ∈ l.map Prod.fst then none else s.objects[r]? := by
  induction l generalizing s with
  | nil =>
    cases h
    simp
  | cons ro l ih =>
    simp only [deleteAll, Prog.run_op] at h
    rcases hdel : handler P (.delete ro.1) s with ⟨resp, s₁⟩
    rw [hdel] at h
    have hrest : (deleteAll l).run (handler P) s₁ = (.ok (), s') ∧
        ∀ r, s₁.objects[r]? = if r = ro.1 then none else s.objects[r]? := by
      rcases handler_delete hdel with ⟨e, rfl⟩ | hgone
      · cases h
      · rcases resp with (_ | e) | _
        · exact ⟨h, hgone⟩
        · cases h
        · exact ⟨h, hgone⟩
    rw [ih hrest.1, hrest.2 r, List.map_cons]
    by_cases hr : r = ro.1
    · simp [hr]
    · simp only [List.mem_cons, hr, false_or, if_false]

/-- The first loop deletes, and what it keeps for the second it leaves in the map. -/
theorem deletePriority_ok {l kept : List (Ref × Object X)}
    (h : (deletePriority l).run (handler P) s = (.ok kept, s')) (r : Ref) :
    (r ∈ kept.map Prod.fst → r ∈ l.map Prod.fst) ∧
      (s'.objects[r]? = s.objects[r]? ∨ s'.objects[r]? = none ∧ r ∈ l.map Prod.fst) ∧
      (r ∈ l.map Prod.fst → r ∈ kept.map Prod.fst ∨ s'.objects[r]? = none) := by
  induction l generalizing s kept with
  | nil =>
    cases h
    simp
  | cons ro l ih =>
    simp only [List.map_cons, List.mem_cons]
    unfold deletePriority at h
    split at h
    next =>
      obtain ⟨kept', s₁, hrest, hret⟩ := (Prog.run_bind_ok _).mp h
      cases hret
      obtain ⟨hsub, hobj, hkept⟩ := ih hrest
      simp only [List.map_cons, List.mem_cons]
      tauto
    next =>
      simp only [Prog.run_op] at h
      rcases hdel : handler P (.delete ro.1) s with ⟨resp, s₁⟩
      rw [hdel] at h
      rcases handler_delete hdel with ⟨e, rfl⟩ | hgone
      · cases h
      -- whether or not there was something to delete, nothing is left
      obtain ⟨kept', hrest, hk⟩ : ∃ kept', (deletePriority l).run (handler P) s₁ = (.ok kept', s') ∧
          (kept = kept' ∨ kept = ro :: kept') := by
        rcases resp with (_ | e) | _
        · exact ⟨kept, h, .inl rfl⟩
        · cases h
        · obtain ⟨kept', s₂, hrest, hret⟩ := (Prog.run_bind_ok _).mp h
          cases hret
          exact ⟨kept', hrest, .inr rfl⟩
      obtain ⟨hsub, hobj, hkept⟩ := ih hrest
      rw [hgone r] at hobj
      have hin : r ∈ kept.map Prod.fst → r = ro.1 ∨ r ∈ kept'.map Prod.fst := by
        rcases hk with rfl | rfl
        · exact .inr
        · simp
      have hmono : r ∈ kept'.map Prod.fst → r ∈ kept.map Prod.fst := by
        rcases hk with rfl | rfl
        · exact id
        · exact List.mem_cons_of_mem _
      by_cases hr : r = ro.1
      · rw [if_pos hr] at hobj
        have hnone : s'.objects[r]? = none := hobj.elim id And.left
        exact ⟨fun _ => .inl hr, .inr ⟨hnone, .inl hr⟩, fun _ => .inr hnone⟩
      · rw [if_neg hr] at hobj
        tauto

/-- Both loops together delete what is in the map. -/
theorem deletes_ok {existing : Objects X} {l kept l' : List (Ref × Object X)} {s₁ : Server X}
    (hl : ∀ r, r ∈ l.map Prod.fst ↔ r ∈ existing)
    (hl' : ∀ r, r ∈ l'.map Prod.fst ↔ r ∈ kept.map Prod.fst)
    (hfirst : (deletePriority l).run (handler P) s = (.ok kept, s₁))
    (hsecond : (deleteAll l').run (handler P) s₁ = (.ok (), s')) (r : Ref) :
    s'.objects[r]? = if r ∈ existing then none else s.objects[r]? := by
  obtain ⟨hsub, hobj, hkept⟩ := deletePriority_ok hfirst r
  rw [deleteAll_ok hsecond]
  rw [hl] at hsub hobj hkept
  rw [← hl'] at hsub hkept
  by_cases hr : r ∈ existing
  · rw [if_pos hr]
    split
    · rfl
    next hno => exact (hkept hr).resolve_left hno
  · rw [if_neg hr, if_neg (fun hk => hr (hsub hk))]
    exact hobj.resolve_right fun hgone => hr hgone.2

theorem mem_toList_fst {objects : Objects X} :
    r ∈ objects.toList.map Prod.fst ↔ r ∈ objects := by
  rw [← ExtTreeMap.mem_keys, ← ExtTreeMap.map_fst_toList_eq_keys]

theorem apiDelete_ok {existing : Objects X}
    (h : (apiDelete orders existing).run (handler P) s = (.ok (), s')) (r : Ref) :
    s'.objects[r]? = if r ∈ existing then none else s.objects[r]? := by
  obtain ⟨kept, t, hfirst, hsecond⟩ := (Prog.run_bind_ok _).mp h
  refine deletes_ok (fun _ => orders.priority.mem_keys) (fun r => ?_) hfirst hsecond r
  constructor
  · intro hr
    obtain ⟨ro, hro, rfl⟩ := List.mem_map.mp hr
    simpa using (List.mem_filter.mp hro).2
  · intro hr
    have hex := orders.priority.mem_keys.mp ((deletePriority_ok hfirst r).1 hr)
    obtain ⟨ro, hro, rfl⟩ := List.mem_map.mp (orders.rest.mem_keys.mpr hex)
    exact List.mem_map_of_mem (List.mem_filter.mpr ⟨hro, by simpa using hr⟩)

theorem handler_apply (h : handler P (.apply ref o) s = (.ok (), s')) :
    s'.objects = s.objects.insert ref (P.result s.objects[ref]? o) := by
  have hobj := s.tick_objects
  simp only [handler] at h
  split at h
  next => cases h
  next s₁ htick =>
    rw [htick] at hobj
    cases h
    rw [← hobj]

/-- Objects under different references are applied each for itself. -/
theorem applyAll_ok {l : List (Ref × Object X)} (hnodup : (l.map Prod.fst).Nodup)
    (h : (applyAll l).run (handler P) s = (.ok (), s')) :
    (∀ r o, (r, o) ∈ l → s'.objects[r]? = some (P.result s.objects[r]? o)) ∧
      ∀ r, r ∉ l.map Prod.fst → s'.objects[r]? = s.objects[r]? := by
  induction l generalizing s with
  | nil =>
    cases h
    simp
  | cons ro l ih =>
    obtain ⟨ref, o⟩ := ro
    obtain ⟨hnew, hnodup⟩ := List.nodup_cons.mp hnodup
    simp only [applyAll, Prog.run_op] at h
    rcases happ : handler P (.apply ref o) s with ⟨_ | _, s₁⟩
    · rw [happ] at h
      cases h
    · rw [happ] at h
      have hs₁ := handler_apply happ
      obtain ⟨hin, hout⟩ := ih hnodup h
      have hother : ∀ r, r ≠ ref → s₁.objects[r]? = s.objects[r]? := fun r hr => by
        rw [hs₁, ExtTreeMap.getElem?_insert, if_neg (by simpa using Ne.symm hr)]
      refine ⟨fun r o' hmem => ?_, fun r hr => ?_⟩
      · rcases List.mem_cons.mp hmem with heq | hrest
        · cases heq
          rw [hout ref hnew, hs₁, ExtTreeMap.getElem?_insert_self]
        · have hne : r ≠ ref := by
            rintro rfl
            exact hnew (List.mem_map.mpr ⟨_, hrest, rfl⟩)
          rw [hin r o' hrest, hother r hne]
      · rw [List.map_cons, List.mem_cons, not_or] at hr
        rw [hout r hr.2, hother r hr.1]

/-- Namespaces and then the others are applied, each list in an order of its own. -/
theorem applies_ok {newResources : Objects X} {l l' : List (Ref × Object X)} {s₁ : Server X}
    (hl : l.Perm newResources.toList) (hl' : l'.Perm newResources.toList)
    (hfirst : (applyAll (l.filter fun ro => ro.1.gvk.kind = "Namespace")).run (handler P) s =
      (.ok (), s₁))
    (hsecond : (applyAll (l'.filter fun ro => ¬ro.1.gvk.kind = "Namespace")).run (handler P) s₁ =
      (.ok (), s')) :
    (∀ (r : Ref) o, newResources[r]? = some o → s'.objects[r]? = some (P.result s.objects[r]? o)) ∧
      ∀ r, r ∉ newResources → s'.objects[r]? = s.objects[r]? := by
  have hnodup : (newResources.toList.map Prod.fst).Nodup := by
    rw [ExtTreeMap.map_fst_toList_eq_keys]
    exact ExtTreeMap.nodup_keys
  have hsub : ∀ {l : List (Ref × Object X)}, l.Perm newResources.toList →
      ∀ p : Ref × Object X → Bool, ((l.filter p).map Prod.fst).Nodup := fun hl p =>
    (((hl.map _).nodup_iff).mpr hnodup).sublist (List.filter_sublist.map _)
  have hmem : ∀ {l : List (Ref × Object X)}, l.Perm newResources.toList →
      ∀ (p : Ref × Object X → Bool) r, r ∈ (l.filter p).map Prod.fst → r ∈ newResources :=
    fun hl p r hr => mem_toList_fst.mp
      ((hl.map _).mem_iff.mp ((List.filter_sublist.map _).subset hr))
  obtain ⟨hin₁, hout₁⟩ := applyAll_ok (hsub hl _) hfirst
  obtain ⟨hin₂, hout₂⟩ := applyAll_ok (hsub hl' _) hsecond
  refine ⟨fun r o hr => ?_, fun r hr => ?_⟩
  · have hlist := ExtTreeMap.mem_toList_iff_getElem?_eq_some.mpr hr
    -- a reference is in one of the two loops
    by_cases hns : r.gvk.kind = "Namespace"
    · rw [hout₂ r, hin₁ r o (List.mem_filter.mpr ⟨hl.mem_iff.mpr hlist, by simpa using hns⟩)]
      simp [hns]
    · rw [hin₂ r o (List.mem_filter.mpr ⟨hl'.mem_iff.mpr hlist, by simpa using hns⟩), hout₁ r]
      simp [hns]
  · rw [hout₂ r fun h => hr (hmem hl' _ r h), hout₁ r fun h => hr (hmem hl _ r h)]

theorem apiCreate_ok {newResources : Objects X}
    (h : (apiCreate orders newResources).run (handler P) s = (.ok (), s')) :
    (∀ (r : Ref) o, newResources[r]? = some o → s'.objects[r]? = some (P.result s.objects[r]? o)) ∧
      ∀ r, r ∉ newResources → s'.objects[r]? = s.objects[r]? := by
  obtain ⟨_, s₁, hfirst, hsecond⟩ := (Prog.run_bind_ok _).mp h
  exact applies_ok (orders.namespaces.perm _) (orders.others.perm _) hfirst hsecond

theorem mem_eraseAll {l : List (Ref × Object X)} {existing : Objects X} :
    r ∈ l.foldl (fun ex ro => ex.erase ro.1) existing ↔ r ∈ existing ∧ r ∉ l.map Prod.fst := by
  induction l generalizing existing with
  | nil => simp
  | cons ro l ih =>
    rw [List.foldl_cons, ih, ExtTreeMap.mem_erase, List.map_cons, List.mem_cons, not_or]
    have heq : compare ro.1 r = .eq ↔ r = ro.1 := LawfulEqCmp.compare_eq_iff_eq.trans eq_comm
    rw [ne_eq, heq]
    tauto

/-- What is under a reference after `APIApply`: what was wanted, applied to what was there; nothing,
if it was not wanted and was found; else what was there. -/
theorem apiApply_ok {cfg : Config} {ml : List (String × String)} {cr : Owner}
    {newResources : Objects X}
    (h : (apiApply orders cfg ml cr newResources ∅).run (handler P) s = (.ok (), s')) :
    (∀ (r : Ref) o, newResources[r]? = some o → s'.objects[r]? = some (P.result s.objects[r]? o)) ∧
      ∀ r, r ∉ newResources → ∀ o, s'.objects[r]? = some o ↔
        s.objects[r]? = some o ∧ ¬(r.gvk ∈ cfg.owns ∧ Matching ml o ∧ Owned cfg cr o) := by
  obtain ⟨existing, s₁, hget, h⟩ := (Prog.run_bind_ok _).mp h
  obtain ⟨_, s₂, hdel, hcreate⟩ := (Prog.run_bind_ok _).mp h
  obtain ⟨hobj, hex⟩ := getExistingResources_ok hget
  obtain ⟨hin, hout⟩ := apiCreate_ok hcreate
  have hgone := apiDelete_ok hdel
  simp only [mem_eraseAll, orders.overlap.mem_keys, hobj] at hgone
  refine ⟨fun r o hr => ?_, fun r hr o => ?_⟩
  · have hmem : r ∈ newResources := ExtTreeMap.mem_iff_isSome_getElem?.mpr (by rw [hr]; rfl)
    rw [hin r o hr, hgone r, if_neg (fun h => h.2 hmem)]
  · rw [hout r hr, hgone r]
    have hfound : r ∈ existing ↔ ∃ o, s.objects[r]? = some o ∧ r.gvk ∈ cfg.owns ∧ Matching ml o ∧
        Owned cfg cr o := by
      rw [hex r]
      simp
    by_cases hr' : r ∈ existing
    · obtain ⟨o', ho', hall⟩ := hfound.mp hr'
      rw [if_pos ⟨hr', hr⟩]
      refine ⟨nofun, fun ⟨ho, hnot⟩ => ?_⟩
      rw [ho'] at ho
      cases ho
      exact absurd hall hnot
    · rw [if_neg (fun h => hr' h.1)]
      exact ⟨fun ho => ⟨ho, fun hall => hr' (hfound.mpr ⟨o, ho, hall⟩)⟩, And.left⟩

end

end K8sIpam.Resources
