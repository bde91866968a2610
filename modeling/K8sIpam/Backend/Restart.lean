import K8sIpam.Backend.Durability

/-! # Serving an index after a restart

When does `CreateIndex` mark an index initialized, and from which store was the table made that
later saves write? -/

namespace K8sIpam.Backend
open Std Atomic

variable {T Text Lists Req Resp α : Type} {app : App T Text Lists Req Resp} {errs : ApiErrors}
  {ref : ObjectReference} {lists : Lists} {w w' : World T Text}

/-! ## One `CreateIndex` -/

/-- The ConfigMap has been read and the table restored from its content, or it did not exist. -/
def StoreRead (app : App T Text Lists Req Resp) (errs : ApiErrors) (ref : ObjectReference)
    (lists : Lists) (w : World T Text) : Prop :=
  errs.get = none ∧ (w.configMaps (cmName app ref) = none ∨
    ∃ cm t, w.configMaps (cmName app ref) = some cm ∧
      (w.cache.create ref app.newTable).get ref true = .ok t ∧
      (app.restoreData ref lists errs cm.data t).1 = .ok () ∧
      (createIndex app errs ref lists w).2.cache.get ref true =
        .ok (app.restoreData ref lists errs cm.data t).2)

/-- An index becomes initialized only from a store that has been read or does not exist, and a
read that fails otherwise is an error that leaves it uninitialized. -/
def ServesOnlyRead (app : App T Text Lists Req Resp) (errs : ApiErrors) (ref : ObjectReference)
    (lists : Lists) (w : World T Text) : Prop :=
  w.cache.isInitialized ref = false →
    ((createIndex app errs ref lists w).2.cache.isInitialized ref = true →
      StoreRead app errs ref lists w) ∧
    (errs.get ≠ none → (∃ e, (createIndex app errs ref lists w).1 = .error e) ∧
      (createIndex app errs ref lists w).2.cache.isInitialized ref = false)

/-- The read fails with an error other than not found, and `RestoreData` accepts the object that
the failed read leaves empty. -/
def ReadFails (app : App T Text Lists Req Resp) (errs : ApiErrors) (ref : ObjectReference)
    (lists : Lists) (w : World T Text) : Prop :=
  w.cache.isInitialized ref = false ∧ errs.get ≠ none ∧
    ∃ t, (w.cache.create ref app.newTable).get ref true = .ok t ∧
      (app.restoreData ref lists errs none t).1 = .ok ()

theorem Cache.create_eq {c : Cache T} (h : c.isInitialized ref = false) (t₀ : T) :
    ∃ t, c.create ref t₀ ref = some ⟨false, t⟩ := by
  unfold Cache.create
  unfold Cache.isInitialized at h
  cases hc : c ref with
  | none => exact ⟨t₀, Function.update_self ..⟩
  | some ctx =>
    rw [hc] at h
    refine ⟨ctx.table, hc.trans ?_⟩
    rw [← show ctx.initialized = false from h]

theorem Cache.put_eq {c : Cache T} {ctx : CacheContext T} (h : c ref = some ctx) (t : T) :
    c.put ref t ref = some ⟨ctx.initialized, t⟩ := by
  rw [Cache.put, Function.update_self, h, Option.map_some]

theorem Cache.isInitialized_eq {c : Cache T} {ctx : CacheContext T} (h : c ref = some ctx) :
    c.isInitialized ref = ctx.initialized := by
  rw [Cache.isInitialized, h]

theorem Cache.get_true_eq {c : Cache T} {ctx : CacheContext T} (h : c ref = some ctx) :
    c.get ref true = .ok ctx.table := by
  exact Cache.get_eq_ok.mpr ⟨ctx, h, .inl rfl, rfl⟩

/-- `CreateIndex` on an index that is not initialized, by the outcome of the restore. -/
theorem createIndex_eq (h : w.cache.isInitialized ref = false)
    {r : Except Failure Unit × World T Text} {t : T}
    (hr : restore app errs ref lists { w with cache := w.cache.create ref app.newTable } = r)
    (ht : r.2.cache ref = some ⟨false, t⟩) :
    (∃ e, r.1 = .error e ∧ createIndex app errs ref lists w = (.error e, r.2)) ∨
    r.1 = .ok () ∧ (createIndex app errs ref lists w).1 = .ok () ∧
      (createIndex app errs ref lists w).2.cache ref = some ⟨true, t⟩ := by
  obtain ⟨t₀, hcreate⟩ := Cache.create_eq h app.newTable
  have hno : (w.cache.create ref app.newTable).isInitialized ref = false :=
    Cache.isInitialized_eq hcreate
  unfold createIndex
  simp only [hno, Bool.false_eq_true, if_false]
  rw [hr]
  obtain ⟨e | ⟨⟩, w'⟩ := r
  · exact .inl ⟨e, rfl, rfl⟩
  · refine .inr ⟨rfl, ?_⟩
    have hset : w'.cache.setInitialized ref =
        .ok (Function.update w'.cache ref (some ⟨true, t⟩)) := by
      rw [Cache.setInitialized, show w'.cache ref = some ⟨false, t⟩ from ht]
    simp only [hset]
    exact ⟨trivial, Function.update_self ..⟩

/-- The restore of the table of an index that is in the cache. -/
theorem restoreFrom_eq {cm : ConfigMap Text} {t : T} (h : w.cache ref = some ⟨false, t⟩) :
    restoreFrom app errs ref lists cm w =
      ((app.restoreData ref lists errs cm.data t).1,
        { w with cache := w.cache.put ref (app.restoreData ref lists errs cm.data t).2 }) := by
  rw [restoreFrom, Cache.get_true_eq h]

theorem servesOnlyRead_iff (app : App T Text Lists Req Resp) (errs : ApiErrors)
    (ref : ObjectReference) (lists : Lists) (w : World T Text) :
    ServesOnlyRead app errs ref lists w ↔ ¬ReadFails app errs ref lists w := by
  constructor
  · rintro hserves ⟨hno, hget, t, ht, hok⟩
    obtain ⟨t₀, hcreate⟩ := Cache.create_eq hno app.newTable
    cases (Cache.get_true_eq hcreate).symm.trans ht
    obtain ⟨msg, hmsg⟩ := Option.ne_none_iff_exists'.mp hget
    have hrestore : restore app errs ref lists { w with cache := w.cache.create ref app.newTable } =
        restoreFrom app errs ref lists ⟨none⟩ { w with cache := w.cache.create ref app.newTable } := by
      rw [restore, World.getConfigMap, hmsg]
    rw [restoreFrom_eq hcreate] at hrestore
    obtain ⟨e, he⟩ := ((hserves hno).2 hget).1
    rcases createIndex_eq hno hrestore (Cache.put_eq hcreate _) with ⟨e', he', -⟩ | ⟨-, hcreated, -⟩
    · cases he'.symm.trans hok
    · cases he.symm.trans hcreated
  · intro hfails hno
    obtain ⟨t₀, hcreate⟩ := Cache.create_eq hno app.newTable
    have hrestored : ∀ cm, restore app errs ref lists
          { w with cache := w.cache.create ref app.newTable } =
          restoreFrom app errs ref lists cm { w with cache := w.cache.create ref app.newTable } →
        (∃ e, (app.restoreData ref lists errs cm.data t₀).1 = .error e ∧
          (createIndex app errs ref lists w).1 = .error e ∧
          (createIndex app errs ref lists w).2.cache.isInitialized ref = false) ∨
        (app.restoreData ref lists errs cm.data t₀).1 = .ok () ∧
          (createIndex app errs ref lists w).2.cache.get ref true =
            .ok (app.restoreData ref lists errs cm.data t₀).2 := by
      intro cm hrestore
      rw [restoreFrom_eq hcreate] at hrestore
      rcases createIndex_eq hno hrestore (Cache.put_eq hcreate _) with ⟨e, he, hi⟩ | ⟨hok, -, hi⟩
      · refine .inl ⟨e, he, by rw [hi], ?_⟩
        rw [hi]
        exact Cache.isInitialized_eq (Cache.put_eq hcreate _)
      · exact .inr ⟨hok, Cache.get_true_eq hi⟩
    cases hget : errs.get with
    | some msg =>
      -- the read fails, so the restore must have refused the empty object
      have hrestore : restore app errs ref lists { w with cache := w.cache.create ref app.newTable } =
          restoreFrom app errs ref lists ⟨none⟩
            { w with cache := w.cache.create ref app.newTable } := by
        rw [restore, World.getConfigMap, hget]
      rcases hrestored ⟨none⟩ hrestore with ⟨e, -, hi, hun⟩ | ⟨hok, -⟩
      · refine ⟨fun hinit => ?_, fun _ => ⟨⟨e, hi⟩, hun⟩⟩
        rw [hun] at hinit
        cases hinit
      · exact absurd ⟨hno, by simp [hget], t₀, Cache.get_true_eq hcreate, hok⟩ hfails
    | none =>
      refine ⟨fun hinit => ⟨hget, ?_⟩, fun hne => absurd rfl hne⟩
      cases hcm : w.configMaps (cmName app ref) with
      | none => exact .inl rfl
      | some cm =>
        have hrestore : restore app errs ref lists
            { w with cache := w.cache.create ref app.newTable } = restoreFrom app errs ref lists cm
              { w with cache := w.cache.create ref app.newTable } := by
          rw [restore, World.getConfigMap, hget, hcm]
        rcases hrestored cm hrestore with ⟨e, -, -, hun⟩ | ⟨hok, hi⟩
        · rw [hun] at hinit
          cases hinit
        · exact .inr ⟨cm, t₀, rfl, Cache.get_true_eq hcreate, hok, hi⟩

/-! ## Runs -/

/-- What the last restore of an index has read. -/
inductive Source (Text : Type) where
  | unread
  | absent
  | read (cm : ConfigMap Text)

def GetResult.source : GetResult Text → Source Text
  | .found cm => .read cm
  | .notFound => .absent
  | .failed _ => .unread

/-- The requests a backend serves, and a restart of its process. -/
inductive Event (Lists Req : Type) where
  | createIndex (errs : ApiErrors) (ref : ObjectReference) (lists : Lists)
  | deleteIndex (errs : ApiErrors) (ref : ObjectReference)
  | claim (errs : ApiErrors) (req : Req)
  | deleteClaim (errs : ApiErrors) (req : Req)
  | restart

/-- A world with a record of what each index in memory was restored from. -/
structure Traced (T Text : Type) extends World T Text where
  source : ObjectReference → Source Text

def Traced.step (app : App T Text Lists Req Resp) (s : Traced T Text) :
    Event Lists Req → Traced T Text
  | .createIndex errs ref lists =>
    { toWorld := (createIndex app errs ref lists s.toWorld).2
      source := if s.cache.isInitialized ref then s.source
        else Function.update s.source ref (s.getConfigMap errs (cmName app ref)).source }
  | .deleteIndex errs ref =>
    { toWorld := (deleteIndex app errs ref s.toWorld).2
      source := Function.update s.source ref .unread }
  | .claim errs req => { s with toWorld := (claim app errs req s.toWorld).2 }
  | .deleteClaim errs req => { s with toWorld := (deleteClaim app errs req s.toWorld).2 }
  | .restart => { cache := fun _ => none, configMaps := s.configMaps, source := fun _ => .unread }

/-- A process that has just started, with any ConfigMaps in the API. -/
def Traced.start (configMaps : ObjectReference → Option (ConfigMap Text)) : Traced T Text :=
  { cache := fun _ => none, configMaps, source := fun _ => .unread }

/-- No `CreateIndex` meets a failing read that `RestoreData` does not notice. -/
def ReadsStore (app : App T Text Lists Req Resp) (s : Traced T Text) : Event Lists Req → Prop
  | .createIndex errs ref lists => ¬ReadFails app errs ref lists s.toWorld
  | _ => True

/-- Every index that is served was restored from a store that was read or did not exist. -/
def Restored (s : Traced T Text) : Prop :=
  ∀ ref, s.cache.isInitialized ref = true → s.source ref ≠ .unread

section
variable (name name' : ObjectReference) (cm : ConfigMap Text)

variable {name name'}

theorem createConfigMap_other (hne : name' ≠ name) :
    (w.createConfigMap errs name cm).2.configMaps name' = w.configMaps name' := by
  unfold World.createConfigMap
  split
  · rfl
  · rfl
  · exact Function.update_of_ne hne ..

theorem updateConfigMap_other (hne : name' ≠ name) :
    (w.updateConfigMap errs name cm).2.configMaps name' = w.configMaps name' := by
  unfold World.updateConfigMap
  split
  · rfl
  · rfl
  · exact Function.update_of_ne hne ..

end

theorem saveAll_other (errs : ApiErrors) (w : World T Text) {name : ObjectReference}
    (hne : name ≠ cmName app ref) :
    (saveAll app errs ref w).2.configMaps name = w.configMaps name := by
  unfold saveAll
  split
  · exact createConfigMap_other _ hne
  all_goals
    split
    · rfl
    · exact updateConfigMap_other _ hne

theorem restore_other (app : App T Text Lists Req Resp) (errs : ApiErrors) (lists : Lists)
    (w : World T Text) {ref' : ObjectReference} (hne : ref' ≠ ref) :
    (restore app errs ref lists w).2.cache ref' = w.cache ref' := by
  have hfrom : ∀ cm, (restoreFrom app errs ref lists cm w).2.cache ref' = w.cache ref' := by
    intro cm
    unfold restoreFrom
    split
    · rfl
    · exact Function.update_of_ne hne ..
  unfold restore
  split
  · exact congrFun (createConfigMap_cache ..) ref'
  · exact hfrom _
  · exact hfrom _

/-- Creating an index leaves the other indexes alone. -/
theorem createIndex_other {ref' : ObjectReference} (hne : ref' ≠ ref) :
    (createIndex app errs ref lists w).2.cache ref' = w.cache ref' := by
  have hcreate : (w.cache.create ref app.newTable) ref' = w.cache ref' := by
    unfold Cache.create
    cases w.cache ref with
    | some ctx => rfl
    | none => exact Function.update_of_ne hne ..
  have hrestore := restore_other app errs lists
    { w with cache := w.cache.create ref app.newTable } hne
  unfold createIndex
  dsimp only
  split
  · exact hcreate
  · rcases hr : restore app errs ref lists { w with cache := w.cache.create ref app.newTable } with
      ⟨e | ⟨⟩, w'⟩
    · rw [hr] at hrestore
      exact hrestore.trans hcreate
    · rw [hr] at hrestore
      dsimp only
      cases hset : w'.cache.setInitialized ref with
      | error e => exact hrestore.trans hcreate
      | ok c =>
        unfold Cache.setInitialized at hset
        split at hset
        · cases hset
          exact (Function.update_of_ne hne ..).trans (hrestore.trans hcreate)
        · cases hset

theorem Cache.isInitialized_put (c : Cache T) (t : T) (ref' : ObjectReference) :
    (c.put ref t).isInitialized ref' = c.isInitialized ref' := by
  unfold Cache.put Cache.isInitialized
  by_cases hne : ref' = ref
  · subst hne
    rw [Function.update_self]
    cases c ref' <;> rfl
  · rw [Function.update_of_ne hne]

theorem change_isInitialized (f : T → Except Failure α × T) (ref' : ObjectReference) :
    (change app errs ref f w).2.cache.isInitialized ref' = w.cache.isInitialized ref' := by
  unfold change
  split
  · rfl
  · rename_i t _
    rcases f t with ⟨e | a, t'⟩
    · exact Cache.isInitialized_put ..
    · dsimp only
      have hsave := saveAll_cache app errs ref { w with cache := w.cache.put ref t' }
      rcases hs : saveAll app errs ref { w with cache := w.cache.put ref t' } with ⟨e | ⟨⟩, w'⟩
      all_goals
        rw [hs] at hsave
        dsimp only at hsave ⊢
        rw [hsave]
        exact Cache.isInitialized_put ..

/-- A change of the table of an index writes no ConfigMap but that of the index, and only if the
index is initialized. -/
theorem change_configMaps (f : T → Except Failure α × T) {name : ObjectReference}
    (h : (change app errs ref f w).2.configMaps name ≠ w.configMaps name) :
    name = cmName app ref ∧ w.cache.isInitialized ref = true := by
  unfold change at h
  cases hget : w.cache.get ref false with
  | error e =>
    rw [hget] at h
    exact absurd rfl h
  | ok t =>
    constructor
    · by_contra hne
      rw [hget] at h
      dsimp only at h
      rcases hf : f t with ⟨e | a, t'⟩
      · rw [hf] at h
        exact h rfl
      · rw [hf] at h
        dsimp only at h
        have hsave := saveAll_other errs { w with cache := w.cache.put ref t' } hne
        rcases hs : saveAll app errs ref { w with cache := w.cache.put ref t' } with ⟨e | ⟨⟩, w'⟩
        all_goals
          rw [hs] at h hsave
          exact h hsave
    · exact Cache.isInitialized_eq (Cache.get_false_eq_ok.mp hget)

theorem Restored.step {s : Traced T Text} (hs : Restored s) {e : Event Lists Req}
    (he : ReadsStore app s e) : Restored (s.step app e) := by
  intro ref' hinit
  cases e with
  | createIndex errs ref lists =>
    simp only [Traced.step] at hinit ⊢
    by_cases hne : ref' = ref
    · subst hne
      by_cases hbefore : s.cache.isInitialized ref' = true
      · rw [if_pos hbefore]
        exact hs ref' hbefore
      · rw [if_neg hbefore, Function.update_self]
        have hno : s.cache.isInitialized ref' = false := Bool.eq_false_iff.mpr hbefore
        have hread := ((servesOnlyRead_iff app errs ref' lists s.toWorld).mpr he hno).1 hinit
        rw [World.getConfigMap, hread.1]
        cases s.configMaps (cmName app ref') <;> simp [GetResult.source]
    · have hsame : s.cache.isInitialized ref' = true := by
        rwa [Cache.isInitialized, createIndex_other hne] at hinit
      split
      · exact hs ref' hsame
      · rw [Function.update_of_ne hne]
        exact hs ref' hsame
  | deleteIndex errs ref =>
    simp only [Traced.step, deleteIndex, destroy, deleteConfigMap_cache] at hinit ⊢
    by_cases hne : ref' = ref
    · subst hne
      simp [Cache.isInitialized, Cache.delete] at hinit
    · rw [Function.update_of_ne hne]
      rw [Cache.isInitialized, Cache.delete, Function.update_of_ne hne] at hinit
      exact hs ref' hinit
  | claim errs req => exact hs ref' ((change_isInitialized _ ref').symm.trans hinit)
  | deleteClaim errs req => exact hs ref' ((change_isInitialized _ ref').symm.trans hinit)
  | restart => cases hinit

/-- For every backend, state and outcome of the API calls, `CreateIndex` serves only from a store
that has been read or does not exist, unless the read fails and `RestoreData` accepts the empty
object. In every run without such a step, from any ConfigMaps, a claim or a delete writes only
the ConfigMap of its index, and only over a store that the index was restored from. -/
theorem unread_store_never_served (app : App T Text Lists Req Resp) :
    (∀ errs ref lists (w : World T Text),
      ServesOnlyRead app errs ref lists w ↔ ¬ReadFails app errs ref lists w) ∧
    (∀ configMaps es, Run.Guarded (Traced.step app) (ReadsStore app) (.start configMaps) es →
      Restored (Run.run (Traced.step app) (.start configMaps) es) ∧
      ∀ errs req name, ∀ e ∈ [Event.claim errs req, Event.deleteClaim errs req],
        ((Run.run (Traced.step app) (.start configMaps) es).step app e).configMaps name ≠
          (Run.run (Traced.step app) (.start configMaps) es).configMaps name →
        name = cmName app (app.cacheID req) ∧
          (Run.run (Traced.step app) (.start configMaps) es).source (app.cacheID req) ≠ .unread) := by
  refine ⟨servesOnlyRead_iff app, fun configMaps es hg => ?_⟩
  have hrestored : Restored (Run.run (Traced.step app) (.start configMaps) es) :=
    hg.inv (fun s e hs he => hs.step he) (fun ref hinit => by cases hinit)
  refine ⟨hrestored, fun errs req name e he h => ?_⟩
  have hwrites : name = cmName app (app.cacheID req) ∧
      (Run.run (Traced.step app) (.start configMaps) es).cache.isInitialized
        (app.cacheID req) = true := by
    simp only [List.mem_cons, List.not_mem_nil, or_false] at he
    rcases he with rfl | rfl
    · exact change_configMaps _ h
    · exact change_configMaps _ h
  exact ⟨hwrites.1, hrestored _ hwrites.2⟩

/-- The stored tables of one VLAN index, with one entry besides the reserved ones. -/
def sampleStored (id : BitVec 16) (c : Vlan.VLANClaim) :
    ObjectReference → Option (ConfigMap (Option (Store 16))) :=
  Function.update (fun _ => none) ⟨"vlan-vlans", "default"⟩
    (some ⟨some (Vlan.new.store.insert id c.spec.labels)⟩)

theorem unread_store_never_served_read :
    Restored (Run.run (Traced.step (Vlan.app (.plain _) .byKey fun _ _ => none))
      (.start (sampleStored 100 (Vlan.sampleClaim "a" (some 100) none)))
      [.createIndex noErrors ⟨"vlans", "default"⟩
        ⟨[], [Vlan.sampleClaim "a" (some 100) none]⟩]) := by
  refine ((unread_store_never_served (Vlan.app (.plain _) .byKey fun _ _ => none)).2 _ _ ?_).1
  exact ⟨fun h => h.2.1 rfl, trivial⟩

/-- After a restart in which the read of the ConfigMap fails, the index is served from an empty
table, and the next claim writes it over the stored one. -/
theorem unread_store_overwritten :
    ¬ServesOnlyRead (Vlan.app (.plain _) .byKey fun _ _ => none)
      { noErrors with get := some "etcdserver: request timed out" } ⟨"vlans", "default"⟩
      ⟨[], [Vlan.sampleClaim "a" (some 100) none]⟩
      (Traced.start (sampleStored 100 (Vlan.sampleClaim "a" (some 100) none))).toWorld ∧
    (Run.run (Traced.step (Vlan.app (.plain _) .byKey fun _ _ => none))
      (.start (sampleStored 100 (Vlan.sampleClaim "a" (some 100) none)))
      [.createIndex { noErrors with get := some "etcdserver: request timed out" }
          ⟨"vlans", "default"⟩ ⟨[], [Vlan.sampleClaim "a" (some 100) none]⟩,
        .claim noErrors (Vlan.sampleClaim "b" (some 200) none)]).configMaps
      ⟨"vlan-vlans", "default"⟩ =
    sampleStored 200 (Vlan.sampleClaim "b" (some 200) none) ⟨"vlan-vlans", "default"⟩ := by
  refine ⟨fun h => ?_, by decide +kernel⟩
  obtain ⟨e, he⟩ := ((h rfl).2 (by decide)).1
  cases he

end K8sIpam.Backend
