import K8sIpam.Vlan.Storage

/-! # Acknowledged requests and the stored table

When a claim or a delete is acknowledged, does the ConfigMap of the index hold the table? -/

namespace K8sIpam.Backend
open Std Atomic

variable {T Text Lists Req Resp α : Type} {app : App T Text Lists Req Resp} {errs : ApiErrors}
  {ref : ObjectReference} {w w' : World T Text}

/-- The ConfigMap of the index holds what `GetData` gives for the table in memory. -/
def Stored (app : App T Text Lists Req Resp) (ref : ObjectReference) (w : World T Text) : Prop :=
  ∃ t cm, w.cache.get ref false = .ok t ∧ w.configMaps (cmName app ref) = some cm ∧
    cm.data = some (app.getData t)

/-- The ConfigMap exists and the update of it succeeds. -/
def Writes (app : App T Text Lists Req Resp) (errs : ApiErrors) (ref : ObjectReference)
    (w : World T Text) : Prop :=
  w.configMaps (cmName app ref) ≠ none ∧ errs.update = none

/-- The ConfigMap holds the table that a change of the table in memory leaves. -/
def HoldsResult (app : App T Text Lists Req Resp) (ref : ObjectReference)
    (f : T → Except Failure α × T) (w : World T Text) : Prop :=
  ∃ t cm, w.cache.get ref false = .ok t ∧ w.configMaps (cmName app ref) = some cm ∧
    cm.data = some (app.getData (f t).2)

theorem Cache.get_put {c : Cache T} {b : Bool} {t : T} (h : c.get ref b = .ok t) (t' : T) :
    (c.put ref t').get ref b = .ok t' := by
  obtain ⟨ctx, hctx, hinit, -⟩ := Cache.get_eq_ok.mp h
  refine Cache.get_eq_ok.mpr ⟨⟨ctx.initialized, t'⟩, ?_, hinit, rfl⟩
  rw [Cache.put, Function.update_self, hctx, Option.map_some]

/-- What an acknowledged save leaves in the ConfigMap of the index. -/
theorem saveAll_ok {t : T} (hget : w.cache.get ref false = .ok t)
    (h : saveAll app errs ref w = (.ok (), w')) :
    w'.cache = w.cache ∧
    (Writes app errs ref w → w'.configMaps (cmName app ref) = some ⟨some (app.getData t)⟩) ∧
    (¬Writes app errs ref w → w'.configMaps (cmName app ref) = w.configMaps (cmName app ref) ∨
      w.configMaps (cmName app ref) = none ∧ w'.configMaps (cmName app ref) = some ⟨none⟩) := by
  have hupdate : ∀ {cm : ConfigMap Text},
      (w.updateConfigMap errs (cmName app ref) cm).2 = w' →
      w'.cache = w.cache ∧
      (Writes app errs ref w → w'.configMaps (cmName app ref) = some cm) ∧
      (¬Writes app errs ref w →
        w'.configMaps (cmName app ref) = w.configMaps (cmName app ref)) := by
    rintro cm rfl
    unfold World.updateConfigMap Writes
    cases errs.update with
    | some msg => simp
    | none => cases hcm : w.configMaps (cmName app ref) <;> simp [World.setConfigMap, hcm]
  unfold saveAll World.getConfigMap at h
  rw [hget] at h
  cases hg : errs.get with
  | some msg =>
    rw [hg] at h
    obtain ⟨hcache, hyes, hno⟩ := hupdate (Prod.mk.inj h).2
    exact ⟨hcache, hyes, fun hw => .inl (hno hw)⟩
  | none =>
    rw [hg] at h
    cases hcm : w.configMaps (cmName app ref) with
    | some cm =>
      rw [hcm] at h
      obtain ⟨hcache, hyes, hno⟩ := hupdate (Prod.mk.inj h).2
      exact ⟨hcache, hyes, fun hw => .inl (hcm ▸ hno hw)⟩
    | none =>
      rw [hcm] at h
      unfold World.createConfigMap at h
      rw [hcm] at h
      cases hc : errs.create with
      | some msg =>
        rw [hc] at h
        cases (Prod.mk.inj h).1
      | none =>
        rw [hc] at h
        obtain rfl := (Prod.mk.inj h).2
        refine ⟨rfl, fun hw => absurd hcm hw.1, fun _ => .inr ⟨rfl, ?_⟩⟩
        exact Function.update_self ..

/-- An acknowledged change is a successful change of the table and a successful save. -/
theorem change_ok {f : T → Except Failure α × T} {a : α}
    (h : change app errs ref f w = (.ok a, w')) :
    ∃ t, w.cache.get ref false = .ok t ∧
      saveAll app errs ref { w with cache := w.cache.put ref (f t).2 } = (.ok (), w') := by
  unfold change at h
  cases hget : w.cache.get ref false with
  | error e =>
    rw [hget] at h
    cases (Prod.mk.inj h).1
  | ok t =>
    refine ⟨t, rfl, ?_⟩
    rw [hget] at h
    dsimp only at h
    rcases hf : f t with ⟨e | a', t'⟩
    · rw [hf] at h
      cases (Prod.mk.inj h).1
    · rw [hf] at h
      dsimp only at h
      rcases hs : saveAll app errs ref { w with cache := w.cache.put ref t' } with ⟨e | ⟨⟩, w''⟩
      · rw [hs] at h
        cases (Prod.mk.inj h).1
      · rw [hs] at h
        rw [(Prod.mk.inj h).2]

/-- After an acknowledged change the table is stored exactly when the save wrote it, or when
nothing had to be written. -/
theorem change_stored_iff {f : T → Except Failure α × T} {a : α}
    (h : change app errs ref f w = (.ok a, w')) :
    Stored app ref w' ↔ Writes app errs ref w ∨ HoldsResult app ref f w := by
  obtain ⟨t, hget, hsave⟩ := change_ok h
  have hput := Cache.get_put hget (f t).2
  obtain ⟨hcache, hyes, hno⟩ := saveAll_ok (w := { w with cache := w.cache.put ref (f t).2 }) hput hsave
  have hget' : w'.cache.get ref false = .ok (f t).2 := by rw [hcache]; exact hput
  by_cases hw : Writes app errs ref w
  · refine ⟨fun _ => .inl hw, fun _ => ⟨(f t).2, _, hget', hyes hw, rfl⟩⟩
  · constructor
    · rintro ⟨t', cm, ht', hcm, hdata⟩
      cases hget'.symm.trans ht'
      rcases hno hw with hsame | ⟨-, hempty⟩
      · exact .inr ⟨t, cm, hget, hsame.symm.trans hcm, hdata⟩
      · cases hempty.symm.trans hcm
        cases hdata
    · rintro (hw' | ⟨t', cm, ht', hcm, hdata⟩)
      · exact absurd hw' hw
      · cases hget.symm.trans ht'
        rcases hno hw with hsame | ⟨hnone, -⟩
        · exact ⟨(f t).2, cm, hget', hsame.trans hcm, hdata⟩
        · cases hnone.symm.trans hcm

/-- For every backend, state and outcome of the API calls: after an acknowledged claim or delete
the ConfigMap holds the table in memory if and only if it existed before and its update
succeeded, or it already held the resulting table. -/
theorem acknowledged_stored_iff (app : App T Text Lists Req Resp) (errs : ApiErrors) (req : Req)
    (w : World T Text) :
    (∀ resp w', claim app errs req w = (.ok resp, w') →
      (Stored app (app.cacheID req) w' ↔ Writes app errs (app.cacheID req) w ∨
        HoldsResult app (app.cacheID req) (app.claim req) w)) ∧
    (∀ w', deleteClaim app errs req w = (.ok (), w') →
      (Stored app (app.cacheID req) w' ↔ Writes app errs (app.cacheID req) w ∨
        HoldsResult app (app.cacheID req) (app.deleteClaim req) w)) :=
  ⟨fun _ _ h => change_stored_iff h, fun _ h => change_stored_iff h⟩

/-- An initialized VLAN index with the table of `vlandb.New()`, and its ConfigMap. -/
def sampleWorld (cm : Option (ConfigMap (Option (Store 16)))) : World (DB 16) (Option (Store 16)) where
  cache := Function.update (fun _ => none) ⟨"vlans", "default"⟩ (some ⟨true, Vlan.new⟩)
  configMaps := Function.update (fun _ => none) ⟨"vlan-vlans", "default"⟩ cm

theorem claim_stored_present :
    Stored (Vlan.app (.plain _) .byKey fun _ _ => none) ⟨"vlans", "default"⟩
      (claim (Vlan.app (.plain _) .byKey fun _ _ => none) noErrors (Vlan.sampleClaim "a" (some 100) none)
        (sampleWorld (some ⟨none⟩))).2 := by
  have hok : (claim (Vlan.app (.plain _) .byKey fun _ _ => none) noErrors
      (Vlan.sampleClaim "a" (some 100) none) (sampleWorld (some ⟨none⟩))).1 =
        .ok ((Vlan.sampleClaim "a" (some 100) none).setVLANID 100) := by decide +kernel
  exact ((acknowledged_stored_iff _ _ _ _).1 _ _ (Prod.ext hok rfl)).mpr
    (.inl ⟨by decide +kernel, rfl⟩)

/-- A claim on an index whose ConfigMap is missing is acknowledged and leaves an empty ConfigMap. -/
theorem claim_acknowledged_not_stored :
    (claim (Vlan.app (.plain _) .byKey fun _ _ => none) noErrors (Vlan.sampleClaim "a" (some 100) none)
        (sampleWorld none)).1 = .ok ((Vlan.sampleClaim "a" (some 100) none).setVLANID 100) ∧
    ¬Stored (Vlan.app (.plain _) .byKey fun _ _ => none) ⟨"vlans", "default"⟩
      (claim (Vlan.app (.plain _) .byKey fun _ _ => none) noErrors (Vlan.sampleClaim "a" (some 100) none)
        (sampleWorld none)).2 := by
  refine ⟨by decide +kernel, ?_⟩
  rintro ⟨t, cm, -, hcm, hdata⟩
  have hempty : (claim (Vlan.app (.plain _) .byKey fun _ _ => none) noErrors
      (Vlan.sampleClaim "a" (some 100) none) (sampleWorld none)).2.configMaps
        ⟨"vlan-vlans", "default"⟩ = some ⟨none⟩ := by decide +kernel
  cases hempty.symm.trans hcm
  cases hdata

end K8sIpam.Backend
