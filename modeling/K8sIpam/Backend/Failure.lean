import K8sIpam.Backend.Durability
import K8sIpam.Ipam.Storage
import K8sIpam.Ipam.Update

/-! # Claims that fail

A claim that fails on the table leaves the table as it was. One that succeeds on the table can
still be answered with an error, when the table cannot be saved. -/

namespace K8sIpam
open Std Atomic Prog Net

/-! ## Failures on the routing table -/

namespace Ipam

variable {P : Platform} {c : IPClaim} {s : RibState}

theorem checked_failsClean {msg : String} {f : Unit → RibProg IPClaim}
    (hf : (f ()).FailsClean (handler P.nipam) s) :
    (checked msg >>= f).FailsClean (handler P.nipam) s := by
  unfold checked
  split
  · exact .of_reads rfl
  · exact hf

theorem getRoutesByOwner_table :
    ((getRoutesByOwner P c).run (handler P.nipam) s).2 = s := by
  unfold getRoutesByOwner
  cases c.spec.getOwnerSelector P.refuses with
  | error e => rfl
  | ok own =>
    rw [lift_ok, ret_bind, run_getByLabel]
    split <;> rfl

theorem updateRib_failsClean (initializing : Bool) (pi : Option Prefix) (os : List Route) :
    (updateRib P initializing c pi os).FailsClean (handler P.nipam) s := by
  cases os with
  | nil => exact .of_reads rfl
  | cons o os =>
    obtain ⟨t, s', hrun, -⟩ := updateRib_run (P := P) (c := c) initializing pi s
      (List.cons_ne_nil o os)
    exact .of_ok hrun

theorem addRib_failsClean (pi : Prefix) : (addRib P c pi).FailsClean (handler P.nipam) s :=
  .of_ok (addRib_run P c pi s)

theorem claimFresh_failsClean (routes : List Route) (route : Route) :
    (claimFresh P c routes route).FailsClean (handler P.nipam) s := by
  unfold claimFresh
  dsimp only
  split
  · exact .of_reads rfl
  · refine .bind rfl fun available _ => ?_
    cases available with
    | none => exact .of_reads rfl
    | some p =>
      dsimp only
      split
      · exact .of_reads rfl
      · exact addRib_failsClean _

theorem applyDynamic_failsClean (initializing : Bool) :
    (applyDynamic P initializing c).FailsClean (handler P.nipam) s := by
  refine .bind getRoutesByOwner_table fun owned _ => ?_
  cases owned with
  | cons o os => exact updateRib_failsClean initializing none _
  | nil =>
    have hread : ((getRoutesByLabel P c).run (handler P.nipam) s).2 = s := by
      unfold getRoutesByLabel
      split <;> rfl
    refine .bind hread fun routes _ => ?_
    cases routes with
    | nil => exact .of_reads rfl
    | cons route routes =>
      dsimp only
      split
      · exact claimFresh_failsClean _ _
      · split
        · exact .of_reads rfl
        · refine .bind rfl fun available _ => ?_
          cases available with
          | none => exact claimFresh_failsClean _ _
          | some p => exact addRib_failsClean _

theorem applyPrefix_failsClean (initializing : Bool) (pi : Prefix) :
    (applyPrefix P initializing c pi).FailsClean (handler P.nipam) s := by
  refine .bind rfl fun route _ => ?_
  cases route with
  | none => exact addRib_failsClean pi
  | some r => exact .bind getRoutesByOwner_table fun _ _ => updateRib_failsClean initializing _ _

theorem claim_failsClean : (claim P c).FailsClean (handler P.nipam) s := by
  unfold claim
  split
  · exact checked_failsClean (applyDynamic_failsClean false)
  · cases newPrefixInfo P _ with
    | error e => exact .of_reads rfl
    | ok pi =>
      rw [lift_ok, ret_bind]
      refine .bind (by rw [validatePrefix_run]) fun msg _ => ?_
      exact checked_failsClean (applyPrefix_failsClean false pi)

end Ipam

/-! ## Failures on the VLAN table -/

namespace Vlan

variable {refuses : NewRequirement} {d : DB 16} {c : VLANClaim}

theorem setAndReport_failsClean (id : VlanId) : (setAndReport id c).FailsClean DB.handler d := by
  intro e d' h
  rw [setAndReport_run] at h
  split at h
  · cases h
  · exact (Prod.mk.inj h).2.symm

theorem applyHandlerNew_failsClean (kind : VLANClaimType) (vctx : VLANClaimCtx) :
    (applyHandlerNew kind vctx c).FailsClean DB.handler d := by
  cases kind with
  | dynamic =>
    refine .bind ?_ fun e _ => setAndReport_failsClean e.id
    rw [DbProg.findFree_run]
  | static =>
    refine .bind ?_ fun e _ => setAndReport_failsClean e.id
    rw [DbProg.findFreeID_run]
  | range =>
    refine .bind ?_ fun e _ => .of_reads rfl
    rw [DbProg.findFreeRange_run]
  | size =>
    refine .bind ?_ fun e _ => .of_reads rfl
    rw [DbProg.findFreeSize_run]

theorem claim_failsClean : (claim refuses c).FailsClean DB.handler d := by
  refine .bind (by rw [run_lift]) fun vctx _ => ?_
  have hread : ((getEntriesByOwner refuses c).run DB.handler d).2 = d := by
    unfold getEntriesByOwner
    cases c.spec.getOwnerSelector refuses <;> rfl
  refine .bind hread fun entries _ => ?_
  cases entries with
  | nil => exact applyHandlerNew_failsClean _ _
  | cons e es => exact .of_reads (by rw [run_lift])

end Vlan

/-! ## Failures of the storage -/

namespace Backend

variable {T Text Lists Req Resp α : Type} {app : App T Text Lists Req Resp} {errs : ApiErrors}
  {ref : ObjectReference} {w w' : World T Text}

/-- The ConfigMap of the index is there, or its absence goes unnoticed, or it can be created. -/
def Savable (app : App T Text Lists Req Resp) (errs : ApiErrors) (ref : ObjectReference)
    (w : World T Text) : Prop :=
  errs.get = none → w.configMaps (cmName app ref) = none → errs.create = none

/-- The change, made to the table alone, leaves it as it is. -/
def Idle (ref : ObjectReference) (f : T → Except Failure α × T) (w : World T Text) : Prop :=
  ∀ t, w.cache.get ref false = .ok t → (f t).2 = t

theorem saveAll_ok_iff (app : App T Text Lists Req Resp) (errs : ApiErrors) {t : T}
    (hget : w.cache.get ref false = .ok t) :
    (saveAll app errs ref w).1 = .ok () ↔ Savable app errs ref w := by
  unfold saveAll Savable World.getConfigMap
  rw [hget]
  cases hg : errs.get with
  | some msg => simp
  | none =>
    cases hcm : w.configMaps (cmName app ref) with
    | some cm => simp
    | none =>
      dsimp only
      unfold World.createConfigMap
      rw [hcm]
      cases hc : errs.create with
      | some msg => simp [wrap]
      | none => simp [wrap]

theorem Cache.put_self {c : Cache T} {b : Bool} {t : T} (h : c.get ref b = .ok t) :
    c.put ref t = c := by
  obtain ⟨ctx, hctx, -, rfl⟩ := Cache.get_eq_ok.mp h
  rw [Cache.put, hctx, Option.map_some]
  exact Function.update_eq_self_iff.mpr hctx.symm

/-- A change that fails on the table only without trace keeps the table whenever it is answered
with an error, unless it does change the table and cannot be saved. -/
theorem change_error_keeps_iff {f : T → Except Failure α × T}
    (hf : ∀ t e t', f t = (.error e, t') → t' = t) :
    (∀ e w', change app errs ref f w = (.error e, w') → w'.cache = w.cache) ↔
      Savable app errs ref w ∨ Idle ref f w := by
  unfold change Idle
  cases hget : w.cache.get ref false with
  | error e =>
    refine ⟨fun _ => .inr (fun t ht => by cases ht), fun _ e' w' h => ?_⟩
    rw [← (Prod.mk.inj h).2]
  | ok t =>
    have hput : ∀ t', (w.cache.put ref t').get ref false = .ok t' := Cache.get_put hget
    rcases hft : f t with ⟨e | a, t'⟩
    · obtain rfl := hf t e t' hft
      refine ⟨fun _ => .inr (fun u hu => ?_), fun _ e' w' h => ?_⟩
      · cases hu
        rw [hft]
      · simp only [hft] at h
        rw [← (Prod.mk.inj h).2]
        exact Cache.put_self hget
    · have hsave := saveAll_ok_iff app errs (w := { w with cache := w.cache.put ref t' }) (hput t')
      have hcache := saveAll_cache app errs ref { w with cache := w.cache.put ref t' }
      have hsavable : Savable app errs ref { w with cache := w.cache.put ref t' } ↔
          Savable app errs ref w := Iff.rfl
      rw [← hsavable, ← hsave]
      simp only [hft]
      rcases hrun : saveAll app errs ref { w with cache := w.cache.put ref t' } with ⟨e | u, w''⟩
      · rw [hrun] at hcache
        constructor
        · intro h
          have hsame : w.cache.put ref t' = w.cache := hcache.symm.trans (h e w'' rfl)
          refine .inr fun u hu => ?_
          cases hu
          have := (hput t').symm.trans (hsame ▸ hget)
          rw [hft]
          exact Except.ok.inj this
        · rintro (h | h) e' w' heq
          · cases h
          · cases heq
            have ht : t' = t := by simpa [hft] using h t rfl
            rw [hcache, ht]
            exact Cache.put_self hget
      · refine ⟨fun _ => .inl rfl, fun _ e' w' h => ?_⟩
        cases h

/-- For the IPAM backend and for the VLAN backend, every table, claim and outcome of the API
calls: a claim that is answered with an error leaves every table in memory as it was if and only
if the ConfigMap is there or can be created, or the claim does not change the table at all. -/
theorem failed_claim_keeps_table_iff {Text Text' : Type} (P : Ipam.Platform)
    (yaml : Yaml Ipam.Document Text) (order : Ipam.MapOrder) (yaml' : Yaml (Store 16) Text')
    (order' : Vlan.RestoreOrder) (refuses : NewRequirement) (errs : ApiErrors) :
    (∀ (c : Ipam.IPClaim) (w : World Ipam.RibState Text),
      (∀ e w', claim (Ipam.app P yaml order) errs c w = (.error e, w') → w'.cache = w.cache) ↔
        Savable (Ipam.app P yaml order) errs c.getCacheID w ∨
          Idle c.getCacheID ((Ipam.app P yaml order).claim c) w) ∧
    (∀ (c : Vlan.VLANClaim) (w : World (DB 16) Text'),
      (∀ e w', claim (Vlan.app yaml' order' refuses) errs c w = (.error e, w') → w'.cache = w.cache) ↔
        Savable (Vlan.app yaml' order' refuses) errs (getCacheID c.spec.vlanIndex) w ∨
          Idle (getCacheID c.spec.vlanIndex) ((Vlan.app yaml' order' refuses).claim c) w) :=
  ⟨fun _ _ => change_error_keeps_iff fun _ => Ipam.claim_failsClean,
    fun _ _ => change_error_keeps_iff fun _ => Vlan.claim_failsClean⟩

/-- A read that fails while the index is made leaves it without a ConfigMap; a creation that fails
while a claim is saved then answers the claim with an error, after the table has been changed. -/
theorem failed_claim_changes_table :
    let app := Ipam.app .reference (.plain Ipam.Document) .byKey
    let w := (createIndex app { noErrors with get := some "timeout" } ⟨"vpc", "default"⟩ ⟨[], []⟩
      ⟨fun _ => none, fun _ => none⟩).2
    let r := claim app { noErrors with create := some "timeout" } Ipam.instanceClaim w
    (w.cache ⟨"vpc", "default"⟩).map (fun ctx => (ctx.initialized, ctx.table.rib)) =
      some (true, ∅) ∧
    r.1 = .error (.error "cannot create configmap: timeout") ∧
    (r.2.cache ⟨"vpc", "default"⟩).map
      (fun ctx => ctx.table.rib[Ipam.samplePrefix 0 8]?.isSome) = some true := by
  exact ⟨by decide +kernel, by decide +kernel, by decide +kernel⟩

end Backend
end K8sIpam
