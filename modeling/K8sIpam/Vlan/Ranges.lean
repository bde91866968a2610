import K8sIpam.Db.Iterator
import K8sIpam.Vlan.Ownership

/-! # Range claims that crash the backend

Of all the reads of a slice that a claim makes, one can be out of range: the comparison of a free
id with the free id before it, when the smallest free id lies behind the start of the range. -/

namespace K8sIpam.Vlan
open Std Atomic Prog

variable {refuses : NewRequirement} {d : DB 16} {c : VLANClaim}

/-! ## Steps that do not crash -/

theorem atoi_safe (cs : List Char) : ¬Crashes (atoi cs) := by
  unfold atoi
  dsimp only
  split
  · exact not_crashes_error
  · split
    · exact not_crashes_ok
    · exact not_crashes_error

theorem rangeCtx_safe (r : String) : ¬Crashes (rangeCtx r) := by
  unfold rangeCtx
  split
  next size _ =>
    rw [crashes_bind]
    rintro (h | ⟨s, -, h⟩)
    · exact atoi_safe size h
    · exact not_crashes_ok h
  next start stop _ =>
    rw [crashes_bind]
    rintro (h | ⟨s, -, h⟩)
    · exact atoi_safe start h
    · rw [crashes_bind] at h
      rcases h with h | ⟨e, -, h⟩
      · exact atoi_safe stop h
      · split at h
        · exact not_crashes_error h
        · exact not_crashes_ok h
  · exact not_crashes_error

theorem getVLANClaimCtx_safe (c : VLANClaim) : ¬Crashes c.getVLANClaimCtx := by
  unfold VLANClaim.getVLANClaimCtx
  split
  · exact not_crashes_ok
  · exact rangeCtx_safe _
  · exact not_crashes_ok

theorem getOwnerSelector_safe (refuses : NewRequirement) (c : VLANClaim) :
    ¬Crashes (c.spec.getOwnerSelector refuses) := by
  unfold ClaimLabels.getOwnerSelector newSelector
  split
  · exact not_crashes_error
  · exact not_crashes_ok

theorem applyHandlerFound_safe (kind : VLANClaimType) (e : Entry 16) (es : List (Entry 16)) :
    ¬Crashes (applyHandlerFound kind (e :: es) c) := by
  have hsingle : ¬Crashes (singleEntry "claim" (e :: es)) := by
    cases es with
    | nil => exact not_crashes_ok
    | cons e' es => exact not_crashes_error
  cases kind with
  | dynamic =>
    rw [applyHandlerFound, applyHandlerDynamicVlan, crashes_bind]
    rintro (h | ⟨e, -, h⟩)
    · exact hsingle h
    · exact not_crashes_ok h
  | static =>
    rw [applyHandlerFound, applyHandlerStaticVlan, crashes_bind]
    rintro (h | ⟨e, -, h⟩)
    · exact hsingle h
    · split at h
      · exact not_crashes_ok h
      · exact not_crashes_error h
  | size => exact not_crashes_ok
  | range => exact not_crashes_ok

theorem setAndReport_safe (id : VlanId) : ¬Crashes ((setAndReport id c).run DB.handler d).1 := by
  rw [setAndReport_run]
  unfold DB.set
  cases DB.validate d.cfg.setValidation id with
  | none => exact not_crashes_ok
  | some msg => exact not_crashes_error

/-! ## Claims -/

/-- The claim asks for a range inside the window, its owner has no entries, and the smallest free
id is behind the start of the range but not behind its end. -/
def Overruns (refuses : NewRequirement) (d : DB 16) (c : VLANClaim) : Prop :=
  ∃ vctx s, c.getVLANClaimCtx = .ok vctx ∧ vctx.kind = .range ∧
    c.spec.getOwnerSelector refuses = .ok s ∧ d.getByLabel s = [] ∧
    vctx.start < d.lastId ∧ vctx.start + vctx.size - 1 < d.lastId ∧
    ∃ id, d.freeIds.head? = some id ∧ vctx.start < id ∧ id ≤ vctx.start + vctx.size - 1

theorem applyHandlerNew_crashes {vctx : VLANClaimCtx} :
    Crashes ((applyHandlerNew vctx.kind vctx c).run DB.handler d).1 ↔
      vctx.kind = .range ∧ Crashes (d.findFreeRange vctx.start vctx.size) := by
  cases hk : vctx.kind with
  | dynamic =>
    refine iff_of_false ?_ fun h => by cases h.1
    rw [applyHandlerNew_dynamic_run]
    unfold DB.findFree
    cases d.freeIds with
    | nil => exact not_crashes_error
    | cons id ids => exact setAndReport_safe id
  | static =>
    refine iff_of_false ?_ fun h => by cases h.1
    rw [applyHandlerNew_static_run]
    unfold DB.findFreeID
    by_cases hbig : vctx.start > d.lastId
    · rw [if_pos hbig]
      exact not_crashes_error
    · rw [if_neg hbig]
      exact setAndReport_safe _
  | size =>
    refine iff_of_false ?_ fun h => by cases h.1
    have hsafe := d.findFreeSize_safe vctx.size
    rw [applyHandlerNew, applyHandlerNewVlanSize, run_bind, DbProg.findFreeSize_run]
    cases hfree : d.findFreeSize vctx.size with
    | ok es => exact not_crashes_ok
    | error e =>
      rw [hfree] at hsafe
      exact fun h => hsafe (crashes_error.mp h)
  | range =>
    rw [applyHandlerNew, applyHandlerNewVlanRange, run_bind, DbProg.findFreeRange_run]
    cases d.findFreeRange vctx.start vctx.size with
    | ok es => exact iff_of_false not_crashes_ok fun h => not_crashes_ok h.2
    | error e =>
      constructor
      · exact fun h => ⟨rfl, crashes_error.mp h⟩
      · exact fun h => crashes_error.mp h.2

/-- A claim does not crash the backend exactly when it does not ask for a range that starts below
the smallest free id and reaches it. -/
theorem claim_safe_iff (refuses : NewRequirement) (d : DB 16) (c : VLANClaim) :
    ¬Crashes (answer refuses d c) ↔ ¬Overruns refuses d c := by
  refine not_congr ?_
  unfold answer
  cases hctx : c.getVLANClaimCtx with
  | error e =>
    have hsafe := getVLANClaimCtx_safe c
    rw [hctx] at hsafe
    refine iff_of_false ?_ ?_
    · rw [claim, hctx, lift_error, fail_bind]
      exact fun h => hsafe (crashes_error.mp h)
    · rintro ⟨vctx, s, h, -⟩
      rw [hctx] at h
      cases h
  | ok vctx =>
    cases hs : c.spec.getOwnerSelector refuses with
    | error e =>
      have hsafe := getOwnerSelector_safe refuses c
      rw [hs] at hsafe
      refine iff_of_false ?_ ?_
      · rw [claim, hctx, lift_ok, ret_bind, applyHandler, getEntriesByOwner, hs]
        exact fun h => hsafe (crashes_error.mp h)
      · rintro ⟨vctx', s, -, -, h, -⟩
        rw [hs] at h
        cases h
    | ok s =>
      rw [claim_run hctx hs]
      cases hes : d.getByLabel s with
      | cons e es =>
        refine iff_of_false (applyHandlerFound_safe vctx.kind e es) ?_
        rintro ⟨vctx', s', -, -, hs', hnil, -⟩
        rw [hs] at hs'
        cases hs'
        rw [hes] at hnil
        cases hnil
      | nil =>
        dsimp only
        rw [applyHandlerNew_crashes, DB.findFreeRange_crashes]
        constructor
        · rintro ⟨hk, h⟩
          exact ⟨vctx, s, hctx, hk, hs, hes, h⟩
        · rintro ⟨vctx', s', hctx', hk, -, -, h⟩
          rw [hctx] at hctx'
          cases hctx'
          exact ⟨hk, h⟩

/-- On a new table, where 2 is the smallest free id, a claim for the range 0:5 crashes. -/
theorem range_claim_crashes :
    answer (fun _ _ => none) (tableAfter (fun _ _ => none) []) (sampleClaim "a" none (some "0:5")) =
      .error (.panic "index out of range [-1]") := by
  decide +kernel

end K8sIpam.Vlan
