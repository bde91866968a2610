import K8sIpam.Lib.Owned
import K8sIpam.Vlan.Claim

/-! # The VLAN backend

`pkg/backend/vlan`: the handlers of the four kinds of VLAN claims, as programs over the atomic
operations of the VLAN table. The four rows of the function table `fnc` are the four cases of
`applyHandlerFound` and `applyHandlerNew`. -/

namespace K8sIpam.Vlan
open Std Atomic Prog

abbrev TableProg := DbProg 16

/-- The text that `%v` gives for a label set. -/
def labelsString (l : Labels) : String :=
  ",".intercalate (l.toList.map fun kv => kv.1 ++ "=" ++ kv.2)

def entriesString (es : List (Entry 16)) : String :=
  "[" ++ " ".intercalate (es.map fun e => toString e.id.toNat ++ " " ++ labelsString e.labels) ++ "]"

/-! ## Claims of an owner that has entries -/

/-- The one entry of a claim of a single id. -/
def singleEntry (verb : String) : List (Entry 16) → Except Failure (Entry 16)
  | [e] => .ok e
  | [] => .error (.panic "index out of range [0] with length 0")
  | es => .error (.error (verb ++ " for single entry returned multiple: " ++ entriesString es))

theorem singleEntry_eq_ok {verb : String} {es : List (Entry 16)} {e : Entry 16} :
    singleEntry verb es = .ok e ↔ es = [e] := by
  unfold singleEntry
  split <;> simp_all

def VLANClaim.setVLANID (c : VLANClaim) (id : VlanId) : VLANClaim :=
  { c with status.vlanID := some id }

def VLANClaim.setVLANRange (c : VLANClaim) (r : String) : VLANClaim :=
  { c with status.vlanRange := some r }

def applyHandlerDynamicVlan (entries : List (Entry 16)) (claim : VLANClaim) :
    Except Failure VLANClaim := do
  let e ← singleEntry "claim" entries
  return claim.setVLANID e.id

def applyHandlerStaticVlan (entries : List (Entry 16)) (claim : VLANClaim) :
    Except Failure VLANClaim := do
  let e ← singleEntry "claim" entries
  if claim.status.vlanID = none ∨ claim.status.vlanID = some e.id then
    return claim.setVLANID e.id
  throw (.error "vlan claim with a different vlan ID")

def applyHandlerMultipleVlan (_ : List (Entry 16)) (claim : VLANClaim) :
    Except Failure VLANClaim := return claim

def applyHandlerFound : VLANClaimType → List (Entry 16) → VLANClaim → Except Failure VLANClaim
  | .dynamic => applyHandlerDynamicVlan
  | .static => applyHandlerStaticVlan
  | .range | .size => applyHandlerMultipleVlan

def getHandlerSingleVlan (entries : List (Entry 16)) (claim : VLANClaim) :
    Except Failure VLANClaim := do
  let e ← singleEntry "get" entries
  return claim.setVLANID e.id

def getHandlerMultipleVlan (_ : List (Entry 16)) (claim : VLANClaim) :
    Except Failure VLANClaim := return claim

def getHandlerFound : VLANClaimType → List (Entry 16) → VLANClaim → Except Failure VLANClaim
  | .dynamic | .static => getHandlerSingleVlan
  | .range | .size => getHandlerMultipleVlan

/-! ## Claims of an owner that has none -/

/-- Store an id under the labels of the claim and report it. -/
def setAndReport (id : VlanId) (claim : VLANClaim) : TableProg VLANClaim := do
  DbProg.set ⟨id, claim.spec.getUserDefinedLabels⟩
  return claim.setVLANID id

def applyHandlerNewDynamicVlan (_ : VLANClaimCtx) (claim : VLANClaim) : TableProg VLANClaim := do
  let e ← DbProg.findFree
  setAndReport e.id claim

def applyHandlerNewStaticVlan (vctx : VLANClaimCtx) (claim : VLANClaim) : TableProg VLANClaim := do
  let e ← DbProg.findFreeID vctx.start
  setAndReport e.id claim

/-- The free range is reported; the entries found are not stored. -/
def applyHandlerNewVlanRange (vctx : VLANClaimCtx) (claim : VLANClaim) : TableProg VLANClaim := do
  let _ ← DbProg.findFreeRange vctx.start vctx.size
  return claim.setVLANRange (toString vctx.start.toNat ++ ":" ++
    toString (vctx.start + vctx.size - 1).toNat)

def applyHandlerNewVlanSize (vctx : VLANClaimCtx) (claim : VLANClaim) : TableProg VLANClaim := do
  let _ ← DbProg.findFreeSize vctx.size
  return claim.setVLANRange "TBD update status "

def applyHandlerNew : VLANClaimType → VLANClaimCtx → VLANClaim → TableProg VLANClaim
  | .dynamic => applyHandlerNewDynamicVlan
  | .static => applyHandlerNewStaticVlan
  | .range => applyHandlerNewVlanRange
  | .size => applyHandlerNewVlanSize

/-! ## The handlers -/

section
variable (refuses : NewRequirement)

def getEntriesByOwner (a : VLANClaim) : TableProg (List (Entry 16)) := do
  let ownerSelector ← lift (a.spec.getOwnerSelector refuses)
  DbProg.getByLabel ownerSelector

def getHandler (vctx : VLANClaimCtx) (a : VLANClaim) : TableProg VLANClaim := do
  let entries ← getEntriesByOwner refuses a
  match entries with
  | [] => return a
  | _ => lift (getHandlerFound vctx.kind entries a)

def applyHandler (vctx : VLANClaimCtx) (a : VLANClaim) : TableProg VLANClaim := do
  let entries ← getEntriesByOwner refuses a
  match entries with
  | [] => applyHandlerNew vctx.kind vctx a
  | _ => lift (applyHandlerFound vctx.kind entries a)

def deleteEntries : List (Entry 16) → TableProg Unit
  | [] => return
  | e :: es => do
    DbProg.delete e.id
    deleteEntries es

def deleteHandler (a : VLANClaim) : TableProg Unit := do
  let entries ← getEntriesByOwner refuses a
  deleteEntries entries

/-- The part of `be.Claim` that works on the table. The validation accepts every claim. -/
def claim (cr : VLANClaim) : TableProg VLANClaim := do
  let vctx ← lift cr.getVLANClaimCtx
  applyHandler refuses vctx cr

/-- The part of `be.GetClaim` that works on the table. -/
def getClaim (cr : VLANClaim) : TableProg VLANClaim := do
  let vctx ← lift cr.getVLANClaimCtx
  getHandler refuses vctx cr

/-- The part of `be.DeleteClaim` that works on the table. -/
def deleteClaim (cr : VLANClaim) : TableProg Unit := do
  let _ ← lift cr.getVLANClaimCtx
  deleteHandler refuses cr

end

/-! ## Requests -/

inductive Request where
  | claim (cr : VLANClaim)
  | deleteClaim (cr : VLANClaim)

/-- The claim resource that a request is about. -/
def Request.cr : Request → VLANClaim
  | .claim cr | .deleteClaim cr => cr

/-- The owner that makes a request: its five owner labels. -/
def VLANClaim.owner (c : VLANClaim) : List String := ownerKey c.spec.labels

def Request.owner (r : Request) : List String := r.cr.owner

/-- The table after a request, whether the request succeeds or fails. -/
def serve (refuses : NewRequirement) (d : DB 16) : Request → DB 16
  | .claim cr => ((claim refuses cr).run DB.handler d).2
  | .deleteClaim cr => ((deleteClaim refuses cr).run DB.handler d).2

/-- What a claim request answers. -/
def answer (refuses : NewRequirement) (d : DB 16) (cr : VLANClaim) : Except Failure VLANClaim :=
  ((claim refuses cr).run DB.handler d).1

/-- The table after a sequence of requests, from the one that `vlandb.New()` makes. -/
def tableAfter (refuses : NewRequirement) (rs : List Request) : DB 16 :=
  Run.run (serve refuses) new rs

theorem tableAfter_append (refuses : NewRequirement) (rs rs' : List Request) :
    tableAfter refuses (rs ++ rs') = Run.run (serve refuses) (tableAfter refuses rs) rs' :=
  Run.run_append _ _ _ _

/-! ## What a request does to the table -/

theorem setAndReport_run (d : DB 16) (id : VlanId) (c : VLANClaim) :
    (setAndReport id c).run DB.handler d = match d.set ⟨id, c.spec.labels⟩ with
      | .ok d' => (.ok (c.setVLANID id), d')
      | .error e => (.error e, d) := by
  rw [setAndReport, run_bind, DbProg.set_run]
  simp only [ClaimLabels.getUserDefinedLabels]
  cases d.set ⟨id, c.spec.labels⟩ <;> rfl

section
variable {refuses : NewRequirement} {d : DB 16} {c : VLANClaim} {vctx : VLANClaimCtx} {s : Selector}

theorem getEntriesByOwner_run (hs : c.spec.getOwnerSelector refuses = .ok s) :
    (getEntriesByOwner refuses c).run DB.handler d = (.ok (d.getByLabel s), d) := by
  simp [getEntriesByOwner, hs]

theorem claim_run (hctx : c.getVLANClaimCtx = .ok vctx)
    (hs : c.spec.getOwnerSelector refuses = .ok s) :
    (claim refuses c).run DB.handler d =
      match d.getByLabel s with
      | [] => (applyHandlerNew vctx.kind vctx c).run DB.handler d
      | es => (applyHandlerFound vctx.kind es c, d) := by
  rw [claim, hctx, lift_ok, ret_bind, applyHandler, run_bind_of_ok _ (getEntriesByOwner_run hs)]
  cases d.getByLabel s with
  | nil => rfl
  | cons e es => exact run_lift _ _ _

theorem applyHandlerNew_dynamic_run :
    (applyHandlerNew .dynamic vctx c).run DB.handler d = match d.findFree with
      | .ok e => (setAndReport e.id c).run DB.handler d
      | .error e => (.error e, d) := by
  rw [applyHandlerNew, applyHandlerNewDynamicVlan, run_bind, DbProg.findFree_run]
  cases d.findFree <;> rfl

theorem applyHandlerNew_static_run :
    (applyHandlerNew .static vctx c).run DB.handler d = match d.findFreeID vctx.start with
      | .ok e => (setAndReport e.id c).run DB.handler d
      | .error e => (.error e, d) := by
  rw [applyHandlerNew, applyHandlerNewStaticVlan, run_bind, DbProg.findFreeID_run]
  cases d.findFreeID vctx.start <;> rfl

theorem applyHandlerNew_multiple_table (hk : vctx.kind = .size ∨ vctx.kind = .range) :
    ((applyHandlerNew vctx.kind vctx c).run DB.handler d).2 = d := by
  rcases hk with hk | hk <;> rw [hk, applyHandlerNew]
  · rw [applyHandlerNewVlanSize, run_bind, DbProg.findFreeSize_run]
    cases d.findFreeSize vctx.size <;> rfl
  · rw [applyHandlerNewVlanRange, run_bind, DbProg.findFreeRange_run]
    cases d.findFreeRange vctx.start vctx.size <;> rfl

end

end K8sIpam.Vlan
