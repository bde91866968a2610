import K8sIpam.Backend.Storage
import K8sIpam.Lib.RangeOrder
import K8sIpam.Vlan.Applogic

/-! # Storing and restoring a VLAN table

`pkg/backend/vlan/storage_cm.go`: an entry is restored when its owner gvk is the one of VLANs or
of VLAN claims and a resource of that kind with its name and namespace exists. -/

namespace K8sIpam.Vlan
open Std Atomic Backend

structure VLANSpec where
  vlanID : Option VlanId
  deriving DecidableEq

structure VLAN where
  metadata : ObjectMeta
  spec : VLANSpec
  deriving DecidableEq

def vlanGVK : GroupVersionKind := ⟨"vlan.resource.nephio.org", "v1alpha1", "VLAN"⟩

/-- What the two `List` calls of a restore return. -/
structure VlanLists where
  vlans : List VLAN
  claims : List VLANClaim

/-- The error of `Set` is not looked at. -/
def setEntry (e : Entry 16) (d : DB 16) : DB 16 :=
  match d.set e with
  | .ok d => d
  | .error _ => d

-- A difference between the stored and the specified id is only logged; reading the specified id
-- of a VLAN that has none is a nil dereference.
def restoreStaticVLANs (vlans : List VLAN) (vlanID : VlanId) (labels : Labels) :
    TableM (DB 16) Unit :=
  vlans.forM fun vlan => do
    if Names labels vlan.metadata then
      if vlan.spec.vlanID = none then
        throw (.panic "invalid memory address or nil pointer dereference")
      modify (setEntry ⟨vlanID, labels⟩)

def restoreDynamicVLANs (claims : List VLANClaim) (vlanID : VlanId) (labels : Labels) :
    TableM (DB 16) Unit :=
  claims.forM fun claim => do
    if Names labels claim.metadata then modify (setEntry ⟨vlanID, labels⟩)

/-- Walk over the stored entries of one kind of owner. -/
def restoreVLANs (ownerGVK : GroupVersionKind) (restoreFunc : VlanId → Labels → TableM (DB 16) Unit)
    (claims : List (VlanId × Labels)) : TableM (DB 16) Unit :=
  claims.forM fun kv => do
    if Labels.get kv.2 nephioOwnerGvkKey = gvkToString ownerGVK then restoreFunc kv.1 kv.2

/-- The orders in which the two passes of a restore meet the stored entries. -/
structure RestoreOrder where
  static : RangeOrder VlanId
  dynamic : RangeOrder VlanId

def RestoreOrder.byKey : RestoreOrder := ⟨.byKey, .byKey⟩

section
variable {Text : Type} (yaml : Yaml (Store 16) Text)

def getData (d : DB 16) : Text := yaml.marshal d.store

variable (order : RestoreOrder)

def restoreData (lists : VlanLists) (errs : ApiErrors) (data : Option Text) :
    TableM (DB 16) Unit := do
  let claims ← liftExcept (yaml.unmarshal (data.getD yaml.noData))
  listed "cannot get vlan list" errs.listFirst
  restoreVLANs vlanGVK (restoreStaticVLANs lists.vlans) (order.static.entries claims)
  listed "cannot get vlan claim list" errs.listSecond
  restoreVLANs vlanClaimGVK (restoreDynamicVLANs lists.claims) (order.dynamic.entries claims)

/-- The VLAN backend. -/
def app (refuses : NewRequirement) : App (DB 16) Text VlanLists VLANClaim VLANClaim where
  cmPrefix := "vlan"
  newTable := new
  getData := getData yaml
  restoreData _ lists errs data d := (restoreData yaml order lists errs data).run d
  cacheID c := getCacheID c.spec.vlanIndex
  claim c d := (claim refuses c).run DB.handler d
  deleteClaim c d := (deleteClaim refuses c).run DB.handler d

end
end K8sIpam.Vlan
