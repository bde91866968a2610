import K8sIpam.Api.Meta
import K8sIpam.Db.Db

/-! # VLAN claims

`apis/resource/vlan/v1alpha1`: the VLAN claim and `GetVLANClaimCtx`, which reads from its spec
what kind of claim it is. -/

namespace K8sIpam.Vlan
open Std Atomic

structure VLANClaimSpec extends ClaimLabels where
  vlanIndex : ObjectReference
  vlanID : Option VlanId
  vlanRange : Option String
  deriving DecidableEq

structure VLANClaimStatus where
  vlanID : Option VlanId
  vlanRange : Option String
  deriving DecidableEq

structure VLANClaim where
  metadata : ObjectMeta
  spec : VLANClaimSpec
  status : VLANClaimStatus
  deriving DecidableEq

def vlanClaimGVK : GroupVersionKind := ⟨"vlan.resource.nephio.org", "v1alpha1", "VLANClaim"⟩

/-- The owner of a claim is written into its user defined labels before it is sent. -/
def VLANClaim.addOwnerLabelsToCR (c : VLANClaim) : VLANClaim :=
  { c with spec.labels := addOwnerLabels vlanClaimGVK c.metadata c.spec.labels }

/-- A claim as a client sends it for the resource `default/name`. -/
def sampleClaim (name : String) (id : Option VlanId) (range : Option String) : VLANClaim :=
  VLANClaim.addOwnerLabelsToCR
    { metadata := ⟨name, "default", ∅⟩
      spec := { labels := ∅, selector := none, vlanIndex := ⟨"vlans", "default"⟩, vlanID := id,
                vlanRange := range }
      status := ⟨none, none⟩ }

inductive VLANClaimType where
  | dynamic | static | size | range
  deriving DecidableEq

structure VLANClaimCtx where
  kind : VLANClaimType
  start : VlanId
  size : VlanId
  deriving DecidableEq

/-- The value of a non-empty string of decimal digits. -/
def parseDigits (cs : List Char) : Option Nat :=
  if cs ≠ [] ∧ cs.all Char.isDigit then some (cs.foldl (fun n c => 10 * n + (c.toNat - 48)) 0)
  else none

/-- `strconv.Atoi`: an optional sign and decimal digits, within the range of a 64-bit `int`. -/
def atoi (cs : List Char) : Except Failure Int :=
  let numError := fun why => Failure.error
    ("strconv.Atoi: parsing " ++ (String.ofList cs).quote ++ ": " ++ why)
  let n := match cs with
    | '-' :: cs => (parseDigits cs).map fun n => -(n : Int)
    | '+' :: cs => (parseDigits cs).map fun n => (n : Int)
    | cs => (parseDigits cs).map fun n => (n : Int)
  match n with
  | none => .error (numError "invalid syntax")
  | some n => if -2 ^ 63 ≤ n ∧ n < 2 ^ 63 then .ok n else .error (numError "value out of range")

/-- The context of a range text: `size` or `start:end`. The integers are truncated to `uint16`. -/
def rangeCtx (r : String) : Except Failure VLANClaimCtx :=
  match r.toList.splitOn ':' with
  | [size] => do
    let s ← atoi size
    return ⟨.size, 0, BitVec.ofInt 16 s⟩
  | [start, stop] => do
    let s ← atoi start
    let e ← atoi stop
    if e < s then
      throw (.error ("VLAN range " ++ r ++ " end " ++ toString e ++ " can not be smaller than start " ++
        toString s))
    return ⟨.range, BitVec.ofInt 16 s, BitVec.ofInt 16 e - BitVec.ofInt 16 s + 1⟩
  | _ => .error (.error ("VLAN range can either be start:end or size, got: " ++ r))

def VLANClaim.getVLANClaimCtx (c : VLANClaim) : Except Failure VLANClaimCtx :=
  match c.spec.vlanID, c.spec.vlanRange with
  | some id, _ => .ok ⟨.static, id, 0⟩
  | none, some r => rangeCtx r
  | none, none => .ok ⟨.dynamic, 0, 0⟩

/-- A range text never makes a claim of a single id. -/
theorem rangeCtx_kind {r : String} {ctx : VLANClaimCtx} (h : rangeCtx r = .ok ctx) :
    ctx.kind = .size ∨ ctx.kind = .range := by
  unfold rangeCtx at h
  split at h
  · obtain ⟨s, -, h⟩ := bind_eq_ok.mp h
    cases h
    exact .inl rfl
  · obtain ⟨s, -, h⟩ := bind_eq_ok.mp h
    obtain ⟨e, -, h⟩ := bind_eq_ok.mp h
    split at h
    · cases h
    · cases h
      exact .inr rfl
  · cases h

/-- What the kind of a claim says about its spec. -/
theorem getVLANClaimCtx_ok {c : VLANClaim} {ctx : VLANClaimCtx} (h : c.getVLANClaimCtx = .ok ctx) :
    (ctx.kind = .static ∧ c.spec.vlanID = some ctx.start) ∨
    (ctx.kind = .dynamic ∧ c.spec.vlanID = none ∧ c.spec.vlanRange = none) ∨
    ((ctx.kind = .size ∨ ctx.kind = .range) ∧ c.spec.vlanID = none ∧ c.spec.vlanRange ≠ none) := by
  unfold VLANClaim.getVLANClaimCtx at h
  split at h
  · cases h
    exact .inl ⟨rfl, ‹_›⟩
  · refine .inr (.inr ⟨rangeCtx_kind h, ‹_›, ?_⟩)
    simp [*]
  · cases h
    exact .inr (.inl ⟨rfl, ‹_›, ‹_›⟩)

end K8sIpam.Vlan
