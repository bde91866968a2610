import K8sIpam.Ipam.Validator
import K8sIpam.Backend.Storage

/-! # The IPAM backend

`ipam.go` and the runtimes: a claim with a prefix and a claim without one take different ways.
These are the parts of the requests that work on the routing table. -/

namespace K8sIpam.Ipam
open Std Atomic Prog Net

section
variable (P : Platform)

/-- `iputil.New`. -/
def newPrefixInfo (s : String) : Except Failure Prefix :=
  match P.txt.parsePrefix s with
  | .ok pi => .ok pi
  | .error msg => .error (.error msg)

/-- A message of the validation is an error of the claim. -/
def checked (msg : String) : RibProg Unit :=
  if msg ≠ "" then .fail (.error ("validated failed: " ++ msg)) else return

def claim (cr : IPClaim) : RibProg IPClaim :=
  match cr.spec.pfx with
  | none => do
    checked (validateInputDynamic P cr)
    applyDynamic P false cr
  | some s => do
    let pi ← lift (newPrefixInfo P s)
    let msg ← validatePrefix P cr pi
    checked msg
    applyPrefix P false cr pi

def deleteClaim (cr : IPClaim) : RibProg Unit :=
  match cr.spec.pfx with
  | none => delete P false cr
  | some s => do
    let _ ← lift (newPrefixInfo P s)
    delete P false cr

/-! ## Requests in sequence -/

inductive Request where
  | claim (cr : IPClaim)
  | deleteClaim (cr : IPClaim)

def Request.cr : Request → IPClaim
  | .claim cr | .deleteClaim cr => cr

/-- The table and the updates sent after a request, whether it succeeds or fails. -/
def serve (s : RibState) : Request → RibState
  | .claim cr => ((claim P cr).run (handler P.nipam) s).2
  | .deleteClaim cr => ((deleteClaim P cr).run (handler P.nipam) s).2

def empty : RibState := ⟨∅, []⟩

/-- The table after a sequence of requests, from an empty one. -/
def ribAfter (rs : List Request) : RibState := Run.run (serve P) empty rs

end
end K8sIpam.Ipam
