import K8sIpam.Lib.Rely
import Mathlib.Data.List.Chain

/-! # The endpoint lease

`pkg/lease/lease.go` against an API server that keeps one lease object. Times are in microseconds,
as the API keeps them. -/

namespace K8sIpam.Lease
open Atomic

/-! ## The API server -/

structure LeaseSpec where
  holderIdentity : Option String
  leaseDurationSeconds : Option Nat
  acquireTime : Option Nat
  renewTime : Option Nat
  deriving DecidableEq

/-- The object `coordinationv1.Lease`. -/
structure Object where
  resourceVersion : Nat
  spec : LeaseSpec
  deriving DecidableEq

inductive ApiError where
  | notFound | alreadyExists | conflict
  deriving DecidableEq

/-- The clock and all that was ever written to the lease object, the latest first. The object holds
the latest, and its version counts the writes. -/
structure Api where
  clock : Nat
  writes : List LeaseSpec

def Api.lease (s : Api) : Option Object := s.writes.head?.map (⟨s.writes.length, ·⟩)

inductive Op where
  | get
  | create (l : Object)
  | update (l : Object)
  | nowMicro

def sig : Sig where
  Op := Op
  Resp
    | .get => Except ApiError Object
    | .create _ | .update _ => Except ApiError Unit
    | .nowMicro => Nat

def Api.write (s : Api) (spec : LeaseSpec) : Api := { s with writes := spec :: s.writes }

/-- A create fails if the object exists, an update unless it has the current version. -/
def handler : Handler sig Api
  | .get, s =>
    match s.lease with
    | some l => (.ok l, s)
    | none => (.error .notFound, s)
  | .create l, s =>
    match s.lease with
    | some _ => (.error .alreadyExists, s)
    | none => (.ok (), s.write l.spec)
  | .update l, s =>
    match s.lease with
    | some cur =>
      if cur.resourceVersion = l.resourceVersion then (.ok (), s.write l.spec)
      else (.error .conflict, s)
    | none => (.error .notFound, s)
  | .nowMicro, s => (s.clock, s)

/-- Time passes. -/
def tick (n : Nat) (s : Api) : Api := { s with clock := s.clock + n }

/-! ## The code -/

structure CR where
  kind : String
  ns : String
  name : String
  deriving DecidableEq

inductive LeaseError where
  | api (e : ApiError)
  | msg (text : String)
  | panic (text : String)
  deriving DecidableEq

def second : Nat := 1000000

def defaultLeaseInterval : Nat := 1 * second

def getHolderIdentity (cr : CR) : String :=
  cr.kind.toLower ++ "." ++ cr.ns.toLower ++ "." ++ cr.name.toLower

def getLease (cr : CR) (now : Nat) : Object where
  resourceVersion := 0
  spec :=
    { holderIdentity := some (getHolderIdentity cr)
      leaseDurationSeconds := some (defaultLeaseInterval / second)
      acquireTime := some now
      renewTime := some now }

/-- The test whether the lease that was read can be taken over or renewed. -/
def checkHolder (spec : LeaseSpec) (holder : String) (cr : CR) (now : Nat) :
    Except LeaseError Unit :=
  if holder ≠ getHolderIdentity cr then
    match spec.renewTime with
    | none => .ok ()
    | some renewTime =>
      match spec.leaseDurationSeconds with
      | none => .error (.panic "invalid memory address or nil pointer dereference")
      | some d =>
        if renewTime + d * second < now then .ok ()
        else .error (.msg ("cannot acquire lease, lease held by another identity: " ++ holder))
  else .ok ()

/-- From the second `Get` on: take over the lease or renew it. -/
def renewLease (cr : CR) : Prog sig LeaseError Unit :=
  .op .get fun
  | .error e => .fail (.api e)
  | .ok lease =>
    match lease.spec.holderIdentity with
    | none => .fail (.msg "lease nil or holderidentity nil")
    | some holder =>
      .op .nowMicro fun now =>
      match checkHolder lease.spec holder cr now with
      | .error e => .fail e
      | .ok () =>
        .op .nowMicro fun now =>
        .op (.update { getLease cr now with resourceVersion := lease.resourceVersion }) fun
        | .error e => .fail (.api e)
        | .ok () => .ret ()

def acquireLease (cr : CR) : Prog sig LeaseError Unit :=
  .op .get fun
  | .error .notFound =>
    .op .nowMicro fun now =>
    .op (.create (getLease cr now)) fun
    | .error e => .fail (.api e)
    | .ok () => renewLease cr
  | .error e => .fail (.api e)
  | .ok _ => renewLease cr

/-! ## Handing over -/

/-- The lease passes from `old` to `new`: to another holder only after it has expired. -/
def HandedOver (new old : LeaseSpec) : Prop :=
  ∃ t₁ t₂ d, old.renewTime = some t₁ ∧ new.renewTime = some t₂ ∧
    old.leaseDurationSeconds = some d ∧
    (old.holderIdentity ≠ new.holderIdentity → t₁ + d * second < t₂)

/-- All writes are by `getLease`, and each follows its predecessor as it should. -/
structure Api.Inv (s : Api) : Prop where
  built : ∀ w ∈ s.writes, ∃ cr now, w = (getLease cr now).spec
  handed : s.writes.IsChain HandedOver

/-- Time goes on and writes are added. -/
structure Api.Le (s s' : Api) : Prop where
  clock : s.clock ≤ s'.clock
  writes : s.writes <:+ s'.writes

theorem Api.Le.refl (s : Api) : s.Le s := ⟨le_rfl, List.suffix_rfl⟩

theorem Api.Le.trans {s s' s'' : Api} (h : s.Le s') (h' : s'.Le s'') : s.Le s'' :=
  ⟨h.clock.trans h'.clock, h.writes.trans h'.writes⟩

theorem Api.le_write (s : Api) (spec : LeaseSpec) : s.Le (s.write spec) :=
  ⟨le_rfl, List.suffix_cons _ _⟩

theorem handler_le (o : Op) (s : Api) : s.Le (handler o s).2 := by
  cases o with
  | get =>
    simp only [handler]
    split
    all_goals exact .refl s
  | create l =>
    simp only [handler]
    split
    · exact .refl s
    · exact s.le_write _
  | update l =>
    simp only [handler]
    split
    · split
      · exact s.le_write _
      · exact .refl s
    · exact .refl s
  | nowMicro => exact .refl s

theorem rely : Rely handler tick Api.Le Api.Inv where
  refl := .refl
  trans := .trans
  op_le := handler_le
  env_le n _ := ⟨Nat.le_add_right _ n, List.suffix_rfl⟩
  env_inv _ _ h := ⟨h.built, h.handed⟩

section
variable {s s' : Api} {cr : CR} {now : Nat} {l : Object}

theorem Api.lease_eq_some : s.lease = some l ↔
    ∃ ws, s.writes = l.spec :: ws ∧ l.resourceVersion = ws.length + 1 := by
  unfold Api.lease
  cases s.writes with
  | nil => simp
  | cons w ws =>
    constructor
    · rintro ⟨⟩
      exact ⟨ws, rfl, rfl⟩
    · rintro ⟨_, ⟨⟩, hv⟩
      simp [← hv]

theorem Api.lease_eq_none : s.lease = none ↔ s.writes = [] := by
  simp [Api.lease]

/-- As long as the version is the same the lease is. -/
theorem Api.Le.lease_eq (h : s.Le s') {l' : Object} (hl : s.lease = some l)
    (hl' : s'.lease = some l') (hv : l'.resourceVersion = l.resourceVersion) : l'.spec = l.spec := by
  obtain ⟨ws, hw, hlen⟩ := Api.lease_eq_some.mp hl
  obtain ⟨ws', hw', hlen'⟩ := Api.lease_eq_some.mp hl'
  have heq : s.writes = s'.writes := by
    apply h.writes.eq_of_length
    rw [hw, hw', List.length_cons, List.length_cons]
    omega
  rw [hw, hw'] at heq
  exact (List.cons.inj heq).1.symm

theorem Api.Inv.create (h : s.Inv) (hnone : s.lease = none) :
    (s.write (getLease cr now).spec).Inv := by
  have hw := Api.lease_eq_none.mp hnone
  constructor
  · intro w hmem
    rcases List.mem_cons.mp hmem with rfl | hmem
    · exact ⟨cr, now, rfl⟩
    · exact h.built w hmem
  · change List.IsChain HandedOver (_ :: s.writes)
    rw [hw]
    exact .singleton _

theorem Api.Inv.update (h : s.Inv) (hl : s.lease = some l)
    (hold : HandedOver (getLease cr now).spec l.spec) : (s.write (getLease cr now).spec).Inv := by
  obtain ⟨ws, hw, -⟩ := Api.lease_eq_some.mp hl
  constructor
  · intro w hmem
    rcases List.mem_cons.mp hmem with rfl | hmem
    · exact ⟨cr, now, rfl⟩
    · exact h.built w hmem
  · have hchain := h.handed
    change List.IsChain HandedOver (_ :: s.writes)
    rw [hw] at hchain ⊢
    exact .cons_cons hold hchain

/-- A lease that passes the test can be written over from then on. -/
theorem handedOver_of_check {now' : Nat} {holder : String} (h : s.Inv) (hl : s.lease = some l)
    (hholder : l.spec.holderIdentity = some holder)
    (hcheck : checkHolder l.spec holder cr now = .ok ()) (hle : now ≤ now') :
    HandedOver (getLease cr now').spec l.spec := by
  obtain ⟨ws, hw, -⟩ := Api.lease_eq_some.mp hl
  obtain ⟨cr₀, t, hspec⟩ := h.built l.spec (hw ▸ List.mem_cons_self)
  refine ⟨t, now', defaultLeaseInterval / second, by rw [hspec]; rfl, rfl, by rw [hspec]; rfl,
    fun hne => ?_⟩
  rw [hspec] at hcheck hholder hne
  have hne' : holder ≠ getHolderIdentity cr := by
    rintro rfl
    exact hne hholder
  simp only [checkHolder, if_pos hne', getLease] at hcheck
  split at hcheck
  next hlt => omega
  · cases hcheck

end

theorem renewLease_safe (cr : CR) (s : Api) : (renewLease cr).Safe handler Api.Le Api.Inv s := by
  intro s₁ _ hinv₁
  cases hl : s₁.lease with
  | none =>
    simp only [handler, hl]
    exact ⟨hinv₁, trivial⟩
  | some l =>
    simp only [handler, hl]
    refine ⟨hinv₁, ?_⟩
    split
    · trivial
    next holder hholder =>
    intro s₂ hle₂ hinv₂
    refine ⟨hinv₂, ?_⟩
    dsimp only [handler]
    split
    · trivial
    next hcheck =>
    intro s₃ hle₃ hinv₃
    refine ⟨hinv₃, fun s₄ hle₄ hinv₄ => ?_⟩
    -- what is replaced has the version, so it is the lease that was tested
    simp only [handler]
    split
    next cur hcur =>
      split
      next hv =>
        have hsame : cur.spec = l.spec := (hle₂.trans (hle₃.trans hle₄)).lease_eq hl hcur hv
        have hold : HandedOver (getLease cr s₃.clock).spec cur.spec := by
          rw [hsame]
          exact handedOver_of_check hinv₁ hl hholder hcheck hle₃.clock
        exact ⟨hinv₄.update hcur hold, trivial⟩
      · exact ⟨hinv₄, trivial⟩
    · exact ⟨hinv₄, trivial⟩

theorem acquireLease_safe (cr : CR) (s : Api) :
    (acquireLease cr).Safe handler Api.Le Api.Inv s := by
  intro s₁ _ hinv₁
  cases hl : s₁.lease with
  | some l =>
    simp only [handler, hl]
    exact ⟨hinv₁, renewLease_safe cr s₁⟩
  | none =>
    simp only [handler, hl]
    refine ⟨hinv₁, fun s₂ hle₂ hinv₂ => ⟨hinv₂, fun s₃ hle₃ hinv₃ => ?_⟩⟩
    simp only [handler]
    split
    · exact ⟨hinv₃, trivial⟩
    next hnone => exact ⟨hinv₃.create hnone, renewLease_safe cr _⟩

variable {ι : Type} [DecidableEq ι]

/-- Any number of runs of `AcquireLease` before there is a lease, at any time. -/
def acquiring (clock : Nat) (crs : ι → CR) : Conf sig Api ι LeaseError Unit :=
  ⟨⟨clock, []⟩, fun i => acquireLease (crs i)⟩

/-- In every interleaving, with time passing as it may between the operations, the lease is handed
over from each write to the next. -/
theorem writes_handed_over (clock : Nat) (crs : ι → CR) (sched : List (Nat × ι)) :
    (Run.run (Conf.stepIn handler tick) (acquiring clock crs) sched).shared.writes.IsChain
      HandedOver := by
  have hinit : (acquiring clock crs).Safe handler Api.Le Api.Inv :=
    ⟨⟨nofun, .nil⟩, fun i => acquireLease_safe (crs i) _⟩
  exact (rely.run hinit sched).handed

/-- Two endpoints after each other: the second waits until the lease of the first has expired. -/
example :
    let crs : Bool → CR := fun b => ⟨"Endpoint", "ns", if b then "a" else "b"⟩
    let run := Run.run (Conf.stepIn handler tick) (acquiring 0 crs)
      ([true, true, true, true, true, true, true].map (0, ·) ++ [(0, false), (0, false),
        (second + 1, false), (0, false), (0, false)])
    run.shared.writes.map (·.renewTime) = [some (second + 1), some 0, some 0] := by
  decide +kernel

end K8sIpam.Lease
