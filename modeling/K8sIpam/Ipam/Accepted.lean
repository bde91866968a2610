import K8sIpam.Ipam.Reference
import K8sIpam.Ipam.Update

/-! # Accepted claims with a prefix

The validation looks for the subnet of the prefix, the applicator for the route that the claim is
about, which for an address of a network is the address. If the address is there and the subnet is
not, nobody has looked whose address it is. -/

namespace K8sIpam.Ipam
open Std Atomic Prog Net

variable {P : Platform} {s s' : RibState} {rib : Rib} {c c' : IPClaim} {pi : Prefix} {b : Bool}
  {sel : Selector}

/-- The claim can be applied: `ApplyPrefix` returns a result. -/
def Applies (P : Platform) (initializing : Bool) (s : RibState) (c : IPClaim) (pi : Prefix) : Prop :=
  ∃ c' s', (applyPrefix P initializing c pi).run (handler P.nipam) s = (.ok c', s')

theorem applies_iff : Applies P b s c pi ↔ s.rib[lookupPrefix c pi]? = none ∨
    ∃ sel, c.spec.getOwnerSelector P.refuses = .ok sel ∧ P.nipam.getByLabel s.rib sel ≠ [] ∧
      MayOwn c (P.nipam.getByLabel s.rib sel) := by
  constructor
  · rintro ⟨c', s', hrun⟩
    rcases applyPrefix_ok hrun with ⟨hnone, -⟩ | ⟨-, sel, hsel, hne, hmay, -⟩
    · exact .inl hnone
    · exact .inr ⟨sel, hsel, hne, hmay⟩
  · intro h
    cases hlook : s.rib[lookupPrefix c pi]? with
    | none =>
      have hrun : (applyPrefix P b c pi).run (handler P.nipam) s =
          (addRib P c pi).run (handler P.nipam) s := by
        rw [applyPrefix, run_get, getRoute, hlook]
        rfl
      exact ⟨_, _, hrun.trans (addRib_run P c pi s)⟩
    | some l =>
      rw [hlook] at h
      obtain ⟨sel, hsel, hne, hmay⟩ := h.resolve_left (Option.some_ne_none l)
      have howned := getRoutesByOwner_ok.mpr ⟨rfl, sel, hsel, rfl, hmay⟩
      obtain ⟨t, s', hrun, -⟩ := updateRib_run (P := P) (c := c) b (some pi) s hne
      refine ⟨reported P s'.rib c t, s', ?_⟩
      rw [applyPrefix, run_get, getRoute, hlook]
      dsimp only [Option.map_some]
      rw [run_bind_of_ok _ howned, hrun]

/-- All routes have the five owner labels. -/
def OwnerLabelled (rib : Rib) : Prop :=
  ∀ r, rib.Has r → ∀ k ∈ ownerKeys, r.labels[k]?.isSome = true

instance (rib : Rib) : Decidable (OwnerLabelled rib) :=
  inferInstanceAs (Decidable (∀ r, rib.Has r → ∀ k ∈ ownerKeys, r.labels[k]?.isSome = true))

/-- The owner selector finds the routes with the owner of the claim. -/
theorem OwnerLabelled.mem_getByLabel (hrib : OwnerLabelled rib)
    (hsel : c.spec.getOwnerSelector P.refuses = .ok sel) {r : Route} :
    r ∈ P.nipam.getByLabel rib sel ↔ rib.Has r ∧ ownerKey r.labels = c.owner := by
  rw [mem_owned hsel]
  refine and_congr_right fun hr => ⟨ownerKey_of_hasOwner, fun ho k hk => ?_⟩
  obtain ⟨v, hv⟩ := Option.isSome_iff_exists.mp (hrib r hr k hk)
  have hget : r.labels.get k = c.spec.labels.get k := ownerKey_eq_iff.mp ho k hk
  rw [hv, ← hget, Labels.get_of_getElem? hv]

/-- Of an accepted claim whose route is there, that route has its owner, or the claim is for an
address and its subnet is not there. -/
theorem owner_of_accepted {l : Labels} (hvalid : validateMsg P rib c pi = "")
    (hmain : rib[mainPrefix c pi]? = some l) :
    ownerKey l = c.owner ∨
      c.spec.kind = .network ∧ c.isCreatePrefix = false ∧ rib[pi.getIPSubnet]? = none := by
  have hinput := validateInput_of_msg hvalid
  rw [validateMsg, if_neg (not_not.mpr hinput)] at hvalid
  by_cases haddr : c.spec.kind = .network ∧ c.isCreatePrefix = false
  · obtain ⟨hk, hc⟩ := haddr
    have haddress : rib[pi.getIPAddressPrefix]? = some l := by
      rw [← hmain]
      simp [mainPrefix, hk, hc]
    cases hsubnet : rib[pi.getIPSubnet]? with
    | none => exact .inr ⟨hk, hc, rfl⟩
    | some l' =>
      rw [getRoute, hsubnet] at hvalid
      exact .inl ((validateExisting_address hk hc haddress).mp hvalid).2
  · -- the validation looks for the same route
    rw [mainPrefix_eq_subnet c pi haddr] at hmain
    rw [getRoute, hmain] at hvalid
    exact .inl ((validateExisting_other haddr).mp hvalid)

/-- The route that the claim is about is not there; or the owner selector is valid, the owner has at
most one route unless the claim creates a network, and it has one if the claim is for an address
whose subnet is not there. -/
def Applicable (P : Platform) (rib : Rib) (c : IPClaim) (pi : Prefix) : Prop :=
  rib[mainPrefix c pi]? = none ∨
    ∃ sel, c.spec.getOwnerSelector P.refuses = .ok sel ∧ MayOwn c (P.nipam.getByLabel rib sel) ∧
      (c.spec.kind = .network → c.isCreatePrefix = false → rib[pi.getIPSubnet]? = none →
        ∃ r, rib.Has r ∧ ownerKey r.labels = c.owner)

/-- An accepted claim can be applied exactly when it is applicable. -/
theorem accepted_claim_applies_iff (P : Platform) (s : RibState) (c : IPClaim) (pi : Prefix)
    (initializing : Bool) (hrib : OwnerLabelled s.rib)
    (hvalid : ((validatePrefix P c pi).run (handler P.nipam) s).1 = .ok "") :
    Applies P initializing s c pi ↔ Applicable P s.rib c pi := by
  rw [validatePrefix_run, Except.ok.injEq] at hvalid
  rw [applies_iff, Applicable, lookupPrefix_of_accepted (validateInput_of_msg hvalid)]
  cases hmain : s.rib[mainPrefix c pi]? with
  | none => exact ⟨fun _ => .inl rfl, fun _ => .inl rfl⟩
  | some l =>
    refine or_congr_right (exists_congr fun sel => and_congr_right fun hsel => ?_)
    rw [and_comm (a := _ ≠ _)]
    refine and_congr_right fun _ => ⟨fun hne _ _ _ => ?_, fun hex => ?_⟩
    · obtain ⟨r, hr⟩ := List.exists_mem_of_ne_nil _ hne
      exact ⟨r, (hrib.mem_getByLabel hsel).mp hr⟩
    · obtain ⟨r, hr⟩ : ∃ r, s.rib.Has r ∧ ownerKey r.labels = c.owner := by
        rcases owner_of_accepted hvalid hmain with ho | ⟨hk, hc, hnone⟩
        · exact ⟨⟨_, l⟩, hmain, ho⟩
        · exact hex hk hc hnone
      exact List.ne_nil_of_mem ((hrib.mem_getByLabel hsel).mpr hr)

/-- The network is created in an aggregate. -/
theorem accepted_network_applies :
    Applies .reference false (ribAfter .reference [.claim sampleAggregate]) (networkClaim "a")
      (samplePrefix 1 24) :=
  (accepted_claim_applies_iff .reference (ribAfter .reference [.claim sampleAggregate])
    (networkClaim "a") (samplePrefix 1 24) false (by decide +kernel) (by decide +kernel)).mpr
    (.inl (by decide +kernel))

/-- A claim of an address, given with the length of its network. -/
def staticAddress (name t : String) : IPClaim :=
  sampleClaim ipClaimGVK name .network (some t) none none none

/-- The network 10.0.0.0/24 with the address 10.0.0.5 of `b`. -/
def staticAddressRib : RibState :=
  ribAfter .reference [.claim sampleAggregate, .claim (networkClaim "n"),
    .claim (staticAddress "b" "10.0.0.5/24")]

/-- The same address in half of the network is accepted for `a`, and the process crashes. -/
theorem accepted_address_crashes :
    OwnerLabelled staticAddressRib.rib ∧ OwnerComplete (staticAddress "a" "10.0.0.5/25").spec.labels ∧
    ((validatePrefix .reference (staticAddress "a" "10.0.0.5/25") (samplePrefix 5 25)).run
      (handler .reference) staticAddressRib).1 = .ok "" ∧
    ((applyPrefix .reference false (staticAddress "a" "10.0.0.5/25") (samplePrefix 5 25)).run
      (handler .reference) staticAddressRib).1 =
        .error (.panic "index out of range [0] with length 0") := by
  decide +kernel

/-! ## The check of the API

`IsCreatePrefixAllcationValid` of `ipclaim_interfaces.go`, by which a client can check a claim before
it sends it. -/

/-- The result says whether a prefix is claimed, and not an address. -/
def IPClaim.isCreatePrefixAllcationValid (txt : NetText) (r : IPClaim) : Except String Bool :=
  if r.isCreatePrefix then
    match r.spec.pfx with
    | some s => do
      let pi ← txt.parsePrefix s
      if pi.isAddressPrefix then
        .error ("create prefix is not allowed with /32 or /128, got: " ++ txt.prefixString pi)
      else .ok true
    | none =>
      if r.spec.prefixLength.isSome then .ok true
      else .error "create prefix needs a prefixLength or prefix got none"
  else
    match r.spec.pfx with
    | some s => do
      let pi ← txt.parsePrefix s
      if !pi.isAddressPrefix then
        .error ("create address is only allowed with /32 or .128, got: " ++ txt.prefixString pi)
      else .ok false
    | none => .ok false

def validateInput (P : Platform) (c : IPClaim) : Option Prefix → String
  | none => validateInputDynamic P c
  | some pi => validateInputPrefix P c pi

/-- The API finds no error in the claim if and only if the backend accepts it. -/
def ValidatorsAgree (P : Platform) (c : IPClaim) (pi : Prefix) : Prop :=
  (∃ b, c.isCreatePrefixAllcationValid P.txt = .ok b) ↔ validateInput P c (some pi) = ""

/-- The API takes the address notation for an address and refuses it for a prefix. -/
theorem isCreatePrefixAllcationValid_ok_iff {txt : NetText} {t : String} (ht : c.spec.pfx = some t)
    (hparse : txt.parsePrefix t = .ok pi) :
    (∃ b, c.isCreatePrefixAllcationValid txt = .ok b) ↔
      (c.isCreatePrefix = true ↔ pi.isAddressPrefix = false) := by
  have hread : ∀ f : Prefix → Except String Bool, txt.parsePrefix t >>= f = f pi := by
    intro f
    rw [hparse]
    rfl
  unfold IPClaim.isCreatePrefixAllcationValid
  rw [ht]
  cases hcreate : c.isCreatePrefix <;> cases haddr : pi.isAddressPrefix <;> simp [hread, haddr]

/-- The backend refuses the address notation for a network. -/
theorem validateInput_network_iff (hkind : c.spec.kind = .network) :
    validateInput P c (some pi) = "" ↔ pi.isAddressPrefix = false := by
  change validateInputPrefix P c pi = "" ↔ _
  rw [validateInputPrefix_eq_empty]
  cases haddr : pi.isAddressPrefix <;> simp [hkind]

/-- The two checks of a claim for a network agree on prefixes only: of an address the API wants the
address notation, which the backend refuses. -/
theorem validators_agree_iff (P : Platform) (c : IPClaim) (t : String) (pi : Prefix)
    (hkind : c.spec.kind = .network) (ht : c.spec.pfx = some t)
    (hparse : P.txt.parsePrefix t = .ok pi) :
    ValidatorsAgree P c pi ↔ c.isCreatePrefix = true := by
  unfold ValidatorsAgree
  rw [isCreatePrefixAllcationValid_ok_iff ht hparse, validateInput_network_iff hkind]
  cases c.isCreatePrefix <;> cases pi.isAddressPrefix <;> simp

theorem validators_agree_on_created_network :
    ValidatorsAgree .reference (networkClaim "a") (samplePrefix 1 24) :=
  (validators_agree_iff .reference (networkClaim "a") "10.0.0.1/24" (samplePrefix 1 24) rfl rfl
    (by decide +kernel)).mpr rfl

/-- The API accepts the claim of the address 10.0.0.4 and the backend refuses it; with the length
of the network it is the other way round. -/
theorem validators_disagree_on_address :
    (staticAddress "a" "10.0.0.4/32").isCreatePrefixAllcationValid netText = .ok false ∧
    validateInput .reference (staticAddress "a" "10.0.0.4/32") (some (samplePrefix 4 32)) ≠ "" ∧
    (staticAddress "a" "10.0.0.4/24").isCreatePrefixAllcationValid netText =
      .error "create address is only allowed with /32 or .128, got: 10.0.0.4/24" ∧
    validateInput .reference (staticAddress "a" "10.0.0.4/24") (some (samplePrefix 4 24)) = "" := by
  decide +kernel

end K8sIpam.Ipam
