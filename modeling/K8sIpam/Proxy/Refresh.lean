import K8sIpam.Proxy.WatchEvent
import K8sIpam.Vlan.Claim

/-! # Refreshing cached claims

The refresh handler of `clientproxy.go` with the validation of its responses in the packages `ipam`
and `vlan`. The handler asks for a cached claim again, and a response that the validation does not
accept drops the entry and notifies the owner. How a claim is decoded from the text of a response is
a parameter of which only the status of the claim is used. -/

namespace K8sIpam.Proxy
open Ipam Vlan

structure ClaimRequest where
  header : Header
  spec : String
  expiryTime : String
  deriving DecidableEq

structure ClaimResponse where
  header : Header
  spec : String
  status : String
  statusCode : StatusCode
  expiryTime : String
  deriving DecidableEq

/-! ## The validation of a response -/

section
variable {S : Type}

/-- A value that was set is set to the same. -/
def kept {α : Type} [DecidableEq α] (orig new : Option α) : Bool :=
  match orig with
  | none => true
  | some a =>
    match new with
    | none => false
    | some b => a = b

/-- The two packages differ in the status and in the values that they compare. -/
def validateResponse (unmarshal : String → Option S) (same : S → S → Bool)
    (origResp _newResp : ClaimResponse) : Bool :=
  match unmarshal origResp.status with
  | none => false
  | some origClaim =>
    -- the source decodes the original response here too
    match unmarshal origResp.status with
    | none => false
    | some newClaim => same origClaim newClaim

def ipamSame (orig new : IPClaimStatus) : Bool :=
  kept orig.pfx new.pfx && kept orig.gateway new.gateway

def ipamValidateResponse (unmarshal : String → Option IPClaimStatus) :
    ClaimResponse → ClaimResponse → Bool :=
  validateResponse unmarshal ipamSame

def vlanSame (orig new : VLANClaimStatus) : Bool :=
  kept orig.vlanID new.vlanID && kept orig.vlanRange new.vlanRange

def vlanValidateResponse (unmarshal : String → Option VLANClaimStatus) :
    ClaimResponse → ClaimResponse → Bool :=
  validateResponse unmarshal vlanSame

end

/-! ## The refresh handler -/

/-- The key of a claim in the cache. -/
abbrev ObjectKindKey := GroupVersionKind × Nsn

def getKey (claim : ClaimRequest) : ObjectKindKey :=
  (getSchemaGVKFromResourcePbGVK claim.header.gvk, claim.header.nsn)

abbrev Cache := ObjectKindKey → Option ClaimResponse

def isCacheDataValid (cacheResp : ClaimResponse) (claim : ClaimRequest) : Bool :=
  cacheResp.spec = claim.spec && cacheResp.statusCode = .valid

/-- The connection to the backend server, and the validations by the group of a claim. -/
structure ClientProxy where
  resourceClient : Option (ClaimRequest → Except String ClaimResponse)
  validator : String → Option (ClaimResponse → ClaimResponse → Bool)

/-- The cache, and the owners that were notified. -/
structure ClientState where
  cache : Cache
  notified : List (GroupVersionKind × Nsn)

variable (r : ClientProxy)

/-- A cached response is an answer to a refresh too: the source sets `refresh` to false. The response
of the server is not added to the cache. -/
def ClientProxy.claim (cache : Cache) (claim : ClaimRequest) (_refresh : Bool) :
    Except String ClaimResponse :=
  match r.resourceClient with
  | none => .error "backend server unreachable"
  | some call =>
    match cache (getKey claim) with
    | some cacheData => if isCacheDataValid cacheData claim then .ok cacheData else call claim
    | none => call claim

/-- The request that asks for a cached claim again. -/
def refreshRequest (resp : ClaimResponse) (expiryTime : String) : ClaimRequest :=
  ⟨resp.header, resp.spec, expiryTime⟩

def owner (resp : ClaimResponse) : GroupVersionKind × Nsn :=
  (getSchemaGVKFromResourcePbGVK resp.header.ownerGvk, resp.header.ownerNsn)

/-- The entry is deleted and its owner notified. -/
def ClientState.drop (s : ClientState) (entry : ObjectKindKey × ClaimResponse) : ClientState where
  cache := Function.update s.cache entry.1 none
  notified := s.notified ++ [owner entry.2]

/-- The refresh of one entry. -/
def ClientProxy.refresh (expiryTime : String) (s : ClientState)
    (entry : ObjectKindKey × ClaimResponse) : ClientState :=
  match r.claim s.cache (refreshRequest entry.2 expiryTime) true with
  | .error _ => s.drop entry
  | .ok resp =>
    match r.validator entry.2.header.gvk.group with
    | none => s
    | some validate => if !validate entry.2 resp then s.drop entry else s

/-- The entries are refreshed in any order; each has its own key. -/
def ClientProxy.refreshAll (expiryTime : String) (s : ClientState)
    (entries : List (ObjectKindKey × ClaimResponse)) : ClientState :=
  entries.foldl (r.refresh expiryTime) s

/-! ## What the validation finds -/

section
variable {r} {S α : Type} {unmarshal : String → Option S} {same : S → S → Bool}
  {origResp newResp : ClaimResponse} {orig : S}

theorem kept_eq_true [DecidableEq α] {a b : Option α} :
    kept a b = true ↔ ∀ v, a = some v → b = some v := by
  cases a with
  | none => simp [kept]
  | some v =>
    cases b with
    | none => simp [kept]
    | some w => simp [kept, eq_comm]

/-- Whatever the new response is, the original one is compared with itself. -/
theorem validateResponse_eq_true (hsame : ∀ c, same c c = true)
    (horig : unmarshal origResp.status = some orig) :
    validateResponse unmarshal same origResp newResp = true := by
  simp only [validateResponse, horig, hsame]

theorem ipamSame_self (c : IPClaimStatus) : ipamSame c c = true := by
  simp [ipamSame, kept_eq_true]

theorem vlanSame_self (c : VLANClaimStatus) : vlanSame c c = true := by
  simp [vlanSame, kept_eq_true]

/-- The validations that the packages register accept every response to a claim that decodes. -/
def ClientProxy.Accepts (r : ClientProxy) (origResp : ClaimResponse) : Prop :=
  ∀ validate ∈ r.validator origResp.header.gvk.group, ∀ newResp, validate origResp newResp = true

/-- The server answers the refresh of a claim. -/
def ClientProxy.Answers (r : ClientProxy) (expiryTime : String) (origResp newResp : ClaimResponse) :
    Prop :=
  ∃ call, r.resourceClient = some call ∧ call (refreshRequest origResp expiryTime) = .ok newResp

theorem ClientProxy.Answers.claim_ok {expiryTime : String} (h : r.Answers expiryTime origResp newResp)
    (cache : Cache) : ∃ resp, r.claim cache (refreshRequest origResp expiryTime) true = .ok resp := by
  obtain ⟨call, hclient, hcall⟩ := h
  unfold ClientProxy.claim
  rw [hclient]
  dsimp only
  split
  next cacheData hcache =>
    split
    · exact ⟨cacheData, rfl⟩
    · exact ⟨newResp, hcall⟩
  · exact ⟨newResp, hcall⟩

/-- An answer that is accepted changes nothing. -/
theorem ClientProxy.refresh_eq {expiryTime : String} {k : ObjectKindKey} (s : ClientState)
    (hans : r.Answers expiryTime origResp newResp) (hacc : r.Accepts origResp) :
    r.refresh expiryTime s (k, origResp) = s := by
  obtain ⟨resp, hresp⟩ := hans.claim_ok s.cache
  unfold ClientProxy.refresh
  dsimp only
  rw [hresp]
  dsimp only
  cases hval : r.validator origResp.header.gvk.group with
  | none => rfl
  | some validate =>
    have hok : validate origResp resp = true := hacc validate (by rw [hval]; rfl) resp
    simp [hok]

/-- A pass of the handler in which the server answers leaves the cache and notifies nobody, whatever
the answers are. -/
theorem ClientProxy.refreshAll_eq {expiryTime : String} (s : ClientState)
    {entries : List (ObjectKindKey × ClaimResponse)}
    (h : ∀ e ∈ entries, r.Accepts e.2 ∧ ∃ newResp, r.Answers expiryTime e.2 newResp) :
    r.refreshAll expiryTime s entries = s := by
  unfold ClientProxy.refreshAll
  induction entries with
  | nil => rfl
  | cons e entries ih =>
    obtain ⟨hacc, newResp, hans⟩ := h e List.mem_cons_self
    rw [List.foldl_cons, ClientProxy.refresh_eq s hans hacc]
    exact ih fun e he => h e (List.mem_cons_of_mem _ he)

end

/-! ## Changed answers -/

/-- The verdict tells whether the answer is unchanged, and a changed answer drops the entry and
notifies its owner. -/
structure DetectsChange (validate : ClaimResponse → ClaimResponse → Bool) (unchanged : Prop)
    (k : ObjectKindKey) (origResp newResp : ClaimResponse) (s s' : ClientState) : Prop where
  verdict : validate origResp newResp = true ↔ unchanged
  acts : ¬unchanged → s'.cache k = none ∧ s'.notified = s.notified ++ [owner origResp]

/-- The values that the original claim reports are reported again. -/
def IpamUnchanged (orig new : IPClaimStatus) : Prop :=
  (∀ p, orig.pfx = some p → new.pfx = some p) ∧ ∀ g, orig.gateway = some g → new.gateway = some g

def VlanUnchanged (orig new : VLANClaimStatus) : Prop :=
  (∀ id, orig.vlanID = some id → new.vlanID = some id) ∧
    ∀ range, orig.vlanRange = some range → new.vlanRange = some range

theorem ipamSame_eq_true {orig new : IPClaimStatus} :
    ipamSame orig new = true ↔ IpamUnchanged orig new := by
  rw [ipamSame, Bool.and_eq_true, kept_eq_true, kept_eq_true, IpamUnchanged]

theorem vlanSame_eq_true {orig new : VLANClaimStatus} :
    vlanSame orig new = true ↔ VlanUnchanged orig new := by
  rw [vlanSame, Bool.and_eq_true, kept_eq_true, kept_eq_true, VlanUnchanged]

instance (orig new : IPClaimStatus) : Decidable (IpamUnchanged orig new) :=
  decidable_of_iff _ ipamSame_eq_true

instance (orig new : VLANClaimStatus) : Decidable (VlanUnchanged orig new) :=
  decidable_of_iff _ vlanSame_eq_true

section
variable {r} {validate : ClaimResponse → ClaimResponse → Bool} {origResp newResp : ClaimResponse}
  {unchanged : Prop} {expiryTime : String}

/-- A validation that accepts every response to a claim is right about the unchanged ones only, and
the handler does nothing. -/
theorem detectsChange_iff (hacc : ∀ newResp, validate origResp newResp = true)
    (hreg : r.validator origResp.header.gvk.group = some validate)
    (hans : r.Answers expiryTime origResp newResp) (k : ObjectKindKey) (s : ClientState) :
    (DetectsChange validate unchanged k origResp newResp s
        (r.refresh expiryTime s (k, origResp)) ↔ unchanged) ∧
      r.refresh expiryTime s (k, origResp) = s := by
  refine ⟨⟨fun h => h.verdict.mp (hacc newResp), fun h => ?_⟩, ?_⟩
  · exact ⟨iff_of_true (hacc newResp) h, fun hnot => absurd h hnot⟩
  · refine ClientProxy.refresh_eq s hans fun v hv => ?_
    obtain rfl : validate = v := Option.some.inj (hreg.symm.trans hv)
    exact hacc

end

/-- A refresh that the server answers is handled as it should be if and only if the answer has every
value that the cached claim has; and nothing is done in either case. -/
theorem refresh_detects_change_iff (r : ClientProxy) (expiryTime : String) (k : ObjectKindKey)
    (s : ClientState) (origResp newResp : ClaimResponse)
    (hans : r.Answers expiryTime origResp newResp) :
    (∀ (unmarshal : String → Option IPClaimStatus) (orig new : IPClaimStatus),
      r.validator origResp.header.gvk.group = some (ipamValidateResponse unmarshal) →
      unmarshal origResp.status = some orig → unmarshal newResp.status = some new →
      (DetectsChange (ipamValidateResponse unmarshal) (IpamUnchanged orig new) k origResp newResp s
          (r.refresh expiryTime s (k, origResp)) ↔ IpamUnchanged orig new) ∧
        r.refresh expiryTime s (k, origResp) = s) ∧
    (∀ (unmarshal : String → Option VLANClaimStatus) (orig new : VLANClaimStatus),
      r.validator origResp.header.gvk.group = some (vlanValidateResponse unmarshal) →
      unmarshal origResp.status = some orig → unmarshal newResp.status = some new →
      (DetectsChange (vlanValidateResponse unmarshal) (VlanUnchanged orig new) k origResp newResp s
          (r.refresh expiryTime s (k, origResp)) ↔ VlanUnchanged orig new) ∧
        r.refresh expiryTime s (k, origResp) = s) := by
  refine ⟨fun unmarshal orig new hreg horig _ => ?_, fun unmarshal orig new hreg horig _ => ?_⟩
  · exact detectsChange_iff (fun _ => validateResponse_eq_true ipamSame_self horig) hreg hans k s
  · exact detectsChange_iff (fun _ => validateResponse_eq_true vlanSame_self horig) hreg hans k s

/-! ## A claim whose address changed -/

/-- The text of a claim with a prefix in its status. -/
def prefixStatus (pfx : String) : String :=
  "\x7b\"status\":\x7b\"prefix\":\"" ++ pfx ++ "\"\x7d\x7d"

def unmarshalPrefix (s : String) : Option IPClaimStatus :=
  (["10.0.0.1/24", "10.0.0.2/24"].find? fun pfx => s = prefixStatus pfx).map (⟨some ·, none⟩)

/-- The text of a claim with a VLAN in its status. -/
def vlanStatus (id : Nat) : String := "\x7b\"status\":\x7b\"vlanID\":" ++ toString id ++ "\x7d\x7d"

def unmarshalVlan (s : String) : Option VLANClaimStatus :=
  ([10, 20].find? fun id => s = vlanStatus id).map fun id => ⟨some (BitVec.ofNat 16 id), none⟩

/-- The response to the claim `default/a` with a text of its status. -/
def responseOf (gvk : GroupVersionKind) (status : String) : ClaimResponse where
  header :=
    { gvk := getResourcePbGVKFromSchemaGVK gvk, nsn := ⟨"default", "a"⟩
      ownerGvk := getResourcePbGVKFromSchemaGVK gvk, ownerNsn := ⟨"default", "a"⟩ }
  spec := "\x7b\x7d"
  status
  statusCode := .valid
  expiryTime := "2023-06-01T10:00:00Z"

/-- A proxy whose server gives one answer, with the validation of a package for its group. -/
def proxyOf (group : String) (validate : ClaimResponse → ClaimResponse → Bool)
    (answer : ClaimResponse) : ClientProxy where
  resourceClient := some fun _ => .ok answer
  validator := fun g => if g = group then some validate else none

def cachedOnly (k : ObjectKindKey) (resp : ClaimResponse) : ClientState where
  cache := fun k' => if k' = k then some resp else none
  notified := []

/-- The response with an address. -/
def addressResponse (pfx : String) : ClaimResponse := responseOf ipClaimGVK (prefixStatus pfx)

def ipKey : ObjectKindKey := (ipClaimGVK, ⟨"default", "a"⟩)

def ipProxy (answer : ClaimResponse) : ClientProxy :=
  proxyOf ipClaimGVK.group (ipamValidateResponse unmarshalPrefix) answer

/-- The same address is reported again. -/
theorem refresh_of_same_address :
    DetectsChange (ipamValidateResponse unmarshalPrefix)
      (IpamUnchanged ⟨some "10.0.0.1/24", none⟩ ⟨some "10.0.0.1/24", none⟩) ipKey
      (addressResponse "10.0.0.1/24")
      (addressResponse "10.0.0.1/24")
      (cachedOnly ipKey (addressResponse "10.0.0.1/24"))
      ((ipProxy (addressResponse "10.0.0.1/24")).refresh "2023-06-01T11:00:00Z"
        (cachedOnly ipKey (addressResponse "10.0.0.1/24"))
        (ipKey, addressResponse "10.0.0.1/24")) :=
  ((refresh_detects_change_iff (ipProxy (addressResponse "10.0.0.1/24")) "2023-06-01T11:00:00Z"
    ipKey (cachedOnly ipKey (addressResponse "10.0.0.1/24"))
    (addressResponse "10.0.0.1/24")
    (addressResponse "10.0.0.1/24") ⟨_, rfl, rfl⟩).1 unmarshalPrefix
    ⟨some "10.0.0.1/24", none⟩ ⟨some "10.0.0.1/24", none⟩ rfl (by decide +kernel)
    (by decide +kernel)).1.mpr (by decide)

/-- The address 10.0.0.1 became 10.0.0.2, and the VLAN 10 became 20: both validations accept the
answer. The handler keeps the cached address and notifies nobody. -/
theorem refresh_of_changed_address :
    unmarshalPrefix (prefixStatus "10.0.0.1/24") = some ⟨some "10.0.0.1/24", none⟩ ∧
    unmarshalPrefix (prefixStatus "10.0.0.2/24") = some ⟨some "10.0.0.2/24", none⟩ ∧
    ¬IpamUnchanged ⟨some "10.0.0.1/24", none⟩ ⟨some "10.0.0.2/24", none⟩ ∧
    ipamValidateResponse unmarshalPrefix (addressResponse "10.0.0.1/24")
      (addressResponse "10.0.0.2/24") = true ∧
    ((ipProxy (addressResponse "10.0.0.2/24")).refresh "2023-06-01T11:00:00Z"
      (cachedOnly ipKey (addressResponse "10.0.0.1/24"))
      (ipKey, addressResponse "10.0.0.1/24")).cache ipKey =
        some (addressResponse "10.0.0.1/24") ∧
    ((ipProxy (addressResponse "10.0.0.2/24")).refresh "2023-06-01T11:00:00Z"
      (cachedOnly ipKey (addressResponse "10.0.0.1/24"))
      (ipKey, addressResponse "10.0.0.1/24")).notified = [] ∧
    unmarshalVlan (vlanStatus 10) = some ⟨some 10, none⟩ ∧
    unmarshalVlan (vlanStatus 20) = some ⟨some 20, none⟩ ∧
    vlanValidateResponse unmarshalVlan (responseOf vlanClaimGVK (vlanStatus 10))
      (responseOf vlanClaimGVK (vlanStatus 20)) = true := by
  decide +kernel

end K8sIpam.Proxy
