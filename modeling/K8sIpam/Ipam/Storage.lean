import K8sIpam.Ipam.Effects
import K8sIpam.Ipam.Reference
import K8sIpam.Ipam.Resources
import K8sIpam.Ipam.Writes

/-! # Storing and restoring a routing table

`pkg/backend/ipam/storage_cm.go`: a table is stored as a map from the texts of its prefixes to
labels and restored in three passes over that map, for the owners that are network instances, IP
prefixes and IP claims. The network instance of the first pass is made up from the reference of
the index and has no prefixes. -/

namespace K8sIpam.Ipam
open Std Atomic Backend Net

abbrev Document := ExtTreeMap String Labels

/-- Go iterates over a map in an order of its own, another one each time. -/
structure MapOrder where
  entries : Nat → Document → List (String × Labels)
  perm : ∀ n m, (entries n m).Perm m.toList

def MapOrder.byKey : MapOrder := ⟨fun _ m => m.toList, fun _ _ => .refl _⟩

/-- What the two `List` calls of a restore return. -/
structure IpamLists where
  prefixes : List IPPrefix
  claims : List IPClaim

section
variable (P : Platform)

/-- `rib.Add(table.NewRoute(netip.MustParsePrefix(prefix), labels, …))`, whose error is not looked
at. -/
def addStored (s : String) (l : Labels) : TableM Rib Unit :=
  match P.txt.parsePrefix s with
  | .error msg => throw (.panic msg)
  | .ok p => modify fun rib => if p ∈ rib then rib else rib.insert p l

-- Differences between the stored and the specified prefixes are only logged.
def restoreNetworkInstancePrefixes (cr : NetworkInstance) (s : String) (l : Labels) :
    TableM Rib Unit :=
  cr.spec.prefixes.forM fun ipPrefix => do
    if l.get nephioNsnNameKey = cr.getNameFromNetworkInstancePrefix ipPrefix.pfx ∧
        l.get nephioNsnNamespaceKey = cr.metadata.ns then
      addStored P s l

/-- The loop over resources that may own a route. It ends at a resource of the name in the labels
whose prefix cannot be read. -/
def restoreByName {R : Type} (metadata : R → ObjectMeta) (unreadable : R → Bool) (s : String)
    (l : Labels) : List R → TableM Rib Unit
  | [] => pure ()
  | cr :: crs =>
    if Names l (metadata cr) then
      if unreadable cr then pure ()
      else do
        addStored P s l
        restoreByName metadata unreadable s l crs
    else restoreByName metadata unreadable s l crs

/-- Only the prefix of a network is read, to expand it. -/
def IPPrefix.unreadable (cr : IPPrefix) : Bool :=
  cr.spec.kind = .network && !(P.txt.parsePrefix cr.spec.pfx).isOk

/-- The prefix of a claim is the one of its spec or else the one of its status. -/
def IPClaim.unreadable (cr : IPClaim) : Bool :=
  cr.spec.kind = .network &&
    (cr.spec.pfx.or cr.status.pfx).any fun s => !(P.txt.parsePrefix s).isOk

def restoreIPPrefixes (crs : List IPPrefix) (s : String) (l : Labels) : TableM Rib Unit :=
  restoreByName P IPPrefix.metadata (IPPrefix.unreadable P) s l crs

def restorIPClaims (crs : List IPClaim) (s : String) (l : Labels) : TableM Rib Unit :=
  restoreByName P IPClaim.metadata (IPClaim.unreadable P) s l crs

/-- Walk over the stored routes of one kind of owner. -/
def restorePrefixes (ownerGVK : GroupVersionKind) (restoreFunc : String → Labels → TableM Rib Unit)
    (claims : List (String × Labels)) : TableM Rib Unit :=
  claims.forM fun kv => do
    if kv.2.get nephioOwnerGvkKey = gvkToString ownerGVK then restoreFunc kv.1 kv.2

def getData (rib : Rib) : Document :=
  rib.toList.foldl (fun m kv => m.insert (P.txt.prefixString kv.1) kv.2) ∅

variable {Text : Type} (yaml : Yaml Document Text) (order : MapOrder)

/-- The network instance that a restore makes up. -/
def restoredInstance (ref : ObjectReference) : NetworkInstance :=
  ⟨⟨ref.name, ref.ns, ∅⟩, ⟨[]⟩, ⟨[]⟩⟩

def restoreData (ref : ObjectReference) (lists : IpamLists) (errs : ApiErrors)
    (data : Option Text) : TableM Rib Unit := do
  let claims ← liftExcept (yaml.unmarshal (data.getD yaml.noData))
  restorePrefixes networkInstanceGVK (restoreNetworkInstancePrefixes P (restoredInstance ref))
    (order.entries 0 claims)
  listed "cannot get ip prefix list" errs.listFirst
  restorePrefixes ipPrefixGVK (restoreIPPrefixes P lists.prefixes) (order.entries 1 claims)
  listed "cannot get ip claim list" errs.listSecond
  restorePrefixes ipClaimGVK (restorIPClaims P lists.claims) (order.entries 2 claims)

/-- The IPAM backend. -/
def app : App RibState Text IpamLists IPClaim IPClaim where
  cmPrefix := "ipam"
  newTable := empty
  getData s := yaml.marshal (getData P s.rib)
  restoreData ref lists errs data s :=
    let (r, rib) := (restoreData P yaml order ref lists errs data).run s.rib
    (r, { s with rib })
  cacheID c := c.getCacheID
  claim c s := (claim P c).run (handler P.nipam) s
  deleteClaim c s := (deleteClaim P c).run (handler P.nipam) s

end

/-- A restore without data leaves the table as it was. -/
theorem restoreData_noData (P : Platform) {Text : Type} (yaml : Yaml Document Text)
    (order : MapOrder) (ref : ObjectReference) (lists : IpamLists) (errs : ApiErrors) (rib : Rib) :
    ((restoreData P yaml order ref lists errs none).run rib).2 = rib := by
  have hnil : ∀ n, order.entries n ∅ = [] := fun n =>
    List.Perm.eq_nil (order.perm n ∅)
  unfold restoreData
  rw [Option.getD_none, yaml.unmarshal_noData, liftExcept_ok, pure_bind]
  simp only [restorePrefixes, hnil]
  cases errs.listFirst with
  | some msg => rfl
  | none => cases errs.listSecond <;> rfl

/-! ## The stored document -/

section
variable {P : Platform} {rib t : Rib} {l : Labels} {s : String} {p : Prefix}

/-- Texts of different prefixes differ, so nothing is overwritten. -/
theorem mem_foldl_insert (txt : NetText) (kvs : List (Prefix × Labels)) (m : Document)
    (hd : kvs.Pairwise fun a b => a.1 ≠ b.1) (hm : ∀ kv ∈ kvs, m[txt.prefixString kv.1]? = none) :
    (kvs.foldl (fun m kv => m.insert (txt.prefixString kv.1) kv.2) m)[s]? = some l ↔
      m[s]? = some l ∨ ∃ p, (p, l) ∈ kvs ∧ txt.prefixString p = s := by
  induction kvs generalizing m with
  | nil => simp
  | cons kv kvs ih =>
    obtain ⟨hkv, hd⟩ := List.pairwise_cons.mp hd
    have hne : ∀ kv' ∈ kvs, txt.prefixString kv.1 ≠ txt.prefixString kv'.1 :=
      fun kv' hkv' h => hkv kv' hkv' (txt.prefixString_injective h)
    rw [List.foldl_cons, ih _ hd]
    · rw [ExtTreeMap.getElem?_insert]
      by_cases hs : txt.prefixString kv.1 = s
      · subst hs
        rw [if_pos (by simp), hm kv List.mem_cons_self]
        constructor
        · rintro (h | ⟨p, hp, hps⟩)
          · cases h
            exact .inr ⟨kv.1, List.mem_cons_self, rfl⟩
          · exact .inr ⟨p, List.mem_cons_of_mem _ hp, hps⟩
        · rintro (h | ⟨p, hp, hps⟩)
          · cases h
          · rcases List.mem_cons.mp hp with rfl | hp
            · exact .inl rfl
            · exact .inr ⟨p, hp, hps⟩
      · rw [if_neg (by simpa using hs)]
        refine or_congr_right ⟨?_, ?_⟩
        · rintro ⟨p, hp, hps⟩
          exact ⟨p, List.mem_cons_of_mem _ hp, hps⟩
        · rintro ⟨p, hp, hps⟩
          rcases List.mem_cons.mp hp with rfl | hp
          · exact absurd hps hs
          · exact ⟨p, hp, hps⟩
    · intro kv' hkv'
      rw [ExtTreeMap.getElem?_insert, if_neg (by simpa using hne kv' hkv'),
        hm kv' (List.mem_cons_of_mem _ hkv')]

theorem mem_getData : (s, l) ∈ (getData P rib).toList ↔
    ∃ p, P.txt.prefixString p = s ∧ rib[p]? = some l := by
  have hd : rib.toList.Pairwise fun a b => a.1 ≠ b.1 := by
    refine rib.distinct_keys_toList.imp fun hne heq => hne ?_
    rw [heq, compare_self]
  have hnone : (∅ : Document)[s]? = none := by simp
  rw [ExtTreeMap.mem_toList_iff_getElem?_eq_some, getData,
    mem_foldl_insert P.txt rib.toList ∅ hd (by simp), hnone]
  simp only [reduceCtorEq, false_or, ExtTreeMap.mem_toList_iff_getElem?_eq_some]
  exact exists_congr fun p => and_comm

/-! ## What a restore adds -/

/-- One of the resources, before the first of the name whose prefix cannot be read, has the name
in the labels. -/
def Finds {R : Type} (metadata : R → ObjectMeta) (unreadable : R → Bool) (l : Labels) :
    List R → Bool
  | [] => false
  | cr :: crs =>
    if Names l (metadata cr) then !unreadable cr else Finds metadata unreadable l crs

theorem addStored_run (t : Rib) :
    (addStored P (P.txt.prefixString p) l).run t = (.ok (), addAll t [⟨p, l⟩]) := by
  unfold addStored
  rw [P.txt.parse_prefixString]
  rfl

theorem addAll_twice (t : Rib) (r : Route) : addAll (addAll t [r]) [r] = addAll t [r] := by
  refine ExtTreeMap.ext_getElem? fun q => ?_
  rw [addAll_getElem?, addAll_getElem? t [r] q]
  cases t[q]? with
  | some l => rfl
  | none => cases (List.find? (fun r' => decide (r'.pfx = q)) [r]).map Route.labels <;> rfl

theorem restoreByName_run {R : Type} (metadata : R → ObjectMeta) (unreadable : R → Bool)
    (crs : List R) (t : Rib) :
    (restoreByName P metadata unreadable (P.txt.prefixString p) l crs).run t =
      (.ok (), if Finds metadata unreadable l crs then addAll t [⟨p, l⟩] else t) := by
  -- once the route is there the rest of the loop changes nothing
  have hdone : ∀ crs : List R,
      (restoreByName P metadata unreadable (P.txt.prefixString p) l crs).run (addAll t [⟨p, l⟩]) =
        (.ok (), addAll t [⟨p, l⟩]) := by
    intro crs
    induction crs with
    | nil => rfl
    | cons cr crs ih =>
      rw [restoreByName]
      split
      · split
        · rfl
        · rw [run_bind_ok (addStored_run _), addAll_twice, ih]
      · exact ih
  induction crs with
  | nil => rfl
  | cons cr crs ih =>
    rw [restoreByName, Finds]
    by_cases hn : Names l (metadata cr)
    · rw [if_pos hn, if_pos hn]
      cases unreadable cr with
      | true => rfl
      | false => exact (run_bind_ok (addStored_run t)).trans (hdone crs)
    · rw [if_neg hn, if_neg hn]
      exact ih

theorem restoreInstance_run (ref : ObjectReference) (t : Rib) :
    (restoreNetworkInstancePrefixes P (restoredInstance ref) s l).run t = (.ok (), t) := rfl

theorem restorePrefixes_cons (gvk : GroupVersionKind) (f : String → Labels → TableM Rib Unit)
    (kv : String × Labels) (kvs : List (String × Labels)) :
    restorePrefixes gvk f (kv :: kvs) =
      (if kv.2.get nephioOwnerGvkKey = gvkToString gvk then f kv.1 kv.2 else pure ()) >>=
        fun _ => restorePrefixes gvk f kvs := rfl

/-- A pass adds the routes of its owners for which a resource is found. -/
theorem restorePrefixes_run (gvk : GroupVersionKind) (q : Labels → Bool)
    {f : String → Labels → TableM Rib Unit}
    (hf : ∀ p l t, (f (P.txt.prefixString p) l).run t =
      (.ok (), if q l then addAll t [⟨p, l⟩] else t))
    {kvs : List (String × Labels)} (hkvs : ∀ kv ∈ kvs, ∃ p, P.txt.prefixString p = kv.1) (t : Rib) :
    ∃ rs : List Route, (restorePrefixes gvk f kvs).run t = (.ok (), addAll t rs) ∧
      ∀ r, r ∈ rs ↔ (P.txt.prefixString r.pfx, r.labels) ∈ kvs ∧
        r.labels.get nephioOwnerGvkKey = gvkToString gvk ∧ q r.labels = true := by
  induction kvs generalizing t with
  | nil => exact ⟨[], rfl, by simp⟩
  | cons kv kvs ih =>
    obtain ⟨s, l⟩ := kv
    obtain ⟨p, rfl⟩ := hkvs _ List.mem_cons_self
    have hkvs' : ∀ kv ∈ kvs, ∃ p, P.txt.prefixString p = kv.1 :=
      fun kv hkv => hkvs kv (List.mem_cons_of_mem _ hkv)
    by_cases hq : l.get nephioOwnerGvkKey = gvkToString gvk ∧ q l = true
    · obtain ⟨rs, hrun, hrs⟩ := ih hkvs' (addAll t [⟨p, l⟩])
      refine ⟨⟨p, l⟩ :: rs, ?_, fun r => ?_⟩
      · have hfirst := hf p l t
        rw [if_pos hq.2] at hfirst
        rw [restorePrefixes_cons, if_pos hq.1, run_bind_ok hfirst]
        exact hrun
      · rw [List.mem_cons, List.mem_cons, hrs]
        constructor
        · rintro (rfl | h)
          · exact ⟨.inl rfl, hq⟩
          · exact ⟨.inr h.1, h.2⟩
        · rintro ⟨h | h, hr⟩
          · obtain ⟨hp, hl⟩ := Prod.mk.inj h
            obtain ⟨p', l'⟩ := r
            obtain rfl : p' = p := P.txt.prefixString_injective hp
            obtain rfl : l' = l := hl
            exact .inl rfl
          · exact .inr ⟨h, hr⟩
    · obtain ⟨rs, hrun, hrs⟩ := ih hkvs' t
      refine ⟨rs, ?_, fun r => ?_⟩
      · rw [restorePrefixes_cons]
        by_cases hg : l.get nephioOwnerGvkKey = gvkToString gvk
        · have hfirst := hf p l t
          rw [if_neg fun h => hq ⟨hg, h⟩] at hfirst
          rw [if_pos hg, run_bind_ok hfirst]
          exact hrun
        · rw [if_neg hg]
          exact hrun
      · rw [List.mem_cons, hrs]
        constructor
        · exact fun h => ⟨.inr h.1, h.2⟩
        · rintro ⟨h | h, hr⟩
          · obtain ⟨-, hl⟩ := Prod.mk.inj h
            exact absurd (hl ▸ hr) hq
          · exact ⟨h, hr⟩

/-- The labels of a route that a restore brings back: a resource of the kind of its owner has the
name in its labels. -/
def Restorable (P : Platform) (lists : IpamLists) (l : Labels) : Prop :=
  l.get nephioOwnerGvkKey = gvkToString ipPrefixGVK ∧
      Finds IPPrefix.metadata (IPPrefix.unreadable P) l lists.prefixes = true ∨
    l.get nephioOwnerGvkKey = gvkToString ipClaimGVK ∧
      Finds IPClaim.metadata (IPClaim.unreadable P) l lists.claims = true

instance (P : Platform) (lists : IpamLists) (l : Labels) : Decidable (Restorable P lists l) :=
  inferInstanceAs (Decidable (_ ∨ _))

theorem addAll_append (t : Rib) (rs rs' : List Route) :
    addAll t (rs ++ rs') = addAll (addAll t rs) rs' := List.foldl_append

/-- Routes of a table, added to an empty one. -/
theorem addAll_empty_getElem? {rs : List Route} (hrs : ∀ r ∈ rs, rib.Has r) :
    (addAll ∅ rs)[p]? = some l ↔ ⟨p, l⟩ ∈ rs := by
  constructor
  · intro h
    rcases has_of_has_addAll (r := ⟨p, l⟩) h with h | ⟨-, h⟩
    · have hnone : (∅ : Rib)[p]? = some l := h
      simp at hnone
    · exact h
  · intro h
    have hsome : (rs.find? fun r => r.pfx = p).isSome = true :=
      List.find?_isSome.mpr ⟨⟨p, l⟩, h, by simp⟩
    obtain ⟨r, hr⟩ := Option.isSome_iff_exists.mp hsome
    have hpfx : r.pfx = p := by simpa using List.find?_some hr
    have heq := (hrs r (List.mem_of_find?_eq_some hr)).unique (hrs _ h) hpfx
    have hnone : (∅ : Rib)[p]? = none := by simp
    rw [addAll_getElem?, hnone, hr, heq]
    rfl

variable {Text : Type} {yaml : Yaml Document Text} {order : MapOrder}

theorem mem_entries {n : Nat} {r : Route} :
    (P.txt.prefixString r.pfx, r.labels) ∈ order.entries n (getData P rib) ↔ rib.Has r := by
  rw [(order.perm n _).mem_iff, mem_getData]
  constructor
  · rintro ⟨p, hp, hl⟩
    obtain rfl := P.txt.prefixString_injective hp
    exact hl
  · exact fun h => ⟨r.pfx, rfl, h⟩

theorem text_of_mem_entries (P : Platform) (order : MapOrder) (rib : Rib) (n : Nat) :
    ∀ kv ∈ order.entries n (getData P rib), ∃ p, P.txt.prefixString p = kv.1 := by
  intro kv hkv
  obtain ⟨p, hp, -⟩ := mem_getData.mp ((order.perm n _).mem_iff.mp hkv)
  exact ⟨p, hp⟩

/-- A table that is saved and restored into an empty one has lost exactly the routes that are not
restorable. -/
theorem restoreData_run (P : Platform) (yaml : Yaml Document Text) (order : MapOrder)
    (ref : ObjectReference) (lists : IpamLists) (rib : Rib) :
    ∃ rib', (restoreData P yaml order ref lists noErrors (some (yaml.marshal (getData P rib)))).run ∅ =
        (.ok (), rib') ∧
      ∀ (p : Prefix) l, rib'[p]? = some l ↔ rib[p]? = some l ∧ Restorable P lists l := by
  obtain ⟨rs₀, hrun₀, hrs₀⟩ := restorePrefixes_run (P := P) networkInstanceGVK (fun _ => false)
    (fun p l t => restoreInstance_run (l := l) (s := P.txt.prefixString p) ref t)
    (text_of_mem_entries P order rib 0) ∅
  obtain ⟨rs₁, hrun₁, hrs₁⟩ := restorePrefixes_run (P := P) ipPrefixGVK
    (fun l => Finds IPPrefix.metadata (IPPrefix.unreadable P) l lists.prefixes)
    (f := restoreIPPrefixes P lists.prefixes) (fun p l t => restoreByName_run IPPrefix.metadata (IPPrefix.unreadable P) lists.prefixes t)
    (text_of_mem_entries P order rib 1) (addAll ∅ rs₀)
  obtain ⟨rs₂, hrun₂, hrs₂⟩ := restorePrefixes_run (P := P) ipClaimGVK
    (fun l => Finds IPClaim.metadata (IPClaim.unreadable P) l lists.claims)
    (f := restorIPClaims P lists.claims) (fun p l t => restoreByName_run IPClaim.metadata (IPClaim.unreadable P) lists.claims t)
    (text_of_mem_entries P order rib 2) (addAll (addAll ∅ rs₀) rs₁)
  have hmem : ∀ r, r ∈ rs₀ ++ rs₁ ++ rs₂ ↔ rib.Has r ∧ Restorable P lists r.labels := by
    intro r
    rw [List.mem_append, List.mem_append, hrs₀, hrs₁, hrs₂, mem_entries, mem_entries, mem_entries]
    simp only [Bool.false_eq_true, and_false, false_or]
    exact and_or_left.symm
  refine ⟨addAll ∅ (rs₀ ++ rs₁ ++ rs₂), ?_, fun p l => ?_⟩
  · unfold restoreData
    rw [Option.getD_some, yaml.round_trip, liftExcept_ok, pure_bind, run_bind_ok hrun₀]
    rw [show listed "cannot get ip prefix list" noErrors.listFirst = (pure () : TableM Rib Unit)
      from rfl, pure_bind, run_bind_ok hrun₁]
    rw [show listed "cannot get ip claim list" noErrors.listSecond = (pure () : TableM Rib Unit)
      from rfl, pure_bind, addAll_append, addAll_append]
    exact hrun₂
  · rw [addAll_empty_getElem? fun r hr => ((hmem r).mp hr).1, hmem]
    rfl

end

/-! ## Restarts -/

/-- A table that is saved and restored is the same again exactly when each of its routes has an
owner of the kind of IP prefixes or IP claims and a resource of that kind has the name in its
labels. -/
theorem restart_restores_iff {Text : Type} (P : Platform) (yaml : Yaml Document Text)
    (order : MapOrder) (ref : ObjectReference) (lists : IpamLists) (rib : Rib) :
    (restoreData P yaml order ref lists noErrors (some (yaml.marshal (getData P rib)))).run ∅ =
        (.ok (), rib) ↔
      ∀ r, rib.Has r → Restorable P lists r.labels := by
  obtain ⟨rib', hrun, hrib'⟩ := restoreData_run P yaml order ref lists rib
  rw [hrun]
  constructor
  · intro h r hr
    obtain rfl : rib' = rib := congrArg Prod.snd h
    exact ((hrib' r.pfx r.labels).mp hr).2
  · intro h
    have heq : rib' = rib := by
      refine ExtTreeMap.ext_getElem? fun p => Option.ext fun l => ?_
      rw [hrib']
      exact ⟨fun hl => hl.1, fun hl => ⟨hl, h ⟨p, l⟩ hl⟩⟩
    rw [heq]

/-- A network instance with one prefix. -/
def sampleInstance : NetworkInstance :=
  ⟨⟨"vpc", "default", ∅⟩, ⟨[⟨"10.0.0.0/8", ∅⟩]⟩, ⟨[]⟩⟩

/-- The claim that is made for its prefix. -/
def instanceClaim : IPClaim :=
  (buildIPClaim ⟨"10.0.0.0-8-vpc-aggregate", "default",
    (∅ : Labels).insert nephioOwnerGvkKey (gvkToString networkInstanceGVK)⟩ .aggregate
    ⟨"vpc", "default"⟩ "10.0.0.0/8" (samplePrefix 0 8) ∅).addOwnerLabelsToCR

/-- The aggregate of a network instance, the only route of the table, is gone after a restart. -/
theorem restart_loses_aggregate :
    normalizeKRM .reference (.networkInstance sampleInstance ⟨"10.0.0.0/8", ∅⟩) =
      .ok instanceClaim ∧
    (ribAfter .reference [.claim instanceClaim]).rib[samplePrefix 0 8]?.isSome = true ∧
    ((restoreData .reference (.plain Document) .byKey ⟨"vpc", "default"⟩ ⟨[], []⟩ noErrors
      (some (some (getData .reference (ribAfter .reference [.claim instanceClaim]).rib)))).run ∅).2 =
        ∅ := by
  exact ⟨by decide +kernel, by decide +kernel, by decide +kernel⟩

/-! ## Runs of requests -/

variable {P : Platform}

/-- No list has a network whose prefix cannot be read. -/
structure IpamLists.Readable (P : Platform) (lists : IpamLists) : Prop where
  prefixes : ∀ cr ∈ lists.prefixes, IPPrefix.unreadable P cr = false
  claims : ∀ cr ∈ lists.claims, IPClaim.unreadable P cr = false

theorem finds_iff {R : Type} {metadata : R → ObjectMeta} {unreadable : R → Bool} {l : Labels}
    {crs : List R} (h : ∀ cr ∈ crs, unreadable cr = false) :
    Finds metadata unreadable l crs = true ↔ ∃ cr ∈ crs, Names l (metadata cr) := by
  induction crs with
  | nil => simp [Finds]
  | cons cr crs ih =>
    have ih := ih fun cr' hcr' => h cr' (List.mem_cons_of_mem _ hcr')
    rw [Finds]
    by_cases hn : Names l (metadata cr)
    · rw [if_pos hn, h cr List.mem_cons_self]
      exact ⟨fun _ => ⟨cr, List.mem_cons_self, hn⟩, fun _ => rfl⟩
    · rw [if_neg hn, ih]
      constructor
      · rintro ⟨cr', hcr', hn'⟩
        exact ⟨cr', List.mem_cons_of_mem _ hcr', hn'⟩
      · rintro ⟨cr', hcr', hn'⟩
        rcases List.mem_cons.mp hcr' with rfl | hcr'
        · exact absurd hn' hn
        · exact ⟨cr', hcr', hn'⟩

/-- The resource exists under its name in the API, and the labels of a claim name no other kind
of owner. -/
def Kept (lists : IpamLists) : KrmObject → Prop
  | .ipPrefix cr => cr.metadata.ns ≠ "" ∧ ∃ cr' ∈ lists.prefixes,
      cr'.metadata.name = cr.metadata.name ∧ cr'.metadata.ns = cr.metadata.ns
  | .ipClaim cr => cr.metadata.ns ≠ "" ∧
      (∀ v ∈ cr.metadata.labels[nephioOwnerGvkKey]?, v = gvkToString ipClaimGVK) ∧
      ∃ cr' ∈ lists.claims, cr'.metadata.name = cr.metadata.name ∧
        cr'.metadata.ns = cr.metadata.ns
  | .networkInstance _ _ => True

/-- The name, namespace and owner kind of the resource are on what its claim writes. -/
theorem WrittenBy.normalized {o : KrmObject} {c : IPClaim} (hc : normalizeKRM P o = .ok c)
    {r : Route} (hr : WrittenBy P c r) :
    r.labels.get nephioNsnNameKey = o.owner.name ∧
    r.labels.get nephioNsnNamespaceKey = getNamespace o.owner.ns ∧
    r.labels.get nephioOwnerGvkKey =
      o.owner.labels[nephioOwnerGvkKey]?.getD (gvkToString ipClaimGVK) := by
  obtain ⟨l, hl⟩ := normalizeKRM_labels hc
  have hget : ∀ k ∈ ownerKeys, r.labels[k]? = (addOwnerLabels ipClaimGVK o.owner l)[k]? :=
    fun k hk => hl ▸ hr.owner k hk
  refine ⟨?_, ?_, ?_⟩
  · exact Labels.get_of_getElem? ((hget _ (by decide)).trans addOwnerLabels_nsnName)
  · exact Labels.get_of_getElem? ((hget _ (by decide)).trans addOwnerLabels_nsnNamespace)
  · exact Labels.get_of_getElem? ((hget _ (by decide)).trans addOwnerLabels_ownerGvk)

theorem instance_ownerGvk (cr : NetworkInstance) (pfx : InstancePrefix) (s : String) :
    (KrmObject.networkInstance cr pfx).owner.labels[nephioOwnerGvkKey]?.getD s =
      gvkToString networkInstanceGVK := by
  simp [KrmObject.owner, ownedBy]

theorem ipPrefix_ownerGvk (cr : IPPrefix) (s : String) :
    (KrmObject.ipPrefix cr).owner.labels[nephioOwnerGvkKey]?.getD s = gvkToString ipPrefixGVK := by
  simp [KrmObject.owner, ownedBy]

theorem WrittenBy.restorable {lists : IpamLists} (hlists : lists.Readable P) {o : KrmObject}
    (ho : Kept lists o) {c : IPClaim} (hc : normalizeKRM P o = .ok c) {r : Route}
    (hr : WrittenBy P c r) :
    Restorable P lists r.labels ∨
      r.labels.get nephioOwnerGvkKey = gvkToString networkInstanceGVK := by
  obtain ⟨hname, hns, hgvk⟩ := hr.normalized hc
  cases o with
  | networkInstance cr pfx => exact .inr (hgvk.trans (instance_ownerGvk cr pfx _))
  | ipPrefix cr =>
    obtain ⟨hne, cr', hcr', hname', hns'⟩ := ho
    refine .inl (.inl ⟨hgvk.trans (ipPrefix_ownerGvk cr _), ?_⟩)
    exact (finds_iff hlists.prefixes).mpr
      ⟨cr', hcr', hname.trans hname'.symm, (hns.trans (if_neg hne)).trans hns'.symm⟩
  | ipClaim cr =>
    obtain ⟨hne, howner, cr', hcr', hname', hns'⟩ := ho
    refine .inl (.inr ⟨hgvk.trans ?_, ?_⟩)
    · cases hv : cr.metadata.labels[nephioOwnerGvkKey]? with
      | none => rw [KrmObject.owner, hv, Option.getD_none]
      | some v => rw [KrmObject.owner, hv, Option.getD_some, howner v hv]
    · exact (finds_iff hlists.claims).mpr
        ⟨cr', hcr', hname.trans hname'.symm, (hns.trans (if_neg hne)).trans hns'.symm⟩

/-- After claims for resources that still exist, a restart loses exactly the routes of network
instances. -/
theorem restart_run {Text : Type} (yaml : Yaml Document Text) (order : MapOrder)
    (ref : ObjectReference) {lists : IpamLists} (hlists : lists.Readable P) {rs : List Request}
    (hrs : ∀ c, .claim c ∈ rs → ∃ o, Kept lists o ∧ normalizeKRM P o = .ok c) :
    ∃ rib', (restoreData P yaml order ref lists noErrors
        (some (yaml.marshal (getData P (ribAfter P rs).rib)))).run ∅ = (.ok (), rib') ∧
      ∀ (p : Prefix) l, rib'[p]? = some l ↔ (ribAfter P rs).rib[p]? = some l ∧
        l.get nephioOwnerGvkKey ≠ gvkToString networkInstanceGVK := by
  obtain ⟨rib', hrun, hrib'⟩ := restoreData_run P yaml order ref lists (ribAfter P rs).rib
  refine ⟨rib', hrun, fun p l => ?_⟩
  rw [hrib']
  refine and_congr_right fun hl => ⟨fun h hni => ?_, fun hni => ?_⟩
  · rcases h with ⟨hgvk, -⟩ | ⟨hgvk, -⟩
    · exact absurd (hgvk.symm.trans hni) (by decide)
    · exact absurd (hgvk.symm.trans hni) (by decide)
  · obtain ⟨c, hc, hw⟩ := ribAfter_written (r := ⟨p, l⟩) hl
    obtain ⟨o, ho, hnorm⟩ := hrs c hc
    exact (hw.restorable hlists ho hnorm).resolve_right hni

end K8sIpam.Ipam
