import K8sIpam.Vlan.Ownership
import K8sIpam.Vlan.Storage

/-! # Restarts of the VLAN backend

Which VLAN tables come back from their own saved data. A pass of `restoreVLANs` is a fold that sets
the saved entries it finds a resource for; the reserved entries are in the table from the start,
and setting them again is refused. -/

namespace K8sIpam.Vlan
open Std Atomic Backend

/-- A pass of the restore picks the labels up: the owner kind is the one of the pass and a
resource of that kind has the name in the labels. -/
def Restorable (lists : VlanLists) (l : Labels) : Prop :=
  (l.get nephioOwnerGvkKey = gvkToString vlanGVK ∧ ∃ vlan ∈ lists.vlans, Names l vlan.metadata) ∨
  (l.get nephioOwnerGvkKey = gvkToString vlanClaimGVK ∧
    ∃ claim ∈ lists.claims, Names l claim.metadata)

/-- The pass over VLANs does not read the id of a VLAN that has none. -/
def Readable (lists : VlanLists) (l : Labels) : Prop :=
  l.get nephioOwnerGvkKey = gvkToString vlanGVK →
    ∀ vlan ∈ lists.vlans, Names l vlan.metadata → vlan.spec.vlanID ≠ none

/-! ## Setting stored entries -/

section
variable {d : DB 16} {e : Entry 16}

theorem IsVlanDB.setEntry_eq (h : IsVlanDB d) :
    setEntry e d = if Reserved e.id then d else d.add e := by
  unfold setEntry
  by_cases hres : Reserved e.id
  · cases hset : d.set e with
    | error msg => rw [if_pos hres]
    | ok d' => exact absurd hres (h.set_eq_ok.mp hset).1
  · rw [h.set_eq_ok.mpr ⟨hres, rfl⟩, if_neg hres]

theorem IsVlanDB.setEntry (h : IsVlanDB d) : IsVlanDB (setEntry e d) := by
  rw [h.setEntry_eq]
  split
  · exact h
  · exact h

theorem IsVlanDB.setEntry_getElem? (h : IsVlanDB d) (id : VlanId) :
    (Vlan.setEntry e d).store[id]? =
      if e.id = id ∧ ¬Reserved id then some e.labels else d.store[id]? := by
  rw [h.setEntry_eq]
  by_cases hid : e.id = id
  · subst hid
    by_cases hres : Reserved e.id
    · simp [hres]
    · simp [hres, DB.add_getElem?]
  · have hother : ¬(e.id = id ∧ ¬Reserved id) := fun hand => hid hand.1
    rw [if_neg hother]
    split
    · rfl
    · rw [DB.add_getElem?, if_neg hid]

theorem setEntry_twice : setEntry e (setEntry e d) = setEntry e d := by
  unfold setEntry
  cases hset : d.set e with
  | error msg => simp only [hset]
  | ok d' =>
    obtain ⟨hvalid, rfl⟩ := DB.set_eq_ok.mp hset
    have hadd : d.add e = (d.add e).add e := by
      have hstore : (d.add e).store = ((d.add e).add e).store := by
        refine ExtTreeMap.ext_getElem? fun id => ?_
        rw [DB.add_getElem? (d.add e), DB.add_getElem?]
        split <;> rfl
      exact congrArg (DB.mk d.cfg) hstore
    have hagain : (d.add e).set e = .ok (d.add e) := DB.set_eq_ok.mpr ⟨hvalid, hadd⟩
    simp only [hagain]

end

/-- The saved entries that a pass sets, one after the other. -/
def setAll (d : DB 16) (kvs : List (VlanId × Labels)) : DB 16 :=
  kvs.foldl (fun d kv => setEntry ⟨kv.1, kv.2⟩ d) d

theorem IsVlanDB.setAll {d : DB 16} (h : IsVlanDB d) (kvs : List (VlanId × Labels)) :
    IsVlanDB (setAll d kvs) := by
  induction kvs generalizing d with
  | nil => exact h
  | cons kv kvs ih => exact ih h.setEntry

/-- The entries of one store do not overwrite each other. -/
theorem IsVlanDB.setAll_getElem? {d : DB 16} (h : IsVlanDB d) {saved : Store 16}
    {kvs : List (VlanId × Labels)} (hkvs : ∀ kv ∈ kvs, saved[kv.1]? = some kv.2) (id : VlanId)
    (l : Labels) :
    (Vlan.setAll d kvs).store[id]? = some l ↔
      (¬Reserved id ∧ (id, l) ∈ kvs) ∨
        ((Reserved id ∨ ∀ l', (id, l') ∉ kvs) ∧ d.store[id]? = some l) := by
  induction kvs generalizing d with
  | nil => simp [Vlan.setAll]
  | cons kv kvs ih =>
    obtain ⟨id₁, l₁⟩ := kv
    have hsaved : saved[id₁]? = some l₁ := hkvs (id₁, l₁) List.mem_cons_self
    have hkvs' : ∀ kv ∈ kvs, saved[kv.1]? = some kv.2 :=
      fun kv hkv => hkvs kv (List.mem_cons_of_mem _ hkv)
    have hsame : ∀ l', (id₁, l') ∈ kvs → l' = l₁ := fun l' hl' =>
      Option.some.inj ((hkvs' (id₁, l') hl').symm.trans hsaved)
    change (Vlan.setAll (Vlan.setEntry ⟨id₁, l₁⟩ d) kvs).store[id]? = some l ↔ _
    rw [ih h.setEntry hkvs', h.setEntry_getElem?]
    by_cases hres : Reserved id
    · simp [hres]
    · by_cases hid : id₁ = id
      · subst hid
        by_cases hin : ∃ l', (id₁, l') ∈ kvs
        · obtain ⟨l', hl'⟩ := hin
          obtain rfl := hsame l' hl'
          grind
        · grind
      · have hid' : id ≠ id₁ := fun heq => hid heq.symm
        simp [hres, hid, hid']

theorem setAll_append (d : DB 16) (kvs kvs' : List (VlanId × Labels)) :
    setAll d (kvs ++ kvs') = setAll (setAll d kvs) kvs' :=
  List.foldl_append

/-! ## The passes -/

section
variable {d : DB 16} {id : VlanId} {l : Labels}

/-- Setting an entry once for each resource that it names sets it once. -/
theorem foldl_setEntry {R : Type} (e : Entry 16) (named : R → Prop) [DecidablePred named]
    (crs : List R) (d : DB 16) :
    crs.foldl (fun d cr => if named cr then setEntry e d else d) d =
      if ∃ cr ∈ crs, named cr then setEntry e d else d := by
  induction crs generalizing d with
  | nil => simp
  | cons cr crs ih =>
    rw [List.foldl_cons, ih]
    by_cases hcr : named cr
    · simp [hcr, setEntry_twice]
    · simp [hcr]

theorem restoreDynamicVLANs_run (claims : List VLANClaim) (d : DB 16) :
    (restoreDynamicVLANs claims id l).run d =
      (.ok (), if ∃ claim ∈ claims, Names l claim.metadata then setEntry ⟨id, l⟩ d else d) := by
  rw [← foldl_setEntry ⟨id, l⟩ (fun claim : VLANClaim => Names l claim.metadata)]
  refine forM_run (fun claim _ t => ?_) d
  split <;> rfl

theorem restoreStaticVLANs_run {vlans : List VLAN}
    (hread : ∀ vlan ∈ vlans, Names l vlan.metadata → vlan.spec.vlanID ≠ none) (d : DB 16) :
    (restoreStaticVLANs vlans id l).run d =
      (.ok (), if ∃ vlan ∈ vlans, Names l vlan.metadata then setEntry ⟨id, l⟩ d else d) := by
  rw [← foldl_setEntry ⟨id, l⟩ (fun vlan : VLAN => Names l vlan.metadata)]
  refine forM_run (fun vlan hvlan t => ?_) d
  by_cases hn : Names l vlan.metadata
  · simp only [if_pos hn, if_neg (hread vlan hvlan hn)]
    rfl
  · simp only [if_neg hn]
    rfl

/-- The loop over the VLANs stops at one that it names and that has no id. -/
theorem restoreStaticVLANs_ok {vlans : List VLAN} {d' : DB 16}
    (h : (restoreStaticVLANs vlans id l).run d = (.ok (), d')) :
    ∀ vlan ∈ vlans, Names l vlan.metadata → vlan.spec.vlanID ≠ none := by
  intro vlan hvlan hn hnone
  obtain ⟨t₁, t₂, hstep⟩ := forM_ok h vlan hvlan
  simp only [if_pos hn, if_pos hnone] at hstep
  cases hstep

/-- A pass sets the entries of its owners for which a resource is found. -/
theorem restoreVLANs_run (o : RangeOrder VlanId) (gvk : GroupVersionKind)
    (f : VlanId → Labels → TableM (DB 16) Unit) (saved : Store 16) (found : Labels → Prop)
    [DecidablePred found]
    (hf : ∀ id l, saved[id]? = some l → l.get nephioOwnerGvkKey = gvkToString gvk →
      ∀ d, (f id l).run d = (.ok (), if found l then setEntry ⟨id, l⟩ d else d)) (d : DB 16) :
    (restoreVLANs gvk f (o.entries saved)).run d =
      (.ok (), setAll d ((o.entries saved).filter fun kv =>
        kv.2.get nephioOwnerGvkKey = gvkToString gvk ∧ found kv.2)) := by
  unfold setAll
  rw [List.foldl_filter]
  refine forM_run (fun kv hkv t => ?_) d
  have hsaved : saved[kv.1]? = some kv.2 := o.mem_entries.mp hkv
  by_cases hgvk : kv.2.get nephioOwnerGvkKey = gvkToString gvk
  · simp only [if_pos hgvk, hf kv.1 kv.2 hsaved hgvk]
    simp [hgvk]
  · simp only [if_neg hgvk]
    simp [hgvk]
    rfl

end

section
variable {Text : Type} (yaml : Yaml (Store 16) Text) (order : RestoreOrder) {lists : VlanLists}
  {saved : Store 16}

theorem restoreData_eq :
    restoreData yaml order lists noErrors (some (yaml.marshal saved)) =
      (restoreVLANs vlanGVK (restoreStaticVLANs lists.vlans) (order.static.entries saved) >>=
        fun _ => restoreVLANs vlanClaimGVK (restoreDynamicVLANs lists.claims)
          (order.dynamic.entries saved)) := by
  unfold restoreData
  rw [Option.getD_some, yaml.round_trip, liftExcept_ok, pure_bind]
  rfl

/-- A restore that does not crash sets the restorable entries, the reserved ones excepted. -/
theorem restoreData_run (hread : ∀ (id : VlanId) l, saved[id]? = some l → Readable lists l) :
    ∃ d', (restoreData yaml order lists noErrors (some (yaml.marshal saved))).run new =
        (.ok (), d') ∧
      IsVlanDB d' ∧ ∀ id l, d'.store[id]? = some l ↔
        (¬Reserved id ∧ saved[id]? = some l ∧ Restorable lists l) ∨
          (Reserved id ∧ new.store[id]? = some l) := by
  have hstatic := restoreVLANs_run order.static vlanGVK (restoreStaticVLANs lists.vlans) saved
    (fun l => ∃ vlan ∈ lists.vlans, Names l vlan.metadata)
    (fun id l hl hgvk => restoreStaticVLANs_run (hread id l hl hgvk)) new
  have hdynamic := restoreVLANs_run order.dynamic vlanClaimGVK
    (restoreDynamicVLANs lists.claims) saved
    (fun l => ∃ claim ∈ lists.claims, Names l claim.metadata)
    (fun id l _ _ => restoreDynamicVLANs_run lists.claims)
  have hrun := (run_bind_ok (f := fun _ =>
    restoreVLANs vlanClaimGVK (restoreDynamicVLANs lists.claims) (order.dynamic.entries saved))
      hstatic).trans (hdynamic _)
  rw [← restoreData_eq yaml order, ← setAll_append] at hrun
  have hsub : ∀ kv ∈ (order.static.entries saved).filter (fun kv => kv.2.get nephioOwnerGvkKey =
        gvkToString vlanGVK ∧ ∃ vlan ∈ lists.vlans, Names kv.2 vlan.metadata) ++
      (order.dynamic.entries saved).filter (fun kv => kv.2.get nephioOwnerGvkKey =
        gvkToString vlanClaimGVK ∧ ∃ claim ∈ lists.claims, Names kv.2 claim.metadata),
      saved[kv.1]? = some kv.2 := by
    intro kv hkv
    rcases List.mem_append.mp hkv with hkv | hkv
    · exact order.static.mem_entries.mp (List.mem_of_mem_filter hkv)
    · exact order.dynamic.mem_entries.mp (List.mem_of_mem_filter hkv)
  refine ⟨_, hrun, new_isVlanDB.setAll _, fun id l => ?_⟩
  rw [new_isVlanDB.setAll_getElem? hsub]
  simp only [List.mem_append, List.mem_filter, RangeOrder.mem_entries,
    decide_eq_true_eq, ← and_or_left, ← Restorable.eq_1 lists]
  by_cases hres : Reserved id
  · simp [hres]
  · simp [hres, new_getElem? hres]

/-- A restore that succeeds has read no missing id. -/
theorem restoreData_readable {d d' : DB 16}
    (h : (restoreData yaml order lists noErrors (some (yaml.marshal saved))).run d =
      (.ok (), d')) :
    ∀ (id : VlanId) l, saved[id]? = some l → Readable lists l := by
  intro id l hl hgvk
  rw [restoreData_eq] at h
  obtain ⟨_, t, hstatic, -⟩ := bind_ok h
  obtain ⟨t₁, t₂, hstep⟩ := forM_ok hstatic (id, l) (order.static.mem_entries.mpr hl)
  simp only [if_pos hgvk] at hstep
  exact restoreStaticVLANs_ok hstep

end

/-! ## Restarts -/

section
variable {refuses : NewRequirement}

theorem Protected.getElem?_eq {d d' : DB 16} (h : Protected d) (h' : Protected d') {id : VlanId}
    (hid : Reserved id) : d.store[id]? = d'.store[id]? := by
  obtain ⟨e, he, rfl⟩ := mem_init_of_reserved hid
  rw [h.reserved e he, h'.reserved e he]

/-- A table that is saved and restored is the same again exactly when each of its entries, the
reserved ones excepted, has an owner of the kind of VLANs or VLAN claims and a resource of that kind
has the name in its labels, and no VLAN that an entry names is without an id. -/
theorem restart_same_table_iff {Text : Type} (yaml : Yaml (Store 16) Text) (order : RestoreOrder)
    (refuses : NewRequirement) (lists : VlanLists) (rs : List Request) :
    (restoreData yaml order lists noErrors (some (getData yaml (tableAfter refuses rs)))).run new =
        (.ok (), tableAfter refuses rs) ↔
      ∀ id l, (tableAfter refuses rs).store[id]? = some l →
        Readable lists l ∧ (Reserved id ∨ Restorable lists l) := by
  have hprot := protected_tableAfter refuses rs
  constructor
  · intro h id l hl
    have hread := restoreData_readable yaml order h
    refine ⟨hread id l hl, ?_⟩
    obtain ⟨d', hrun, -, hd'⟩ := restoreData_run yaml order hread
    obtain rfl : d' = tableAfter refuses rs := congrArg Prod.snd (hrun.symm.trans h)
    rcases (hd' id l).mp hl with ⟨-, -, hrest⟩ | ⟨hres, -⟩
    · exact .inr hrest
    · exact .inl hres
  · intro h
    obtain ⟨d', hrun, hcfg, hd'⟩ := restoreData_run yaml order fun id l hl => (h id l hl).1
    have hstore : d'.store = (tableAfter refuses rs).store := by
      refine ExtTreeMap.ext_getElem? fun id => Option.ext fun l => ?_
      rw [hd']
      by_cases hres : Reserved id
      · simp [hres, protected_new.getElem?_eq hprot hres]
      · simp only [hres, not_false_eq_true, true_and, false_and, or_false]
        exact ⟨fun hl => hl.1, fun hl => ⟨hl, (h id l hl).2.resolve_left hres⟩⟩
    have heq : d' = tableAfter refuses rs :=
      congrArg₂ DB.mk (hcfg.trans hprot.isVlanDB.symm) hstore
    exact heq ▸ hrun

end

/-- A claim whose metadata names an interface as the kind of its owner. -/
def interfaceClaim : VLANClaim :=
  VLANClaim.addOwnerLabelsToCR
    { metadata := ⟨"a", "default",
        (∅ : Labels).insert nephioOwnerGvkKey "Interface.v1alpha1.req.nephio.org"⟩
      spec := { labels := ∅, selector := none, vlanIndex := ⟨"vlans", "default"⟩, vlanID := none,
                vlanRange := none }
      status := ⟨none, none⟩ }

/-- VLAN 2 of a claim with another owner kind is free again after a restart, with the claim still
in the API. -/
theorem restart_loses_interface :
    (tableAfter (fun _ _ => none) [.claim interfaceClaim]).store[(2 : VlanId)]? =
      some interfaceClaim.spec.labels ∧
    ((restoreData (.plain (Store 16)) .byKey ⟨[], [interfaceClaim]⟩ noErrors
      (some (getData (.plain (Store 16))
        (tableAfter (fun _ _ => none) [.claim interfaceClaim])))).run new).2.store[(2 : VlanId)]? =
          none := by
  constructor
  · decide +kernel
  · decide +kernel

end K8sIpam.Vlan
