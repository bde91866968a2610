import K8sIpam.Db.Searches

/-! # Reserved and free VLAN ids

`vlandb.New()` under arbitrary calls: the validations protect the reserved ids, and `FindFree`
finds the least id between them that is not in use. -/

namespace K8sIpam.Vlan
open Std Atomic

variable {d : DB 16} {id : VlanId}

/-- The database after one call, whether it succeeds or fails. -/
def call (d : DB 16) (o : DbOp 16) : DB 16 := (DB.handler o d).2

/-- A VLAN database in which the reserved ids are as they were in the beginning. -/
structure Protected (d : DB 16) : Prop where
  isVlanDB : IsVlanDB d
  reserved : ∀ e ∈ cfg.initEntries, d.store[e.id]? = some e.labels

/-- `FindFree` returns the least id of 2..4094 that is not in the store, which can then be set; or it
fails because all of them are in the store. -/
def FindsLeastFree (d : DB 16) : Prop :=
  match d.findFree with
  | .ok e => 2 ≤ e.id ∧ e.id ≤ 4094 ∧ d.has e.id = false ∧
      (∀ id, 2 ≤ id → id < e.id → d.has id = true) ∧
      ∀ l, ∃ d', d.set ⟨e.id, l⟩ = .ok d' ∧ d'.has e.id = true ∧
        ∀ id, id ≠ e.id → d'.store[id]? = d.store[id]?
  | .error _ => ∀ id, 2 ≤ id → id ≤ 4094 → d.has id = true

/-! ## Calls -/

theorem protected_new : Protected new := by
  refine ⟨rfl, ?_⟩
  decide +kernel

theorem reserved_of_mem_init {e : Entry 16} (he : e ∈ cfg.initEntries) : Reserved e.id := by
  simp only [cfg, List.mem_cons, List.not_mem_nil, or_false] at he
  rcases he with rfl | rfl | rfl
  · exact .inl rfl
  · exact .inr (.inl rfl)
  · exact .inr (.inr rfl)

theorem mem_init_of_reserved (hid : Reserved id) : ∃ e ∈ cfg.initEntries, e.id = id := by
  rcases hid with rfl | rfl | rfl
  · exact ⟨⟨0, reservedLabels "untagged"⟩, by simp [cfg], rfl⟩
  · exact ⟨⟨1, reservedLabels "default"⟩, by simp [cfg], rfl⟩
  · exact ⟨⟨4095, reservedLabels "reserved"⟩, by simp [cfg], rfl⟩

/-- A new database holds the reserved entries only. -/
theorem new_getElem? (hid : ¬Reserved id) : new.store[id]? = none := by
  have hall : ∀ kv ∈ new.store.toList, Reserved kv.1 := by decide
  refine Option.eq_none_iff_forall_ne_some.mpr fun l hl => hid ?_
  exact hall (id, l) (ExtTreeMap.mem_toList_iff_getElem?_eq_some.mpr hl)

/-- Only `Set` and `Delete` change the store, and not at a reserved id. -/
theorem Protected.call (h : Protected d) (o : DbOp 16) : Protected (call d o) := by
  have hother : ∀ {d' : DB 16} {id : VlanId}, ¬Reserved id → d'.cfg = d.cfg →
      (∀ id', id' ≠ id → d'.store[id']? = d.store[id']?) → Protected d' := by
    intro d' id hid hcfg hstore
    refine ⟨hcfg.trans h.isVlanDB, fun e he => ?_⟩
    rw [hstore e.id fun heq => hid (heq ▸ reserved_of_mem_init he), h.reserved e he]
  cases o with
  | set e =>
    dsimp only [Vlan.call, DB.handler]
    cases hset : d.set e with
    | error msg => exact h
    | ok d' =>
      obtain ⟨hres, rfl⟩ := h.isVlanDB.set_eq_ok.mp hset
      refine hother hres rfl fun id' hid' => ?_
      dsimp only [DB.change]
      rw [DB.add_getElem?, if_neg hid'.symm]
  | delete id =>
    dsimp only [Vlan.call, DB.handler]
    cases hdel : d.delete id with
    | error msg => exact h
    | ok d' =>
      obtain ⟨hres, rfl⟩ := h.isVlanDB.delete_eq_ok.mp hdel
      refine hother hres rfl fun id' hid' => ?_
      dsimp only [DB.change]
      rw [ExtTreeMap.getElem?_erase, if_neg (by simpa using hid'.symm)]
  | getByLabel s => exact h
  | findFree => exact h
  | findFreeID id => exact h
  | findFreeRange min size => exact h
  | findFreeSize size => exact h

/-! ## The free ids -/

/-- The ids that `IterateFree` looks at. -/
def window : List VlanId := (List.range' 0 4096).map (BitVec.ofNat 16)

theorem mem_window : id ∈ window ↔ id ≤ 4095 := by
  refine (Window.mem_ids (by decide)).trans ⟨fun h => ?_, fun h => ?_⟩
  · exact Nat.le_of_lt_succ h.2
  · exact ⟨Nat.zero_le _, Nat.lt_succ_of_le h⟩

theorem pairwise_window : window.Pairwise (· < ·) := Window.pairwise_ids (by decide)

theorem IsVlanDB.visited_eq (h : IsVlanDB d) : d.visited = window := by
  unfold DB.visited
  rw [h]
  exact DB.visited_eq_ids (d := new) (by decide) (by decide) (by decide)

theorem IsVlanDB.freeIds_eq (h : IsVlanDB d) :
    d.freeIds = window.filter fun id => !d.has id := by
  unfold DB.freeIds
  rw [h.visited_eq]
  refine List.filter_congr fun id _ => ?_
  simp [DB.has]

theorem IsVlanDB.mem_freeIds (h : IsVlanDB d) :
    id ∈ d.freeIds ↔ id ≤ 4095 ∧ d.has id = false := by
  rw [h.freeIds_eq, List.mem_filter, mem_window, Bool.not_eq_true']

/-- Ids above the window have no part in the search. -/
theorem IsVlanDB.findFree_congr {d' : DB 16} (h : IsVlanDB d) (h' : IsVlanDB d')
    (hsame : ∀ id ≤ 4095, d.has id = d'.has id) : d.findFree = d'.findFree := by
  have hfree : d.freeIds = d'.freeIds := by
    rw [h.freeIds_eq, h'.freeIds_eq]
    exact List.filter_congr fun id hid => by rw [hsame id (mem_window.mp hid)]
  unfold DB.findFree
  rw [hfree]

theorem Protected.has_reserved (h : Protected d) (hid : Reserved id) : d.has id = true := by
  obtain ⟨e, he, rfl⟩ := mem_init_of_reserved hid
  rw [DB.has_iff, h.reserved e he]
  rfl

/-- A free id is not reserved, so it lies between the reserved ones. -/
theorem Protected.free_bounds (h : Protected d) (hle : id ≤ 4095) (hid : d.has id = false) :
    ¬Reserved id ∧ 2 ≤ id ∧ id ≤ 4094 := by
  have hres : ¬Reserved id := fun hr => by
    rw [h.has_reserved hr] at hid
    cases hid
  refine ⟨hres, ?_⟩
  unfold Reserved at hres
  bv_omega

theorem Protected.findsLeastFree (h : Protected d) : FindsLeastFree d := by
  have hmem : ∀ id, id ∈ d.freeIds ↔ id ≤ 4095 ∧ d.has id = false :=
    fun _ => h.isVlanDB.mem_freeIds
  unfold FindsLeastFree DB.findFree
  cases hfree : d.freeIds with
  | nil =>
    intro id hlow hhigh
    by_contra hno
    have hin : id ∈ d.freeIds := (hmem id).mpr ⟨by bv_omega, Bool.eq_false_iff.mpr hno⟩
    rw [hfree] at hin
    cases hin
  | cons id ids =>
    obtain ⟨hle, hid⟩ := (hmem id).mp (hfree ▸ List.mem_cons_self)
    obtain ⟨hres, hlow, hhigh⟩ := h.free_bounds hle hid
    refine ⟨hlow, hhigh, hid, fun id' hlow' hlt => ?_, fun l => ?_⟩
    · -- a smaller free id would stand before it
      by_contra hno
      have hin : id' ∈ d.freeIds := (hmem id').mpr ⟨by bv_omega, Bool.eq_false_iff.mpr hno⟩
      have hsorted : d.freeIds.Pairwise (· < ·) := by
        rw [h.isVlanDB.freeIds_eq]
        exact pairwise_window.filter _
      rw [hfree] at hin hsorted
      rcases List.mem_cons.mp hin with rfl | hin
      · bv_omega
      · have := (List.pairwise_cons.mp hsorted).1 id' hin
        bv_omega
    · refine ⟨d.add ⟨id, l⟩, h.isVlanDB.set_eq_ok.mpr ⟨hres, rfl⟩, ?_, fun id' hne => ?_⟩
      · rw [DB.has_iff, DB.add_getElem?, if_pos rfl]
        rfl
      · rw [DB.add_getElem?, if_neg hne.symm]

/-- After any calls with any ids and labels, the reserved ids have their labels, `FindFree` finds
the least free id, and it finds the same in any other such database that agrees up to 4095. -/
theorem calls_protect_reserved (os : List (DbOp 16)) :
    (∀ e ∈ cfg.initEntries, (Run.run call new os).store[e.id]? = some e.labels) ∧
    FindsLeastFree (Run.run call new os) ∧
    ∀ os', (∀ id ≤ 4095, (Run.run call new os).has id = (Run.run call new os').has id) →
      (Run.run call new os).findFree = (Run.run call new os').findFree := by
  have hrun : ∀ os, Protected (Run.run call new os) :=
    fun os => Run.run_inv (fun _ o h => h.call o) protected_new
  exact ⟨(hrun os).reserved, (hrun os).findsLeastFree,
    fun os' hsame => (hrun os).isVlanDB.findFree_congr (hrun os').isVlanDB hsame⟩

end K8sIpam.Vlan
