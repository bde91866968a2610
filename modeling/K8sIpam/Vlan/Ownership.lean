import K8sIpam.Vlan.Applogic
import K8sIpam.Vlan.Reserved

/-! # Who may change an entry of the VLAN table

What one request can do to the table, and which requests leave the entries of other owners
alone. -/

namespace K8sIpam.Vlan
open Std Atomic Prog

variable {refuses : NewRequirement} {d d' : DB 16} {c : VLANClaim}

/-! ## One claim -/

/-- The ways a claim can end. -/
inductive Outcome (refuses : NewRequirement) (d : DB 16) (c : VLANClaim) :
    Except Failure VLANClaim × DB 16 → Prop where
  | failed (e : Failure) : Outcome refuses d c (.error e, d)
  | found {vctx s r} (hctx : c.getVLANClaimCtx = .ok vctx)
      (hs : c.spec.getOwnerSelector refuses = .ok s) (hne : d.getByLabel s ≠ [])
      (hr : applyHandlerFound vctx.kind (d.getByLabel s) c = .ok r) : Outcome refuses d c (.ok r, d)
  | multiple {vctx s r} (hctx : c.getVLANClaimCtx = .ok vctx)
      (hs : c.spec.getOwnerSelector refuses = .ok s) (hnil : d.getByLabel s = [])
      (hk : vctx.kind = .size ∨ vctx.kind = .range) : Outcome refuses d c (.ok r, d)
  | stored {vctx s id} (hctx : c.getVLANClaimCtx = .ok vctx)
      (hs : c.spec.getOwnerSelector refuses = .ok s) (hnil : d.getByLabel s = [])
      (hres : ¬Reserved id)
      (hid : vctx.kind = .dynamic ∧ id ∈ d.freeIds ∨
        vctx.kind = .static ∧ id = vctx.start ∧ id ≤ 4095) :
      Outcome refuses d c (.ok (c.setVLANID id), d.add ⟨id, c.spec.labels⟩)

theorem setAndReport_outcome (hd : IsVlanDB d) {vctx : VLANClaimCtx} {s : Selector} {id : VlanId}
    (hctx : c.getVLANClaimCtx = .ok vctx) (hs : c.spec.getOwnerSelector refuses = .ok s)
    (hnil : d.getByLabel s = [])
    (hid : vctx.kind = .dynamic ∧ id ∈ d.freeIds ∨
      vctx.kind = .static ∧ id = vctx.start ∧ id ≤ 4095) :
    Outcome refuses d c ((setAndReport id c).run DB.handler d) := by
  rw [setAndReport_run]
  cases hset : d.set ⟨id, c.spec.labels⟩ with
  | error e => exact .failed e
  | ok d' =>
    obtain ⟨hres, rfl⟩ := hd.set_eq_ok.mp hset
    exact .stored hctx hs hnil hres hid

theorem claim_outcome (refuses : NewRequirement) (hd : IsVlanDB d) (c : VLANClaim) :
    Outcome refuses d c ((claim refuses c).run DB.handler d) := by
  cases hctx : c.getVLANClaimCtx with
  | error e =>
    rw [claim, hctx]
    exact .failed e
  | ok vctx =>
  cases hs : c.spec.getOwnerSelector refuses with
  | error e =>
    rw [claim, hctx, lift_ok, ret_bind, applyHandler, getEntriesByOwner, hs]
    exact .failed e
  | ok s =>
  rw [claim_run hctx hs]
  cases hes : d.getByLabel s with
  | cons e es =>
    dsimp only
    cases hr : applyHandlerFound vctx.kind (e :: es) c with
    | error e => exact .failed e
    | ok r => exact .found hctx hs (by simp [hes]) (hes ▸ hr)
  | nil =>
    dsimp only
    rcases getVLANClaimCtx_ok hctx with ⟨hk, -⟩ | ⟨hk, -⟩ | ⟨hk, -⟩
    · rw [hk, applyHandlerNew_static_run]
      cases hfree : d.findFreeID vctx.start with
      | error e => exact .failed e
      | ok e =>
        obtain ⟨hid, hle⟩ := DB.findFreeID_eq_ok hfree
        exact setAndReport_outcome hd hctx hs hes (.inr ⟨hk, hid, hid ▸ hd.lastId ▸ hle⟩)
    · rw [hk, applyHandlerNew_dynamic_run]
      cases hfree : d.findFree with
      | error e => exact .failed e
      | ok e => exact setAndReport_outcome hd hctx hs hes (.inl ⟨hk, (DB.findFree_eq_ok hfree).1⟩)
    · have htab := applyHandlerNew_multiple_table (c := c) (d := d) hk
      rcases hrun : (applyHandlerNew vctx.kind vctx c).run DB.handler d with ⟨e | r, t⟩
      all_goals
        rw [hrun] at htab
        subst htab
      · exact .failed e
      · exact .multiple hctx hs hes hk

/-! ## One delete -/

/-- A delete removes some of the entries it is given and nothing else. -/
theorem deleteEntries_run (es : List (Entry 16)) (d : DB 16) :
    ((deleteEntries es).run DB.handler d).2.cfg = d.cfg ∧
    ∀ id : VlanId, ((deleteEntries es).run DB.handler d).2.store[id]? = d.store[id]? ∨
      (∃ e ∈ es, e.id = id) ∧ ((deleteEntries es).run DB.handler d).2.store[id]? = none := by
  induction es generalizing d with
  | nil => exact ⟨rfl, fun id => .inl rfl⟩
  | cons e es ih =>
    rw [deleteEntries, run_bind, DbProg.delete_run]
    cases hdel : d.delete e.id with
    | error err => exact ⟨rfl, fun id => .inl rfl⟩
    | ok d' =>
      obtain ⟨-, rfl⟩ := DB.delete_eq_ok.mp hdel
      obtain ⟨hcfg, hstore⟩ := ih { d with store := d.store.erase e.id }
      refine ⟨hcfg, fun id => ?_⟩
      rcases hstore id with hsame | ⟨⟨e', he', hid⟩, hnone⟩
      · by_cases hid : e.id = id
        · refine .inr ⟨⟨e, List.mem_cons_self, hid⟩, hsame.trans ?_⟩
          simp [hid]
        · refine .inl (hsame.trans ?_)
          simp [ExtTreeMap.getElem?_erase, hid]
      · exact .inr ⟨⟨e', List.mem_cons_of_mem _ he', hid⟩, hnone⟩

/-- A delete that succeeds has removed all the entries it is given. -/
theorem deleteEntries_ok {es : List (Entry 16)}
    (h : (deleteEntries es).run DB.handler d = (.ok (), d')) {e : Entry 16} (he : e ∈ es) :
    d'.store[e.id]? = none := by
  induction es generalizing d with
  | nil => cases he
  | cons e' es ih =>
    rw [deleteEntries, run_bind, DbProg.delete_run] at h
    cases hdel : d.delete e'.id with
    | error err =>
      rw [hdel] at h
      cases h
    | ok t =>
      rw [hdel] at h
      obtain ⟨-, rfl⟩ := DB.delete_eq_ok.mp hdel
      rcases List.mem_cons.mp he with rfl | he
      · have hstore := (deleteEntries_run es { d with store := d.store.erase e.id }).2 e.id
        rw [show (deleteEntries es).run DB.handler { d with store := d.store.erase e.id } = _ from h]
          at hstore
        rcases hstore with hsame | ⟨-, hnone⟩
        · exact hsame.trans (by simp)
        · exact hnone
      · exact ih h he

/-- A delete request removes some of the entries that the owner selector of its claim finds. -/
theorem deleteClaim_run (refuses : NewRequirement) (d : DB 16) (c : VLANClaim) :
    ((deleteClaim refuses c).run DB.handler d).2.cfg = d.cfg ∧
    ∀ id : VlanId, ((deleteClaim refuses c).run DB.handler d).2.store[id]? = d.store[id]? ∨
      (∃ l, d.store[id]? = some l ∧ ownerKey l = c.owner) ∧
        ((deleteClaim refuses c).run DB.handler d).2.store[id]? = none := by
  cases hctx : c.getVLANClaimCtx with
  | error e =>
    rw [deleteClaim, hctx]
    exact ⟨rfl, fun id => .inl rfl⟩
  | ok vctx =>
  cases hs : c.spec.getOwnerSelector refuses with
  | error e =>
    rw [deleteClaim, hctx, lift_ok, ret_bind, deleteHandler, getEntriesByOwner, hs]
    exact ⟨rfl, fun id => .inl rfl⟩
  | ok s =>
    rw [deleteClaim, hctx, lift_ok, ret_bind, deleteHandler,
      run_bind_of_ok _ (getEntriesByOwner_run hs)]
    obtain ⟨hcfg, hstore⟩ := deleteEntries_run (d.getByLabel s) d
    refine ⟨hcfg, fun id => (hstore id).imp_right ?_⟩
    rintro ⟨⟨e, he, rfl⟩, hnone⟩
    obtain ⟨hl, hm⟩ := DB.mem_getByLabel.mp he
    exact ⟨⟨e.labels, hl, ClaimLabels.ownerKey_of_matches hs hm⟩, hnone⟩

/-- A delete that succeeds leaves no entry of the owner of its claim. -/
theorem deleteClaim_clears (h : (deleteClaim refuses c).run DB.handler d = (.ok (), d'))
    {id : VlanId} {l : Labels} (hl : d'.store[id]? = some l) : ¬HasOwner c.spec.labels l := by
  intro hown
  have hsame : d.store[id]? = some l := by
    have hrun := (deleteClaim_run refuses d c).2 id
    rw [h] at hrun
    rcases hrun with hsame | ⟨-, hnone⟩
    · exact hsame.symm.trans hl
    · cases hnone.symm.trans hl
  unfold deleteClaim at h
  obtain ⟨vctx, t, hctx, h⟩ := (run_bind_ok _).mp h
  rw [run_lift] at hctx
  obtain rfl := (Prod.mk.inj hctx).2
  cases hs : c.spec.getOwnerSelector refuses with
  | error e =>
    rw [deleteHandler, getEntriesByOwner, hs] at h
    cases h
  | ok s =>
    rw [deleteHandler, run_bind_of_ok _ (getEntriesByOwner_run hs)] at h
    have hmem : ⟨id, l⟩ ∈ d.getByLabel s :=
      DB.mem_getByLabel.mpr ⟨hsame, (ClaimLabels.ownerSelector_matches hs).mpr hown⟩
    cases (deleteEntries_ok h hmem).symm.trans hl

/-! ## Tables of a run -/

/-- What holds of every table that requests make out of `vlandb.New()`. -/
structure VlanTable (d : DB 16) : Prop where
  isVlanDB : IsVlanDB d
  le : ∀ (id : VlanId) l, d.store[id]? = some l → id ≤ 4095

theorem new_vlanTable : VlanTable new where
  isVlanDB := new_isVlanDB
  le id l h := by
    have hmem : (id, l) ∈ new.store.toList := ExtTreeMap.mem_toList_iff_getElem?_eq_some.mpr h
    have hall : ∀ kv ∈ new.store.toList, kv.1 ≤ (4095 : VlanId) := by decide
    exact hall _ hmem

theorem VlanTable.add (hd : VlanTable d) {e : Entry 16} (he : e.id ≤ 4095) :
    VlanTable (d.add e) where
  isVlanDB := hd.isVlanDB
  le id l h := by
    rw [DB.add_getElem?] at h
    split at h
    · exact ‹e.id = id› ▸ he
    · exact hd.le id l h

theorem VlanTable.serve (hd : VlanTable d) (r : Request) : VlanTable (serve refuses d r) := by
  cases r with
  | claim c =>
    have hout := claim_outcome refuses hd.isVlanDB c
    rw [Vlan.serve]
    cases hrun : (claim refuses c).run DB.handler d with | mk a t =>
    rw [hrun] at hout
    cases hout with
    | failed | found | multiple => exact hd
    | stored _ _ _ _ hid =>
      refine hd.add ?_
      rcases hid with ⟨-, hfree⟩ | ⟨-, -, hle⟩
      · exact (hd.isVlanDB.mem_freeIds.mp hfree).1
      · exact hle
  | deleteClaim c =>
    obtain ⟨hcfg, hstore⟩ := deleteClaim_run refuses d c
    refine ⟨hcfg.trans hd.isVlanDB, fun id l h => ?_⟩
    rcases hstore id with hsame | ⟨-, hnone⟩
    · exact hd.le id l (hsame ▸ h)
    · rw [Vlan.serve, hnone] at h
      cases h

theorem tableAfter_vlanTable (refuses : NewRequirement) (rs : List Request) :
    VlanTable (tableAfter refuses rs) :=
  Run.run_inv (fun _ r hd => hd.serve r) new_vlanTable

theorem Protected.serve (h : Protected d) (r : Request) :
    Protected (serve refuses d r) := by
  have keep : ∀ (o : DbOp 16) (d : DB 16), Protected d → Protected (DB.handler o d).2 :=
    fun o _ hd => hd.call o
  cases r with
  | claim cr => exact Prog.run_inv keep _ h
  | deleteClaim cr => exact Prog.run_inv keep _ h

theorem protected_tableAfter (refuses : NewRequirement) (rs : List Request) :
    Protected (tableAfter refuses rs) :=
  Run.run_inv (fun _ r h => h.serve r) protected_new

/-! ## Entries of other owners -/

/-- The table as a map from ids to the labels of their entries. -/
def lookup (d : DB 16) (id : VlanId) : Option Labels := d.store[id]?

/-- A claim that takes an id from its owner: a static claim for an id that is not reserved and
that another owner holds, made by an owner that holds nothing. -/
def Takeover (refuses : NewRequirement) (d : DB 16) (c : VLANClaim) : Prop :=
  ∃ id l s, c.spec.vlanID = some id ∧ ¬Reserved id ∧ d.store[id]? = some l ∧ ownerKey l ≠ c.owner ∧
    c.spec.getOwnerSelector refuses = .ok s ∧ d.getByLabel s = []

theorem lookup_add (d : DB 16) (e : Entry 16) (id : VlanId) :
    lookup (d.add e) id = if e.id = id then some e.labels else lookup d id :=
  DB.add_getElem? d e id

/-- A takeover stores the id under the labels of the claim. -/
theorem claim_run_static {id : VlanId} {s : Selector} (hd : VlanTable d)
    (hspec : c.spec.vlanID = some id) (hres : ¬Reserved id) (hle : id ≤ 4095)
    (hs : c.spec.getOwnerSelector refuses = .ok s) (hnil : d.getByLabel s = []) :
    (claim refuses c).run DB.handler d = (.ok (c.setVLANID id), d.add ⟨id, c.spec.labels⟩) := by
  have hctx : c.getVLANClaimCtx = .ok ⟨.static, id, 0⟩ := by
    rw [VLANClaim.getVLANClaimCtx, hspec]
  have hfree : d.findFreeID id = .ok ⟨id, d.store[id]?.getD ∅⟩ := by
    rw [DB.findFreeID, hd.isVlanDB.lastId, if_neg (BitVec.not_lt.mpr hle)]
  have hset : d.set ⟨id, c.spec.labels⟩ = .ok (d.add ⟨id, c.spec.labels⟩) :=
    hd.isVlanDB.set_eq_ok.mpr ⟨hres, rfl⟩
  rw [claim_run hctx hs, hnil]
  dsimp only
  rw [applyHandlerNew_static_run, hfree]
  dsimp only
  rw [setAndReport_run, hset]

/-- A claim that is no takeover leaves the entries of other owners as they are. -/
theorem claim_frame (hd : VlanTable d) (hnot : ¬Takeover refuses d c) :
    Owned.Frame ownerKey c.owner (lookup d) (lookup (serve refuses d (.claim c))) := by
  have hout := claim_outcome refuses hd.isVlanDB c
  rw [serve]
  cases hrun : (claim refuses c).run DB.handler d with | mk a t =>
  rw [hrun] at hout
  cases hout with
  | failed | found | multiple => exact .refl
  | @stored vctx s id hctx hs hnil hres hid =>
    refine (Owned.frame_write_iff rfl (lookup_add d ⟨id, c.spec.labels⟩)).mpr fun l hl => ?_
    rcases hid with ⟨-, hfree⟩ | ⟨hk, rfl, -⟩
    · rw [lookup, DB.mem_freeIds hfree] at hl
      cases hl
    · by_contra hne
      have hspec : c.spec.vlanID = some vctx.start := by
        rcases getVLANClaimCtx_ok hctx with ⟨-, h⟩ | ⟨h, -⟩ | ⟨h | h, -⟩
        · exact h
        all_goals
          rw [hk] at h
          cases h
      exact hnot ⟨_, l, s, hspec, hres, hl, hne, hs, hnil⟩

/-- A delete leaves the entries of other owners as they are. -/
theorem deleteClaim_frame (refuses : NewRequirement) (d : DB 16) (c : VLANClaim) :
    Owned.Frame ownerKey c.owner (lookup d) (lookup (serve refuses d (.deleteClaim c))) := by
  obtain ⟨-, hstore⟩ := deleteClaim_run refuses d c
  refine Owned.frame_erase (p := fun id => lookup (serve refuses d (.deleteClaim c)) id ≠ lookup d id)
    (fun id h => not_not.mp h) (fun id h => ?_) fun id l h hl => ?_
  · rcases hstore id with hsame | ⟨-, hnone⟩
    · exact absurd hsame h
    · exact hnone
  · rcases hstore id with hsame | ⟨⟨l', hl', ho⟩, -⟩
    · exact absurd hsame h
    · cases hl.symm.trans hl'
      exact ho

/-- In every table that requests make out of `vlandb.New()`, a claim leaves each entry of another
owner exactly as it is if and only if it is not a takeover. -/
theorem claim_keeps_other_owners_iff (refuses : NewRequirement) (rs : List Request)
    (c : VLANClaim) :
    Owned.Frame ownerKey c.owner (lookup (tableAfter refuses rs))
        (lookup (serve refuses (tableAfter refuses rs) (.claim c))) ↔
      ¬Takeover refuses (tableAfter refuses rs) c := by
  have hd := tableAfter_vlanTable refuses rs
  refine ⟨?_, claim_frame hd⟩
  rintro hframe ⟨id, l, s, hspec, hres, hl, hne, hs, hnil⟩
  have hrun := claim_run_static hd hspec hres (hd.le id l hl) hs hnil
  rw [serve, hrun] at hframe
  exact hne ((Owned.frame_write_iff rfl (lookup_add _ ⟨id, c.spec.labels⟩)).mp hframe l hl)

/-- The second of two static claims for one id takes it from the first. -/
theorem static_claim_takes_over :
    ¬Owned.Frame ownerKey (sampleClaim "b" (some 100) none).owner
      (lookup (tableAfter (fun _ _ => none) [.claim (sampleClaim "a" (some 100) none)]))
      (lookup (serve (fun _ _ => none)
        (tableAfter (fun _ _ => none) [.claim (sampleClaim "a" (some 100) none)])
        (.claim (sampleClaim "b" (some 100) none)))) := by
  intro hframe
  have hkept := (hframe 100 (sampleClaim "a" (some 100) none).spec.labels (by decide)).mp (by decide)
  exact absurd hkept (by decide)

end K8sIpam.Vlan
