import K8sIpam.Vlan.Ownership

/-! # The life of a dynamic claim

In a table that dynamic claims and deletes make, an owner has at most one entry. So a dynamic claim
adds one entry, is then answered with the same id, and its delete removes that entry and nothing
else. -/

namespace K8sIpam.Vlan
open Std Atomic Prog

variable {refuses : NewRequirement} {d : DB 16} {c : VLANClaim} {id : VlanId} {l : Labels}

/-- A claim of any id that carries the five owner labels, which its selector accepts. -/
structure Dynamic (refuses : NewRequirement) (c : VLANClaim) : Prop where
  vlanID : c.spec.vlanID = none
  vlanRange : c.spec.vlanRange = none
  carries : HasOwner c.spec.labels c.spec.labels
  accepted : ∃ s, c.spec.getOwnerSelector refuses = .ok s

/-- The ids of the entries of the owner of a claim. -/
def owned (c : VLANClaim) (d : DB 16) : Set VlanId :=
  {id | ∃ l, lookup d id = some l ∧ HasOwner c.spec.labels l}

/-- The reserved entries are protected, and every owner has at most one of the others. -/
structure OneEach (d : DB 16) : Prop where
  reserved : Protected d
  one : ∀ own (id id' : VlanId) l l', lookup d id = some l → lookup d id' = some l' →
    HasOwner own l → HasOwner own l' → id = id'

/-! ## Entries and owners -/

/-- A reserved entry has no owner. -/
theorem not_hasOwner_reserved (hd : Protected d) (hid : Reserved id) (hl : lookup d id = some l)
    (own : Labels) : ¬HasOwner own l := by
  obtain ⟨e, he, rfl⟩ := mem_init_of_reserved hid
  cases (hd.reserved e he).symm.trans hl
  intro h
  have hnone : ∀ e ∈ cfg.initEntries, e.labels[nephioNsnNameKey]? = none := by decide +kernel
  cases (hnone e he).symm.trans (h nephioNsnNameKey (by decide))

theorem OneEach.not_reserved (hd : OneEach d) (hid : id ∈ owned c d) : ¬Reserved id := by
  obtain ⟨l, hl, hown⟩ := hid
  exact fun hres => not_hasOwner_reserved hd.reserved hres hl _ hown

theorem OneEach.subsingleton (hd : OneEach d) (c : VLANClaim) : (owned c d).Subsingleton := by
  rintro id ⟨l, hl, hown⟩ id' ⟨l', hl', hown'⟩
  exact hd.one _ id id' l l' hl hl' hown hown'

theorem owner_eq_of_hasOwner {c' : VLANClaim} (h : HasOwner c.spec.labels l)
    (h' : HasOwner c'.spec.labels l) : c'.owner = c.owner := by
  refine ownerKey_eq_iff.mpr fun k hk => Option.some.inj ?_
  rw [← h' k hk, h k hk]

theorem hasOwner_of_owner_eq {c' : VLANClaim} (h : c'.owner = c.owner)
    (hl : HasOwner c.spec.labels l) : HasOwner c'.spec.labels l := by
  intro k hk
  rw [hl k hk, ownerKey_eq_iff.mp h k hk]

/-! ## One request -/

section
variable {s : Selector} (hs : c.spec.getOwnerSelector refuses = .ok s)
include hs

theorem mem_getByLabel_owner {e : Entry 16} :
    e ∈ d.getByLabel s ↔ lookup d e.id = some e.labels ∧ HasOwner c.spec.labels e.labels := by
  rw [DB.mem_getByLabel, ClaimLabels.ownerSelector_matches hs]
  rfl

theorem getByLabel_of_owned_empty (hnone : owned c d = ∅) : d.getByLabel s = [] := by
  refine List.eq_nil_iff_forall_not_mem.mpr fun e he => ?_
  have hmem : e.id ∈ owned c d := ⟨e.labels, (mem_getByLabel_owner hs).mp he⟩
  rw [hnone] at hmem
  exact hmem

theorem OneEach.getByLabel_eq (hd : OneEach d) (hl : lookup d id = some l)
    (hown : HasOwner c.spec.labels l) : d.getByLabel s = [⟨id, l⟩] := by
  have hmem : ⟨id, l⟩ ∈ d.getByLabel s := (mem_getByLabel_owner hs).mpr ⟨hl, hown⟩
  have hall : ∀ e ∈ d.getByLabel s, e = ⟨id, l⟩ := by
    intro e he
    obtain ⟨hle, howne⟩ := (mem_getByLabel_owner hs).mp he
    obtain rfl := hd.one _ _ _ _ _ hle hl howne hown
    cases hle.symm.trans hl
    rfl
  have hnodup := d.nodup_getByLabel s
  rcases hes : d.getByLabel s with _ | ⟨e, _ | ⟨e', es⟩⟩
  all_goals rw [hes] at hmem hall hnodup
  · cases hmem
  · rw [hall e List.mem_cons_self]
  · have heq := (hall e' (List.mem_cons_of_mem _ List.mem_cons_self)).symm
    exact absurd ((hall e List.mem_cons_self).trans heq)
      (List.ne_of_not_mem_cons (List.nodup_cons.mp hnodup).1)

end

section
variable (hc : Dynamic refuses c) (hd : OneEach d)
include hc

theorem Dynamic.ctx : c.getVLANClaimCtx = .ok ⟨.dynamic, 0, 0⟩ := by
  rw [VLANClaim.getVLANClaimCtx, hc.vlanID, hc.vlanRange]

/-- A delete of an owner that has no entry changes nothing. -/
theorem Dynamic.deleteClaim_run_fresh (hnone : owned c d = ∅) :
    (deleteClaim refuses c).run DB.handler d = (.ok (), d) := by
  obtain ⟨s, hs⟩ := hc.accepted
  rw [deleteClaim, hc.ctx, lift_ok, ret_bind, deleteHandler,
    run_bind_of_ok _ (getEntriesByOwner_run hs), getByLabel_of_owned_empty hs hnone]
  rfl

include hd

/-- A claim of an owner that has an entry is answered with the id of that entry. -/
theorem OneEach.claim_run_owned (hl : lookup d id = some l) (hown : HasOwner c.spec.labels l) :
    (claim refuses c).run DB.handler d = (.ok (c.setVLANID id), d) := by
  obtain ⟨s, hs⟩ := hc.accepted
  rw [claim_run hc.ctx hs, hd.getByLabel_eq hs hl hown]
  rfl

theorem OneEach.getClaim_run_owned (hl : lookup d id = some l) (hown : HasOwner c.spec.labels l) :
    (getClaim refuses c).run DB.handler d = (.ok (c.setVLANID id), d) := by
  obtain ⟨s, hs⟩ := hc.accepted
  rw [getClaim, hc.ctx, lift_ok, ret_bind, getHandler, run_bind_of_ok _ (getEntriesByOwner_run hs),
    hd.getByLabel_eq hs hl hown]
  rfl

/-- A claim of an owner that has none fails or adds one at a free id. -/
theorem OneEach.claim_run_fresh (hnone : owned c d = ∅) :
    (∃ e, (claim refuses c).run DB.handler d = (.error e, d)) ∨
    ∃ id, (2 ≤ id ∧ id ≤ 4094 ∧ lookup d id = none) ∧
      (claim refuses c).run DB.handler d =
        (.ok (c.setVLANID id), d.add ⟨id, c.spec.labels⟩) := by
  obtain ⟨s, hs⟩ := hc.accepted
  rw [claim_run hc.ctx hs, getByLabel_of_owned_empty hs hnone]
  dsimp only
  rw [applyHandlerNew_dynamic_run]
  have hfree := hd.reserved.findsLeastFree
  unfold FindsLeastFree at hfree
  cases hfind : d.findFree with
  | error e => exact .inl ⟨e, rfl⟩
  | ok e =>
    rw [hfind] at hfree
    obtain ⟨hlow, hhigh, hid, -⟩ := hfree
    have hset : d.set ⟨e.id, c.spec.labels⟩ = .ok (d.add ⟨e.id, c.spec.labels⟩) :=
      hd.reserved.isVlanDB.set_eq_ok.mpr ⟨(hd.reserved.free_bounds (by bv_omega) hid).1, rfl⟩
    refine .inr ⟨e.id, ⟨hlow, hhigh, (DB.findFree_eq_ok hfind).2⟩, ?_⟩
    dsimp only
    rw [setAndReport_run, hset]

/-- A delete of an owner that has an entry removes it. -/
theorem OneEach.deleteClaim_run_owned (hl : lookup d id = some l)
    (hown : HasOwner c.spec.labels l) :
    (deleteClaim refuses c).run DB.handler d = (.ok (), { d with store := d.store.erase id }) := by
  obtain ⟨s, hs⟩ := hc.accepted
  have hdel : d.delete id = .ok { d with store := d.store.erase id } :=
    hd.reserved.isVlanDB.delete_eq_ok.mpr ⟨hd.not_reserved (c := c) ⟨l, hl, hown⟩, rfl⟩
  rw [deleteClaim, hc.ctx, lift_ok, ret_bind, deleteHandler,
    run_bind_of_ok _ (getEntriesByOwner_run hs), hd.getByLabel_eq hs hl hown, deleteEntries,
    run_bind, DbProg.delete_run, hdel]
  rfl

end

/-! ## Runs -/

theorem OneEach.serve_claim (hd : OneEach d) (hc : Dynamic refuses c) :
    serve refuses d (.claim c) = d ∨ ∃ id, lookup d id = none ∧ owned c d = ∅ ∧
      serve refuses d (.claim c) = d.add ⟨id, c.spec.labels⟩ := by
  rcases (owned c d).eq_empty_or_nonempty with hnone | ⟨id, l, hl, hown⟩
  · rcases hd.claim_run_fresh hc hnone with ⟨e, hrun⟩ | ⟨id, ⟨-, -, hfree⟩, hrun⟩
    · exact .inl (by rw [serve, hrun])
    · exact .inr ⟨id, hfree, hnone, by rw [serve, hrun]⟩
  · exact .inl (by rw [serve, hd.claim_run_owned hc hl hown])

theorem OneEach.serve_deleteClaim (hd : OneEach d) (hc : Dynamic refuses c) :
    serve refuses d (.deleteClaim c) = d ∨ ∃ id ∈ owned c d,
      serve refuses d (.deleteClaim c) = { d with store := d.store.erase id } := by
  rcases (owned c d).eq_empty_or_nonempty with hnone | ⟨id, l, hl, hown⟩
  · exact .inl (by rw [serve, hc.deleteClaim_run_fresh hnone])
  · exact .inr ⟨id, ⟨l, hl, hown⟩, by rw [serve, hd.deleteClaim_run_owned hc hl hown]⟩

theorem lookup_erase (d : DB 16) (id id' : VlanId) :
    lookup { d with store := d.store.erase id } id' = if id = id' then none else lookup d id' := by
  simp [lookup, ExtTreeMap.getElem?_erase]

/-- A dynamic request leaves at most one entry to every owner. -/
theorem OneEach.served (hd : OneEach d) {r : Request} (hr : Dynamic refuses r.cr) :
    OneEach (serve refuses d r) := by
  refine ⟨hd.reserved.serve r, ?_⟩
  cases r with
  | claim c =>
    replace hr : Dynamic refuses c := hr
    rcases hd.serve_claim hr with hsame | ⟨id, hfree, hnone, hadd⟩
    · rw [hsame]
      exact hd.one
    · rw [hadd]
      -- an old entry of the owner of the new one would be an entry of the claim
      have hnew : ∀ own (id' : VlanId) l', lookup d id' = some l' → HasOwner own l' →
          ¬HasOwner own c.spec.labels := by
        intro own id' l' hl' hown' hown
        have hmem : id' ∈ owned c d := ⟨l', hl', hown.agree hr.carries hown'⟩
        rw [hnone] at hmem
        exact hmem
      intro own id₁ id₂ l₁ l₂ h₁ h₂ hown₁ hown₂
      rw [lookup_add] at h₁ h₂
      split at h₁ <;> split at h₂
      · exact ‹id = id₁›.symm.trans ‹id = id₂›
      · cases h₁
        exact absurd hown₁ (hnew own id₂ l₂ h₂ hown₂)
      · cases h₂
        exact absurd hown₂ (hnew own id₁ l₁ h₁ hown₁)
      · exact hd.one own id₁ id₂ l₁ l₂ h₁ h₂ hown₁ hown₂
  | deleteClaim c =>
    replace hr : Dynamic refuses c := hr
    rcases hd.serve_deleteClaim hr with hsame | ⟨id, -, herase⟩
    · rw [hsame]
      exact hd.one
    · rw [herase]
      intro own id₁ id₂ l₁ l₂ h₁ h₂
      rw [lookup_erase] at h₁ h₂
      split at h₁
      · cases h₁
      · split at h₂
        · cases h₂
        · exact hd.one own id₁ id₂ l₁ l₂ h₁ h₂

theorem oneEach_new : OneEach new := by
  refine ⟨protected_new, fun own id id' l l' hl hl' hown _ => ?_⟩
  have hres : Reserved id := by
    by_contra hres
    cases (new_getElem? hres).symm.trans hl
  exact absurd hown (not_hasOwner_reserved protected_new hres hl own)

theorem oneEach_tableAfter {rs : List Request} (hrs : ∀ r ∈ rs, Dynamic refuses r.cr) :
    OneEach (tableAfter refuses rs) :=
  Run.run_inv_of_forall_mem (fun _ _ hr hd => hd.served hr) hrs oneEach_new

/-- An entry stays through every dynamic request but a delete of its owner. -/
theorem OneEach.serve_keeps (hd : OneEach d) {r : Request} (hr : Dynamic refuses r.cr)
    (hl : lookup d id = some l) (hown : HasOwner c.spec.labels l)
    (hlive : ∀ c', r = .deleteClaim c' → c'.owner ≠ c.owner) :
    lookup (serve refuses d r) id = some l := by
  cases r with
  | claim c' =>
    replace hr : Dynamic refuses c' := hr
    rcases hd.serve_claim hr with hsame | ⟨id', hfree, -, hadd⟩
    · rw [hsame, hl]
    · rw [hadd, lookup_add, if_neg, hl]
      intro heq
      have heq : id' = id := heq
      rw [heq, hl] at hfree
      cases hfree
  | deleteClaim c' =>
    replace hr : Dynamic refuses c' := hr
    rcases hd.serve_deleteClaim hr with hsame | ⟨id', ⟨l', hl', hown'⟩, herase⟩
    · rw [hsame, hl]
    · rw [herase, lookup_erase, if_neg, hl]
      rintro rfl
      cases hl.symm.trans hl'
      exact hlive c' rfl (owner_eq_of_hasOwner hown hown')

/-- A request that changes the table, or a read. -/
inductive Traffic where
  | change (r : Request)
  | getClaim (cr : VLANClaim)

def Traffic.cr : Traffic → VLANClaim
  | .change r => r.cr
  | .getClaim cr => cr

def Traffic.serve (refuses : NewRequirement) (d : DB 16) : Traffic → DB 16
  | .change r => Vlan.serve refuses d r
  | .getClaim cr => ((Vlan.getClaim refuses cr).run DB.handler d).2

/-- The table after some traffic. -/
def tableFrom (refuses : NewRequirement) (d : DB 16) (ts : List Traffic) : DB 16 :=
  Run.run (Traffic.serve refuses) d ts

theorem getClaim_table (hc : Dynamic refuses c) :
    ((getClaim refuses c).run DB.handler d).2 = d := by
  obtain ⟨s, hs⟩ := hc.accepted
  rw [getClaim, hc.ctx, lift_ok, ret_bind, getHandler, run_bind_of_ok _ (getEntriesByOwner_run hs)]
  cases d.getByLabel s with
  | nil => rfl
  | cons e es => rw [run_lift]

theorem OneEach.run_keeps (hd : OneEach d) (hl : lookup d id = some l)
    (hown : HasOwner c.spec.labels l) {ts : List Traffic} (hts : ∀ t ∈ ts, Dynamic refuses t.cr)
    (hlive : ∀ c', .change (.deleteClaim c') ∈ ts → c'.owner ≠ c.owner) :
    OneEach (tableFrom refuses d ts) ∧ lookup (tableFrom refuses d ts) id = some l := by
  let ok (t : Traffic) : Prop := Dynamic refuses t.cr ∧
    ∀ c', t = .change (.deleteClaim c') → c'.owner ≠ c.owner
  let I (d : DB 16) : Prop := OneEach d ∧ lookup d id = some l
  have hstep : ∀ d t, ok t → I d → I (Traffic.serve refuses d t) := by
    rintro d t ⟨ht, hlive⟩ ⟨hd, hl⟩
    cases t with
    | change r => exact ⟨hd.served ht, hd.serve_keeps ht hl hown fun c' hr => hlive c' (hr ▸ rfl)⟩
    | getClaim c' =>
      replace ht : Dynamic refuses c' := ht
      rw [Traffic.serve, getClaim_table ht]
      exact ⟨hd, hl⟩
  have hok : ∀ t ∈ ts, ok t := fun t ht => ⟨hts t ht, fun c' heq => hlive c' (heq ▸ ht)⟩
  have hrun : I (tableFrom refuses d ts) := Run.run_inv_of_forall_mem hstep hok ⟨hd, hl⟩
  exact hrun

/-! ## The life cycle -/

/-- What holds of a dynamic claim `c` in a table `d`. -/
structure LifeCycle (refuses : NewRequirement) (d : DB 16) (c : VLANClaim) : Prop where
  /-- The claim of an owner that has nothing fails or adds one entry at a free id. -/
  fresh : owned c d = ∅ → (∃ e, (claim refuses c).run DB.handler d = (.error e, d)) ∨
    ∃ id, (2 ≤ id ∧ id ≤ 4094 ∧ lookup d id = none) ∧ (claim refuses c).run DB.handler d =
      (.ok (c.setVLANID id), d.add ⟨id, c.spec.labels⟩)
  /-- Once the claim has got an id, every claim and every read of its owner gets it, whatever is
  requested meanwhile, until the owner makes a delete; and nothing of the owner changes. -/
  stable : ∀ id resp ts d', answer refuses d c = .ok resp → resp.status.vlanID = some id →
    (∀ t ∈ ts, Dynamic refuses t.cr) →
    (∀ c', .change (.deleteClaim c') ∈ ts → c'.owner ≠ c.owner) →
    tableFrom refuses (serve refuses d (.claim c)) ts = d' →
    (∀ c', Dynamic refuses c' → c'.owner = c.owner →
      (claim refuses c').run DB.handler d' = (.ok (c'.setVLANID id), d') ∧
      (getClaim refuses c').run DB.handler d' = (.ok (c'.setVLANID id), d')) ∧
    ∀ id' l, HasOwner c.spec.labels l →
      (lookup (serve refuses d (.claim c)) id' = some l ↔ lookup d' id' = some l)
  /-- A delete succeeds and removes the entry of the owner, which is not a reserved one. -/
  delete : ∃ d', (deleteClaim refuses c).run DB.handler d = (.ok (), d') ∧
    (owned c d).Subsingleton ∧ (∀ id ∈ owned c d, ¬Reserved id ∧ lookup d' id = none) ∧
    ∀ id, id ∉ owned c d → lookup d' id = lookup d id
  /-- A claim that is deleted again leaves no trace. -/
  restores : owned c d = ∅ → serve refuses (serve refuses d (.claim c)) (.deleteClaim c) = d

section
variable (hd : OneEach d) (hc : Dynamic refuses c)
include hd hc

/-- An answered claim has an entry at the id that it reports. -/
theorem OneEach.answered {resp : VLANClaim} (h : answer refuses d c = .ok resp)
    (hid : resp.status.vlanID = some id) :
    ∃ l, lookup (serve refuses d (.claim c)) id = some l ∧ HasOwner c.spec.labels l := by
  rw [answer] at h
  rw [serve]
  rcases (owned c d).eq_empty_or_nonempty with hnone | ⟨id', l, hl, hown⟩
  · rcases hd.claim_run_fresh hc hnone with ⟨e, hrun⟩ | ⟨id', -, hrun⟩
    · rw [hrun] at h
      cases h
    · rw [hrun] at h ⊢
      cases h
      cases hid
      exact ⟨c.spec.labels, by rw [lookup_add, if_pos rfl], hc.carries⟩
  · rw [hd.claim_run_owned hc hl hown] at h ⊢
    cases h
    cases hid
    exact ⟨l, hl, hown⟩

theorem OneEach.delete_spec : ∃ d', (deleteClaim refuses c).run DB.handler d = (.ok (), d') ∧
    (∀ id ∈ owned c d, lookup d' id = none) ∧
    ∀ id, id ∉ owned c d → lookup d' id = lookup d id := by
  rcases (owned c d).eq_empty_or_nonempty with hnone | ⟨id, l, hl, hown⟩
  · refine ⟨d, hc.deleteClaim_run_fresh hnone, fun id hid => ?_, fun _ _ => rfl⟩
    rw [hnone] at hid
    exact hid.elim
  · have hid : id ∈ owned c d := ⟨l, hl, hown⟩
    refine ⟨_, hd.deleteClaim_run_owned hc hl hown, fun id' hid' => ?_, fun id' hid' => ?_⟩
    · rw [lookup_erase, if_pos (hd.subsingleton c hid hid')]
    · have hne : id ≠ id' := fun heq => hid' (heq ▸ hid)
      rw [lookup_erase, if_neg hne]

theorem OneEach.restores (hnone : owned c d = ∅) :
    serve refuses (serve refuses d (.claim c)) (.deleteClaim c) = d := by
  have hd' : OneEach (serve refuses d (.claim c)) := hd.served hc
  rcases hd.serve_claim hc with hsame | ⟨id, hfree, -, hadd⟩
  · rw [hsame, serve, hc.deleteClaim_run_fresh hnone]
  · rw [hadd] at hd' ⊢
    have hl : lookup (d.add ⟨id, c.spec.labels⟩) id = some c.spec.labels := by
      rw [lookup_add, if_pos rfl]
    rw [serve, hd'.deleteClaim_run_owned hc hl hc.carries]
    have hstore : (d.store.insert id c.spec.labels).erase id = d.store := by
      refine ExtTreeMap.ext_getElem? fun id' => ?_
      rw [ExtTreeMap.getElem?_erase, ExtTreeMap.getElem?_insert]
      by_cases heq : id = id'
      · subst heq
        rw [if_pos ReflCmp.compare_self]
        exact hfree.symm
      · simp [heq]
    exact congrArg (DB.mk d.cfg) hstore

end

/-- The life cycle of a dynamic claim in every table that dynamic requests make out of
`vlandb.New()`. -/
theorem dynamic_lifeCycle (refuses : NewRequirement) (rs : List Request)
    (hrs : ∀ r ∈ rs, Dynamic refuses r.cr) (c : VLANClaim) (hc : Dynamic refuses c) :
    LifeCycle refuses (tableAfter refuses rs) c := by
  have hd := oneEach_tableAfter hrs
  generalize tableAfter refuses rs = d at hd
  refine ⟨hd.claim_run_fresh hc, ?_, ?_, hd.restores hc⟩
  · rintro id resp ts d' h hid hts hlive rfl
    have hserve : OneEach (serve refuses d (.claim c)) := hd.served hc
    obtain ⟨l, hl, hown⟩ := hd.answered hc h hid
    obtain ⟨hd', hl'⟩ := hserve.run_keeps hl hown hts hlive
    refine ⟨fun c' hc' heq => ?_, fun id' l' hown' => ?_⟩
    · have hown' := hasOwner_of_owner_eq heq hown
      exact ⟨hd'.claim_run_owned hc' hl' hown', hd'.getClaim_run_owned hc' hl' hown'⟩
    · -- the owner has the same one entry in both tables
      constructor
      · intro h'
        obtain rfl := hserve.one _ _ _ _ _ h' hl hown' hown
        rw [hl', ← h', hl]
      · intro h'
        obtain rfl := hd'.one _ _ _ _ _ h' hl' hown' hown
        rw [hl, ← h', hl']
  · obtain ⟨d', hrun, hgone, hkept⟩ := hd.delete_spec hc
    exact ⟨d', hrun, hd.subsingleton c, fun id hid => ⟨hd.not_reserved hid, hgone id hid⟩, hkept⟩

/-- A second owner after a first one. -/
theorem dynamic_lifeCycle_second :
    LifeCycle (fun _ _ => none) (tableAfter (fun _ _ => none) [.claim (sampleClaim "a" none none)])
      (sampleClaim "b" none none) := by
  have hsample : ∀ name ∈ ["a", "b"], Dynamic (fun _ _ => none) (sampleClaim name none none) :=
    fun name hname => ⟨rfl, rfl, by revert name; decide, _, rfl⟩
  refine dynamic_lifeCycle _ _ (fun r hr => ?_) _ (hsample "b" (by decide))
  cases List.mem_singleton.mp hr
  exact hsample "a" (by decide)

end K8sIpam.Vlan
