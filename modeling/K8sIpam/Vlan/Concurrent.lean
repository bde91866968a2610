import K8sIpam.Vlan.Ownership

/-! # Concurrent dynamic VLAN claims

The table is locked per operation, not per claim: two claims can look for a free id at the same
time. They get different ids when neither looks while the other stands between its `FindFree`
and its `Set`. -/

namespace K8sIpam.Vlan
open Std Atomic Prog

variable {refuses : NewRequirement} {d : DB 16} {c : VLANClaim} {s : Selector}

/-- Two claims that share a table. -/
abbrev Claims := Conf (dbSig 16) (DB 16) Bool Failure VLANClaim

def initial (refuses : NewRequirement) (d : DB 16) (c : Bool → VLANClaim) : Claims :=
  ⟨d, fun i => claim refuses (c i)⟩

def IsFindFree : DbOp 16 → Bool
  | .findFree => true
  | _ => false

def IsSet : DbOp 16 → Bool
  | .set _ => true
  | _ => false

def AboutToSet (p : TableProg VLANClaim) : Prop := p.next.any IsSet

/-- A process does not look for a free id while the other stands between its `FindFree` and its
`Set`. -/
def NoOverlap (cf : Claims) (i : Bool) : Prop :=
  ¬((cf.proc i).next.any IsFindFree = true ∧ (cf.proc !i).next.any IsSet = true)

instance (cf : Claims) (i : Bool) : Decidable (NoOverlap cf i) := by
  unfold NoOverlap; infer_instance

def OwnsNothing (refuses : NewRequirement) (d : DB 16) (c : VLANClaim) : Prop :=
  ∀ s, c.spec.getOwnerSelector refuses = .ok s → d.getByLabel s = []

instance (refuses : NewRequirement) (d : DB 16) (c : VLANClaim) :
    Decidable (OwnsNothing refuses d c) :=
  match h : c.spec.getOwnerSelector refuses with
  | .error _ => .isTrue fun s hs => by rw [h] at hs; cases hs
  | .ok s => decidable_of_iff (d.getByLabel s = [])
      ⟨fun hnil s' hs' => by rw [h] at hs'; cases hs'; exact hnil, fun hown => hown s h⟩

/-- The rest of a claim after its owner has been found to have no entry. -/
def search (c : VLANClaim) : TableProg VLANClaim := applyHandlerNewDynamicVlan ⟨.dynamic, 0, 0⟩ c

/-- How far a dynamic claim has come, and what it then knows about the table. -/
inductive Phase (refuses : NewRequirement) (c : VLANClaim) (d : DB 16) :
    TableProg VLANClaim → Prop where
  | start (s : Selector) (hs : c.spec.getOwnerSelector refuses = .ok s)
      (hnil : d.getByLabel s = []) : Phase refuses c d (claim refuses c)
  | search : Phase refuses c d (search c)
  | pending (id : VlanId) (hfree : d.store[id]? = none) : Phase refuses c d (setAndReport id c)
  | done (id : VlanId) (hset : d.store[id]? = some c.spec.labels) :
      Phase refuses c d (.ret (c.setVLANID id))
  | failed (e : Failure) : Phase refuses c d (.fail e)

theorem search_eq (c : VLANClaim) :
    search c = .op .findFree fun r => lift r >>= fun e => setAndReport e.id c := rfl

theorem setAndReport_eq (id : VlanId) (c : VLANClaim) : setAndReport id c =
    .op (.set ⟨id, c.spec.labels⟩) fun r => lift r >>= fun _ => .ret (c.setVLANID id) := rfl

section
variable (hdyn : c.spec.vlanID = none ∧ c.spec.vlanRange = none)
include hdyn

theorem dynamic_ctx : c.getVLANClaimCtx = .ok ⟨.dynamic, 0, 0⟩ := by
  rw [VLANClaim.getVLANClaimCtx, hdyn.1, hdyn.2]

theorem claim_eq (hs : c.spec.getOwnerSelector refuses = .ok s) :
    claim refuses c = .op (.getByLabel s) fun es => match es with
      | [] => search c
      | _ => lift (applyHandlerFound .dynamic es c) := by
  rw [claim, dynamic_ctx hdyn, lift_ok, ret_bind, applyHandler, getEntriesByOwner, hs]
  refine congrArg (Prog.op (S := dbSig 16) (.getByLabel s)) (funext fun es => ?_)
  cases es <;> rfl

theorem claim_eq_fail {e : Failure} (hs : c.spec.getOwnerSelector refuses = .error e) :
    claim refuses c = .fail e := by
  rw [claim, dynamic_ctx hdyn, lift_ok, ret_bind, applyHandler, getEntriesByOwner, hs]
  rfl

theorem Phase.initial (hown : OwnsNothing refuses d c) : Phase refuses c d (claim refuses c) := by
  cases hs : c.spec.getOwnerSelector refuses with
  | ok s => exact .start s hs (hown s hs)
  | error e => exact claim_eq_fail hdyn hs ▸ .failed e

/-- The next operation of a claim and what it does. -/
theorem Phase.op {p : TableProg VLANClaim} {o : DbOp 16} {k : DbOp.Resp o → TableProg VLANClaim}
    (h : Phase refuses c d p) (hp : p = .op o k) :
    Phase refuses c (DB.handler o d).2 (k (DB.handler o d).1) ∧
    ((∃ s, o = .getByLabel s ∧ ¬AboutToSet (k (DB.handler o d).1)) ∨ o = .findFree ∨
      ∃ id, o = .set ⟨id, c.spec.labels⟩ ∧ d.store[id]? = none ∧
        ¬AboutToSet (k (DB.handler o d).1)) := by
  cases h with
  | start s hs hnil =>
    rw [claim_eq hdyn hs] at hp
    cases hp
    simp only [DB.handler, hnil]
    exact ⟨.search, .inl ⟨s, rfl, Bool.false_ne_true⟩⟩
  | search =>
    rw [search_eq] at hp
    cases hp
    refine ⟨?_, .inr (.inl rfl)⟩
    simp only [DB.handler]
    cases hfree : d.findFree with
    | error e => exact .failed e
    | ok e => exact .pending e.id (DB.findFree_eq_ok hfree).2
  | pending id hfree =>
    rw [setAndReport_eq] at hp
    cases hp
    simp only [DB.handler]
    cases hset : d.set ⟨id, c.spec.labels⟩ with
    | error e => exact ⟨.failed e, .inr (.inr ⟨id, rfl, hfree, Bool.false_ne_true⟩)⟩
    | ok d' =>
      obtain ⟨-, rfl⟩ := DB.set_eq_ok.mp hset
      refine ⟨.done id ?_, .inr (.inr ⟨id, rfl, hfree, Bool.false_ne_true⟩)⟩
      rw [DB.change, DB.add_getElem?, if_pos rfl]
  | done => cases hp
  | failed => cases hp

end

/-- A set of a free id under the labels of another owner does not disturb a claim that is not
about to set. -/
theorem Phase.set_other {p : TableProg VLANClaim} {l : Labels} {id : VlanId}
    (h : Phase refuses c d p) (hne : ownerKey l ≠ c.owner) (hfree : d.store[id]? = none)
    (hp : ¬AboutToSet p) : Phase refuses c (d.add ⟨id, l⟩) p := by
  cases h with
  | start s hs hnil =>
    refine .start s hs (DB.getByLabel_eq_nil.mpr fun id' l' hl' => ?_)
    rw [DB.add_getElem?] at hl'
    split at hl'
    · cases hl'
      by_contra hm
      exact hne (ClaimLabels.ownerKey_of_matches hs (Bool.not_eq_false _ ▸ hm))
    · exact DB.getByLabel_eq_nil.mp hnil id' l' hl'
  | search => exact .search
  | pending id' hfree' => exact absurd (by rw [setAndReport_eq]; rfl) hp
  | done id' hset =>
    refine .done id' ?_
    rw [DB.add_getElem?, if_neg, hset]
    intro hid
    cases (hid : id = id')
    rw [hfree] at hset
    cases hset
  | failed e => exact .failed e

theorem keeps (c : Bool → VLANClaim)
    (hdyn : ∀ i, (c i).spec.vlanID = none ∧ (c i).spec.vlanRange = none)
    (hne : ∀ i j, i ≠ j → (c i).owner ≠ (c j).owner) :
    Conf.Keeps DB.handler NoOverlap (fun i d p => Phase refuses (c i) d p)
      (fun p q => ¬(AboutToSet p ∧ AboutToSet q)) where
  symm p q h := fun ⟨hq, hp⟩ => h ⟨hp, hq⟩
  own cf i o k hinv hp _ := ((hinv.holds i).op (hdyn i) hp).1
  other cf i o k j hinv hp _ hij := by
    rcases ((hinv.holds i).op (hdyn i) hp).2 with ⟨s, rfl, -⟩ | rfl | ⟨id, rfl, hfree, -⟩
    · exact hinv.holds j
    · exact hinv.holds j
    · have hj : ¬AboutToSet (cf.proc j) := fun h => hinv.compat i j hij ⟨hp ▸ rfl, h⟩
      simp only [DB.handler]
      cases hset : cf.shared.set ⟨id, (c i).spec.labels⟩ with
      | error e => exact hinv.holds j
      | ok d' =>
        obtain ⟨-, rfl⟩ := DB.set_eq_ok.mp hset
        exact (hinv.holds j).set_other (hne i j hij) hfree hj
  pair cf i o k j hinv hp hok hij := by
    rintro ⟨hset, hj⟩
    rcases ((hinv.holds i).op (hdyn i) hp).2 with ⟨s, -, hnot⟩ | rfl | ⟨id, -, -, hnot⟩
    · exact hnot hset
    · have hji : j = !i := Bool.eq_not.mpr hij.symm
      exact hok ⟨hp ▸ rfl, hji ▸ hj⟩
    · exact hnot hset

/-- Two dynamic claims of different owners that own nothing, interleaved in any way in which
neither looks for a free id while the other stands between its `FindFree` and its `Set`: if both
return, they return different ids and both entries are in the table. -/
theorem dynamic_claims_distinct (refuses : NewRequirement) (d : DB 16) (c : Bool → VLANClaim)
    (hdyn : ∀ i, (c i).spec.vlanID = none ∧ (c i).spec.vlanRange = none)
    (hown : ∀ i, OwnsNothing refuses d (c i)) (hne : (c true).owner ≠ (c false).owner)
    (sched : List Bool) (hg : Conf.Guarded DB.handler NoOverlap (initial refuses d c) sched)
    (r : Bool → VLANClaim)
    (hr : ∀ i, (((initial refuses d c).run DB.handler sched).proc i).returned = some (r i)) :
    (r true).status.vlanID ≠ (r false).status.vlanID ∧
    ∀ i, ∃ id, (r i).status.vlanID = some id ∧
      ((initial refuses d c).run DB.handler sched).shared.store[id]? = some (c i).spec.labels := by
  have hne' : ∀ i j, i ≠ j → (c i).owner ≠ (c j).owner := by
    intro i j hij
    cases i <;> cases j
    · exact absurd rfl hij
    · exact hne.symm
    · exact hne
    · exact absurd rfl hij
  have hinit : Conf.Inv (fun i d p => Phase refuses (c i) d p)
      (fun p q => ¬(AboutToSet p ∧ AboutToSet q)) (initial refuses d c) := by
    refine ⟨fun i => Phase.initial (hdyn i) (hown i), fun i j _ hset => ?_⟩
    have hnot : ¬AboutToSet (claim refuses (c i)) := by
      cases hs : (c i).spec.getOwnerSelector refuses with
      | ok s =>
        rw [claim_eq (hdyn i) hs]
        exact Bool.false_ne_true
      | error e =>
        rw [claim_eq_fail (hdyn i) hs]
        exact Bool.false_ne_true
    exact hnot hset.1
  have hfinal := (keeps c hdyn hne').run hinit hg
  have hdone : ∀ i, ∃ id, (r i).status.vlanID = some id ∧
      ((initial refuses d c).run DB.handler sched).shared.store[id]? = some (c i).spec.labels := by
    intro i
    have hphase := hfinal.holds i
    rw [returned_eq_some.mp (hr i)] at hphase
    generalize hq : (Prog.ret (r i) : TableProg VLANClaim) = q at hphase
    cases hphase with
    | start s hs _ =>
      rw [claim_eq (hdyn i) hs] at hq
      cases hq
    | search =>
      rw [search_eq] at hq
      cases hq
    | pending id _ =>
      rw [setAndReport_eq] at hq
      cases hq
    | done id hset =>
      have hri : r i = (c i).setVLANID id := Prog.ret.inj hq
      exact ⟨id, hri ▸ rfl, hset⟩
    | failed => cases hq
  refine ⟨fun heq => ?_, hdone⟩
  obtain ⟨id, hid, hset⟩ := hdone true
  obtain ⟨id', hid', hset'⟩ := hdone false
  rw [hid, hid'] at heq
  cases heq
  rw [hset] at hset'
  exact hne (congrArg ownerKey (Option.some.inj hset'))

/-- Two claims made one after the other. -/
theorem dynamic_claims_distinct_in_turn :
    some (2 : VlanId) ≠ some 3 ∧ ∀ i, ∃ id,
      ((sampleClaim (cond i "a" "b") none none).setVLANID (cond i 2 3)).status.vlanID = some id ∧
      ((initial (fun _ _ => none) new fun i => sampleClaim (cond i "a" "b") none none).run
        DB.handler [true, true, true, false, false, false]).shared.store[id]? =
          some (sampleClaim (cond i "a" "b") none none).spec.labels :=
  dynamic_claims_distinct (fun _ _ => none) new (fun i => sampleClaim (cond i "a" "b") none none)
    (by decide) (by decide +kernel) (by decide)
    [true, true, true, false, false, false] (by decide +kernel)
    (fun i => (sampleClaim (cond i "a" "b") none none).setVLANID (cond i 2 3)) (by decide +kernel)

/-- Both claims look for a free id before either stores one: both get VLAN 2, and the table
keeps the entry of one of them. -/
theorem dynamic_claims_collide :
    (((initial (fun _ _ => none) new fun i => sampleClaim (cond i "a" "b") none none).run
        DB.handler [true, false, true, false, true, false]).proc true).returned =
      some ((sampleClaim "a" none none).setVLANID 2) ∧
    (((initial (fun _ _ => none) new fun i => sampleClaim (cond i "a" "b") none none).run
        DB.handler [true, false, true, false, true, false]).proc false).returned =
      some ((sampleClaim "b" none none).setVLANID 2) ∧
    (∀ i, OwnsNothing (fun _ _ => none) new (sampleClaim (cond i "a" "b") none none)) ∧
    (sampleClaim "a" none none).owner ≠ (sampleClaim "b" none none).owner := by
  refine ⟨by decide +kernel, by decide +kernel, by decide +kernel, by decide⟩

end K8sIpam.Vlan
