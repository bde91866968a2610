import K8sIpam.Vlan.Ownership

/-! # The ids a claim reports and the ids it holds

A response reports VLAN ids; the table holds ids under the labels of an owner. The two agree in
runs whose claims are for single ids, carry the owner labels and take over nothing. -/

namespace K8sIpam.Vlan
open Std Atomic Prog

variable {refuses : NewRequirement} {d : DB 16} {c : VLANClaim} {b : List String}

/-- An id lies in the range that a text `start:end` denotes. -/
def inRange (r : String) (id : VlanId) : Bool :=
  match r.toList.splitOn ':' with
  | [start, stop] =>
    match atoi start, atoi stop with
    | .ok s, .ok e => s ≤ id.toNat ∧ (id.toNat : Int) ≤ e
    | _, _ => false
  | _ => false

/-- The ids that the response to a claim reports. A size claim reports how many it got. -/
def Reports (c resp : VLANClaim) (ids : Set VlanId) : Prop :=
  match c.getVLANClaimCtx with
  | .error _ => False
  | .ok vctx => match vctx.kind with
    | .dynamic | .static => ids = {id | resp.status.vlanID = some id}
    | .range => ids = {id | ∃ r, resp.status.vlanRange = some r ∧ inRange r id}
    | .size => ids.ncard = vctx.size.toNat

/-- The ids that a table holds under the five labels of an owner. -/
def held (b : List String) (d : DB 16) : Set VlanId := Owned.keys ownerKey b (lookup d)

/-- A claim for a single id that carries the owner labels. -/
def Single (c : VLANClaim) : Prop :=
  (c.spec.vlanID ≠ none ∨ c.spec.vlanRange = none) ∧ OwnerComplete c.spec.labels

/-- A request that takes no id of another owner and asks for at most one. -/
def Plain (refuses : NewRequirement) (d : DB 16) : Request → Prop
  | .claim c => Single c ∧ ¬Takeover refuses d c
  | .deleteClaim _ => True

theorem Single.kind {vctx : VLANClaimCtx} (hc : Single c) (hctx : c.getVLANClaimCtx = .ok vctx) :
    vctx.kind = .dynamic ∨ vctx.kind = .static := by
  rcases getVLANClaimCtx_ok hctx with ⟨hk, -⟩ | ⟨hk, -⟩ | ⟨-, hnone, hrange⟩
  · exact .inr hk
  · exact .inl hk
  · rcases hc.1 with h | h
    · exact absurd hnone h
    · exact absurd h hrange

theorem Single.reports {vctx : VLANClaimCtx} (hc : Single c)
    (hctx : c.getVLANClaimCtx = .ok vctx) {resp : VLANClaim} {ids : Set VlanId} :
    Reports c resp ids ↔ ids = {id | resp.status.vlanID = some id} := by
  unfold Reports
  rw [hctx]
  rcases hc.kind hctx with hk | hk <;> simp only [hk]

theorem Single.reports_unique (hc : Single c) {resp : VLANClaim} {ids ids' : Set VlanId}
    (h : Reports c resp ids) (h' : Reports c resp ids') : ids = ids' := by
  cases hctx : c.getVLANClaimCtx with
  | error e =>
    rw [Reports, hctx] at h
    exact h.elim
  | ok vctx => exact ((hc.reports hctx).mp h).trans ((hc.reports hctx).mp h').symm

/-- A claim for a single id whose owner has entries reports the one it has. -/
theorem Single.found {vctx : VLANClaimCtx} (hc : Single c) (hctx : c.getVLANClaimCtx = .ok vctx)
    {es : List (Entry 16)} {resp : VLANClaim}
    (h : applyHandlerFound vctx.kind es c = .ok resp) :
    ∃ e, es = [e] ∧ resp.status.vlanID = some e.id := by
  rcases hc.kind hctx with hk | hk
  · rw [hk, applyHandlerFound] at h
    obtain ⟨e, he, h⟩ := bind_eq_ok.mp h
    cases h
    exact ⟨e, singleEntry_eq_ok.mp he, rfl⟩
  · rw [hk, applyHandlerFound] at h
    obtain ⟨e, he, h⟩ := bind_eq_ok.mp h
    split at h
    · cases h
      exact ⟨e, singleEntry_eq_ok.mp he, rfl⟩
    · cases h

theorem mem_held_iff {s : Selector} (hs : c.spec.getOwnerSelector refuses = .ok s)
    (hc : OwnerComplete c.spec.labels) {id : VlanId} :
    id ∈ held c.owner d ↔ ∃ e ∈ d.getByLabel s, e.id = id := by
  constructor
  · rintro ⟨l, hl, ho⟩
    exact ⟨⟨id, l⟩, DB.mem_getByLabel.mpr ⟨hl, (ClaimLabels.matches_iff_ownerKey hs hc).mpr ho⟩, rfl⟩
  · rintro ⟨e, he, rfl⟩
    obtain ⟨hl, hm⟩ := DB.mem_getByLabel.mp he
    exact ⟨e.labels, hl, ClaimLabels.ownerKey_of_matches hs hm⟩

/-- A single claim that is answered reports exactly what its owner holds. -/
theorem claim_reports_held (hd : VlanTable d) (hc : Single c) {resp : VLANClaim}
    (h : answer refuses d c = .ok resp) :
    Reports c resp (held c.owner (serve refuses d (.claim c))) := by
  have hout := claim_outcome refuses hd.isVlanDB c
  rw [serve]
  rw [answer] at h
  cases hrun : (claim refuses c).run DB.handler d with | mk a t =>
  rw [hrun] at hout h
  cases hout with
  | failed => cases h
  | multiple hctx _ _ hk =>
    rcases hc.kind hctx with h' | h' <;> rw [h'] at hk <;> rcases hk with hk | hk <;> cases hk
  | found hctx hs _ hr =>
    cases h
    obtain ⟨e, hes, hid⟩ := hc.found hctx hr
    rw [hc.reports hctx]
    ext id
    rw [mem_held_iff hs hc.2, hes, Set.mem_ofPred_eq, hid]
    simp
  | @stored vctx s id hctx hs hnil _ _ =>
    cases h
    rw [hc.reports hctx]
    have hnone : ∀ id' : VlanId, id' ∉ held c.owner d := fun id' hmem => by
      obtain ⟨e, he, -⟩ := (mem_held_iff hs hc.2).mp hmem
      simp [hnil] at he
    ext id'
    rw [Set.mem_ofPred_eq, VLANClaim.setVLANID]
    constructor
    · rintro ⟨l, hl, ho⟩
      rw [lookup_add] at hl
      by_cases hid : id = id'
      · rw [hid]
      · rw [if_neg hid] at hl
        exact absurd ⟨l, hl, ho⟩ (hnone id')
    · intro hid
      cases hid
      exact ⟨c.spec.labels, by rw [lookup_add, if_pos rfl], rfl⟩

/-! ## Runs -/

/-- An owner loses no id by a plain request that is not a delete of its own. -/
theorem held_subset_serve (hd : VlanTable d) {r : Request} (hr : Plain refuses d r)
    (hlive : ∀ c, r = .deleteClaim c → c.owner ≠ b) :
    held b d ⊆ held b (serve refuses d r) := by
  cases r with
  | deleteClaim c =>
    have hframe := deleteClaim_frame refuses d c
    exact (Owned.Same.keys_eq (hframe.same (hlive c rfl).symm)).subset
  | claim c =>
    by_cases hb : b = c.owner
    · subst hb
      have hout := claim_outcome refuses hd.isVlanDB c
      rw [serve]
      cases hrun : (claim refuses c).run DB.handler d with | mk a t =>
      rw [hrun] at hout
      cases hout with
      | failed | found | multiple => exact subset_rfl
      | @stored vctx s id _ _ _ _ _ =>
        rintro id' ⟨l, hl, ho⟩
        by_cases hid : id = id'
        · exact ⟨c.spec.labels, by rw [lookup_add, if_pos hid], rfl⟩
        · exact ⟨l, by rw [lookup_add, if_neg hid, hl], ho⟩
    · exact (Owned.Same.keys_eq ((claim_frame hd hr.2).same hb)).subset

theorem held_subset_run (hd : VlanTable d) {rs : List Request}
    (hg : Run.Guarded (serve refuses) (Plain refuses) d rs)
    (hlive : ∀ c, Request.deleteClaim c ∈ rs → c.owner ≠ b) :
    held b d ⊆ held b (Run.run (serve refuses) d rs) := by
  induction rs generalizing d with
  | nil => exact subset_rfl
  | cons r rs ih =>
    have hhead : ∀ c, r = .deleteClaim c → c.owner ≠ b := by
      rintro c rfl
      exact hlive c List.mem_cons_self
    exact (held_subset_serve hd hg.1 hhead).trans
      (ih (hd.serve r) hg.2 fun c hc => hlive c (List.mem_cons_of_mem _ hc))

section
variable {before between after : List Request}

theorem plain_run_claim
    (hg : Run.Guarded (serve refuses) (Plain refuses) new (before ++ .claim c :: after))
    {resp : VLANClaim} (h : answer refuses (tableAfter refuses before) c = .ok resp) :
    Single c ∧ Reports c resp (held c.owner (tableAfter refuses (before ++ [.claim c]))) := by
  have hsingle : Single c := (Run.guarded_append.mp hg).2.1.1
  have hheld := claim_reports_held (tableAfter_vlanTable refuses before) hsingle h
  rw [tableAfter_append]
  exact ⟨hsingle, hheld⟩

/-- What a claim holds is held as long as it is not deleted. -/
theorem plain_run_held (hg : Run.Guarded (serve refuses) (Plain refuses) new
      (before ++ (between ++ after)))
    (hlive : ∀ x, Request.deleteClaim x ∈ between → x.owner ≠ b) :
    held b (tableAfter refuses before) ⊆ held b (tableAfter refuses (before ++ between)) := by
  have hbetween := (Run.guarded_append.mp (Run.guarded_append.mp hg).2).1
  rw [tableAfter_append refuses before between]
  exact held_subset_run (tableAfter_vlanTable refuses before) hbetween hlive

end

/-- In every run of plain requests from `vlandb.New()`, each answered claim reports exactly the
ids that the table then holds under the labels of its owner, and two answered claims of
different owners, the first of which is not deleted before the second is made, report disjoint
ids. -/
theorem plain_run_reports_held (refuses : NewRequirement) (rs : List Request)
    (hg : Run.Guarded (serve refuses) (Plain refuses) new rs) :
    (∀ before c after resp, rs = before ++ .claim c :: after →
      answer refuses (tableAfter refuses before) c = .ok resp →
      Reports c resp (held c.owner (tableAfter refuses (before ++ [.claim c])))) ∧
    (∀ before c between c' after resp resp' ids ids',
      rs = before ++ .claim c :: (between ++ .claim c' :: after) →
      answer refuses (tableAfter refuses before) c = .ok resp →
      answer refuses (tableAfter refuses (before ++ .claim c :: between)) c' = .ok resp' →
      c.owner ≠ c'.owner → (∀ x, Request.deleteClaim x ∈ between → x.owner ≠ c.owner) →
      Reports c resp ids → Reports c' resp' ids' → Disjoint ids ids') := by
  constructor
  · rintro before c after resp rfl h
    exact (plain_run_claim hg h).2
  · rintro before c between c' after resp resp' ids ids' rfl h h' hne hlive hids hids'
    have hg₁ : Run.Guarded (serve refuses) (Plain refuses) new
        ((before ++ .claim c :: between) ++ .claim c' :: after) := by simpa using hg
    have hg₂ : Run.Guarded (serve refuses) (Plain refuses) new
        ((before ++ [.claim c]) ++ ((between ++ [.claim c']) ++ after)) := by simpa using hg
    obtain ⟨hc, hheld⟩ := plain_run_claim hg h
    obtain ⟨hc', hheld'⟩ := plain_run_claim hg₁ h'
    have hkept := plain_run_held (b := c.owner) hg₂ fun x hx => hlive x (by simpa using hx)
    have hsplit : (before ++ [.claim c]) ++ (between ++ [.claim c']) =
        (before ++ .claim c :: between) ++ [.claim c'] := by simp
    rw [hsplit] at hkept
    rw [hc.reports_unique hids hheld, hc'.reports_unique hids' hheld']
    exact (Owned.keys_disjoint hne).mono_left hkept

theorem plain_run_reports_held_static :
    Run.Guarded (serve fun _ _ => none) (Plain fun _ _ => none) new
      [.claim (sampleClaim "a" (some 100) none)] ∧
    Reports (sampleClaim "a" (some 100) none) ((sampleClaim "a" (some 100) none).setVLANID 100)
      (held (sampleClaim "a" (some 100) none).owner
        (tableAfter (fun _ _ => none) [.claim (sampleClaim "a" (some 100) none)])) := by
  have hg : Run.Guarded (serve fun _ _ => none) (Plain fun _ _ => none) new
      [.claim (sampleClaim "a" (some 100) none)] := by
    refine ⟨⟨⟨by decide, by decide⟩, ?_⟩, trivial⟩
    rintro ⟨id, l, s, hid, -, hl, -⟩
    cases hid
    have hnone : new.store[(100 : VlanId)]? = none := by decide
    rw [hnone] at hl
    cases hl
  exact ⟨hg, (plain_run_reports_held (fun _ _ => none) _ hg).1 [] _ [] _ rfl (by rfl)⟩

/-- A range claim is answered with its range, of which nothing is stored: a static claim of
another owner then gets an id inside it. -/
theorem range_claim_not_held :
    ∃ resp resp', answer (fun _ _ => none) new (sampleClaim "a" none (some "100:200")) = .ok resp ∧
      ¬Reports (sampleClaim "a" none (some "100:200")) resp
        (held (sampleClaim "a" none (some "100:200")).owner
          (tableAfter (fun _ _ => none) [.claim (sampleClaim "a" none (some "100:200"))])) ∧
      answer (fun _ _ => none)
          (tableAfter (fun _ _ => none) [.claim (sampleClaim "a" none (some "100:200"))])
          (sampleClaim "b" (some 150) none) = .ok resp' ∧
      inRange "100:200" 150 ∧ resp.status.vlanRange = some "100:200" ∧
      resp'.status.vlanID = some 150 := by
  refine ⟨(sampleClaim "a" none (some "100:200")).setVLANRange "100:200",
    (sampleClaim "b" (some 150) none).setVLANID 150, by decide +kernel, ?_, by decide +kernel,
    by decide, rfl, rfl⟩
  intro hreports
  have hset : held _ _ = {id | ∃ r, _ ∧ inRange r id} := hreports
  have hmem : (100 : VlanId) ∈ held (sampleClaim "a" none (some "100:200")).owner
      (tableAfter (fun _ _ => none) [.claim (sampleClaim "a" none (some "100:200"))]) :=
    hset ▸ ⟨"100:200", rfl, by decide⟩
  obtain ⟨l, hl, -⟩ := hmem
  have hnone : lookup (tableAfter (fun _ _ => none)
      [.claim (sampleClaim "a" none (some "100:200"))]) 100 = none := by decide +kernel
  rw [hnone] at hl
  cases hl

/-! ## Static claims -/

/-- An answered claim of an id reports that id, and the table has it under the labels of the owner. -/
def ReturnsAsked (refuses : NewRequirement) (d : DB 16) (c : VLANClaim) : Prop :=
  ∀ id resp, c.spec.vlanID = some id → answer refuses d c = .ok resp →
    resp.status.vlanID = some id ∧
      ∃ l, lookup (serve refuses d (.claim c)) id = some l ∧ ownerKey l = c.owner

/-- A claim of an id whose owner has one entry, of another id, that the status of the claim does not
contradict. -/
def HoldsOther (refuses : NewRequirement) (d : DB 16) (c : VLANClaim) : Prop :=
  ∃ id s e, c.spec.vlanID = some id ∧ c.spec.getOwnerSelector refuses = .ok s ∧
    d.getByLabel s = [e] ∧ e.id ≠ id ∧ (c.status.vlanID = none ∨ c.status.vlanID = some e.id)

theorem applyHandlerStaticVlan_eq_ok {es : List (Entry 16)} {resp : VLANClaim} :
    applyHandlerStaticVlan es c = .ok resp ↔ ∃ e, es = [e] ∧
      (c.status.vlanID = none ∨ c.status.vlanID = some e.id) ∧ resp = c.setVLANID e.id := by
  constructor
  · intro h
    obtain ⟨e, he, h⟩ := bind_eq_ok.mp h
    split at h
    next hstatus =>
      cases h
      exact ⟨e, singleEntry_eq_ok.mp he, hstatus, rfl⟩
    next => cases h
  · rintro ⟨e, rfl, hstatus, rfl⟩
    exact if_pos hstatus

/-- In every table that requests make out of `vlandb.New()`, a claim of an id gets it if it is
answered, exactly when its owner does not hold another id. -/
theorem returnsAsked_iff (refuses : NewRequirement) (rs : List Request) (c : VLANClaim) :
    ReturnsAsked refuses (tableAfter refuses rs) c ↔ ¬HoldsOther refuses (tableAfter refuses rs) c := by
  have hd := tableAfter_vlanTable refuses rs
  generalize tableAfter refuses rs = d at hd
  constructor
  · rintro h ⟨id, s, e, hspec, hs, hes, hne, hstatus⟩
    have hctx : c.getVLANClaimCtx = .ok ⟨.static, id, 0⟩ := by
      rw [VLANClaim.getVLANClaimCtx, hspec]
    have hanswer : answer refuses d c = .ok (c.setVLANID e.id) := by
      rw [answer, claim_run hctx hs, hes]
      exact applyHandlerStaticVlan_eq_ok.mpr ⟨e, rfl, hstatus, rfl⟩
    exact hne (Option.some.inj (h id _ hspec hanswer).1)
  · intro hother id resp hspec hanswer
    have hout := claim_outcome refuses hd.isVlanDB c
    rw [answer] at hanswer
    rw [serve]
    cases hrun : (claim refuses c).run DB.handler d with | mk a t =>
    rw [hrun] at hout hanswer
    have hstatic : ∀ {vctx}, c.getVLANClaimCtx = .ok vctx → vctx = ⟨.static, id, 0⟩ := by
      intro vctx hctx
      rw [VLANClaim.getVLANClaimCtx, hspec] at hctx
      cases hctx
      rfl
    cases hout with
    | failed => cases hanswer
    | multiple hctx _ _ hk =>
      cases hstatic hctx
      rcases hk with hk | hk <;> cases hk
    | @found vctx s r hctx hs _ hr =>
      cases hanswer
      cases hstatic hctx
      obtain ⟨e, hes, hstatus, rfl⟩ := applyHandlerStaticVlan_eq_ok.mp hr
      have hid : e.id = id := by
        by_contra hne
        exact hother ⟨id, s, e, hspec, hs, hes, hne, hstatus⟩
      have hmem : e ∈ d.getByLabel s := hes ▸ List.mem_cons_self
      obtain ⟨hl, hm⟩ := DB.mem_getByLabel.mp hmem
      exact ⟨congrArg some hid, e.labels, hid ▸ hl, ClaimLabels.ownerKey_of_matches hs hm⟩
    | @stored vctx s id' hctx hs _ _ hid =>
      cases hanswer
      cases hstatic hctx
      obtain ⟨hk, -⟩ | ⟨-, rfl, -⟩ := hid
      · cases hk
      · exact ⟨rfl, c.spec.labels, by rw [lookup_add, if_pos rfl], rfl⟩

/-- The owner of a dynamic claim that got 2 claims 100, is answered with 2 and does not get 100. -/
theorem static_claim_returns_other :
    answer (fun _ _ => none) (tableAfter (fun _ _ => none) [.claim (sampleClaim "a" none none)])
        (sampleClaim "a" (some 100) none) = .ok ((sampleClaim "a" (some 100) none).setVLANID 2) ∧
    ¬ReturnsAsked (fun _ _ => none)
      (tableAfter (fun _ _ => none) [.claim (sampleClaim "a" none none)])
      (sampleClaim "a" (some 100) none) := by
  have hanswer : answer (fun _ _ => none)
      (tableAfter (fun _ _ => none) [.claim (sampleClaim "a" none none)])
      (sampleClaim "a" (some 100) none) = .ok ((sampleClaim "a" (some 100) none).setVLANID 2) := by
    decide +kernel
  refine ⟨hanswer, fun h => ?_⟩
  cases (h 100 _ rfl hanswer).1

end K8sIpam.Vlan
