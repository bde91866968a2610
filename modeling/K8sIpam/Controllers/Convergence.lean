import K8sIpam.Controllers.NetworkInstance

/-! # Convergence of network instances

A network instance is edited and reconciled, while calls fail. When a reconcile reports it as
ready, are the routes that the backend holds for it those of its spec? -/

namespace K8sIpam.Controllers
open Std Atomic Prog Backend Net
open Ipam (NetworkInstance InstancePrefix NetworkInstanceSpec IPClaim Platform Document MapOrder
  IpamLists RibState Rib Route normalizeKRM)

/-! ## The index of an instance -/

section
variable {Text : Type} (P : Platform) (yaml : Yaml Document Text) (order : MapOrder)
  (m : ObjectMeta)

/-- The index holds routes of the instance for the texts only, and an index that has not been
initialized has no stored routes. -/
structure Sound (texts : List String) (w : World RibState Text) : Prop where
  listed : ∀ ctx, w.cache (instanceIndex m) = some ctx → Listed P m texts ctx.table.rib
  unused : w.cache.isInitialized (instanceIndex m) = false →
    ∀ cm, w.configMaps (cmName (Ipam.app P yaml order) (instanceIndex m)) = some cm → cm.data = none

/-- The index holds the route for the text. -/
def HoldsFor (w : World RibState Text) (t : String) : Prop :=
  ∃ ctx r, w.cache (instanceIndex m) = some ctx ∧ ctx.table.rib.Has r ∧ StandsFor P m t r

instance (w : World RibState Text) (t : String) : Decidable (HoldsFor P m w t) :=
  decidable_of_iff ((w.cache (instanceIndex m)).any fun ctx =>
      decide (∃ r, ctx.table.rib.Has r ∧ StandsFor P m t r)) <| by
    rw [Option.any_eq_true]
    constructor
    · rintro ⟨ctx, hctx, h⟩
      obtain ⟨r, hr⟩ := of_decide_eq_true h
      exact ⟨ctx, r, hctx, hr⟩
    · rintro ⟨ctx, r, hctx, hr⟩
      exact ⟨ctx, hctx, decide_eq_true ⟨r, hr⟩⟩

/-- The index holds a route of the instance with the prefix. -/
def OwnedAt (w : World RibState Text) (p : Prefix) : Prop :=
  ∃ ctx l, w.cache (instanceIndex m) = some ctx ∧ ctx.table.rib[p]? = some l ∧ InstanceOwned m l

/-- The routes of the instance are those of the texts. -/
def Exact (texts : List String) (w : World RibState Text) : Prop :=
  ∀ p, OwnedAt m w p ↔ ∃ t ∈ texts, P.txt.parsePrefix t = .ok p

end

section
variable {Text : Type} {P : Platform} {yaml : Yaml Document Text} {order : MapOrder}
  {lists : IpamLists} {m : ObjectMeta} {texts texts' : List String} {w w' : World RibState Text}
  {errs : ApiErrors} {cr : NetworkInstance} {p : InstancePrefix}

theorem Sound.mono (h : Sound P yaml order m texts w) (hsub : ∀ t ∈ texts, t ∈ texts') :
    Sound P yaml order m texts' w :=
  ⟨fun ctx hctx => (h.listed ctx hctx).mono hsub, h.unused⟩

theorem Sound.exact (h : Sound P yaml order m texts w) (hheld : ∀ t ∈ texts, HoldsFor P m w t) :
    Exact P m texts w := by
  intro p
  constructor
  · rintro ⟨ctx, l, hctx, hl, hown⟩
    obtain ⟨t, ht, hparse, -⟩ := h.listed ctx hctx ⟨p, l⟩ hl hown
    exact ⟨t, ht, hparse⟩
  · rintro ⟨t, ht, hparse⟩
    obtain ⟨ctx, r, hctx, hr, hparse', hown⟩ := hheld t ht
    cases hparse'.symm.trans hparse
    exact ⟨ctx, r.labels, hctx, hr, t, hown⟩

/-- A route for a prefix that is not among the texts. -/
theorem not_exact_of_holdsFor {t : String} (h : HoldsFor P m w t)
    (ht : ∀ t' ∈ texts, P.txt.parsePrefix t' ≠ P.txt.parsePrefix t) : ¬Exact P m texts w := by
  intro hexact
  obtain ⟨ctx, r, hctx, hr, hparse, hown⟩ := h
  obtain ⟨t', ht', hparse'⟩ := (hexact r.pfx).mp ⟨ctx, r.labels, hctx, hr, t, hown⟩
  exact ht t' ht' (hparse'.trans hparse.symm)

/-- A change of the table that keeps the routes listed. -/
theorem Sound.change {α : Type} {f : RibState → Except Failure α × RibState}
    (h : Sound P yaml order m texts w)
    (hf : ∀ s, Listed P m texts s.rib → Listed P m texts (f s).2.rib) :
    Sound P yaml order m texts
      (change (Ipam.app P yaml order) errs (instanceIndex m) f w).2 := by
  constructor
  · intro ctx hctx
    rcases change_cases (Ipam.app P yaml order) errs (instanceIndex m) f w with
      ⟨e, he⟩ | ⟨s, hget, hcache, -⟩
    · rw [he] at hctx
      exact h.listed ctx hctx
    · have hs := Cache.get_false_eq_ok.mp hget
      rw [hcache, Cache.put_eq hs] at hctx
      cases hctx
      exact hf s (h.listed _ hs)
  · intro hinit cm hcm
    rw [change_isInitialized] at hinit
    refine h.unused hinit cm ?_
    by_contra hne
    have hchange := change_configMaps f fun heq => hne (heq.symm.trans hcm)
    cases hinit.symm.trans hchange.2

/-- A change that is acknowledged, and what it did to the table. -/
theorem change_sound {α : Type} {f : RibState → Except Failure α × RibState} {a : α}
    (texts : List String)
    (hrun : Backend.change (Ipam.app P yaml order) errs (instanceIndex m) f w = (.ok a, w')) :
    ∃ s s', f s = (.ok a, s') ∧ w.cache (instanceIndex m) = some ⟨true, s⟩ ∧
      w'.cache (instanceIndex m) = some ⟨true, s'⟩ ∧
      (Listed P m texts s'.rib → Sound P yaml order m texts w') := by
  obtain ⟨s, s', hs, hf, hs'⟩ := change_acknowledged _ _ hrun
  refine ⟨s, s', hf, hs, hs', fun hlisted => ⟨fun ctx hctx => ?_, fun hinit => ?_⟩⟩
  · cases hs'.symm.trans hctx
    exact hlisted
  · rw [Cache.isInitialized_eq hs'] at hinit
    cases hinit

/-! ## The calls of a reconcile -/

theorem Sound.claim (h : Sound P yaml order cr.metadata texts w) (hp : p.pfx ∈ texts) :
    Sound P yaml order cr.metadata texts
      ((instanceClient P yaml order lists).claim ⟨cr, p⟩ errs w).2 := by
  dsimp only [instanceClient]
  cases hn : normalizeKRM P (.networkInstance cr p) with
  | error e => exact h
  | ok c =>
    have hc := ClaimOf.of_normalize hn
    dsimp only [Backend.claim, Ipam.app]
    rw [hc.index]
    refine h.change fun s hs => ?_
    rcases hrun : (Ipam.claim P c).run (Ipam.handler P.nipam) s with ⟨e | c', s'⟩
    · rw [Ipam.claim_failsClean e s' hrun]
      exact hs
    · exact hc.claim_listed hp hrun hs

/-- A request that is acknowledged was made for a claim of the prefix, and changed its table. -/
theorem request_ok {α : Type} {f : IPClaim → RibState → Except Failure α × RibState} {a : α}
    (texts : List String)
    (hrun : (match normalizeKRM P (.networkInstance cr p) with
      | .error e => (.error e, w)
      | .ok c => Backend.change (Ipam.app P yaml order) errs ((Ipam.app P yaml order).cacheID c) (f c)
          w) = (.ok a, w')) :
    ∃ c s s', ClaimOf P cr p c ∧ f c s = (.ok a, s') ∧
      w.cache (instanceIndex cr.metadata) = some ⟨true, s⟩ ∧
      w'.cache (instanceIndex cr.metadata) = some ⟨true, s'⟩ ∧
      (Listed P cr.metadata texts s'.rib → Sound P yaml order cr.metadata texts w') := by
  cases hn : normalizeKRM P (.networkInstance cr p) with
  | error e =>
    rw [hn] at hrun
    cases hrun
  | ok c =>
    rw [hn] at hrun
    have hc := ClaimOf.of_normalize hn
    dsimp only [Ipam.app] at hrun
    rw [hc.index] at hrun
    obtain ⟨s, s', hf, hs, hs', hsound⟩ := change_sound texts hrun
    exact ⟨c, s, s', hc, hf, hs, hs', hsound⟩

/-- A claim that is answered with the prefix is held, with those that it does not cover. -/
theorem claim_holdsFor {resp : IPClaim}
    (hrun : (instanceClient P yaml order lists).claim ⟨cr, p⟩ errs w = (.ok resp, w'))
    (hresp : resp.status.pfx = some p.pfx) :
    HoldsFor P cr.metadata w' p.pfx ∧ ∀ t, ¬Covers P t p.pfx → HoldsFor P cr.metadata w t →
      HoldsFor P cr.metadata w' t := by
  obtain ⟨c, s, s', hc, hf, hs, hs', -⟩ := request_ok [] hrun
  constructor
  · obtain ⟨r, hr, hstands⟩ := hc.claim_stands hf hresp
    exact ⟨_, r, hs', hr, hstands⟩
  · rintro t hcover ⟨ctx, r, hctx, hr, hstands⟩
    cases hs.symm.trans hctx
    obtain ⟨r', hr', hstands'⟩ := hc.claim_keeps hf hresp hcover ⟨r, hr, hstands⟩
    exact ⟨_, r', hs', hr', hstands'⟩

theorem Sound.deleteClaim (h : Sound P yaml order cr.metadata texts w) :
    Sound P yaml order cr.metadata texts
      ((instanceClient P yaml order lists).deleteClaim ⟨cr, p⟩ errs w).2 := by
  dsimp only [instanceClient]
  cases hn : normalizeKRM P (.networkInstance cr p) with
  | error e => exact h
  | ok c =>
    dsimp only [Backend.deleteClaim, Ipam.app]
    rw [(ClaimOf.of_normalize hn).index]
    exact h.change fun s hs => delete_listed hs

theorem Sound.deleteClaim_ok (h : Sound P yaml order cr.metadata (p.pfx :: texts) w)
    (hrun : (instanceClient P yaml order lists).deleteClaim ⟨cr, p⟩ errs w = (.ok (), w')) :
    Sound P yaml order cr.metadata texts w' := by
  obtain ⟨c, s, s', hc, hf, hs, -, hsound⟩ := request_ok texts hrun
  exact hsound (hc.delete_drops hf (h.listed _ hs))

/-- A restore of an index without stored routes leaves the table as it was. -/
theorem restore_unused {s : RibState} {r : Except Failure Unit × World RibState Text}
    (hs : w.cache (instanceIndex m) = some ⟨false, s⟩)
    (hunused : ∀ cm, w.configMaps (cmName (Ipam.app P yaml order) (instanceIndex m)) = some cm →
      cm.data = none)
    (hr : restore (Ipam.app P yaml order) errs (instanceIndex m) lists w = r) :
    r.2.cache (instanceIndex m) = some ⟨false, s⟩ ∧
      ∀ cm, r.2.configMaps (cmName (Ipam.app P yaml order) (instanceIndex m)) = some cm →
        cm.data = none := by
  have hdata : ((Ipam.app P yaml order).restoreData (instanceIndex m) lists errs none s).2 = s := by
    change (⟨((Ipam.restoreData P yaml order _ lists errs none).run s.rib).2, _⟩ : RibState) = s
    rw [Ipam.restoreData_noData]
  have hfrom : (restoreFrom (Ipam.app P yaml order) errs (instanceIndex m) lists ⟨none⟩ w).2.cache
      (instanceIndex m) = some ⟨false, s⟩ := by
    rw [restoreFrom_eq hs]
    dsimp only
    rw [Cache.put_eq hs, hdata]
  have hmaps : (restoreFrom (Ipam.app P yaml order) errs (instanceIndex m) lists ⟨none⟩
      w).2.configMaps = w.configMaps := by
    rw [restoreFrom_eq hs]
  unfold restore World.getConfigMap at hr
  subst hr
  cases hget : errs.get with
  | some msg => exact ⟨hfrom, hmaps ▸ hunused⟩
  | none =>
    cases hcm : w.configMaps (cmName (Ipam.app P yaml order) (instanceIndex m)) with
    | none =>
      refine ⟨by rw [← hs]; exact congrFun (createConfigMap_cache ..) _, fun cm h => ?_⟩
      dsimp only at h
      unfold World.createConfigMap at h
      rw [hcm] at h
      cases hcreate : errs.create with
      | some msg =>
        rw [hcreate] at h
        cases hcm.symm.trans h
      | none =>
        rw [hcreate] at h
        dsimp only [World.setConfigMap] at h
        rw [Function.update_self] at h
        cases h
        rfl
    | some cm =>
      obtain ⟨data⟩ := cm
      cases hunused _ hcm
      exact ⟨hfrom, hmaps ▸ hunused⟩

/-- An index that is created has the table it had, or an empty one. -/
theorem Sound.createIndex (h : Sound P yaml order m texts w) :
    Sound P yaml order m texts
      (Backend.createIndex (Ipam.app P yaml order) errs (instanceIndex m) lists w).2 := by
  cases hinit : w.cache.isInitialized (instanceIndex m) with
  | true =>
    have hsame : (Backend.createIndex (Ipam.app P yaml order) errs (instanceIndex m) lists w).2 = w := by
      have hcreate : w.cache.create (instanceIndex m) (Ipam.app P yaml order).newTable = w.cache := by
        unfold Cache.create
        cases hc : w.cache (instanceIndex m) with
        | some ctx => rfl
        | none =>
          rw [Cache.isInitialized, hc] at hinit
          cases hinit
      unfold Backend.createIndex
      rw [hcreate, if_pos hinit]
    rw [hsame]
    exact h
  | false =>
    -- the table that is restored into
    obtain ⟨s, hs⟩ := Cache.create_eq hinit (Ipam.app P yaml order).newTable
    have hlisted : Listed P m texts s.rib := by
      unfold Cache.create at hs
      cases hc : w.cache (instanceIndex m) with
      | some ctx =>
        rw [hc] at hs
        cases hc.symm.trans hs
        exact h.listed _ hc
      | none =>
        rw [hc] at hs
        dsimp only at hs
        rw [Function.update_self] at hs
        cases hs
        intro r hr
        cases hr
    generalize hr : restore (Ipam.app P yaml order) errs (instanceIndex m) lists
      { w with cache := w.cache.create (instanceIndex m) (Ipam.app P yaml order).newTable } = r
    have hafter := restore_unused (w := ⟨_, w.configMaps⟩) hs (h.unused hinit) hr
    have hcreated : Sound P yaml order m texts r.2 := by
      refine ⟨fun ctx hctx => ?_, fun _ => hafter.2⟩
      cases hafter.1.symm.trans hctx
      exact hlisted
    rcases createIndex_eq hinit hr hafter.1 with ⟨e, -, he⟩ | ⟨-, -, hctx⟩
    · rw [he]
      exact hcreated
    · refine ⟨fun ctx hctx' => ?_, fun hinit' => ?_⟩
      · cases hctx.symm.trans hctx'
        exact hlisted
      · rw [Cache.isInitialized_eq hctx] at hinit'
        cases hinit'

end

/-! ## One reconcile -/

abbrev InstanceCall := (c : InstanceOp) × c.Answer IPClaim

/-- The call is not a delete whose error is passed over. -/
def strictCall : InstanceCall → Bool
  | ⟨.deleteClaim _, .error msg⟩ => !tolerated msg
  | _ => true

/-- The call reports the instance as ready. -/
def readyCall : InstanceCall → Bool
  | ⟨.updateStatus o, _⟩ => o.isReady
  | _ => false

def specTexts (cr : NetworkInstance) : List String := cr.spec.prefixes.map InstancePrefix.pfx

/-- The prefixes that the status records and those that the spec asks for. -/
def recordedTexts (cr : NetworkInstance) : List String :=
  cr.status.prefixes.map InstancePrefix.pfx ++ specTexts cr

section
variable {Text : Type} (P : Platform) (yaml : Yaml Document Text) (order : MapOrder)
  (lists : IpamLists) (m : ObjectMeta)

/-- What the index holds for an instance that is not deleted is recorded or asked for. -/
structure Recorded (s : Cluster NetworkInstance RibState Text) : Prop where
  metadata : ∀ o, s.object = some o → o.cr.metadata = m
  sound : ∀ o, s.object = some o → o.deleted = false →
    Sound P yaml order m (recordedTexts o.cr) s.world

/-- What a part of a reconcile of `o` leaves when no error of a delete is passed over. -/
def Converges (o : Object NetworkInstance) (t : Turn) (q : InstanceProg Result)
    (s : Cluster NetworkInstance RibState Text × List Fate) : Prop :=
  let h := (instanceController P yaml order lists).handler t
  (q.trace h s).all strictCall = true →
    Recorded P yaml order m (q.run h s).2.1 ∧
      ((q.trace h s).any readyCall = true → Exact P m (specTexts o.cr) (q.run h s).2.1.world)

end

section
variable {Text : Type} {P : Platform} {yaml : Yaml Document Text} {order : MapOrder}
  {lists : IpamLists} {m : ObjectMeta} {o o' new : Object NetworkInstance} {t : Turn} {res : Result}
  {s : Cluster NetworkInstance RibState Text × List Fate}

theorem Recorded.of_none {s : Cluster NetworkInstance RibState Text} (h : s.object = none) :
    Recorded P yaml order m s where
  metadata o ho := by cases h.symm.trans ho
  sound o ho := by cases h.symm.trans ho

theorem Converges.op {c : InstanceOp} {k : c.Answer IPClaim → InstanceProg Result}
    (hready : ∀ x, readyCall ⟨c, x⟩ = false)
    (hk : ∀ x s', (instanceController P yaml order lists).handler t c s = (x, s') →
      strictCall ⟨c, x⟩ = true → Converges P yaml order lists m o t (k x) s') :
    Converges P yaml order lists m o t (.op c k) s := by
  intro hstrict
  rw [trace_op, List.all_cons, Bool.and_eq_true] at hstrict
  obtain ⟨hrec, hexact⟩ := hk _ _ rfl hstrict.1 hstrict.2
  refine ⟨hrec, fun hany => hexact ?_⟩
  rw [trace_op, List.any_cons, hready, Bool.false_or] at hany
  exact hany

/-- The resource is in the API as the reconcile has read it, but for the finalizer. -/
def Reads (o : Object NetworkInstance) (s : Cluster NetworkInstance RibState Text × List Fate) :
    Prop :=
  ∃ b, s.1.object = some { o with finalizer := b }

theorem Converges.finish (ho : Reads o s) (hm : o.cr.metadata = m)
    (hsound : o.deleted = false → Sound P yaml order m (recordedTexts o.cr) s.1.world)
    (hnew : o.deleted = false →
      Sound P yaml order m (recordedTexts { o.cr with status := new.cr.status }) s.1.world)
    (hready : new.isReady = true → Exact P m (specTexts o.cr) s.1.world) :
    Converges P yaml order lists m o t (finish new res) s := by
  intro _
  obtain ⟨b, ho⟩ := ho
  rw [Controllers.finish, CtrlProg.updateStatus_bind, run_op, trace_op]
  dsimp only [Controller.handler]
  cases t.updateStatus with
  | some msg =>
    refine ⟨⟨fun o' ho' => ?_, fun o' ho' => ?_⟩, fun hany => hready ?_⟩
    · cases ho.symm.trans ho'
      exact hm
    · cases ho.symm.trans ho'
      exact hsound
    · simpa [trace, readyCall] using hany
  | none =>
    dsimp only
    rw [ho, Option.map_some]
    refine ⟨⟨fun o' ho' => ?_, fun o' ho' => ?_⟩, fun hany => hready ?_⟩
    · cases ho'
      exact hm
    · cases ho'
      exact hnew
    · simpa [trace, readyCall] using hany

/-- A reconcile that ends early leaves the status. -/
theorem Converges.giveUp {sync ready : Condition} (ho : Reads o s) (hm : o.cr.metadata = m)
    (hsound : o.deleted = false → Sound P yaml order m (recordedTexts o.cr) s.1.world)
    (htype : ready.type = .ready) (hno : ready.status = false) :
    Converges P yaml order lists m o t (Controllers.finish (o.setConditions [sync, ready]) res) s := by
  refine .finish ho hm hsound hsound fun hready => ?_
  rw [o.isReady_setConditions sync ready htype, hno] at hready
  cases hready

theorem Reads.call {α : Type} {f : ApiErrors → World RibState Text → Except Failure α × World RibState Text}
    (h : Reads o s) : Reads o (Controller.call f s).2 := h

/-! ## The two loops -/

theorem reconcilePrefixes_converges
    (hcover : (specTexts o.cr).Pairwise fun a b => ¬Covers P a b) {done ps : List InstancePrefix}
    (hspec : o.cr.spec.prefixes = done ++ ps) (ho : Reads o s)
    (hsound : Sound P yaml order o.cr.metadata (specTexts o.cr) s.1.world)
    (hheld : ∀ p ∈ done, HoldsFor P o.cr.metadata s.1.world p.pfx) :
    Converges P yaml order lists o.cr.metadata o t (reconcilePrefixes o ps) s := by
  have hrecorded : ∀ {w : World RibState Text}, Sound P yaml order o.cr.metadata (specTexts o.cr) w →
      Sound P yaml order o.cr.metadata (recordedTexts o.cr) w :=
    fun h => h.mono fun t ht => List.mem_append_right _ ht
  induction ps generalizing done s with
  | nil =>
    rw [List.append_nil] at hspec
    refine .finish ho rfl (fun _ => hrecorded hsound) (fun _ => ?_) fun _ => ?_
    · exact hsound.mono fun t ht => List.mem_append_right _ ht
    · refine hsound.exact fun t ht => ?_
      obtain ⟨p, hp, rfl⟩ := List.mem_map.mp ht
      exact hheld p (hspec ▸ hp)
  | cons p ps ih =>
    have hp : p.pfx ∈ specTexts o.cr :=
      List.mem_map_of_mem (hspec ▸ List.mem_append_right _ List.mem_cons_self)
    rw [reconcilePrefixes, CtrlProg.claim_bind]
    refine .op (fun _ => rfl) fun x s' hcall _ => ?_
    have hcall' : Controller.call ((instanceClient P yaml order lists).claim ⟨o.cr, p⟩) s = (x, s') :=
      hcall
    have hsound' : Sound P yaml order o.cr.metadata (specTexts o.cr) s'.1.world := by
      have := Controller.call_world (f := (instanceClient P yaml order lists).claim ⟨o.cr, p⟩)
        hsound fun errs => hsound.claim hp
      rwa [hcall'] at this
    have ho' : Reads o s' := by
      have := ho.call (f := (instanceClient P yaml order lists).claim ⟨o.cr, p⟩)
      rwa [hcall'] at this
    cases x with
    | error msg => exact .giveUp ho' rfl (fun _ => hrecorded hsound') rfl rfl
    | ok resp =>
      dsimp only
      split
      · exact .giveUp ho' rfl (fun _ => hrecorded hsound') rfl rfl
      next hresp =>
        obtain ⟨errs, hserved⟩ := Controller.call_ok (congrArg Prod.fst hcall')
        rw [hcall'] at hserved
        obtain ⟨hnow, hkeep⟩ := claim_holdsFor hserved (not_not.mp hresp)
        have hspec' : o.cr.spec.prefixes = (done ++ [p]) ++ ps := by
          rw [hspec, List.append_assoc]
          rfl
        refine ih hspec' ho' hsound' ?_
        intro p' hp'
        rcases List.mem_append.mp hp' with hp' | hp'
        · refine hkeep p'.pfx ?_ (hheld p' hp')
          rw [specTexts, hspec, List.map_append] at hcover
          exact (List.pairwise_append.mp hcover).2.2 _ (List.mem_map_of_mem hp') _
            (List.mem_map_of_mem List.mem_cons_self)
        · obtain rfl := List.mem_singleton.mp hp'
          exact hnow

theorem reconcileRemoved_converges
    (hcover : (specTexts o.cr).Pairwise fun a b => ¬Covers P a b) {ps : List InstancePrefix}
    (hps : ∀ p ∈ ps, p ∈ o.cr.status.prefixes) (ho : Reads o s)
    (hsound : Sound P yaml order o.cr.metadata (ps.map InstancePrefix.pfx ++ specTexts o.cr) s.1.world) :
    Converges P yaml order lists o.cr.metadata o t (reconcileRemoved o ps) s := by
  induction ps generalizing s with
  | nil => exact reconcilePrefixes_converges hcover (List.nil_append _).symm ho hsound fun p hp => nomatch hp
  | cons p ps ih =>
    have hps' : ∀ p ∈ ps, p ∈ o.cr.status.prefixes := fun p hp => hps p (List.mem_cons_of_mem _ hp)
    have hrecorded : ∀ {w : World RibState Text}, Sound P yaml order o.cr.metadata
        ((p :: ps).map InstancePrefix.pfx ++ specTexts o.cr) w →
        Sound P yaml order o.cr.metadata (recordedTexts o.cr) w := by
      refine fun h => h.mono fun t ht => ?_
      rcases List.mem_append.mp ht with ht | ht
      · obtain ⟨p', hp', rfl⟩ := List.mem_map.mp ht
        exact List.mem_append_left _ (List.mem_map_of_mem (hps p' hp'))
      · exact List.mem_append_right _ ht
    rw [reconcileRemoved]
    split
    next hkept =>
      refine ih hps' ho (hsound.mono fun t ht => ?_)
      rcases List.mem_cons.mp ht with rfl | ht
      · exact List.mem_append_right _ hkept
      · exact ht
    · rw [CtrlProg.deleteClaim_bind]
      refine .op (fun _ => rfl) fun x s' hcall hstrict => ?_
      have hcall' : Controller.call ((instanceClient P yaml order lists).deleteClaim ⟨o.cr, p⟩) s =
        (x, s') := hcall
      have ho' : Reads o s' := by
        have := ho.call (f := (instanceClient P yaml order lists).deleteClaim ⟨o.cr, p⟩)
        rwa [hcall'] at this
      cases x with
      | error msg =>
        dsimp only
        split
        next htol =>
          simp [strictCall, htol] at hstrict
        · refine .giveUp ho' rfl (fun _ => ?_) rfl rfl
          have := Controller.call_world (f := (instanceClient P yaml order lists).deleteClaim ⟨o.cr, p⟩)
            (hrecorded hsound) fun errs => (hrecorded hsound).deleteClaim
          rwa [hcall'] at this
      | ok u =>
        obtain ⟨errs, hserved⟩ := Controller.call_ok (congrArg Prod.fst hcall')
        rw [hcall'] at hserved
        exact ih hps' ho' (hsound.deleteClaim_ok hserved)

theorem removeFinalizer_converges (ho : Reads o s) (hdel : o.deleted = true) :
    Converges P yaml order lists o.cr.metadata o t (removeFinalizer o) s := by
  have hsound : o.deleted = false →
      Sound P yaml order o.cr.metadata (recordedTexts o.cr) s.1.world := fun h => by
    cases hdel.symm.trans h
  rw [removeFinalizer, CtrlProg.removeFinalizer_bind]
  refine .op (fun _ => rfl) fun x s' hcall _ => ?_
  dsimp only [Controller.handler] at hcall
  cases ht : t.removeFinalizer with
  | some msg =>
    rw [ht] at hcall
    cases hcall
    exact .giveUp ho rfl hsound rfl rfl
  | none =>
    rw [ht] at hcall
    cases hcall
    exact fun _ => ⟨.of_none rfl, fun hany => nomatch hany⟩

theorem reconcileInstance_converges (ho : Reads o s)
    (hcover : (specTexts o.cr).Pairwise fun a b => ¬Covers P a b)
    (hsound : o.deleted = false →
      Sound P yaml order o.cr.metadata (recordedTexts o.cr) s.1.world) :
    Converges P yaml order lists o.cr.metadata o t (reconcileInstance o) s := by
  unfold reconcileInstance
  split
  next hdel =>
    have hnone : ∀ w : World RibState Text, o.deleted = false →
        Sound P yaml order o.cr.metadata (recordedTexts o.cr) w := fun _ h => by
      cases hdel.symm.trans h
    rw [CtrlProg.index_bind]
    refine .op (fun _ => rfl) fun x s' hcall _ => ?_
    have ho' : Reads o s' := by
      have := ho.call (f := (instanceClient P yaml order lists).index (.delete o.cr))
      rwa [show Controller.call ((instanceClient P yaml order lists).index (.delete o.cr)) s = (x, s')
        from hcall] at this
    cases x with
    | error msg => exact .giveUp ho' rfl (hnone _) rfl rfl
    | ok u => exact removeFinalizer_converges ho' hdel
  next hlive =>
    have hsound := hsound (Bool.eq_false_iff.mpr hlive)
    rw [CtrlProg.addFinalizer_bind]
    refine .op (fun _ => rfl) fun x s' hadd _ => ?_
    have hadded : Reads o s' ∧ s'.1.world = s.1.world := by
      obtain ⟨b, hb⟩ := ho
      dsimp only [Controller.handler] at hadd
      rw [hb] at hadd
      dsimp only at hadd
      split at hadd
      · cases hadd
        exact ⟨⟨b, hb⟩, rfl⟩
      · cases ht : t.addFinalizer with
        | some msg =>
          rw [ht] at hadd
          cases hadd
          exact ⟨⟨b, hb⟩, rfl⟩
        | none =>
          rw [ht] at hadd
          cases hadd
          exact ⟨⟨true, rfl⟩, rfl⟩
    obtain ⟨ho', hworld⟩ := hadded
    rw [← hworld] at hsound
    cases x with
    | error msg => exact .giveUp ho' rfl (fun _ => hsound) rfl rfl
    | ok u =>
      dsimp only
      rw [CtrlProg.index_bind]
      refine .op (fun _ => rfl) fun x s'' hcall _ => ?_
      have hcall' : Controller.call ((instanceClient P yaml order lists).index (.create o.cr)) s' =
        (x, s'') := hcall
      have ho'' : Reads o s'' := by
        have := ho'.call (f := (instanceClient P yaml order lists).index (.create o.cr))
        rwa [hcall'] at this
      have hsound'' : Sound P yaml order o.cr.metadata (recordedTexts o.cr) s''.1.world := by
        have := Controller.call_world (f := (instanceClient P yaml order lists).index (.create o.cr))
          hsound fun errs => hsound.createIndex
        rwa [hcall'] at this
      cases x with
      | error msg => exact .giveUp ho'' rfl (fun _ => hsound'') rfl rfl
      | ok u => exact reconcileRemoved_converges hcover (fun _ h => h) ho'' hsound''

end

/-! ## Runs -/

section
variable {Text : Type} (P : Platform) (yaml : Yaml Document Text) (order : MapOrder)
  (lists : IpamLists) (m : ObjectMeta)

/-- No prefix of the spec covers one before it, and a reconcile passes over no error of a delete. An
edit leaves no route behind that the index holds for a prefix which the status does not record. -/
def Careful (s : Cluster NetworkInstance RibState Text) :
    Controller.Event NetworkInstanceSpec → Prop
  | .reconcile t => ∀ o, s.object = some o →
      ((specTexts o.cr).Pairwise fun a b => ¬Covers P a b) ∧
      ((reconcileInstance o).trace ((instanceController P yaml order lists).handler t)
        (s, t.fates)).all strictCall = true
  | .edit spec => ∀ o ctx, s.object = some o → s.world.cache (instanceIndex m) = some ctx →
      Listed P m (recordedTexts { o.cr with spec }) ctx.table.rib
  | .delete => True

variable {P yaml order lists m} {s : Cluster NetworkInstance RibState Text}

theorem Recorded.reconcile {o : Object NetworkInstance} {t : Turn} (h : Recorded P yaml order m s)
    (ho : s.object = some o) (hok : Careful P yaml order lists m s (.reconcile t)) :
    Recorded P yaml order m ((instanceController P yaml order lists).step s (.reconcile t)) ∧
      (((reconcileInstance o).trace ((instanceController P yaml order lists).handler t)
        (s, t.fates)).any readyCall = true →
      Exact P m (specTexts o.cr)
        ((instanceController P yaml order lists).step s (.reconcile t)).world) := by
  obtain ⟨hcover, hstrict⟩ := hok o ho
  obtain rfl := h.metadata o ho
  have hstep : (instanceController P yaml order lists).step s (.reconcile t) =
      ((reconcileInstance o).run ((instanceController P yaml order lists).handler t)
        (s, t.fates)).2.1 := by
    dsimp only [Controller.step]
    rw [ho]
    rfl
  rw [hstep]
  exact reconcileInstance_converges ⟨o.finalizer, ho⟩ hcover (h.sound o ho) hstrict

theorem step_edit_object {o : Object NetworkInstance} (ho : s.object = some o)
    (spec : NetworkInstanceSpec) :
    ((instanceController P yaml order lists).step s (.edit spec)).object =
      some { o with cr := { o.cr with spec } } := by
  dsimp only [Controller.step]
  rw [ho]
  rfl

theorem Recorded.step {e : Controller.Event NetworkInstanceSpec} (h : Recorded P yaml order m s)
    (hok : Careful P yaml order lists m s e) :
    Recorded P yaml order m ((instanceController P yaml order lists).step s e) := by
  cases ho : s.object with
  | none =>
    have hsame : ((instanceController P yaml order lists).step s e).object = none := by
      cases e <;> simp [Controller.step, ho]
    exact .of_none hsame
  | some o =>
    cases e with
    | reconcile t => exact (h.reconcile ho hok).1
    | edit spec =>
      have hobj : ((instanceController P yaml order lists).step s (.edit spec)).object = _ :=
        step_edit_object ho spec
      refine ⟨fun o' ho' => ?_, fun o' ho' hlive => ?_⟩
      · cases hobj.symm.trans ho'
        exact h.metadata o ho
      · cases hobj.symm.trans ho'
        exact ⟨fun ctx hctx => hok o ctx ho hctx, (h.sound o ho hlive).unused⟩
    | delete =>
      constructor
      all_goals
        intro o' ho'
        dsimp only [Controller.step] at ho'
        rw [ho, Option.bind_some] at ho'
        split at ho'
        · cases ho'
          first
          | exact h.metadata o ho
          | exact fun hlive => nomatch hlive
        · cases ho'

/-- A network instance for which the backend holds nothing is edited and reconciled, while calls to
the API and the backend fail. In every run that meets the condition, a reconcile that reports the
instance as ready leaves the index with the prefixes of the spec as the routes of the instance. -/
theorem ready_instance_exact (P : Platform) (yaml : Yaml Document Text) (order : MapOrder)
    (lists : IpamLists) {s : Cluster NetworkInstance RibState Text} {o o' : Object NetworkInstance}
    {events : List (Controller.Event NetworkInstanceSpec)} {t : Turn} (ho : s.object = some o)
    (hnew : Sound P yaml order o.cr.metadata [] s.world)
    (hg : Run.Guarded (instanceController P yaml order lists).step
      (Careful P yaml order lists o.cr.metadata) s (events ++ [.reconcile t]))
    (ho' : (Run.run (instanceController P yaml order lists).step s events).object = some o')
    (hready : ((reconcileInstance o').trace ((instanceController P yaml order lists).handler t)
      (Run.run (instanceController P yaml order lists).step s events, t.fates)).any readyCall = true) :
    Exact P o.cr.metadata (specTexts o'.cr)
      (Run.run (instanceController P yaml order lists).step s (events ++ [.reconcile t])).world := by
  have hstart : Recorded P yaml order o.cr.metadata s := by
    refine ⟨fun o' ho' => ?_, fun o' ho' _ => hnew.mono fun t ht => nomatch ht⟩
    cases ho.symm.trans ho'
    rfl
  obtain ⟨hbefore, hlast, -⟩ := Run.guarded_append.mp hg
  have hrec := hbefore.inv (fun _ _ h hok => h.step hok) hstart
  rw [Run.run_append]
  exact (hrec.reconcile ho' hlast).2 hready

end

/-- The instance default/vpc with the given prefixes, and a backend without indexes. -/
def instanceCluster (prefixes : List String) :
    Cluster NetworkInstance RibState (Option Document) where
  object := some ⟨⟨⟨"vpc", "default", ∅⟩, ⟨prefixes.map (⟨·, ∅⟩)⟩, ⟨[]⟩⟩, [], false, false⟩
  world := ⟨fun _ => none, fun _ => none⟩

def sampleController : Controller NetworkInstance NetworkInstanceSpec IndexRequest PrefixRequest
    IPClaim RibState (Option Document) :=
  instanceController .reference (.plain Document) .byKey ⟨[], []⟩

theorem sound_instanceCluster (prefixes : List String) :
    Sound .reference (.plain Document) .byKey ⟨"vpc", "default", ∅⟩ [] (instanceCluster prefixes).world :=
  ⟨fun _ hctx => (nomatch hctx), fun _ _ hcm => (nomatch hcm)⟩

/-- A prefix is claimed, taken out of the spec and deleted. -/
theorem ready_instance_exact_removed :
    Exact .reference ⟨"vpc", "default", ∅⟩ []
      (Run.run sampleController.step (instanceCluster ["10.0.0.0/8"])
        ([.reconcile .plain, .edit ⟨[]⟩] ++ [.reconcile .plain])).world := by
  have hclaimed : (Run.run sampleController.step (instanceCluster ["10.0.0.0/8"])
      [.reconcile .plain]).object = some ⟨⟨⟨"vpc", "default", ∅⟩, ⟨[⟨"10.0.0.0/8", ∅⟩]⟩,
        ⟨[⟨"10.0.0.0/8", ∅⟩]⟩⟩, [.reconcileSuccess, .ready], false, true⟩ := by decide +kernel
  have hobj : (Run.run sampleController.step (instanceCluster ["10.0.0.0/8"])
      [.reconcile .plain, .edit ⟨[]⟩]).object = some ⟨⟨⟨"vpc", "default", ∅⟩, ⟨[]⟩,
        ⟨[⟨"10.0.0.0/8", ∅⟩]⟩⟩, [.reconcileSuccess, .ready], false, true⟩ :=
    step_edit_object hclaimed ⟨[]⟩
  refine ready_instance_exact .reference (.plain Document) .byKey ⟨[], []⟩
    (s := instanceCluster ["10.0.0.0/8"]) rfl (sound_instanceCluster _) ?_ hobj (by decide +kernel)
  refine ⟨?_, ?_, ?_, trivial⟩
  · rintro o ⟨⟩
    exact ⟨List.pairwise_singleton .., by decide +kernel⟩
  · intro o ctx ho hctx r hr _
    cases hclaimed.symm.trans ho
    -- the table has one route
    have hall : ((Run.run sampleController.step (instanceCluster ["10.0.0.0/8"])
        [.reconcile .plain]).world.cache ⟨"vpc", "default"⟩).all (fun ctx =>
          ctx.table.rib.toList.all fun kv =>
            StandsFor .reference ⟨"vpc", "default", ∅⟩ "10.0.0.0/8" ⟨kv.1, kv.2⟩) = true := by
      decide +kernel
    have hstands := List.all_eq_true.mp ((Option.all_eq_true ..).mp hall ctx hctx) (r.pfx, r.labels)
      (ExtTreeMap.mem_toList_iff_getElem?_eq_some.mpr hr)
    exact ⟨"10.0.0.0/8", List.mem_cons_self, of_decide_eq_true hstands⟩
  · intro o ho
    cases hobj.symm.trans ho
    exact ⟨.nil, by decide +kernel⟩

/-- The second claim does not reach the backend, so that nothing is recorded; then the prefixes are
taken out of the spec. The instance is ready, and the route of the first prefix stays. -/
def leakingCluster : Cluster NetworkInstance RibState (Option Document) :=
  Run.run sampleController.step (instanceCluster ["10.0.0.0/8", "11.0.0.0/8"])
    [.reconcile { Turn.plain with
        fates := [.served noErrors, .served noErrors, .unreached "unavailable"] },
      .edit ⟨[]⟩, .reconcile .plain]

theorem ready_instance_leaks :
    (leakingCluster.object.any fun o => o.isReady ∧ specTexts o.cr = []) = true ∧
      HoldsFor .reference ⟨"vpc", "default", ∅⟩ leakingCluster.world "10.0.0.0/8" ∧
      ¬Exact .reference ⟨"vpc", "default", ∅⟩ [] leakingCluster.world := by
  have hleak : (leakingCluster.object.any fun o => o.isReady ∧ specTexts o.cr = []) = true ∧
      HoldsFor .reference ⟨"vpc", "default", ∅⟩ leakingCluster.world "10.0.0.0/8" := by
    decide +kernel
  exact ⟨hleak.1, hleak.2, not_exact_of_holdsFor hleak.2 fun t ht => nomatch ht⟩

end K8sIpam.Controllers
