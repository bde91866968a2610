import K8sIpam.Ipam.Reference
import K8sIpam.Ipam.Writes

/-! # Concurrent IP claims

The routing table is locked per operation, not per claim. A claim reads the table, then takes a
decisive look at it: a dynamic claim searches a free prefix, a claim with a prefix looks whether
its route is there. Then it adds its routes, and it does not notice when another claim has added
one of them in the meantime. -/

namespace K8sIpam.Ipam
open Std Atomic Prog Net

variable {P : Platform} {c : IPClaim} {rib : Rib} {g : Prefix}

/-! ## The shape of a claim -/

def ListsByLabel : RibOp → Prop
  | .getByLabel _ => True
  | _ => False

/-- The rest of a claim that will report `g`: it adds routes of its owner, then reads. -/
inductive Settles (P : Platform) (c : IPClaim) (g : Prefix) : RibProg IPClaim → Prop where
  | report (p : RibProg IPClaim) (huses : p.Uses ListsByLabel)
      (hret : p.Returns fun c' => reportedRoute P.txt c' = some g) : Settles P c g p
  | add (r : Route) (k : Except String Unit → RibProg IPClaim) (hr : ownerKey r.labels = c.owner)
      (hk : ∀ x, Settles P c g (k x)) : Settles P c g (.op (.add r) k)

/-- The rest of a claim that is about to add `g` and will report it. -/
inductive Grants (P : Platform) (c : IPClaim) (g : Prefix) : RibProg IPClaim → Prop where
  | fail (e : Failure) : Grants P c g (.fail e)
  | add (l : Labels) (k : Except String Unit → RibProg IPClaim) (hl : ownerKey l = c.owner)
      (hk : ∀ x, Settles P c g (k x)) : Grants P c g (.op (.add ⟨g, l⟩) k)

/-- A claim before its look. It has no routes yet. -/
inductive Searches (P : Platform) (c : IPClaim) : RibProg IPClaim → Prop where
  | fail (e : Failure) : Searches P c (.fail e)
  | owned (s : Selector) (k : List Route → RibProg IPClaim)
      (hs : c.spec.getOwnerSelector P.refuses = .ok s) (hk : Searches P c (k [])) :
      Searches P c (.op (.getByLabel s) k)
  | list (s : Selector) (k : List Route → RibProg IPClaim) (hk : ∀ rs, Searches P c (k rs)) :
      Searches P c (.op (.getByLabel s) k)
  | clone (k : Rib → RibProg IPClaim) (hk : ∀ rib, Searches P c (k rib)) :
      Searches P c (.op .clone k)
  | get (g : Prefix) (k : Option Route → RibProg IPClaim) (hsome : ∀ r, Searches P c (k (some r)))
      (hnone : Grants P c g (k none)) : Searches P c (.op (.get g) k)
  | available (s : Prefix) (b : Nat) (k : Option Prefix → RibProg IPClaim)
      (hnone : Searches P c (k none))
      (hsome : ∀ p, p.bits = b → ∃ g, p.Contains g ∧ Grants P c g (k (some p))) :
      Searches P c (.op (.getAvailablePrefixByBitLen s b) k)

section
variable {pi : Prefix}

theorem reportGateway_settles (hg : mainPrefix c pi = g) :
    Settles P c g (reportGateway P c (P.txt.prefixString pi)) := by
  have hret : reportedRoute P.txt (c.setPrefix (P.txt.prefixString pi)) = some g :=
    hg ▸ reportedRoute_setPrefix
  have hgateway : (getGateway P (P.txt.prefixString pi)).Uses ListsByLabel :=
    getGateway_uses (fun _ => trivial) _
  unfold reportGateway
  split
  · exact .report _ (hgateway.bind fun _ => trivial) (.bind fun _ => hret)
  · exact .report _ trivial hret

theorem addRoutes_settles {rs : List Route} (hg : mainPrefix c pi = g)
    (h : ∀ r ∈ rs, ownerKey r.labels = c.owner) :
    Settles P c g (addRoutes rs >>= fun _ => reportGateway P c (P.txt.prefixString pi)) := by
  induction rs with
  | nil => exact reportGateway_settles hg
  | cons r rs ih =>
    have hrs := ih fun r' hr' => h r' (List.mem_cons_of_mem _ hr')
    rw [addRoutes_cons, op_bind]
    refine .add r _ (h r (by simp)) fun x => ?_
    cases x with
    | ok u => exact hrs
    | error msg =>
      dsimp only
      split
      · exact hrs
      · exact .report _ trivial trivial

theorem addRib_grants (hg : mainPrefix c pi = g) : Grants P c g (addRib P c pi) := by
  obtain ⟨l, rs, hrs⟩ := mutated_eq_cons P.txt c pi
  have hmem : ∀ r, r = ⟨mainPrefix c pi, l⟩ ∨ r ∈ rs → ownerKey r.labels = c.owner := by
    intro r hr
    exact ownerKey_of_mem_mutated (hrs ▸ List.mem_cons.mpr hr)
  have hsettles : Settles P c g (addRoutes rs >>= fun _ =>
      reportGateway P c (P.txt.prefixString pi)) :=
    addRoutes_settles hg fun r hr => hmem r (.inr hr)
  subst hg
  unfold addRib
  rw [hrs, addRoutes_cons, op_bind]
  refine .add l _ (hmem _ (.inl rfl)) fun x => ?_
  cases x with
  | ok u => exact hsettles
  | error msg =>
    dsimp only
    split
    · exact hsettles
    · exact .report _ trivial trivial

theorem claimFresh_searches (routes : List Route) (route : Route) :
    Searches P c (claimFresh P c routes route) := by
  unfold claimFresh
  dsimp only
  split
  · exact .fail _
  next s hs =>
    rw [RibProg.getAvailablePrefixByBitLen_bind]
    refine .available _ _ _ (.fail _) fun p hb => ?_
    dsimp only
    split
    · exact ⟨p, .refl p, .fail _⟩
    next pi hpi => exact ⟨_, updatePrefixInfo_contains hb hpi, addRib_grants rfl⟩

theorem getRoutesByOwner_searches {f : List Route → RibProg IPClaim} (hf : Searches P c (f [])) :
    Searches P c (getRoutesByOwner P c >>= f) := by
  unfold getRoutesByOwner
  cases hs : c.spec.getOwnerSelector P.refuses with
  | error e => exact .fail e
  | ok s => exact .owned s _ hs hf

theorem applyDynamic_searches (hhint : c.status.pfx = none) :
    Searches P c (applyDynamic P false c) := by
  refine getRoutesByOwner_searches ?_
  unfold getRoutesByLabel
  cases c.spec.getLabelSelector P.refuses with
  | error e => exact .fail _
  | ok s =>
    dsimp only
    rw [RibProg.getByLabel_bind]
    refine .list _ _ fun routes => ?_
    cases routes with
    | nil => exact .fail _
    | cons route routes =>
      simp only [hhint]
      exact claimFresh_searches _ _

theorem applyPrefix_searches (hin : validateInputPrefix P c pi = "") :
    Searches P c (applyPrefix P false c pi) := by
  refine .get _ _ (fun r => ?_) (addRib_grants (lookupPrefix_of_accepted hin).symm)
  exact getRoutesByOwner_searches (.fail _)

theorem checked_searches {msg : String} {f : Unit → RibProg IPClaim}
    (hf : msg = "" → Searches P c (f ())) : Searches P c (checked msg >>= f) := by
  unfold checked
  split
  · exact .fail _
  next hmsg => exact hf (not_not.mp hmsg)

theorem validatePrefix_searches {f : String → RibProg IPClaim}
    (hf : ∀ msg, (msg = "" → validateInputPrefix P c pi = "") → Searches P c (f msg)) :
    Searches P c (validatePrefix P c pi >>= f) := by
  unfold validatePrefix
  split
  · exact hf _ fun hmsg => hmsg
  next hin =>
    rw [RibProg.clone_bind, op_bind]
    refine .clone _ fun rib => ?_
    split <;> exact hf _ fun _ => not_not.mp hin

theorem claim_searches (hhint : c.status.pfx = none) : Searches P c (claim P c) := by
  unfold claim
  split
  · exact checked_searches fun _ => applyDynamic_searches hhint
  next s hs =>
    cases newPrefixInfo P s with
    | error e => exact .fail e
    | ok pi =>
      exact validatePrefix_searches fun msg hin =>
        checked_searches fun hmsg => applyPrefix_searches (hin hmsg)

end

/-! ## Interleavings -/

abbrev Claims := Conf ribSig RibState Bool Failure IPClaim

def initial (P : Platform) (s : RibState) (c : Bool → IPClaim) : Claims := ⟨s, fun i => claim P (c i)⟩

def IsLook : RibOp → Bool
  | .get _ | .getAvailablePrefixByBitLen _ _ => true
  | _ => false

def IsAdd : RibOp → Bool
  | .add _ => true
  | _ => false

def AboutToAdd (p : RibProg IPClaim) : Prop := p.next.any IsAdd = true

instance (p : RibProg IPClaim) : Decidable (AboutToAdd p) := inferInstanceAs (Decidable (_ = true))

/-- A claim does not look while the other has looked and still has routes to add. -/
def NoOverlap (cf : Claims) (i : Bool) : Prop :=
  ¬((cf.proc i).next.any IsLook = true ∧ AboutToAdd (cf.proc !i))

instance (cf : Claims) (i : Bool) : Decidable (NoOverlap cf i) := inferInstanceAs (Decidable (¬_))

/-- The route in which a claim searches is shorter than what it searches. -/
def PicksShorter (cf : Claims) (i : Bool) : Prop :=
  (cf.proc i).next.all (fun o => match o with
    | .getAvailablePrefixByBitLen s b => s.bits < b
    | _ => true) = true

instance (cf : Claims) (i : Bool) : Decidable (PicksShorter cf i) :=
  inferInstanceAs (Decidable (_ = true))

/-- How far a claim has come, and what it then knows about the table. -/
inductive Phase (P : Platform) (c : IPClaim) (rib : Rib) (p : RibProg IPClaim) : Prop where
  | searching (h : Searches P c p) (hown : OwnsNothing P rib c)
  | pending (g : Prefix) (h : Grants P c g p) (hfree : rib[g]? = none)
  | settled (g : Prefix) (h : Settles P c g p)
      (hheld : ∃ l, rib[g]? = some l ∧ ownerKey l = c.owner)
  | failed (e : Failure) (h : p = .fail e)

/-- What an operation of a claim does to the table. -/
inductive Effect (owner : List String) (rib : Rib) : Rib → Prop where
  | same : Effect owner rib rib
  | add (r : Route) (hr : ownerKey r.labels = owner) (hfree : rib[r.pfx]? = none) :
      Effect owner rib (rib.insert r.pfx r.labels)

theorem add_effect {s : RibState} {r : Route} (hr : ownerKey r.labels = c.owner) :
    Effect c.owner s.rib (handler P.nipam (.add r) s).2.rib := by
  cases h : s.rib[r.pfx]? with
  | some l =>
    rw [handler_add_of_some h]
    exact .same
  | none =>
    rw [handler_add_of_none h]
    exact .add r hr h

theorem Effect.held {owner : List String} {rib' : Rib} {l : Labels} (h : Effect owner rib rib')
    (hg : rib[g]? = some l) : rib'[g]? = some l := by
  cases h with
  | same => exact hg
  | add r hr hfree =>
    rw [ExtTreeMap.getElem?_insert, if_neg, hg]
    rw [LawfulEqCmp.compare_eq_iff_eq]
    rintro rfl
    rw [hfree] at hg
    cases hg

theorem Effect.ownsNothing {owner : List String} {rib' : Rib} (h : Effect owner rib rib')
    (hne : owner ≠ c.owner) (hown : OwnsNothing P rib c) : OwnsNothing P rib' c := by
  cases h with
  | same => exact hown
  | add r hr hfree =>
    intro s hs
    refine List.eq_nil_iff_forall_not_mem.mpr fun r' hr' => ?_
    obtain ⟨hhas, hm⟩ := P.nipam.mem_getByLabel.mp hr'
    rcases Rib.has_insert.mp hhas with rfl | ⟨-, hhas⟩
    · exact hne (hr ▸ ClaimLabels.ownerKey_of_matches hs hm)
    · have hmem := P.nipam.mem_getByLabel.mpr ⟨hhas, hm⟩
      rw [hown s hs] at hmem
      cases hmem

/-- An operation after the look adds a route or reads; after a read nothing is added. -/
theorem Settles.op {s : RibState} {o : RibOp} {k : RibOp.Resp o → RibProg IPClaim}
    (h : Settles P c g (.op o k)) :
    Settles P c g (k (handler P.nipam o s).1) ∧ Effect c.owner s.rib (handler P.nipam o s).2.rib ∧
    (IsAdd o = true ∨ (handler P.nipam o s).2 = s ∧ ¬AboutToAdd (k (handler P.nipam o s).1)) := by
  cases h with
  | add r _ hr hk => exact ⟨hk _, add_effect hr, .inl rfl⟩
  | report _ huses hret =>
    cases o with
    | getByLabel sel =>
      refine ⟨.report _ (huses.2 _) (hret _), .same, .inr ⟨rfl, fun hadd => ?_⟩⟩
      obtain ⟨o', ho', hadd⟩ := (Option.any_eq_true _ _).mp hadd
      have hlist := (huses.2 _).next ho'
      cases o' with
      | getByLabel sel' => cases hadd
      | _ => exact hlist.elim
    | _ => exact huses.1.elim

theorem Searches.not_aboutToAdd {p : RibProg IPClaim} (h : Searches P c p) : ¬AboutToAdd p := by
  cases h <;> exact Bool.false_ne_true

/-- An operation before the look, or the look itself. -/
theorem Searches.op {s : RibState} {o : RibOp} {k : RibOp.Resp o → RibProg IPClaim}
    (h : Searches P c (.op o k)) (hown : OwnsNothing P s.rib c)
    (hpick : ∀ q b, o = .getAvailablePrefixByBitLen q b → q.bits < b) :
    (handler P.nipam o s).2 = s ∧
    (Searches P c (k (handler P.nipam o s).1) ∨ IsLook o = true ∧
      ∃ g, Grants P c g (k (handler P.nipam o s).1) ∧ s.rib[g]? = none) := by
  cases h with
  | owned sel _ hs hk => exact ⟨rfl, .inl (by simpa only [handler, hown sel hs] using hk)⟩
  | list sel _ hk => exact ⟨rfl, .inl (hk _)⟩
  | clone _ hk => exact ⟨rfl, .inl (hk _)⟩
  | get g _ hsome hnone =>
    refine ⟨rfl, ?_⟩
    simp only [handler, getRoute]
    cases hg : s.rib[g]? with
    | none => exact .inr ⟨rfl, g, hnone, hg⟩
    | some l => exact .inl (hsome _)
  | available q b _ hnone hsome =>
    refine ⟨rfl, ?_⟩
    simp only [handler]
    cases hav : P.nipam.getAvailablePrefixByBitLen s.rib q b with
    | none => exact .inl hnone
    | some p =>
      obtain ⟨g, hpg, hgrants⟩ := hsome p (P.nipam.available hav).1
      exact .inr ⟨rfl, g, hgrants, P.nipam.available_free hav (hpick q b rfl) hpg⟩

/-- An operation of a claim leads to its next phase. An add changes the table; only a look and an
add lead to an add. -/
theorem Phase.op {s : RibState} {o : RibOp} {k : RibOp.Resp o → RibProg IPClaim}
    (h : Phase P c s.rib (.op o k))
    (hpick : ∀ q b, o = .getAvailablePrefixByBitLen q b → q.bits < b) :
    Phase P c (handler P.nipam o s).2.rib (k (handler P.nipam o s).1) ∧
    Effect c.owner s.rib (handler P.nipam o s).2.rib ∧
    (IsAdd o = true ∨ (handler P.nipam o s).2 = s ∧
      (AboutToAdd (k (handler P.nipam o s).1) → IsLook o = true)) := by
  cases h with
  | searching h hown =>
    obtain ⟨hs, hnext⟩ := h.op hown hpick
    rw [hs]
    rcases hnext with hnext | ⟨hlook, g, hgrants, hfree⟩
    · exact ⟨.searching hnext hown, .same, .inr ⟨rfl, fun h => (hnext.not_aboutToAdd h).elim⟩⟩
    · exact ⟨.pending g hgrants hfree, .same, .inr ⟨rfl, fun _ => hlook⟩⟩
  | pending g h hfree =>
    cases h with
    | add l _ hl hk =>
      have heff : Effect c.owner s.rib (handler P.nipam (.add ⟨g, l⟩) s).2.rib := add_effect hl
      rw [handler_add_of_none hfree] at heff ⊢
      exact ⟨.settled g (hk _) ⟨l, by simp, hl⟩, heff, .inl rfl⟩
  | settled g h hheld =>
    obtain ⟨hk, heff, hadd⟩ := h.op (s := s)
    obtain ⟨l, hl, hlo⟩ := hheld
    exact ⟨.settled g hk ⟨l, heff.held hl, hlo⟩, heff,
      hadd.imp_right fun ⟨hs, hnot⟩ => ⟨hs, fun h => (hnot h).elim⟩⟩
  | failed e h => cases h

/-- An add of another owner does not disturb a claim that is not about to add. -/
theorem Phase.other {rib' : Rib} {owner : List String} {p : RibProg IPClaim} (h : Phase P c rib p)
    (heff : Effect owner rib rib') (hne : owner ≠ c.owner) (hp : ¬AboutToAdd p) :
    Phase P c rib' p := by
  cases h with
  | searching h hown => exact .searching h (heff.ownsNothing hne hown)
  | pending g h hfree =>
    cases h with
    | fail e => exact .failed e rfl
    | add l k hl hk => exact absurd rfl hp
  | settled g h hheld =>
    obtain ⟨l, hl, hlo⟩ := hheld
    exact .settled g h ⟨l, heff.held hl, hlo⟩
  | failed e h => exact .failed e h

theorem keeps (c : Bool → IPClaim) (hne : ∀ i j, i ≠ j → (c i).owner ≠ (c j).owner) :
    Conf.Keeps (handler P.nipam) (fun cf i => PicksShorter cf i ∧ NoOverlap cf i)
      (fun i s p => Phase P (c i) s.rib p) (fun p q => ¬(AboutToAdd p ∧ AboutToAdd q)) := by
  have hphase : ∀ (cf : Claims) i o k, Phase P (c i) cf.shared.rib (cf.proc i) →
      cf.proc i = .op o k → PicksShorter cf i → _ := fun cf i o k h hp hpick =>
    Phase.op (o := o) (k := k) (hp ▸ h) fun q b ho => by
      subst ho
      simpa [PicksShorter, hp] using hpick
  constructor
  case symm => exact fun p q h hqp => h hqp.symm
  case own =>
    intro cf i o k hinv hp hok
    exact (hphase cf i o k (hinv.holds i) hp hok.1).1
  case other =>
    intro cf i o k j hinv hp hok hij
    obtain ⟨-, heff, hadd | ⟨hs, -⟩⟩ := hphase cf i o k (hinv.holds i) hp hok.1
    · exact (hinv.holds j).other heff (hne i j hij) fun hj =>
        hinv.compat i j hij ⟨by rw [hp]; exact hadd, hj⟩
    · rw [hs]
      exact hinv.holds j
  case pair =>
    intro cf i o k j hinv hp hok hij ⟨hi, hj⟩
    obtain ⟨-, -, hadd | ⟨-, hlook⟩⟩ := hphase cf i o k (hinv.holds i) hp hok.1
    · exact hinv.compat i j hij ⟨by rw [hp]; exact hadd, hj⟩
    · have hji : j = !i := Bool.eq_not.mpr hij.symm
      exact hok.2 ⟨by rw [hp]; exact hlook hi, hji ▸ hj⟩

/-- Two claims of different owners that own nothing and carry no hint, interleaved in any way in
which neither looks while the other has looked and still has routes to add: if both return, they
report different routes, and each of these is in the table under its owner. -/
theorem claims_report_distinct (P : Platform) (s : RibState) (c : Bool → IPClaim)
    (hhint : ∀ i, (c i).status.pfx = none) (hown : ∀ i, OwnsNothing P s.rib (c i))
    (hne : (c true).owner ≠ (c false).owner) (sched : List Bool)
    (hg : Conf.Guarded (handler P.nipam) (fun cf i => PicksShorter cf i ∧ NoOverlap cf i)
      (initial P s c) sched) (r : Bool → IPClaim)
    (hr : ∀ i, (((initial P s c).run (handler P.nipam) sched).proc i).returned = some (r i)) :
    reportedRoute P.txt (r true) ≠ reportedRoute P.txt (r false) ∧
    ∀ i, ∃ g, reportedRoute P.txt (r i) = some g ∧
      ∃ l, ((initial P s c).run (handler P.nipam) sched).shared.rib[g]? = some l ∧
        ownerKey l = (c i).owner := by
  have hne' : ∀ i j, i ≠ j → (c i).owner ≠ (c j).owner := by
    intro i j hij
    cases i <;> cases j
    · exact absurd rfl hij
    · exact hne.symm
    · exact hne
    · exact absurd rfl hij
  have hinit : Conf.Inv (fun i s p => Phase P (c i) s.rib p)
      (fun p q => ¬(AboutToAdd p ∧ AboutToAdd q)) (initial P s c) :=
    ⟨fun i => .searching (claim_searches (hhint i)) (hown i),
      fun i j _ h => (claim_searches (hhint i)).not_aboutToAdd h.1⟩
  have hfinal := (keeps c hne').run hinit hg
  have hdone : ∀ i, ∃ g, reportedRoute P.txt (r i) = some g ∧
      ∃ l, ((initial P s c).run (handler P.nipam) sched).shared.rib[g]? = some l ∧
        ownerKey l = (c i).owner := by
    intro i
    have hphase := hfinal.holds i
    rw [returned_eq_some.mp (hr i)] at hphase
    cases hphase with
    | searching h => cases h
    | pending g h => cases h
    | settled g h hheld =>
      cases h with
      | report _ _ hret => exact ⟨g, hret, hheld⟩
    | failed e h => cases h
  refine ⟨fun heq => ?_, hdone⟩
  obtain ⟨g, hg, l, hl, hlo⟩ := hdone true
  obtain ⟨g', hg', l', hl', hlo'⟩ := hdone false
  rw [hg, hg'] at heq
  cases heq
  rw [hl] at hl'
  cases hl'
  exact hne (hlo.symm.trans hlo')

/-- Two claims of an address in the aggregate. -/
def loopbackClaim (i : Bool) : IPClaim :=
  sampleClaim ipClaimGVK (cond i "a" "b") .loopback none none none (ofKind .aggregate)

/-- The claims made one after the other. -/
theorem claims_report_distinct_in_turn :
    reportedRoute netText ((loopbackClaim true).setPrefix "10.0.0.0/32") ≠
      reportedRoute netText ((loopbackClaim false).setPrefix "10.0.0.1/32") ∧
    ∀ i, ∃ g, reportedRoute netText
        ((loopbackClaim i).setPrefix (cond i "10.0.0.0/32" "10.0.0.1/32")) = some g ∧
      ∃ l, ((initial .reference aggregateRib loopbackClaim).run
        (handler .reference) [true, true, true, true, false, false, false, false]).shared.rib[g]? =
          some l ∧ ownerKey l = (loopbackClaim i).owner :=
  claims_report_distinct .reference aggregateRib loopbackClaim
    (fun _ => rfl) (by decide +kernel) (by decide)
    [true, true, true, true, false, false, false, false] (by decide +kernel)
    (fun i => (loopbackClaim i).setPrefix (cond i "10.0.0.0/32" "10.0.0.1/32")) (by decide +kernel)

/-- Both claims search before either adds: both report the same address, which the table holds
for one of them. -/
theorem claims_report_same :
    (∀ i, (((initial .reference aggregateRib loopbackClaim).run
        (handler .reference) [true, false, true, false, true, false, true, false]).proc i).returned =
      some ((loopbackClaim i).setPrefix "10.0.0.0/32")) ∧
    (∀ i, (loopbackClaim i).status.pfx = none ∧
      OwnsNothing .reference aggregateRib.rib (loopbackClaim i)) ∧
    (loopbackClaim true).owner ≠ (loopbackClaim false).owner ∧
    Conf.Guarded (handler .reference) PicksShorter
      (initial .reference aggregateRib loopbackClaim)
      [true, false, true, false, true, false, true, false] := by
  refine ⟨by decide +kernel, by decide +kernel, by decide, by decide +kernel⟩

end K8sIpam.Ipam
