import K8sIpam.Lib.Owned
import K8sIpam.Ipam.Effects

/-! # Updates of the routes of a claim

The loop of `updateRib` as a sequence of steps, one for each route of the owner: the route keeps
its labels, or gets new ones, or gets new ones and loses the children that belong to other
resources. The new labels depend on the length of the most specific parent only. -/

namespace K8sIpam.Ipam
open Std Atomic Prog Net

section
variable (P : Platform)

/-- The length of the most specific route around a prefix. -/
def parentBits (rib : Rib) (p : Prefix) : Option Nat :=
  (P.nipam.parents rib p).head?.map fun r => r.pfx.bits

/-- The labels that an update gives to a route. -/
def newLabels (rib : Rib) (c : IPClaim) (route : Route) : Labels :=
  updatedLabels P.txt c route (P.nipam.parents rib route.pfx)

inductive Updates (c : IPClaim) (o : Route) (s : RibState) : RibState → Prop where
  | same (h : newLabels P s.rib c o = o.labels) : Updates c o s s
  | set (h : newLabels P s.rib c o ≠ o.labels) :
      Updates c o s { s with rib := s.rib.insert o.pfx (newLabels P s.rib c o) }
  | clear (rib : Rib) (h : newLabels P s.rib c o ≠ o.labels) (hc : c.isCreatePrefix = true)
      (hrib : rib = s.rib.insert o.pfx (newLabels P s.rib c o)) :
      Updates c o s ⟨eraseAll rib (foreignChildren P rib c o.pfx),
        s.updates ++ [foreignChildren P rib c o.pfx]⟩

inductive UpdatesAll (c : IPClaim) : List Route → RibState → RibState → Prop where
  | nil (s : RibState) : UpdatesAll c [] s s
  | cons {o : Route} {os : List Route} {s t u : RibState} (h : Updates P c o s t)
      (hs : UpdatesAll c os t u) : UpdatesAll c (o :: os) s u

end

variable {P : Platform} {c : IPClaim} {rib rib' : Rib} {o : Route} {os : List Route}
  {s s' : RibState} {p : Prefix}

/-- The first round of the loop. -/
theorem updateRoutes_cons_run (initializing : Bool) (o : Route) (os : List Route)
    (pi : Option Prefix) (s : RibState) :
    ∃ t, Updates P c o s t ∧
      (updateRoutes P initializing c pi (o :: os)).run (handler P.nipam) s =
        (updateRoutes P initializing c (updatedInfo P s.rib c pi o) os).run (handler P.nipam) t := by
  rw [updateRoutes, run_bind_of_ok _ (getUpdatedLabels_run P c pi o s)]
  dsimp only
  by_cases hsame : newLabels P s.rib c o = o.labels
  · refine ⟨s, .same hsame, ?_⟩
    rw [if_pos (show updatedLabels P.txt c o (P.nipam.parents s.rib o.pfx) = o.labels from hsame)]
  · rw [if_neg (show updatedLabels P.txt c o (P.nipam.parents s.rib o.pfx) ≠ o.labels from hsame),
      RibProg.set_bind, run_op]
    by_cases hclear : (!initializing && (updatedInfo P s.rib c pi o).any (fun q => !q.isAddressPrefix) &&
        c.isCreatePrefix) = true
    · have hc : c.isCreatePrefix = true := (Bool.and_eq_true _ _ ▸ hclear).2
      refine ⟨_, .clear _ hsame hc rfl, ?_⟩
      rw [if_pos hclear, run_bind_of_ok _ (deleteChildren_run P c o _)]
      rfl
    · refine ⟨_, .set hsame, ?_⟩
      rw [if_neg hclear]
      rfl

theorem updateRoutes_run (initializing : Bool) (os : List Route) (pi : Option Prefix)
    (s : RibState) : ∃ pi' s', (updateRoutes P initializing c pi os).run (handler P.nipam) s = (.ok pi', s') ∧
      UpdatesAll P c os s s' := by
  induction os generalizing pi s with
  | nil => exact ⟨pi, s, rfl, .nil s⟩
  | cons o os ih =>
    obtain ⟨t, hstep, hrun⟩ := updateRoutes_cons_run (P := P) (c := c) initializing o os pi s
    obtain ⟨pi', s', hrest, hall⟩ := ih (updatedInfo P s.rib c pi o) t
    exact ⟨pi', s', hrun.trans hrest, .cons hstep hall⟩

/-- An update reports the first of the routes. -/
theorem updateRib_cons_run (initializing : Bool) (pi : Option Prefix) (o : Route) (os : List Route)
    (s : RibState) : ∃ pi' s', (updateRib P initializing c pi (o :: os)).run (handler P.nipam) s =
      (.ok (reported P s'.rib c (updatedPrefix P c pi' o)), s') ∧ UpdatesAll P c (o :: os) s s' := by
  obtain ⟨pi', s', hrun, hall⟩ := updateRoutes_run (P := P) (c := c) initializing (o :: os) pi s
  refine ⟨pi', s', ?_, hall⟩
  rw [updateRib, run_bind_of_ok _ hrun]
  exact reportGateway_run P c _ s'

theorem updateRib_run (initializing : Bool) (pi : Option Prefix) (s : RibState) (hos : os ≠ []) :
    ∃ t s', (updateRib P initializing c pi os).run (handler P.nipam) s =
      (.ok (reported P s'.rib c t), s') ∧ UpdatesAll P c os s s' := by
  cases os with
  | nil => exact absurd rfl hos
  | cons o os =>
    obtain ⟨pi', s', hrun, hall⟩ := updateRib_cons_run (P := P) (c := c) initializing pi o os s
    exact ⟨_, s', hrun, hall⟩

theorem updateRib_ok {initializing : Bool} {pi : Option Prefix} {c' : IPClaim}
    (h : (updateRib P initializing c pi os).run (handler P.nipam) s = (.ok c', s')) :
    os ≠ [] ∧ UpdatesAll P c os s s' ∧ ∃ t, c' = reported P s'.rib c t := by
  cases os with
  | nil =>
    obtain ⟨pi', s', hrun, -⟩ := updateRoutes_run (P := P) (c := c) initializing [] pi s
    rw [updateRib, run_bind_of_ok _ hrun] at h
    cases h
  | cons o os =>
    obtain ⟨t, s', hrun, hall⟩ := updateRib_run (P := P) (c := c) initializing pi s
      (List.cons_ne_nil o os)
    rw [hrun] at h
    cases h
    exact ⟨List.cons_ne_nil o os, hall, t, rfl⟩

/-! ## Claims -/

/-- Several routes of an owner are those of a created network. -/
def MayOwn (c : IPClaim) (os : List Route) : Prop :=
  os.length ≤ 1 ∨ c.isCreatePrefix = true ∧ c.spec.kind = .network

/-- A claim with a prefix adds its routes when its route is not there, and updates those of its
owner when it is. -/
theorem applyPrefix_ok {initializing : Bool} {pi : Prefix} {c' : IPClaim}
    (h : (applyPrefix P initializing c pi).run (handler P.nipam) s = (.ok c', s')) :
    s.rib[lookupPrefix c pi]? = none ∧
        s' = { s with rib := addAll s.rib (getMutatedRoutesWithLabels P.txt c pi) } ∧
        (∃ t, c' = reported P s'.rib c t) ∨
      s.rib[lookupPrefix c pi]?.isSome = true ∧
        ∃ sel, c.spec.getOwnerSelector P.refuses = .ok sel ∧
          P.nipam.getByLabel s.rib sel ≠ [] ∧ MayOwn c (P.nipam.getByLabel s.rib sel) ∧
          UpdatesAll P c (P.nipam.getByLabel s.rib sel) s s' ∧ ∃ t, c' = reported P s'.rib c t := by
  unfold applyPrefix at h
  rw [run_get, getRoute] at h
  cases hlook : s.rib[lookupPrefix c pi]? with
  | none =>
    rw [hlook] at h
    dsimp only [Option.map_none] at h
    rw [addRib_run] at h
    cases h
    exact .inl ⟨rfl, rfl, _, rfl⟩
  | some l =>
    rw [hlook] at h
    dsimp only [Option.map_some] at h
    obtain ⟨owned, t, howned, h⟩ := (run_bind_ok _).mp h
    obtain ⟨rfl, sel, hsel, rfl, hmay⟩ := getRoutesByOwner_ok.mp howned
    obtain ⟨hne, hall, hc⟩ := updateRib_ok h
    exact .inr ⟨rfl, sel, hsel, hne, hmay, hall, hc⟩

/-- An accepted claim looks for the route that it would add first. -/
theorem applyPrefix_accepted_ok {initializing : Bool} {pi : Prefix} {c' : IPClaim}
    (hmsg : validateMsg P s.rib c pi = "")
    (h : (applyPrefix P initializing c pi).run (handler P.nipam) s = (.ok c', s')) :
    s.rib[mainPrefix c pi]? = none ∧
        s' = { s with rib := addAll s.rib (getMutatedRoutesWithLabels P.txt c pi) } ∧
        (∃ t, c' = reported P s'.rib c t) ∨
      s.rib[mainPrefix c pi]?.isSome = true ∧
        ∃ sel, c.spec.getOwnerSelector P.refuses = .ok sel ∧
          P.nipam.getByLabel s.rib sel ≠ [] ∧ MayOwn c (P.nipam.getByLabel s.rib sel) ∧
          UpdatesAll P c (P.nipam.getByLabel s.rib sel) s s' ∧ ∃ t, c' = reported P s'.rib c t :=
  lookupPrefix_of_accepted (validateInput_of_msg hmsg) ▸ applyPrefix_ok h

/-- A dynamic claim of an owner with routes updates them. -/
theorem applyDynamic_owned {initializing : Bool} {sel : Selector}
    (hsel : c.spec.getOwnerSelector P.refuses = .ok sel)
    (hos : P.nipam.getByLabel s.rib sel = o :: os) (hmay : MayOwn c (o :: os)) :
    (applyDynamic P initializing c).run (handler P.nipam) s =
      (updateRib P initializing c none (o :: os)).run (handler P.nipam) s := by
  have howned : (getRoutesByOwner P c).run (handler P.nipam) s = (.ok (o :: os), s) :=
    getRoutesByOwner_ok.mpr ⟨rfl, sel, hsel, hos.symm, hmay⟩
  unfold applyDynamic
  rw [run_bind_of_ok _ howned]

/-- A dynamic claim adds the routes of a chosen prefix when its owner has none, and updates those
of its owner when there are some. -/
theorem applyDynamic_cases {initializing : Bool} {c' : IPClaim}
    (h : (applyDynamic P initializing c).run (handler P.nipam) s = (.ok c', s')) :
    ∃ sel, c.spec.getOwnerSelector P.refuses = .ok sel ∧ (∃ t, c' = reported P s'.rib c t) ∧
      ((P.nipam.getByLabel s.rib sel = [] ∧ ∃ pi, Chosen P s.rib c pi ∧
        s' = { s with rib := addAll s.rib (getMutatedRoutesWithLabels P.txt c pi) }) ∨
      P.nipam.getByLabel s.rib sel ≠ [] ∧ MayOwn c (P.nipam.getByLabel s.rib sel) ∧
        UpdatesAll P c (P.nipam.getByLabel s.rib sel) s s') := by
  have h' := h
  unfold applyDynamic at h'
  obtain ⟨owned, t, howned, h'⟩ := (run_bind_ok _).mp h'
  obtain ⟨rfl, sel, hsel, rfl, hmay⟩ := getRoutesByOwner_ok.mp howned
  cases hos : P.nipam.getByLabel t.rib sel with
  | nil =>
    have hown : OwnsNothing P t.rib c := by
      intro sel' hsel'
      rw [hsel] at hsel'
      cases hsel'
      exact hos
    obtain ⟨pi, hchosen, hadd⟩ := applyDynamic_ok hown h
    rw [addRib_run] at hadd
    cases hadd
    exact ⟨sel, hsel, ⟨_, rfl⟩, .inl ⟨hos, pi, hchosen, rfl⟩⟩
  | cons o os =>
    rw [hos] at h' hmay
    obtain ⟨hne, hall, hc⟩ := updateRib_ok h'
    refine ⟨sel, hsel, hc, .inr ?_⟩
    rw [hos]
    exact ⟨hne, hmay, hall⟩

/-- The status of a claim that succeeds is reported from the table that it leaves. -/
theorem claim_reported {c' : IPClaim} (h : (claim P c).run (handler P.nipam) s = (.ok c', s')) :
    ∃ t, c' = reported P s'.rib c t := by
  cases hpfx : c.spec.pfx with
  | none =>
    obtain ⟨-, -, hrep, -⟩ := applyDynamic_cases ((claim_dynamic_ok hpfx).mp h).2
    exact hrep
  | some t =>
    obtain ⟨pi, hpi⟩ := claim_parses hpfx h
    rcases applyPrefix_ok ((claim_prefix_ok hpfx hpi).mp h).2 with ⟨-, -, hrep⟩ | ⟨-, -, -, -, -, -, hrep⟩
    · exact hrep
    · exact hrep

/-! ## New labels -/

theorem parentBits_eq_none :
    parentBits P rib p = none ↔ ∀ r, rib.Has r → ¬r.pfx.StrictlyContains p := by
  unfold parentBits
  rw [Option.map_eq_none_iff, List.head?_eq_none_iff, List.eq_nil_iff_forall_not_mem]
  constructor
  · exact fun h r hr hp => h r (P.nipam.mem_parents.mpr ⟨hr, hp⟩)
  · exact fun h r hr => h r (P.nipam.mem_parents.mp hr).1 (P.nipam.mem_parents.mp hr).2

theorem parentBits_eq_some {n : Nat} :
    parentBits P rib p = some n ↔
      (∃ r, rib.Has r ∧ r.pfx.StrictlyContains p ∧ r.pfx.bits = n) ∧
      ∀ r, rib.Has r → r.pfx.StrictlyContains p → r.pfx.bits ≤ n := by
  have hmem : ∀ r, r ∈ P.nipam.parents rib p ↔ rib.Has r ∧ r.pfx.StrictlyContains p :=
    fun r => P.nipam.mem_parents
  have hsorted := P.nipam.parents_sorted rib p
  unfold parentBits
  cases hps : P.nipam.parents rib p with
  | nil =>
    rw [hps] at hmem
    constructor
    · intro h
      cases h
    · rintro ⟨⟨r, hr, hp, -⟩, -⟩
      cases (hmem r).mpr ⟨hr, hp⟩
  | cons r₀ rs =>
    rw [hps] at hmem hsorted
    have hle : ∀ r, rib.Has r → r.pfx.StrictlyContains p → r.pfx.bits ≤ r₀.pfx.bits := by
      intro r hr hp
      rcases List.mem_cons.mp ((hmem r).mpr ⟨hr, hp⟩) with rfl | h
      · exact Nat.le_refl _
      · exact (List.pairwise_cons.mp hsorted).1 r h
    obtain ⟨hr₀, hp₀⟩ := (hmem r₀).mp List.mem_cons_self
    simp only [List.head?_cons, Option.map_some, Option.some.injEq]
    constructor
    · rintro rfl
      exact ⟨⟨r₀, hr₀, hp₀, rfl⟩, hle⟩
    · rintro ⟨⟨r, hr, hp, rfl⟩, hmax⟩
      exact Nat.le_antisymm (hmax r₀ hr₀ hp₀) (hle r hr hp)

/-- The most specific parent depends on which of the prefixes around are in the table. -/
theorem parentBits_congr
    (h : ∀ q : Prefix, q.StrictlyContains p → rib[q]?.isSome = rib'[q]?.isSome) :
    parentBits P rib p = parentBits P rib' p := by
  have hhas : ∀ {rib rib' : Rib},
      (∀ q : Prefix, q.StrictlyContains p → rib[q]?.isSome = rib'[q]?.isSome) →
      ∀ r, rib.Has r → r.pfx.StrictlyContains p → ∃ r', rib'.Has r' ∧ r'.pfx = r.pfx := by
    intro rib rib' h r hr hp
    have hsome : rib'[r.pfx]?.isSome = true := by
      rw [← h _ hp, show rib[r.pfx]? = some r.labels from hr]
      rfl
    obtain ⟨l, hl⟩ := Option.isSome_iff_exists.mp hsome
    exact ⟨⟨r.pfx, l⟩, hl, rfl⟩
  cases hn : parentBits P rib' p with
  | none =>
    refine parentBits_eq_none.mpr fun r hr hp => ?_
    obtain ⟨r', hr', hpfx⟩ := hhas h r hr hp
    exact parentBits_eq_none.mp hn r' hr' (hpfx ▸ hp)
  | some n =>
    obtain ⟨⟨r', hr', hp', rfl⟩, hmax⟩ := parentBits_eq_some.mp hn
    obtain ⟨r, hr, hpfx⟩ := hhas (fun q hq => (h q hq).symm) r' hr' hp'
    refine parentBits_eq_some.mpr ⟨⟨r, hr, hpfx ▸ hp', by rw [hpfx]⟩, fun r₁ hr₁ hp₁ => ?_⟩
    obtain ⟨r₂, hr₂, hpfx₂⟩ := hhas h r₁ hr₁ hp₁
    exact hpfx₂ ▸ hmax r₂ hr₂ (hpfx₂ ▸ hp₁)

/-- All tables have the same idea of parents. -/
theorem parentBits_platform (P P' : Platform) : parentBits P rib p = parentBits P' rib p := by
  cases hn : parentBits P' rib p with
  | none => exact parentBits_eq_none.mpr (parentBits_eq_none.mp hn)
  | some n => exact parentBits_eq_some.mpr (parentBits_eq_some.mp hn)

theorem parentPrefix_eq (o : Route) (ps : List Route) :
    parentPrefix o ps = (ps.head?.map fun r => r.pfx.bits).bind (prefixFrom o.pfx.addr) := by
  cases ps <;> rfl

theorem newLabels_congr (h : parentBits P rib o.pfx = parentBits P rib' o.pfx) :
    newLabels P rib c o = newLabels P rib' c o := by
  unfold parentBits at h
  simp only [newLabels, updatedLabels, parentPrefix_eq, h]

theorem newLabels_carriesOwner : CarriesOwner c (newLabels P rib c o) := updatedLabels_carriesOwner

theorem newLabels_kind : (newLabels P rib c o)[nephioPrefixKindKey]? = some c.spec.kind.toString :=
  updatedLabels_kind

theorem ownerKey_newLabels : ownerKey (newLabels P rib c o) = c.owner :=
  newLabels_carriesOwner.ownerKey_eq

/-! ## Updates that delete nothing -/

theorem foreignChildren_eq_nil :
    foreignChildren P rib c p = [] ↔
      ∀ r, rib.Has r → p.StrictlyContains r.pfx → c.sameNsn r.labels = true := by
  unfold foreignChildren
  rw [List.filter_eq_nil_iff]
  constructor
  · intro h r hr hp
    simpa using h r (P.nipam.mem_children.mpr ⟨hr, hp⟩)
  · intro h r hr
    obtain ⟨hr, hp⟩ := P.nipam.mem_children.mp hr
    simpa using h r hr hp

/-- The name and namespace of the resource are among the owner labels. -/
theorem sameNsn_congr {l l' : Labels} (h : ownerKey l = ownerKey l') :
    c.sameNsn l = c.sameNsn l' := by
  have hget := ownerKey_eq_iff.mp h
  rw [IPClaim.sameNsn, IPClaim.sameNsn, hget nephioNsnNameKey (by decide),
    hget nephioNsnNamespaceKey (by decide)]

/-- The tables have the same prefixes and differ in labels of an owner only. -/
def Relabelled (owner : List String) (rib rib' : Rib) : Prop :=
  ∀ p : Prefix, rib'[p]? = rib[p]? ∨
    ∃ l l', rib[p]? = some l ∧ rib'[p]? = some l' ∧ ownerKey l = owner ∧ ownerKey l' = owner

namespace Relabelled

variable {owner : List String}

theorem refl : Relabelled owner rib rib := fun _ => .inl rfl

theorem isSome (h : Relabelled owner rib rib') (q : Prefix) :
    rib'[q]?.isSome = rib[q]?.isSome := by
  rcases h q with heq | ⟨l, l', hl, hl', -, -⟩
  · rw [heq]
  · rw [hl, hl']
    rfl

theorem has (h : Relabelled owner rib rib') {r : Route} (hr : rib'.Has r) :
    ∃ r', rib.Has r' ∧ r'.pfx = r.pfx ∧ ownerKey r'.labels = ownerKey r.labels := by
  have hr' : rib'[r.pfx]? = some r.labels := hr
  rcases h r.pfx with heq | ⟨l, l', hl, hl', ho, ho'⟩
  · exact ⟨r, heq.symm.trans hr', rfl, rfl⟩
  · rw [hr'] at hl'
    cases hl'
    exact ⟨⟨r.pfx, l⟩, hl, rfl, ho.trans ho'.symm⟩

/-- Other owners do not notice. -/
theorem frame (h : Relabelled owner rib rib') :
    Owned.Frame ownerKey owner (fun p : Prefix => rib[p]?) (fun p => rib'[p]?) := by
  intro p l hl
  dsimp only
  rcases h p with heq | ⟨l₁, l₂, h₁, h₂, ho₁, ho₂⟩
  · rw [heq]
  · rw [h₁, h₂]
    constructor
    · rintro ⟨⟩
      exact absurd ho₁ hl
    · rintro ⟨⟩
      exact absurd ho₂ hl

theorem held (h : Relabelled owner rib rib') {q : Prefix}
    (hq : ∃ l, rib[q]? = some l ∧ ownerKey l = owner) :
    ∃ l, rib'[q]? = some l ∧ ownerKey l = owner := by
  obtain ⟨l, hl, ho⟩ := hq
  rcases h q with heq | ⟨l₁, l₂, -, h₂, -, ho₂⟩
  · exact ⟨l, heq ▸ hl, ho⟩
  · exact ⟨l₂, h₂, ho₂⟩

theorem insert (h : Relabelled owner rib rib') {r : Route} (hr : rib.Has r)
    (hro : ownerKey r.labels = owner) {l : Labels} (hl : ownerKey l = owner) :
    Relabelled owner rib (rib'.insert r.pfx l) := by
  intro q
  rw [ExtTreeMap.getElem?_insert]
  by_cases hq : r.pfx = q
  · subst hq
    exact .inr ⟨r.labels, l, hr, by simp, hro, hl⟩
  · rw [if_neg (by simpa using hq)]
    exact h q

theorem foreignChildren_nil (h : Relabelled owner rib rib')
    (hnil : foreignChildren P rib c p = []) : foreignChildren P rib' c p = [] := by
  refine foreignChildren_eq_nil.mpr fun r hr hp => ?_
  obtain ⟨r', hr', hpfx, ho⟩ := h.has hr
  rw [← sameNsn_congr ho]
  exact foreignChildren_eq_nil.mp hnil r' hr' (hpfx ▸ hp)

end Relabelled

/-- A claim updates its own routes without deleting another one: those of its routes whose labels
change have no children of other resources, if it creates prefixes. -/
def KeepsChildren (P : Platform) (rib : Rib) (c : IPClaim) (os : List Route) : Prop :=
  c.isCreatePrefix = true → ∀ o ∈ os, newLabels P rib c o ≠ o.labels →
    foreignChildren P rib c o.pfx = []

instance (P : Platform) (rib : Rib) (c : IPClaim) (os : List Route) :
    Decidable (KeepsChildren P rib c os) :=
  inferInstanceAs (Decidable (_ → ∀ o ∈ os, _ → _))

theorem Updates.relabelled {rib : Rib} (h : Updates P c o s s') (hs : Relabelled c.owner rib s.rib)
    (ho : rib.Has o) (hown : ownerKey o.labels = c.owner)
    (hkeep : c.isCreatePrefix = true → newLabels P rib c o ≠ o.labels →
      foreignChildren P rib c o.pfx = []) : Relabelled c.owner rib s'.rib := by
  have hlabels : newLabels P s.rib c o = newLabels P rib c o :=
    newLabels_congr (parentBits_congr fun q _ => hs.isSome q)
  have hset : Relabelled c.owner rib (s.rib.insert o.pfx (newLabels P s.rib c o)) :=
    hs.insert ho hown ownerKey_newLabels
  cases h with
  | same => exact hs
  | set => exact hset
  | clear rib₁ hne hc hrib =>
    subst hrib
    rw [hset.foreignChildren_nil (hkeep hc (hlabels ▸ hne))]
    exact hset

theorem UpdatesAll.relabelled {rib : Rib} (h : UpdatesAll P c os s s')
    (hs : Relabelled c.owner rib s.rib)
    (hos : ∀ o ∈ os, rib.Has o ∧ ownerKey o.labels = c.owner)
    (hkeep : KeepsChildren P rib c os) : Relabelled c.owner rib s'.rib := by
  induction h with
  | nil => exact hs
  | cons hstep _ ih =>
    have ho := hos _ List.mem_cons_self
    refine ih (hstep.relabelled hs ho.1 ho.2 fun hc => hkeep hc _ List.mem_cons_self) ?_ ?_
    · exact fun o' ho' => hos o' (List.mem_cons_of_mem _ ho')
    · exact fun hc o' ho' => hkeep hc o' (List.mem_cons_of_mem _ ho')

/-! ## The prefix that an update reports -/

/-- A route lies around the prefix. -/
def Parented (rib : Rib) (p : Prefix) : Prop := ∃ r, rib.Has r ∧ r.pfx.StrictlyContains p

instance (rib : Rib) (p : Prefix) : Decidable (Parented rib p) :=
  inferInstanceAs (Decidable (∃ r, rib.Has r ∧ r.pfx.StrictlyContains p))

/-- The parent can be deleted, but only as a child of the route that is updated. -/
theorem Updates.parented (h : Updates P c o s t) (ho : rib.Has o)
    (heq : ∀ p, Parented s.rib p ↔ Parented rib p) (p : Prefix) :
    Parented t.rib p ↔ Parented rib p := by
  have hset : ∀ l : Labels, Parented (s.rib.insert o.pfx l) p ↔ Parented rib p := by
    intro l
    constructor
    · rintro ⟨r, hr, hp⟩
      have hr' : (s.rib.insert o.pfx l)[r.pfx]? = some r.labels := hr
      rw [ExtTreeMap.getElem?_insert] at hr'
      split at hr'
      next hor =>
        have hor : o.pfx = r.pfx := by simpa using hor
        exact ⟨o, ho, hor ▸ hp⟩
      next => exact (heq p).mp ⟨r, hr', hp⟩
    · intro hp
      obtain ⟨r, hr, hp⟩ := (heq p).mpr hp
      by_cases hor : o.pfx = r.pfx
      · exact ⟨⟨o.pfx, l⟩, by simp [Rib.Has], hor ▸ hp⟩
      · refine ⟨r, ?_, hp⟩
        show (s.rib.insert o.pfx l)[r.pfx]? = some r.labels
        rw [ExtTreeMap.getElem?_insert, if_neg (by simpa using hor)]
        exact hr
  cases h with
  | same => exact heq p
  | set => exact hset _
  | clear rib₁ hne hc hrib =>
    rw [← hset (newLabels P s.rib c o), ← hrib]
    constructor
    · rintro ⟨r, hr, hp⟩
      have hr' : (eraseAll rib₁ (foreignChildren P rib₁ c o.pfx))[r.pfx]? = some r.labels := hr
      rw [eraseAll_getElem?] at hr'
      split at hr'
      · cases hr'
      · exact ⟨r, hr', hp⟩
    · rintro ⟨r, hr, hp⟩
      -- the updated route is there, and it is around all that is deleted
      have hself : (eraseAll rib₁ (foreignChildren P rib₁ c o.pfx))[o.pfx]? =
          some (newLabels P s.rib c o) := by
        rw [eraseAll_getElem?, if_neg, hrib]
        · simp
        · rintro ⟨r', hr', hpfx⟩
          have hin := (P.nipam.mem_children.mp (List.mem_filter.mp hr').1).2
          exact Prefix.StrictlyContains.irrefl (hpfx ▸ hin)
      by_cases hdel : ∃ r' ∈ foreignChildren P rib₁ c o.pfx, r'.pfx = r.pfx
      · obtain ⟨r', hr', hpfx⟩ := hdel
        have hin := (P.nipam.mem_children.mp (List.mem_filter.mp hr').1).2
        exact ⟨⟨o.pfx, newLabels P s.rib c o⟩, hself, hin.trans_contains (hpfx ▸ hp.contains)⟩
      · refine ⟨r, ?_, hp⟩
        show (eraseAll rib₁ (foreignChildren P rib₁ c o.pfx))[r.pfx]? = some r.labels
        rw [eraseAll_getElem?, if_neg hdel]
        exact hr

theorem parentBits_isSome : (parentBits P rib p).isSome = true ↔ Parented rib p := by
  rw [Option.isSome_iff_ne_none, ne_eq, parentBits_eq_none]
  simp only [Parented, not_forall, not_not, exists_prop]

/-- The prefix information has the address of the route, if there is a parent. -/
theorem updatedInfo_addr (P : Platform) (pi : Option Prefix) (hk : c.spec.kind = .network) :
    (updatedInfo P rib c pi o).map Prefix.addr =
      if o.pfx.isAddressPrefix = true ∧ Parented rib o.pfx then some o.pfx.addr
      else pi.map Prefix.addr := by
  unfold updatedInfo
  by_cases ha : o.pfx.isAddressPrefix = true
  · rw [if_pos ⟨hk, ha⟩, parentPrefix_eq]
    cases hn : parentBits P rib o.pfx with
    | none =>
      have hnot : ¬Parented rib o.pfx := by
        rw [← parentBits_isSome (P := P), hn]
        exact Bool.false_ne_true
      rw [if_neg fun h => hnot h.2]
      unfold parentBits at hn
      rw [hn]
      rfl
    | some n =>
      obtain ⟨⟨r, hr, hp, rfl⟩, -⟩ := parentBits_eq_some.mp hn
      have hle : r.pfx.bits ≤ o.pfx.addr.bitLen := (Nat.le_of_lt hp.1).trans o.pfx.le
      rw [if_pos ⟨ha, r, hr, hp⟩]
      unfold parentBits at hn
      rw [hn, Option.bind_some, prefixFrom, dif_pos hle]
      rfl
  · rw [if_neg fun h => ha h.2, if_neg fun h => ha h.1]

/-- Of the addresses that have a parent, the last one in the list. -/
def lastParented (rib : Rib) (os : List Route) : Option Route :=
  (os.filter fun o => o.pfx.isAddressPrefix = true ∧ Parented rib o.pfx).getLast?

theorem lastParented_cons (rib : Rib) (o : Route) (os : List Route) :
    lastParented rib (o :: os) = (lastParented rib os).or
      (if o.pfx.isAddressPrefix = true ∧ Parented rib o.pfx then some o else none) := by
  unfold lastParented
  rw [List.filter_cons]
  simp only [decide_eq_true_eq]
  split
  · rw [List.getLast?_cons]
    cases (os.filter fun o => o.pfx.isAddressPrefix = true ∧ Parented rib o.pfx).getLast? <;> rfl
  · rw [Option.or_none]

theorem lastParented_concat (ha : o.pfx.isAddressPrefix = true) (hp : Parented rib o.pfx)
    (os : List Route) : lastParented rib (os ++ [o]) = some o := by
  unfold lastParented
  simp [List.filter_append, ha, hp]

theorem updateRoutes_addr (b : Bool) (hk : c.spec.kind = .network) (hos : ∀ o ∈ os, rib.Has o)
    (pi : Option Prefix) (hs : ∀ p, Parented s.rib p ↔ Parented rib p) :
    ∃ pi' s', (updateRoutes P b c pi os).run (handler P.nipam) s = (.ok pi', s') ∧
      pi'.map Prefix.addr = ((lastParented rib os).map fun o => o.pfx.addr).or (pi.map Prefix.addr) := by
  induction os generalizing pi s with
  | nil => exact ⟨pi, s, rfl, rfl⟩
  | cons o os ih =>
    have ho := hos o List.mem_cons_self
    obtain ⟨t, hstep, hrun⟩ := updateRoutes_cons_run (P := P) (c := c) b o os pi s
    obtain ⟨pi', s', hrest, haddr⟩ := ih (fun o' ho' => hos o' (List.mem_cons_of_mem _ ho'))
      (updatedInfo P s.rib c pi o) (hstep.parented ho hs)
    refine ⟨pi', s', hrun.trans hrest, ?_⟩
    rw [haddr, updatedInfo_addr P pi hk, lastParented_cons]
    simp only [hs]
    cases lastParented rib os with
    | some o' => rfl
    | none => split <;> rfl

theorem updatedPrefix_dynamic (P : Platform) (hdyn : c.spec.pfx = none) (pi : Option Prefix)
    (o : Route) : updatedPrefix P c pi o =
      P.txt.prefixString (if c.spec.kind = .network then pi.getD o.pfx else o.pfx) := by
  cases hk : c.spec.kind <;> cases pi <;> simp [updatedPrefix, hk, hdyn]

/-- The route that a dynamic claim reports when it updates its routes. -/
def updatedRoute (rib : Rib) (c : IPClaim) (os : List Route) : Option Route :=
  if c.spec.kind = .network then (lastParented rib os).or os.head? else os.head?

/-- The address that is reported is that of one of the routes. -/
theorem updateRib_reports (b : Bool) (hdyn : c.spec.pfx = none) (hos : ∀ r ∈ o :: os, s.rib.Has r) :
    ∃ q s', (updateRib P b c none (o :: os)).run (handler P.nipam) s =
        (.ok (reported P s'.rib c (P.txt.prefixString q)), s') ∧
      (updatedRoute s.rib c (o :: os)).map (fun r => r.pfx.addr) = some q.addr := by
  unfold updatedRoute
  by_cases hk : c.spec.kind = .network
  · obtain ⟨pi', s', hrun, haddr⟩ := updateRoutes_addr (P := P) b hk hos none fun _ => Iff.rfl
    rw [Option.map_none, Option.or_none] at haddr
    refine ⟨pi'.getD o.pfx, s', ?_, ?_⟩
    · rw [updateRib, run_bind_of_ok _ hrun]
      refine (reportGateway_run P c _ s').trans ?_
      rw [updatedPrefix_dynamic P hdyn, if_pos hk]
    · rw [if_pos hk]
      cases hlast : lastParented s.rib (o :: os) with
      | none =>
        rw [hlast, Option.map_none, Option.map_eq_none_iff] at haddr
        rw [haddr]
        rfl
      | some o' =>
        rw [hlast, Option.map_some] at haddr
        obtain ⟨q, rfl, hq⟩ := Option.map_eq_some_iff.mp haddr
        exact congrArg some hq.symm
  · obtain ⟨pi', s', hrun, -⟩ := updateRib_cons_run (P := P) (c := c) b none o os s
    refine ⟨o.pfx, s', ?_, ?_⟩
    · rw [hrun, updatedPrefix_dynamic P hdyn, if_neg hk]
    · rw [if_neg hk]
      rfl

end K8sIpam.Ipam
