import K8sIpam.Api.Condition
import K8sIpam.Lib.Keyed
import K8sIpam.Lib.Run

/-! # Conditions with their transition times

`condition.go` with all the data of a condition. `SetConditions` writes the conditions one after the
other; one that is equal to the condition of its type leaves it with its time. `Equal` compares
neither the times nor the generations that the conditions were observed for. -/

namespace K8sIpam
open Keyed

/-- The type `metav1.Condition`. A time is counted in seconds, from the zero time. -/
structure Metav1Condition where
  type : String
  status : String
  observedGeneration : Int
  lastTransitionTime : Int
  reason : String
  message : String
  deriving DecidableEq

def Metav1Condition.equal (c other : Metav1Condition) : Bool :=
  c.type = other.type && c.status = other.status && c.reason = other.reason &&
    c.message = other.message

structure ConditionedStatus where
  conditions : List Metav1Condition
  deriving DecidableEq

namespace ConditionedStatus

def getCondition (r : ConditionedStatus) (t : String) : Metav1Condition :=
  (r.conditions.find? fun c => c.type = t).getD ⟨t, "False", 0, 0, "", ""⟩

/-- What the inner loop makes of the condition that it is at. It writes no other place. -/
def overwrite (new existing : Metav1Condition) : Metav1Condition :=
  if existing.type ≠ new.type then existing
  else if existing.equal new then existing
  else new

def setCondition (cs : List Metav1Condition) (new : Metav1Condition) : List Metav1Condition :=
  let written := cs.map (overwrite new)
  if cs.any fun existing => existing.type = new.type then written else written ++ [new]

def setConditions (r : ConditionedStatus) (c : List Metav1Condition) : ConditionedStatus :=
  ⟨c.foldl setCondition r.conditions⟩

end ConditionedStatus

/-! ## Equal conditions -/

namespace Metav1Condition

variable {c d e : Metav1Condition}

theorem equal_iff : c.equal d = true ↔
    c.type = d.type ∧ c.status = d.status ∧ c.reason = d.reason ∧ c.message = d.message := by
  simp [equal, and_assoc]

theorem equal_self (c : Metav1Condition) : c.equal c = true := equal_iff.mpr ⟨rfl, rfl, rfl, rfl⟩

theorem equal_symm (h : c.equal d = true) : d.equal c = true := by
  obtain ⟨htype, hstatus, hreason, hmessage⟩ := equal_iff.mp h
  exact equal_iff.mpr ⟨htype.symm, hstatus.symm, hreason.symm, hmessage.symm⟩

theorem equal_trans (h : c.equal d = true) (h' : d.equal e = true) : c.equal e = true := by
  rw [equal_iff] at h h' ⊢
  obtain ⟨htype, hstatus, hreason, hmessage⟩ := h
  obtain ⟨htype', hstatus', hreason', hmessage'⟩ := h'
  exact ⟨htype.trans htype', hstatus.trans hstatus', hreason.trans hreason', hmessage.trans hmessage'⟩

/-- The conditions differ in the transition time at most. -/
def SameButTime (c d : Metav1Condition) : Prop :=
  { c with lastTransitionTime := d.lastTransitionTime } = d

instance (c d : Metav1Condition) : Decidable (SameButTime c d) :=
  inferInstanceAs (Decidable (_ = _))

theorem sameButTime_iff :
    SameButTime c d ↔ c.equal d = true ∧ c.observedGeneration = d.observedGeneration := by
  rw [equal_iff, SameButTime]
  cases c
  cases d
  simp only [mk.injEq, true_and]
  tauto

end Metav1Condition

/-! ## Writing conditions -/

namespace ConditionedStatus
open Metav1Condition

variable {r : ConditionedStatus} {cs news : List Metav1Condition} {c new last : Metav1Condition}
  {t : String}

/-- A condition of the type is kept if it is equal to the new one. -/
abbrev settle : Metav1Condition → Metav1Condition → Metav1Condition := keepOr equal

theorem settle_type (c new : Metav1Condition) (h : c.type = new.type) :
    (settle c new).type = new.type := by
  unfold settle keepOr
  split
  · exact h
  · rfl

theorem setCondition_eq (cs : List Metav1Condition) (new : Metav1Condition) :
    setCondition cs new = upsert Metav1Condition.type settle cs new := by
  have hwrite : cs.map (overwrite new) =
      cs.map fun c => if c.type = new.type then settle c new else c := by
    refine List.map_congr_left fun c _ => ?_
    unfold overwrite settle keepOr
    by_cases h : c.type = new.type
    · rw [if_neg (not_not.mpr h), if_pos h]
    · rw [if_pos h, if_neg h]
  unfold setCondition upsert
  dsimp only
  rw [hwrite]
  by_cases h : new.type ∈ cs.map Metav1Condition.type
  · rw [if_pos h, if_pos (by simpa using h)]
  · have hnone : ∀ c ∈ cs, c.type ≠ new.type := fun c hc heq => h (List.mem_map.mpr ⟨c, hc, heq⟩)
    rw [if_neg h, if_neg (by simpa using hnone)]
    congr 1
    exact (List.map_congr_left fun c hc => if_neg (hnone c hc)).trans (List.map_id' cs)

theorem setConditions_eq (r : ConditionedStatus) (news : List Metav1Condition) :
    (r.setConditions news).conditions =
      upsertAll Metav1Condition.type settle r.conditions news := by
  have hstep : setCondition = upsert Metav1Condition.type settle :=
    funext fun cs => funext fun new => setCondition_eq cs new
  dsimp only [setConditions]
  rw [hstep, upsertAll]

/-- The supplied conditions of a type. -/
def supplied (news : List Metav1Condition) (t : String) : List Metav1Condition :=
  news.filter fun c => c.type = t

/-- The stored condition of a type and the supplied ones, from the first of those at the end on that
are all equal to the last. -/
def finalRun (r : ConditionedStatus) (news : List Metav1Condition) (t : String)
    (last : Metav1Condition) : List Metav1Condition :=
  ((get Metav1Condition.type r.conditions t).toList ++ supplied news t).reverse.takeWhile
    (equal · last)

/-- The condition of a type is the first of the final run. -/
theorem get_setConditions (hlast : last ∈ (supplied news t).getLast?) :
    get Metav1Condition.type (r.setConditions news).conditions t =
      (finalRun r news t last).getLast? := by
  obtain ⟨ys, hys⟩ := List.getLast?_eq_some_iff.mp hlast
  have hall : (get Metav1Condition.type r.conditions t).toList ++ supplied news t =
      ((get Metav1Condition.type r.conditions t).toList ++ ys) ++ [last] := by
    rw [hys, List.append_assoc]
  rw [setConditions_eq, get_upsertAll settle_type, ← settleAll_toList]
  change settleAll settle none (_ ++ supplied news t) = _
  rw [finalRun, hall]
  exact settleAll_keepOr_none equal_self (fun _ _ => equal_symm) (fun _ _ _ => equal_trans) _ last

/-- A written type has a condition that is equal to the last one that was written. -/
theorem getCondition_setConditions (hlast : last ∈ (supplied news t).getLast?) :
    (finalRun r news t last).getLast? = some ((r.setConditions news).getCondition t) ∧
      ((r.setConditions news).getCondition t).equal last = true := by
  have hget := get_setConditions hlast (r := r)
  have hne : finalRun r news t last ≠ [] := by
    obtain ⟨ys, hys⟩ := List.getLast?_eq_some_iff.mp hlast
    unfold finalRun
    rw [hys, ← List.append_assoc, List.reverse_append, List.reverse_singleton, List.singleton_append,
      List.takeWhile_cons_of_pos (p := (equal · last)) (equal_self last)]
    exact List.cons_ne_nil _ _
  obtain ⟨c, hc⟩ := Option.isSome_iff_exists.mp (List.getLast?_isSome.mpr hne)
  rw [hc] at hget
  have hcond : (r.setConditions news).getCondition t = c := by
    unfold Keyed.get at hget
    rw [getCondition, hget]
    rfl
  rw [hcond, hc]
  exact ⟨rfl, List.mem_takeWhile_imp (p := (equal · last)) (List.mem_of_getLast? hc)⟩

/-! ## One condition for each type -/

/-- What `SetConditions` makes of a status. -/
structure SetsConditions (r : ConditionedStatus) (news : List Metav1Condition)
    (r' : ConditionedStatus) : Prop where
  /-- The old types come first, then the new ones in the order in which they first come. -/
  types : r'.conditions.map Metav1Condition.type = r.conditions.map Metav1Condition.type ++
    ((news.map Metav1Condition.type).filter (· ∉ r.conditions.map Metav1Condition.type)).eraseDups
  nodup : (r'.conditions.map Metav1Condition.type).Nodup
  lastWins : ∀ t ∈ news.map Metav1Condition.type, ∀ last ∈ (supplied news t).getLast?,
    (r'.getCondition t).SameButTime last
  others : ∀ c, c.type ∉ news.map Metav1Condition.type → (c ∈ r'.conditions ↔ c ∈ r.conditions)
  keepsTime : ∀ c ∈ r.conditions, (∀ d ∈ news, d.type = c.type → c.equal d = true) →
    c ∈ r'.conditions

/-- The first condition of each final run was observed for the generation of the last. -/
def GenerationsKept (r : ConditionedStatus) (news : List Metav1Condition) : Prop :=
  ∀ t ∈ news.map Metav1Condition.type, ∀ last ∈ (supplied news t).getLast?,
    ∀ first ∈ (finalRun r news t last).getLast?, first.observedGeneration = last.observedGeneration

instance (r : ConditionedStatus) (news : List Metav1Condition) : Decidable (GenerationsKept r news) :=
  inferInstanceAs (Decidable (∀ t ∈ news.map Metav1Condition.type, _))

theorem lastWins_iff (r : ConditionedStatus) (news : List Metav1Condition) :
    (∀ t ∈ news.map Metav1Condition.type, ∀ last ∈ (supplied news t).getLast?,
      ((r.setConditions news).getCondition t).SameButTime last) ↔ GenerationsKept r news := by
  refine forall₂_congr fun t _ => forall₂_congr fun last hlast => ?_
  obtain ⟨hrun, hequal⟩ := getCondition_setConditions hlast (r := r)
  rw [sameButTime_iff, hrun]
  constructor
  · intro h first hfirst
    obtain rfl : (r.setConditions news).getCondition t = first := Option.some.inj hfirst
    exact h.2
  · exact fun h => ⟨hequal, h _ rfl⟩

theorem mem_setConditions_of_equal (h : (r.conditions.map Metav1Condition.type).Nodup)
    (hc : c ∈ r.conditions) (hnews : ∀ d ∈ news, d.type = c.type → c.equal d = true) :
    c ∈ (r.setConditions news).conditions := by
  have hnodup := nodup_keys_upsertAll settle_type h news
  have hget : get Metav1Condition.type (upsertAll Metav1Condition.type settle r.conditions news)
      c.type = some c := by
    rw [get_upsertAll settle_type, (get_eq_some_iff h).mpr ⟨hc, rfl⟩]
    refine settleAll_keepOr_of_forall fun d hd => ?_
    obtain ⟨hd, htype⟩ := List.mem_filter.mp hd
    exact hnews d hd (by simpa using htype)
  rw [setConditions_eq]
  exact ((get_eq_some_iff hnodup).mp hget).1

theorem mem_setConditions_of_other (h : (r.conditions.map Metav1Condition.type).Nodup)
    (hc : c.type ∉ news.map Metav1Condition.type) :
    c ∈ (r.setConditions news).conditions ↔ c ∈ r.conditions := by
  have hnodup := nodup_keys_upsertAll settle_type h news
  have hnone : (news.filter fun d => d.type = c.type) = [] := by
    refine List.filter_eq_nil_iff.mpr fun d hd => ?_
    simpa using fun htype : d.type = c.type => hc (List.mem_map.mpr ⟨d, hd, htype⟩)
  have hget := get_upsertAll settle_type r.conditions news c.type
  rw [hnone] at hget
  rw [setConditions_eq]
  have hafter := get_eq_some_iff hnodup (k := c.type) (x := c)
  have hbefore := get_eq_some_iff h (k := c.type) (x := c)
  rw [hget] at hafter
  simp only [and_true] at hafter hbefore
  exact hafter.symm.trans hbefore

/-- A status with one condition for each type stays one, and the last condition that is written for
a type is the one that it has, up to its time, if and only if the condition that stays for it was
observed for the same generation. -/
theorem setsConditions_iff (r : ConditionedStatus) (news : List Metav1Condition)
    (h : (r.conditions.map Metav1Condition.type).Nodup) :
    SetsConditions r news (r.setConditions news) ↔ GenerationsKept r news := by
  refine ⟨fun hset => (lastWins_iff r news).mp hset.lastWins, fun hgen => ?_⟩
  exact
    { types := by rw [setConditions_eq, keys_upsertAll settle_type]
      nodup := by
        rw [setConditions_eq]
        exact nodup_keys_upsertAll settle_type h news
      lastWins := (lastWins_iff r news).mpr hgen
      others := fun _ => mem_setConditions_of_other h
      keepsTime := fun _ hc hnews => mem_setConditions_of_equal h hc hnews }

/-- A resource that is ready, as the controllers write it at a time. -/
def readyAt (generation time : Int) : Metav1Condition :=
  ⟨"Ready", "True", generation, time, "Ready", ""⟩

theorem setsConditions_of_ready :
    SetsConditions ⟨[readyAt 0 100]⟩ [⟨"Synced", "True", 0, 200, "ReconcileSuccess", ""⟩, readyAt 0 200]
      (setConditions ⟨[readyAt 0 100]⟩
        [⟨"Synced", "True", 0, 200, "ReconcileSuccess", ""⟩, readyAt 0 200]) := by
  exact (setsConditions_iff ⟨[readyAt 0 100]⟩ _ (by decide)).mpr (by decide)

/-- The stored condition was observed for generation 5 and is otherwise equal to the new one: it
stays, with its generation. -/
theorem setsConditions_generation_stays :
    ([readyAt 5 100].map Metav1Condition.type).Nodup ∧
    (setConditions ⟨[readyAt 5 100]⟩ [readyAt 0 200]).getCondition "Ready" = readyAt 5 100 ∧
    (supplied [readyAt 0 200] "Ready").getLast? = some (readyAt 0 200) ∧
    ¬((setConditions ⟨[readyAt 5 100]⟩ [readyAt 0 200]).getCondition "Ready").SameButTime
      (readyAt 0 200) := by
  decide

end ConditionedStatus

/-! ## The conditions of the controllers -/

def ConditionType.text : ConditionType → String
  | .synced => "Synced"
  | .ready => "Ready"

def ConditionReason.text : ConditionReason → String
  | .none => ""
  | .ready => "Ready"
  | .failed => "Failed"
  | .unknown => "Unknown"
  | .reconcileSuccess => "ReconcileSuccess"
  | .reconcileFailure => "ReconcileFailure"

/-- The condition has the data that the controllers look at. -/
structure Metav1Condition.Shows (m : Metav1Condition) (c : Condition) : Prop where
  type : m.type = c.type.text
  status : m.status = if c.status then "True" else "False"
  reason : m.reason = c.reason.text
  message : m.message = c.message

theorem ConditionType.text_inj {t t' : ConditionType} : t.text = t'.text ↔ t = t' := by
  cases t <;> cases t' <;> decide

theorem setConditions_eq_upsertAll (cs news : List Condition) :
    setConditions cs news = upsertAll Condition.type (fun _ new => new) cs news := by
  have hstep : setCondition = upsert Condition.type (fun _ new => new) := by
    funext cs new
    unfold setCondition upsert
    by_cases h : new.type ∈ cs.map Condition.type
    · rw [if_pos h, if_pos (by simpa using h)]
    · rw [if_neg h, if_neg (by simpa using h)]
  rw [setConditions, upsertAll, hstep]

section
variable {r : ConditionedStatus} {cs : List Condition}

theorem shows_setConditions {news : List Metav1Condition} {news' : List Condition}
    (h : List.Forall₂ Metav1Condition.Shows r.conditions cs)
    (hnews : List.Forall₂ Metav1Condition.Shows news news') :
    List.Forall₂ Metav1Condition.Shows (r.setConditions news).conditions
      (setConditions cs news') := by
  rw [ConditionedStatus.setConditions_eq, setConditions_eq_upsertAll]
  refine upsertAll_forall₂ h hnews (fun x y new new' hx hnew => ?_) fun x y new new' hx hnew htype => ?_
  · rw [hx.type, hnew.type, ConditionType.text_inj]
  · unfold ConditionedStatus.settle keepOr
    split
    next hequal =>
      -- what stays is equal to the new condition
      obtain ⟨-, hstatus, hreason, hmessage⟩ := Metav1Condition.equal_iff.mp hequal
      exact ⟨htype.trans hnew.type, hstatus.trans hnew.status, hreason.trans hnew.reason,
        hmessage.trans hnew.message⟩
    · exact hnew

theorem shows_getCondition (h : List.Forall₂ Metav1Condition.Shows r.conditions cs)
    (t : ConditionType) : (r.getCondition t.text).Shows (getCondition cs t) := by
  unfold ConditionedStatus.getCondition getCondition
  generalize r.conditions = ms at h
  induction h with
  | nil => exact ⟨rfl, rfl, rfl, rfl⟩
  | @cons m c ms cs hshow _ ih =>
    by_cases ht : c.type = t
    · have hm : m.type = t.text := by rw [hshow.type, ht]
      rw [List.find?_cons_of_pos (by exact decide_eq_true hm),
        List.find?_cons_of_pos (by exact decide_eq_true ht)]
      exact hshow
    · have hm : m.type ≠ t.text := by rwa [hshow.type, ne_eq, ConditionType.text_inj]
      rw [List.find?_cons_of_neg (by simpa using hm), List.find?_cons_of_neg (by simpa using ht)]
      exact ih

end

/-- The controllers read the same from the conditions without times as from those with times, after
any calls of `SetConditions` on a new resource. -/
theorem shows_getCondition_run {calls : List (List Metav1Condition)} {calls' : List (List Condition)}
    (h : List.Forall₂ (List.Forall₂ Metav1Condition.Shows) calls calls') (t : ConditionType) :
    ((Run.run ConditionedStatus.setConditions ⟨[]⟩ calls).getCondition t.text).Shows
      (getCondition (Run.run setConditions [] calls') t) := by
  refine shows_getCondition ?_ t
  suffices hrun : ∀ (r : ConditionedStatus) cs, List.Forall₂ Metav1Condition.Shows r.conditions cs →
      List.Forall₂ Metav1Condition.Shows (Run.run ConditionedStatus.setConditions r calls).conditions
        (Run.run setConditions cs calls') from hrun ⟨[]⟩ [] .nil
  induction h with
  | nil => exact fun _ _ hr => hr
  | cons hnews _ ih => exact fun r cs hr => ih _ _ (shows_setConditions hr hnews)

end K8sIpam
