import Mathlib.Data.List.Nodup

/-! # A versioned store

The objects of a store carry an identity, which they keep for their life, and a version, which is
new with each write. An update names the version that its writer has read, and is refused when
another write came in between. What the store held earlier is kept, for readers that lag. -/

namespace Versioned

variable {K V : Type}

structure Obj (V : Type) where
  content : V
  uid : Nat
  version : Nat
  deriving DecidableEq

/-- The objects, what they were before each of the writes, the latest first, and the version of the
last write. -/
structure Store (V : Type) where
  objects : List (Obj V)
  history : List (List (Obj V))
  revision : Nat

inductive Refusal where
  | notFound | conflict
  deriving DecidableEq

namespace Store

def snapshots (s : Store V) : List (List (Obj V)) := s.objects :: s.history

/-- The object is or was in the store. -/
def Seen (s : Store V) (o : Obj V) : Prop := ∃ os ∈ s.snapshots, o ∈ os

def write (s : Store V) (os : List (Obj V)) : Store V := ⟨os, s.objects :: s.history, s.revision + 1⟩

/-- A new object. -/
def create (s : Store V) (v : V) : Store V :=
  s.write (⟨v, s.revision + 1, s.revision + 1⟩ :: s.objects)

section
variable [DecidableEq K] (key : V → K)

def find (s : Store V) (k : K) : Option (Obj V) := s.objects.find? fun o => key o.content = k

/-- The object with the key of `v` becomes `v`. -/
def set (s : Store V) (v : V) : Store V :=
  s.write (s.objects.map fun o => if key o.content = key v then ⟨v, o.uid, s.revision + 1⟩ else o)

def remove (s : Store V) (k : K) : Store V :=
  s.write (s.objects.filter fun o => key o.content ≠ k)

/-- The object that was read with this version is changed, if it has not been written since. What
changes nothing is no write. -/
def update [DecidableEq V] (s : Store V) (k : K) (version : Nat) (f : V → V) :
    Except Refusal Unit × Store V :=
  match s.find key k with
  | none => (.error .notFound, s)
  | some cur =>
    if cur.version ≠ version then (.error .conflict, s)
    else if f cur.content = cur.content then (.ok (), s)
    else (.ok (), s.set key (f cur.content))

end

/-- Keys and identities are unique now, and versions for all time. -/
structure Inv (key : V → K) (s : Store V) : Prop where
  nodup : (s.objects.map fun o => key o.content).Nodup
  uids : (s.objects.map Obj.uid).Nodup
  eq_of_version : ∀ {o o'}, s.Seen o → s.Seen o' → o.version = o'.version → o = o'
  version_le : ∀ {o}, s.Seen o → o.version ≤ s.revision
  uid_le : ∀ {o}, s.Seen o → o.uid ≤ s.revision

/-- What was seen earlier was seen later. -/
structure Le (s s' : Store V) : Prop where
  seen : ∀ {o}, s.Seen o → s'.Seen o
  revision : s.revision ≤ s'.revision

theorem Le.refl (s : Store V) : s.Le s := ⟨id, Nat.le_refl _⟩

theorem Le.trans {s s' s'' : Store V} (h : s.Le s') (h' : s'.Le s'') : s.Le s'' :=
  ⟨fun ho => h'.seen (h.seen ho), Nat.le_trans h.revision h'.revision⟩

section
variable {s : Store V} {o o' : Obj V} {os : List (Obj V)}

theorem seen_of_mem (h : o ∈ s.objects) : s.Seen o := ⟨s.objects, List.mem_cons_self, h⟩

theorem seen_of_snapshot (h : o ∈ os) (hos : os ∈ s.snapshots) : s.Seen o := ⟨os, hos, h⟩

theorem seen_write : (s.write os).Seen o ↔ o ∈ os ∨ s.Seen o := by
  simp [Seen, snapshots, write]

theorem le_write (s : Store V) (os : List (Obj V)) : s.Le (s.write os) :=
  ⟨fun ho => seen_write.mpr (.inr ho), Nat.le_succ _⟩

theorem le_create (s : Store V) (v : V) : s.Le (s.create v) := le_write s _

variable {key : V → K}

theorem Inv.eq_of_key (hs : s.Inv key) (h : o ∈ s.objects) (h' : o' ∈ s.objects)
    (heq : key o.content = key o'.content) : o = o' :=
  List.inj_on_of_nodup_map hs.nodup h h' heq

/-- A write puts at most one object in, with the new version. -/
theorem Inv.write (hs : s.Inv key) (hnodup : (os.map fun o => key o.content).Nodup)
    (huids : (os.map Obj.uid).Nodup)
    (hold : ∀ o ∈ os, o ∈ s.objects ∨ o.version = s.revision + 1 ∧ o.uid ≤ s.revision + 1)
    (hnew : ∀ o ∈ os, ∀ o' ∈ os, o.version = s.revision + 1 → o'.version = s.revision + 1 →
      o = o') : (s.write os).Inv key := by
  have hcase : ∀ {o}, (s.write os).Seen o →
      s.Seen o ∨ o ∈ os ∧ o.version = s.revision + 1 ∧ o.uid ≤ s.revision + 1 := by
    intro o ho
    rcases seen_write.mp ho with hmem | hseen
    · rcases hold o hmem with hin | hver
      · exact .inl (seen_of_mem hin)
      · exact .inr ⟨hmem, hver⟩
    · exact .inl hseen
  refine ⟨hnodup, huids, fun {o o'} ho ho' heq => ?_, fun ho => ?_, fun ho => ?_⟩
  · rcases hcase ho with hseen | ⟨hmem, hver, -⟩
    · rcases hcase ho' with hseen' | ⟨-, hver', -⟩
      · exact hs.eq_of_version hseen hseen' heq
      · have := hs.version_le hseen
        omega
    · rcases hcase ho' with hseen' | ⟨hmem', hver', -⟩
      · have := hs.version_le hseen'
        omega
      · exact hnew o hmem o' hmem' hver hver'
  · rcases hcase ho with hseen | ⟨-, hver, -⟩
    · exact Nat.le_trans (hs.version_le hseen) (Nat.le_succ _)
    · exact Nat.le_of_eq hver
  · rcases hcase ho with hseen | ⟨-, -, huid⟩
    · exact Nat.le_trans (hs.uid_le hseen) (Nat.le_succ _)
    · exact huid

theorem Inv.eq_of_uid (hs : s.Inv key) (h : o ∈ s.objects) (h' : o' ∈ s.objects)
    (heq : o.uid = o'.uid) : o = o' :=
  List.inj_on_of_nodup_map hs.uids h h' heq

theorem Inv.version_ne (hs : s.Inv key) (h : o ∈ s.objects) : o.version ≠ s.revision + 1 :=
  Nat.ne_of_lt (Nat.lt_succ_of_le (hs.version_le (seen_of_mem h)))

/-- A store with these objects and no past. -/
def ofList (vs : List V) : Store V :=
  ⟨vs.zipIdx.map fun v => ⟨v.1, v.2, v.2⟩, [], vs.length⟩

theorem inv_ofList {vs : List V} (h : (vs.map key).Nodup) : (ofList vs).Inv key := by
  have hmem : ∀ {o : Obj V}, (ofList vs).Seen o →
      ∃ i, ∃ _ : i < vs.length, vs[i]? = some o.content ∧ o.uid = i ∧ o.version = i := by
    rintro o ⟨os, hos, ho⟩
    obtain rfl : os = (ofList vs).objects := by simpa [ofList, snapshots] using hos
    obtain ⟨⟨v, i⟩, hv, rfl⟩ := List.mem_map.mp ho
    have hget := List.mem_zipIdx_iff_getElem?.mp hv
    exact ⟨i, (List.getElem?_eq_some_iff.mp hget).1, hget, rfl, rfl⟩
  refine ⟨?_, ?_, ?_, ?_, ?_⟩
  · have hkeys : (ofList vs).objects.map (fun o => key o.content) = vs.map key := by
      have hfst : vs.zipIdx.map (fun v => key v.1) = (vs.zipIdx.map Prod.fst).map key :=
        List.map_map.symm
      rw [List.zipIdx_map_fst] at hfst
      exact List.map_map.trans hfst
    rw [hkeys]
    exact h
  · have huids : (ofList vs).objects.map Obj.uid = List.range' 0 vs.length := by
      have hsnd := List.zipIdx_map_snd 0 vs
      exact List.map_map.trans hsnd
    rw [huids]
    exact List.nodup_range'
  · intro o o' ho ho' heq
    obtain ⟨i, -, hget, huid, hver⟩ := hmem ho
    obtain ⟨i', -, hget', huid', hver'⟩ := hmem ho'
    obtain rfl : i = i' := hver.symm.trans (heq.trans hver')
    cases o
    cases o'
    simp_all
  · intro o ho
    obtain ⟨i, hi, -, -, hver⟩ := hmem ho
    exact hver ▸ Nat.le_of_lt hi
  · intro o ho
    obtain ⟨i, hi, -, huid, -⟩ := hmem ho
    exact huid ▸ Nat.le_of_lt hi

variable [DecidableEq K] {k : K} {v : V}

theorem find_eq_some (h : s.find key k = some o) : o ∈ s.objects ∧ key o.content = k :=
  ⟨List.mem_of_find?_eq_some h, by simpa using List.find?_some h⟩

theorem ne_of_find_eq_none (h : s.find key k = none) (ho : o ∈ s.objects) : key o.content ≠ k := by
  simpa using List.find?_eq_none.mp h o ho

theorem Inv.create (hs : s.Inv key) (hfind : s.find key (key v) = none) : (s.create v).Inv key := by
  refine hs.write ?_ ?_ ?_ ?_
  · refine List.nodup_cons.mpr ⟨fun hmem => ?_, hs.nodup⟩
    obtain ⟨o, ho, heq⟩ := List.mem_map.mp hmem
    exact ne_of_find_eq_none hfind ho heq
  · refine List.nodup_cons.mpr ⟨fun hmem => ?_, hs.uids⟩
    obtain ⟨o, ho, heq⟩ := List.mem_map.mp hmem
    have hle := hs.uid_le (seen_of_mem ho)
    rw [heq] at hle
    exact Nat.not_succ_le_self _ hle
  · intro o ho
    rcases List.mem_cons.mp ho with rfl | ho
    · exact .inr ⟨rfl, Nat.le_refl _⟩
    · exact .inl ho
  · intro o ho o' ho' hver hver'
    rcases List.mem_cons.mp ho with rfl | ho
    · rcases List.mem_cons.mp ho' with rfl | ho'
      · rfl
      · exact absurd hver' (hs.version_ne ho')
    · exact absurd hver (hs.version_ne ho)

/-- What a write of one object leaves in place of each. -/
theorem mem_set (h : o' ∈ (s.set key v).objects) : ∃ o ∈ s.objects, o'.uid = o.uid ∧
    (key o.content = key v ∧ o'.content = v ∧ o'.version = s.revision + 1 ∨
      key o.content ≠ key v ∧ o' = o) := by
  obtain ⟨o, ho, rfl⟩ := List.mem_map.mp h
  refine ⟨o, ho, ?_⟩
  by_cases heq : key o.content = key v
  · rw [if_pos heq]
    exact ⟨rfl, .inl ⟨heq, rfl, rfl⟩⟩
  · rw [if_neg heq]
    exact ⟨rfl, .inr ⟨heq, rfl⟩⟩

theorem set_uids (key : V → K) (s : Store V) (v : V) :
    (s.set key v).objects.map Obj.uid = s.objects.map Obj.uid := by
  refine List.map_map.trans (List.map_congr_left fun o _ => ?_)
  dsimp only [Function.comp_apply]
  split <;> rfl

theorem Inv.set (hs : s.Inv key) (v : V) : (s.set key v).Inv key := by
  refine hs.write ?_ ?_ ?_ ?_
  · have hkeys : (s.objects.map fun o => if key o.content = key v then
        ⟨v, o.uid, s.revision + 1⟩ else o).map (fun o => key o.content) =
        s.objects.map fun o => key o.content := by
      refine List.map_map.trans (List.map_congr_left fun o _ => ?_)
      dsimp only [Function.comp_apply]
      split
      next heq => exact heq.symm
      next => rfl
    rw [hkeys]
    exact hs.nodup
  · have huids := set_uids key s v
    exact huids.symm ▸ hs.uids
  · intro o' ho'
    obtain ⟨o, ho, huid, hcase⟩ := mem_set ho'
    rcases hcase with ⟨-, -, hver⟩ | ⟨-, rfl⟩
    · exact .inr ⟨hver, huid ▸ Nat.le_trans (hs.uid_le (seen_of_mem ho)) (Nat.le_succ _)⟩
    · exact .inl ho
  · intro o₁ h₁ o₂ h₂ hver₁ hver₂
    obtain ⟨p₁, hp₁, huid₁, hcase₁⟩ := mem_set h₁
    obtain ⟨p₂, hp₂, huid₂, hcase₂⟩ := mem_set h₂
    rcases hcase₁ with ⟨hkey₁, hcont₁, -⟩ | ⟨-, rfl⟩
    · rcases hcase₂ with ⟨hkey₂, hcont₂, -⟩ | ⟨-, rfl⟩
      · have hp : p₁ = p₂ := hs.eq_of_key hp₁ hp₂ (hkey₁.trans hkey₂.symm)
        cases o₁
        cases o₂
        simp_all
      · exact absurd hver₂ (hs.version_ne hp₂)
    · exact absurd hver₁ (hs.version_ne hp₁)

theorem Inv.remove (hs : s.Inv key) (k : K) : (s.remove key k).Inv key := by
  refine hs.write ?_ ?_ (fun o ho => .inl (List.mem_of_mem_filter ho)) ?_
  · exact hs.nodup.sublist (List.filter_sublist.map _)
  · exact hs.uids.sublist (List.filter_sublist.map _)
  · intro o ho _ _ hver
    exact absurd hver (hs.version_ne (List.mem_of_mem_filter ho))

theorem le_set (s : Store V) (v : V) : s.Le (s.set key v) := le_write s _

theorem le_remove (s : Store V) (k : K) : s.Le (s.remove key k) := le_write s _

variable [DecidableEq V] {f : V → V}

/-- An update of what was once read is refused, or it changes the very object that was read. -/
theorem Inv.update_cases (hs : s.Inv key) (ho : s.Seen o) :
    (∃ e, s.update key (key o.content) o.version f = (.error e, s)) ∨
    (o ∈ s.objects ∧ (f o.content = o.content ∧
        s.update key (key o.content) o.version f = (.ok (), s) ∨
      s.update key (key o.content) o.version f = (.ok (), s.set key (f o.content)))) := by
  unfold Store.update
  cases hfind : s.find key (key o.content) with
  | none => exact .inl ⟨_, rfl⟩
  | some cur =>
    dsimp only
    split
    next => exact .inl ⟨_, rfl⟩
    next hver =>
      obtain ⟨hcur, -⟩ := find_eq_some hfind
      obtain rfl : cur = o := hs.eq_of_version (seen_of_mem hcur) ho (not_not.mp hver)
      refine .inr ⟨hcur, ?_⟩
      split
      next hsame => exact .inl ⟨hsame, rfl⟩
      next => exact .inr rfl

theorem Inv.update (hs : s.Inv key) (k : K) (version : Nat) (f : V → V) :
    (s.update key k version f).2.Inv key := by
  unfold Store.update
  split
  · exact hs
  · split
    · exact hs
    · split
      · exact hs
      · exact hs.set _

end
end Store
end Versioned
