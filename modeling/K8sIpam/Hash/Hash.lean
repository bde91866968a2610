import K8sIpam.Lib.Probe
import K8sIpam.Lib.Run
import K8sIpam.Api.Labels

/-! # The hash table

`pkg/hash/hash.go`: an open hash table that gives each key an index, as long as some name is
registered under the key. -/

namespace K8sIpam.Hash
open Std

structure Node where
  key : String
  register : ExtTreeMap String Labels
  deriving DecidableEq

/-- A slot without a key. -/
def Node.empty : Node := ⟨"", ∅⟩

structure HashTable (size : Nat) where
  nodes : Fin size → Node

variable {size : Nat}

def new : HashTable size := ⟨fun _ => .empty⟩

/-! ## One slot -/

def HashTable.set (h : HashTable size) (i : Fin size) (n : Node) : HashTable size :=
  ⟨Function.update h.nodes i n⟩

/-- Register a name in a slot that is empty or has the key. -/
def HashTable.register (h : HashTable size) (i : Fin size) (k n : String) (l : Labels) :
    HashTable size :=
  let node := if (h.nodes i).key = "" then ⟨k, ∅⟩ else h.nodes i
  h.set i { node with register := node.register.insert n l }

/-- Take a name out of a slot, and the key with the last one. -/
def HashTable.unregister (h : HashTable size) (i : Fin size) (n : String) : HashTable size :=
  let register := (h.nodes i).register.erase n
  h.set i (if register = ∅ then .empty else { h.nodes i with register })

/-- A slot gets the names of a key, or is emptied if there are none. -/
def HashTable.put (h : HashTable size) (i : Fin size) (k : String)
    (register : ExtTreeMap String Labels) : HashTable size :=
  h.set i (if register = ∅ then .empty else ⟨k, register⟩)

section
variable {h : HashTable size} {k n : String} {l : Labels} {i j : Fin size}
  {register : ExtTreeMap String Labels}

@[simp] theorem set_nodes_self (m : Node) : (h.set i m).nodes i = m := Function.update_self ..

theorem set_nodes_of_ne (m : Node) (hne : j ≠ i) : (h.set i m).nodes j = h.nodes j :=
  Function.update_of_ne hne ..

/-- The key that a slot has after a name was registered in it. -/
theorem register_key (hslot : (h.nodes i).key = "" ∨ (h.nodes i).key = k) :
    ((h.register i k n l).nodes i).key = k := by
  rw [HashTable.register, set_nodes_self]
  split
  · rfl
  next hne => exact hslot.resolve_left hne

theorem put_key_self : ((h.put i k register).nodes i).key = if register = ∅ then "" else k := by
  rw [HashTable.put, set_nodes_self]
  split <;> rfl

theorem put_nodes_of_ne (hne : j ≠ i) : (h.put i k register).nodes j = h.nodes j :=
  set_nodes_of_ne _ hne

/-- A slot that is not empty afterwards has the key of the call or was not written. -/
theorem put_key_ne (hj : ((h.put i k register).nodes j).key ≠ "") :
    (j = i ∧ register ≠ ∅ ∧ (h.put i k register).nodes j = ⟨k, register⟩) ∨
      (j ≠ i ∧ (h.put i k register).nodes j = h.nodes j) := by
  by_cases hji : j = i
  · subst hji
    by_cases hreg : register = ∅
    · rw [put_key_self, if_pos hreg] at hj
      exact absurd rfl hj
    · refine .inl ⟨rfl, hreg, ?_⟩
      rw [HashTable.put, set_nodes_self, if_neg hreg]
  · exact .inr ⟨hji, put_nodes_of_ne hji⟩

end

/-! ## The code -/

variable [NeZero size]

/-- The sum of the runes of the key, as a `uint32`. -/
def hash (key : String) : Fin size := Fin.ofNat size ((key.toList.map Char.toNat).sum % 2 ^ 32)

/-- The recursion of `insert`, for so many slots. -/
def HashTable.insertAt (h : HashTable size) (k n : String) (l : Labels) :
    Nat → Fin size → Option (Fin size × HashTable size)
  | 0, _ => none
  | fuel + 1, hidx =>
    if (h.nodes hidx).key = "" ∨ (h.nodes hidx).key = k then some (hidx, h.register hidx k n l)
    else h.insertAt k n l fuel (Probe.next hidx)

/-- Without a result the recursion does not end. -/
def HashTable.insert (h : HashTable size) (k n : String) (l : Labels) :
    Option (Fin size × HashTable size) :=
  h.insertAt k n l size (hash k)

/-- The recursion of `delete`, for the slots that are left. -/
def HashTable.deleteAt (h : HashTable size) (k n : String) : Nat → Fin size → HashTable size
  | 0, _ => h
  | left + 1, hidx =>
    if (h.nodes hidx).key = k then h.unregister hidx n else h.deleteAt k n left (Probe.next hidx)

def HashTable.delete (h : HashTable size) (k n : String) : HashTable size :=
  h.deleteAt k n size (hash k)

/-- The keys in use, and how many there are. -/
def HashTable.getClaim (h : HashTable size) : Nat × List String :=
  let used := ((List.finRange size).map fun i => (h.nodes i).key).filter (· ≠ "")
  (used.length, used)

/-! ## Calls -/

inductive Call where
  | insert (k n : String) (l : Labels)
  | delete (k n : String) (l : Labels)
  deriving DecidableEq

def call (h : HashTable size) : Call → HashTable size
  | .insert k n l => ((h.insert k n l).map (·.2)).getD h
  | .delete k n _ => h.delete k n

/-- The names that are registered under each key. -/
abbrev Names := String → ExtTreeMap String Labels

def Names.call (names : Names) : Call → Names
  | .insert k n l => Function.update names k ((names k).insert n l)
  | .delete k n _ => Function.update names k ((names k).erase n)

/-- The names that were inserted and not yet deleted. -/
def registered (cs : List Call) : Names := Run.run Names.call (fun _ => ∅) cs

def after (size : Nat) [NeZero size] (cs : List Call) : HashTable size := Run.run call new cs

/-! ## What the table stands for -/

/-- No key occupies two slots, each key that has names occupies one with exactly these, and the
count is that of the keys that have names. -/
structure Stands (h : HashTable size) (names : Names) : Prop where
  one : ∀ i j, (h.nodes i).key ≠ "" → (h.nodes i).key = (h.nodes j).key → i = j
  sound : ∀ i, (h.nodes i).key ≠ "" →
    (h.nodes i).register = names (h.nodes i).key ∧ names (h.nodes i).key ≠ ∅
  complete : ∀ k, k ≠ "" → names k ≠ ∅ → ∃ i, (h.nodes i).key = k
  count : h.getClaim.1 = {k | k ≠ "" ∧ names k ≠ ∅}.ncard

/-- The slots that are tried for a key before the slot that it occupies. -/
def OnPath (h : HashTable size) (i j : Fin size) : Prop :=
  Probe.distance (hash (h.nodes j).key) i < Probe.distance (hash (h.nodes j).key) j

instance (h : HashTable size) (i j : Fin size) : Decidable (OnPath h i j) :=
  inferInstanceAs (Decidable (_ < _))

/-- Keys are not empty, a new key does not meet a full table, and no slot is emptied that is tried
for another key before its own. -/
def Allowed (h : HashTable size) : Call → Prop
  | .insert k _ _ => k ≠ "" ∧ ∃ i, (h.nodes i).key = k ∨ (h.nodes i).key = ""
  | .delete k n _ => k ≠ "" ∧ ∀ i, (h.nodes i).key = k → (h.nodes i).register.erase n = ∅ →
      ∀ j, (h.nodes j).key ≠ "" → ¬OnPath h i j

instance (h : HashTable size) (c : Call) : Decidable (Allowed h c) := by
  cases c <;> (unfold Allowed; infer_instance)

/-- No slot before that of a key is empty, and no two slots have one key. -/
structure Inv (h : HashTable size) (names : Names) : Prop where
  one : ∀ i j, (h.nodes i).key ≠ "" → (h.nodes i).key = (h.nodes j).key → i = j
  sound : ∀ i, (h.nodes i).key ≠ "" →
    (h.nodes i).register = names (h.nodes i).key ∧ names (h.nodes i).key ≠ ∅
  complete : ∀ k, k ≠ "" → names k ≠ ∅ → ∃ i, (h.nodes i).key = k
  path : ∀ i j, (h.nodes j).key ≠ "" → OnPath h i j → (h.nodes i).key ≠ ""

section
variable {h : HashTable size} {names : Names} {k n : String} {l : Labels} {i j : Fin size}

/-- A slot that an `Insert` of the key can use. -/
def HashTable.open (h : HashTable size) (k : String) (i : Fin size) : Bool :=
  (h.nodes i).key = "" ∨ (h.nodes i).key = k

theorem insertAt_eq_find (fuel : Nat) (i : Fin size) :
    h.insertAt k n l fuel i =
      (Probe.find (h.open k) fuel i).map fun j => (j, h.register j k n l) := by
  induction fuel generalizing i with
  | zero => rfl
  | succ fuel ih =>
    simp only [HashTable.insertAt, Probe.find, HashTable.open, decide_eq_true_eq]
    split
    · rfl
    · exact ih _

/-- The recursion of `insert` ends exactly when some slot is empty or has the key. -/
theorem insert_eq_none : h.insert k n l = none ↔
    ∀ i, (h.nodes i).key ≠ "" ∧ (h.nodes i).key ≠ k := by
  rw [HashTable.insert, insertAt_eq_find, Option.map_eq_none_iff, Probe.find_all_eq_none le_rfl]
  simp [HashTable.open]

theorem deleteAt_eq_find (left : Nat) (i : Fin size) :
    h.deleteAt k n left i =
      ((Probe.find (fun j => (h.nodes j).key = k) left i).map fun j => h.unregister j n).getD h := by
  induction left generalizing i with
  | zero => rfl
  | succ left ih =>
    simp only [HashTable.deleteAt, Probe.find, decide_eq_true_eq]
    split
    · rfl
    · exact ih _

/-- A key that occupies a slot is found there. -/
theorem Inv.insert_of_key (H : Inv h names) (hk : k ≠ "") (hi : (h.nodes i).key = k) :
    h.insert k n l = some (i, h.register i k n l) := by
  subst hi
  have hfind : Probe.find (h.open (h.nodes i).key) size (hash (h.nodes i).key) = some i := by
    rw [Probe.find_all_eq_some]
    refine ⟨by simp [HashTable.open], fun j hj => ?_⟩
    have hne : j ≠ i := by
      rintro rfl
      exact Nat.lt_irrefl _ hj
    have hempty := H.path j i hk hj
    simp only [HashTable.open, decide_eq_false_iff_not, not_or]
    exact ⟨hempty, fun heq => hne (H.one j i hempty heq)⟩
  rw [HashTable.insert, insertAt_eq_find, hfind]
  rfl

/-- With room for the key it gets the first slot that is empty or has it. -/
theorem insert_of_room (hroom : ∃ i, (h.nodes i).key = k ∨ (h.nodes i).key = "") :
    ∃ i, h.insert k n l = some (i, h.register i k n l) ∧
      ((h.nodes i).key = "" ∨ (h.nodes i).key = k) ∧
      ∀ j, Probe.distance (hash k) j < Probe.distance (hash k) i → (h.nodes j).key ≠ "" := by
  cases hfind : Probe.find (h.open k) size (hash k) with
  | none =>
    obtain ⟨i, hi⟩ := hroom
    have hclosed := (Probe.find_all_eq_none le_rfl).mp hfind i
    simp only [HashTable.open, decide_eq_false_iff_not] at hclosed
    exact absurd hi.symm hclosed
  | some i =>
    obtain ⟨hi, hfirst⟩ := Probe.find_all_eq_some.mp hfind
    refine ⟨i, by rw [HashTable.insert, insertAt_eq_find, hfind]; rfl, ?_, fun j hj => ?_⟩
    · simpa only [HashTable.open, decide_eq_true_eq] using hi
    · have hclosed := hfirst j hj
      simp only [HashTable.open, decide_eq_false_iff_not, not_or] at hclosed
      exact hclosed.1

theorem Inv.delete_of_key (H : Inv h names) (hk : k ≠ "") (hi : (h.nodes i).key = k) :
    h.delete k n = h.unregister i n := by
  subst hi
  have hfind : Probe.find (fun j => decide ((h.nodes j).key = (h.nodes i).key)) size
      (hash (h.nodes i).key) = some i := by
    rw [Probe.find_all_eq_some]
    refine ⟨by simp, fun j hj => ?_⟩
    rw [decide_eq_false_iff_not]
    intro heq
    have : i = j := H.one i j hk heq.symm
    subst this
    exact Nat.lt_irrefl _ hj
  rw [HashTable.delete, deleteAt_eq_find, hfind]
  rfl

theorem delete_of_absent (hnew : ∀ i, (h.nodes i).key ≠ k) : h.delete k n = h := by
  have hfind : Probe.find (fun j => decide ((h.nodes j).key = k)) size (hash k) = none := by
    rw [Probe.find_all_eq_none le_rfl]
    exact fun i => decide_eq_false (hnew i)
  rw [HashTable.delete, deleteAt_eq_find, hfind]
  rfl

/-! ## What a call does -/

def Call.key : Call → String
  | .insert k _ _ | .delete k _ _ => k

/-- The slot is the only one of the key or is empty, it is the one that is found for the key, and
if it gets emptied no other key needs it. -/
structure Puts (h : HashTable size) (k : String) (register : ExtTreeMap String Labels)
    (i : Fin size) : Prop where
  only : ∀ j, (h.nodes j).key = k → j = i
  slot : (h.nodes i).key = k ∨ (h.nodes i).key = ""
  path : register ≠ ∅ → ∀ j, Probe.distance (hash k) j < Probe.distance (hash k) i →
    (h.nodes j).key ≠ ""
  clear : register = ∅ → ∀ j, (h.nodes j).key ≠ "" → ¬OnPath h i j

variable {register : ExtTreeMap String Labels} {c : Call}

theorem Inv.put (H : Inv h names) (P : Puts h k register i) :
    Inv (h.put i k register) (Function.update names k register) where
  one a b ha hab := by
    have hb := hab ▸ ha
    rcases put_key_ne ha with ⟨rfl, -, hna⟩ | ⟨hai, hna⟩
    · rcases put_key_ne hb with ⟨rfl, -, -⟩ | ⟨hbi, hnb⟩
      · rfl
      · rw [hna, hnb] at hab
        exact absurd (P.only b hab.symm) hbi
    · rcases put_key_ne hb with ⟨rfl, -, hnb⟩ | ⟨hbi, hnb⟩
      · rw [hna, hnb] at hab
        exact absurd (P.only a hab) hai
      · rw [hna] at ha
        rw [hna, hnb] at hab
        exact H.one a b ha hab
  sound a ha := by
    rcases put_key_ne ha with ⟨rfl, hreg, hna⟩ | ⟨hai, hna⟩
    · rw [hna]
      simp [hreg]
    · have hne : (h.nodes a).key ≠ k := fun heq => hai (P.only a heq)
      rw [hna] at ha ⊢
      rw [Function.update_of_ne hne]
      exact H.sound a ha
  complete k' hk' hnames := by
    by_cases hkk : k' = k
    · subst hkk
      rw [Function.update_self] at hnames
      exact ⟨i, by rw [put_key_self, if_neg hnames]⟩
    · rw [Function.update_of_ne hkk] at hnames
      obtain ⟨a, rfl⟩ := H.complete k' hk' hnames
      have hai : a ≠ i := by
        rintro rfl
        exact P.slot.elim hkk hk'
      exact ⟨a, by rw [put_nodes_of_ne hai]⟩
  path a b hb hab := by
    unfold OnPath at hab
    rcases put_key_ne hb with ⟨rfl, hreg, hnb⟩ | ⟨hbi, hnb⟩
    · rw [hnb] at hab
      have hai : a ≠ b := by
        rintro rfl
        exact Nat.lt_irrefl _ hab
      rw [put_nodes_of_ne hai]
      exact P.path hreg a hab
    · rw [hnb] at hb hab
      by_cases hai : a = i
      · subst hai
        have hreg : register ≠ ∅ := fun hreg => P.clear hreg b hb hab
        rw [put_key_self, if_neg hreg]
        intro hk
        subst hk
        exact H.path a b hb hab (P.slot.elim id id)
      · rw [put_nodes_of_ne hai]
        exact H.path a b hb hab

theorem Names.call_eq (names : Names) (c : Call) :
    names.call c = Function.update names c.key (names.call c c.key) := by
  cases c <;> simp [Names.call, Call.key]

theorem Inv.names_of_absent (H : Inv h names) (hk : k ≠ "") (hnew : ∀ i, (h.nodes i).key ≠ k) :
    names k = ∅ := by
  by_contra hne
  obtain ⟨i, hi⟩ := H.complete k hk hne
  exact hnew i hi

/-- An allowed call writes one slot, unless it deletes from a key that has no names. -/
theorem Inv.call_cases (H : Inv h names) (ok : Allowed h c) :
    (call h c = h ∧ names.call c = names) ∨
      ∃ i, Puts h c.key (names.call c c.key) i ∧
        call h c = h.put i c.key (names.call c c.key) := by
  cases c with
  | insert k n l =>
    obtain ⟨hk, hroom⟩ := ok
    have hreg : names.call (.insert k n l) k = (names k).insert n l := by simp [Names.call]
    have hne : (names k).insert n l ≠ ∅ := by simp
    right
    simp only [Call.key, hreg]
    by_cases hkey : ∃ i, (h.nodes i).key = k
    · obtain ⟨i, hi⟩ := hkey
      refine ⟨i, ⟨fun j hj => ?_, .inl hi, fun _ j hj => ?_, fun h => absurd h hne⟩, ?_⟩
      · exact H.one j i (hj ▸ hk) (hj.trans hi.symm)
      · exact H.path j i (hi ▸ hk) (by unfold OnPath; rw [hi]; exact hj)
      · have hreg := (H.sound i (hi ▸ hk)).1
        simp only [Hash.call, H.insert_of_key hk hi, Option.map_some, Option.getD_some]
        rw [HashTable.register, HashTable.put, if_neg hne, if_neg (hi ▸ hk), hreg, hi]
    · have hnew : ∀ i, (h.nodes i).key ≠ k := not_exists.mp hkey
      obtain ⟨i, hins, hslot, hfirst⟩ := insert_of_room (n := n) (l := l) hroom
      have hi := hslot.resolve_right (hnew i)
      refine ⟨i, ⟨fun j hj => absurd hj (hnew j), .inr hi, fun _ => hfirst, fun h => absurd h hne⟩,
        ?_⟩
      simp only [Hash.call, hins, Option.map_some, Option.getD_some]
      rw [HashTable.register, HashTable.put, if_neg hne, if_pos hi, H.names_of_absent hk hnew]
  | delete k n l =>
    obtain ⟨hk, hclear⟩ := ok
    have hreg : names.call (.delete k n l) k = (names k).erase n := by simp [Names.call]
    by_cases hkey : ∃ i, (h.nodes i).key = k
    · obtain ⟨i, hi⟩ := hkey
      have hsound := (H.sound i (hi ▸ hk)).1
      rw [hi] at hsound
      right
      simp only [Call.key, hreg]
      refine ⟨i, ⟨fun j hj => ?_, .inl hi, fun _ j hj => ?_, fun h => ?_⟩, ?_⟩
      · exact H.one j i (hj ▸ hk) (hj.trans hi.symm)
      · exact H.path j i (hi ▸ hk) (by unfold OnPath; rw [hi]; exact hj)
      · exact hclear i hi (by rw [hsound]; exact h)
      · simp only [Hash.call, H.delete_of_key hk hi]
        rw [HashTable.unregister, HashTable.put, hsound, ← hi]
    · have hnew : ∀ i, (h.nodes i).key ≠ k := not_exists.mp hkey
      refine .inl ⟨delete_of_absent hnew, ?_⟩
      rw [Names.call_eq]
      simp only [Call.key, hreg]
      rw [H.names_of_absent hk hnew, ExtTreeMap.erase_empty, ← H.names_of_absent hk hnew,
        Function.update_eq_self]

theorem Inv.call (H : Inv h names) (ok : Allowed h c) : Inv (call h c) (names.call c) := by
  rcases H.call_cases ok with ⟨hcall, hnames⟩ | ⟨i, P, hcall⟩
  · rw [hcall, hnames]
    exact H
  · have H' := H.put P
    rwa [← Names.call_eq, ← hcall] at H'

/-- A key that keeps a name keeps its slot. -/
theorem Inv.call_keeps (H : Inv h names) (ok : Allowed h c) (hk : k ≠ "")
    (hi : (h.nodes i).key = k) (hnames : names.call c k ≠ ∅) :
    ((Hash.call h c).nodes i).key = k := by
  rcases H.call_cases ok with ⟨hcall, -⟩ | ⟨j, P, hcall⟩
  · rw [hcall, hi]
  · rw [hcall]
    by_cases hkc : c.key = k
    · subst hkc
      have := P.only i hi
      subst this
      rw [put_key_self, if_neg hnames]
    · have hij : i ≠ j := by
        rintro rfl
        rcases P.slot with hslot | hslot
        · exact hkc (hslot.symm.trans hi)
        · exact hk (hi.symm.trans hslot)
      rw [put_nodes_of_ne hij, hi]

theorem Inv.count (H : Inv h names) : h.getClaim.1 = {k | k ≠ "" ∧ names k ≠ ∅}.ncard := by
  have hnodup : h.getClaim.2.Nodup := by
    unfold HashTable.getClaim
    rw [List.filter_map]
    refine List.Nodup.map_on (fun i hi j _ hij => ?_) ((List.nodup_finRange size).filter _)
    exact H.one i j (by simpa using (List.mem_filter.mp hi).2) hij
  have hmem : ∀ k, k ∈ h.getClaim.2 ↔ k ≠ "" ∧ names k ≠ ∅ := by
    intro k
    simp only [HashTable.getClaim, List.mem_filter, List.mem_map, List.mem_finRange, true_and,
      decide_eq_true_eq]
    constructor
    · rintro ⟨⟨i, rfl⟩, hk⟩
      exact ⟨hk, (H.sound i hk).2⟩
    · rintro ⟨hk, hnames⟩
      exact ⟨H.complete k hk hnames, hk⟩
  have hset : {k | k ≠ "" ∧ names k ≠ ∅} = (h.getClaim.2.toFinset : Set String) := by
    ext k
    simp [hmem]
  rw [hset, Set.ncard_coe_finset, List.toFinset_card_of_nodup hnodup]
  rfl

theorem Inv.stands (H : Inv h names) : Stands h names := ⟨H.one, H.sound, H.complete, H.count⟩

end

/-! ## Runs -/

theorem inv_new : Inv (new : HashTable size) fun _ => ∅ where
  one _ _ hi := absurd rfl hi
  sound _ hi := absurd rfl hi
  complete _ _ h := absurd rfl h
  path _ _ hj := absurd rfl hj

/-- The table and what it stands for, along a run. -/
theorem Inv.run {h : HashTable size} {names : Names} {cs : List Call} (H : Inv h names)
    (hg : Run.Guarded Hash.call Allowed h cs) :
    Inv (Run.run Hash.call h cs) (Run.run Names.call names cs) := by
  induction cs generalizing h names with
  | nil => exact H
  | cons c cs ih => exact ih (H.call hg.1) hg.2

/-- A key keeps its slot along a run in which it always has a name. -/
theorem Inv.run_keeps {h : HashTable size} {names : Names} {cs : List Call} {k : String}
    {i : Fin size} (H : Inv h names) (hg : Run.Guarded Hash.call Allowed h cs) (hk : k ≠ "")
    (hi : (h.nodes i).key = k) (hlive : ∀ zs, zs <+: cs → Run.run Names.call names zs k ≠ ∅) :
    ((Run.run Hash.call h cs).nodes i).key = k := by
  induction cs generalizing h names with
  | nil => exact hi
  | cons c cs ih =>
    refine ih (H.call hg.1) hg.2 (H.call_keeps hg.1 hk hi (hlive [c] ?_)) fun zs hzs => ?_
    · exact List.prefix_cons_inj c |>.mpr List.nil_prefix
    · exact hlive (c :: zs) ((List.prefix_cons_inj c).mpr hzs)

/-- The index that an `Insert` returns. -/
def HashTable.index (h : HashTable size) (k n : String) (l : Labels) : Option (Fin size) :=
  (h.insert k n l).map (·.1)

theorem Inv.index_of_key {h : HashTable size} {names : Names} {k n : String} {l : Labels}
    {i : Fin size} (H : Inv h names) (hk : k ≠ "") (hi : (h.nodes i).key = k) :
    h.index k n l = some i := by
  rw [HashTable.index, H.insert_of_key hk hi]
  rfl

/-- After allowed calls the table stands for the names that were inserted and not deleted since. As
long as a key has a name, every `Insert` of it returns one index. -/
theorem table_is_stable (size : Nat) [NeZero size] (cs : List Call)
    (hg : Run.Guarded call Allowed (new : HashTable size) cs) :
    Stands (after size cs) (registered cs) ∧
    ∀ xs ys k n l, cs = xs ++ .insert k n l :: ys →
      (∀ zs, zs <+: ys → registered (xs ++ .insert k n l :: zs) k ≠ ∅) →
      ∃ i, (after size xs).index k n l = some i ∧
        ∀ n' l', (after size cs).index k n' l' = some i := by
  refine ⟨(inv_new.run hg).stands, ?_⟩
  rintro xs ys k n l rfl hlive
  obtain ⟨hxs, ⟨hk, hroom⟩, hys⟩ := Run.guarded_append.mp hg
  have H := inv_new.run hxs
  have H' := H.call (c := .insert k n l) ⟨hk, hroom⟩
  obtain ⟨i, hins, hslot, -⟩ := insert_of_room (n := n) (l := l) hroom
  have hi : ((call (after size xs) (.insert k n l)).nodes i).key = k := by
    simp only [call, after, hins, Option.map_some, Option.getD_some]
    exact register_key hslot
  refine ⟨i, by rw [HashTable.index, after, hins]; rfl, fun n' l' => ?_⟩
  have hkeep := H'.run_keeps hys hk hi fun zs hzs => by
    have := hlive zs hzs
    unfold registered at this
    rwa [Run.run_append] at this
  have hrun := inv_new.run hg
  rw [Run.run_append call] at hrun
  rw [after, Run.run_append]
  exact hrun.index_of_key hk hkeep

/-- Two keys with one hash; the second one leaves and comes back. -/
def returningKey : List Call :=
  [.insert "a" "x" ∅, .insert "d" "y" ∅, .insert "d" "z" ∅, .delete "d" "y" ∅, .delete "d" "z" ∅,
    .insert "d" "y" ∅, .delete "a" "w" ∅]

theorem table_is_stable_returning :
    Stands (after 3 returningKey) (registered returningKey) ∧
      (registered returningKey "d")["y"]? = some ∅ :=
  ⟨(table_is_stable 3 returningKey (by decide +kernel)).1, by decide +kernel⟩

/-- Two keys with one hash; the first one leaves. -/
def leavingKey : List Call := [.insert "a" "x" ∅, .insert "d" "y" ∅, .delete "a" "x" ∅]

/-- The second key keeps its name and gets another index and another slot. -/
theorem table_moves_key :
    (after 3 [.insert "a" "x" ∅]).index "d" "y" ∅ = some 2 ∧
    registered [.insert "a" "x" ∅, .insert "d" "y" ∅] "d" ≠ ∅ ∧ registered leavingKey "d" ≠ ∅ ∧
    (after 3 leavingKey).index "d" "z" ∅ = some 1 ∧
    (after 3 (leavingKey ++ [.insert "d" "z" ∅])).getClaim = (2, ["d", "d"]) := by
  decide +kernel

/-! ## How many slots a call tries -/

/-- The recursion of `delete` as it counts in `ofidx` the slots that were tried before, for so many
slots. -/
def HashTable.deleteFrom (h : HashTable size) (k n : String) :
    Nat → Nat → Fin size → Option (HashTable size)
  | 0, _, _ => none
  | fuel + 1, ofidx, hidx =>
    if (h.nodes hidx).key = k then some (h.unregister hidx n)
    else if ofidx + 1 = size then some h
    else h.deleteFrom k n fuel (ofidx + 1) (Probe.next hidx)

/-- Both recursions end within `size` slots, and `delete` leaves the slots of the other keys. -/
structure Ends (h : HashTable size) (k n : String) (l : Labels) : Prop where
  insert : (h.insertAt k n l size (hash k)).isSome
  delete : ∃ h', h.deleteFrom k n size 0 (hash k) = some h' ∧
    ∀ i, (h.nodes i).key ≠ k → h'.nodes i = h.nodes i

section
variable {h : HashTable size} {k n : String} {l : Labels}

/-- The counter ends the recursion when no slot is left. -/
theorem deleteFrom_eq_deleteAt {left ofidx : Nat} (hleft : ofidx + (left + 1) = size)
    (hidx : Fin size) :
    h.deleteFrom k n (left + 1) ofidx hidx = some (h.deleteAt k n (left + 1) hidx) := by
  induction left generalizing ofidx hidx with
  | zero =>
    simp only [HashTable.deleteFrom, HashTable.deleteAt, if_pos hleft]
    split <;> rfl
  | succ left ih =>
    rw [HashTable.deleteFrom, HashTable.deleteAt]
    split
    · rfl
    · rw [if_neg (by omega)]
      exact ih (by omega) _

theorem deleteFrom_eq_delete : h.deleteFrom k n size 0 (hash k) = some (h.delete k n) := by
  obtain ⟨left, hleft⟩ := Nat.exists_eq_succ_of_ne_zero (NeZero.ne size)
  have hend : h.deleteFrom k n (left + 1) 0 (hash k) =
      some (h.deleteAt k n (left + 1) (hash k)) := deleteFrom_eq_deleteAt (by omega) _
  rw [← Nat.succ_eq_add_one, ← hleft] at hend
  exact hend

theorem delete_nodes_of_key_ne {i : Fin size} (hi : (h.nodes i).key ≠ k) :
    (h.delete k n).nodes i = h.nodes i := by
  rw [HashTable.delete, deleteAt_eq_find]
  cases hfind : Probe.find (fun j => decide ((h.nodes j).key = k)) size (hash k) with
  | none => rfl
  | some j =>
    have hj : (h.nodes j).key = k := by simpa using (Probe.find_all_eq_some.mp hfind).1
    have hij : i ≠ j := by
      rintro rfl
      exact hi hj
    exact set_nodes_of_ne _ hij

/-- In a table that is full of other keys the recursion of `insert` goes on for ever. -/
theorem insertAt_eq_none (hfull : ∀ i, (h.nodes i).key ≠ "" ∧ (h.nodes i).key ≠ k) (fuel : Nat)
    (hidx : Fin size) : h.insertAt k n l fuel hidx = none := by
  induction fuel generalizing hidx with
  | zero => rfl
  | succ fuel ih =>
    rw [HashTable.insertAt, if_neg (not_or.mpr (hfull hidx))]
    exact ih _

end

/-- An `Insert` ends when some slot is empty or has the key, and then within one round through the
table. A `Delete` always does. -/
theorem ends_iff_room (size : Nat) [NeZero size] (cs : List Call) (k n : String) (l : Labels) :
    Ends (after size cs) k n l ↔
      ∃ i, ((after size cs).nodes i).key = "" ∨ ((after size cs).nodes i).key = k := by
  constructor
  · intro H
    by_contra hfull
    simp only [not_exists, not_or] at hfull
    have hins := H.insert
    rw [insertAt_eq_none hfull] at hins
    cases hins
  · intro hroom
    refine ⟨?_, (after size cs).delete k n, deleteFrom_eq_delete,
      fun i hi => delete_nodes_of_key_ne hi⟩
    obtain ⟨i, hins, -⟩ := insert_of_room (n := n) (l := l) (hroom.imp fun i hi => hi.symm)
    rw [HashTable.insert] at hins
    rw [hins]
    rfl

/-- A key that left room behind. -/
theorem ends_leaving : Ends (after 3 leavingKey) "g" "x" ∅ :=
  (ends_iff_room 3 leavingKey "g" "x" ∅).mpr ⟨1, by decide +kernel⟩

/-- A table of one slot that has another key. -/
theorem full_table_has_no_end :
    ¬Ends (after 1 [.insert "a" "x" ∅]) "b" "y" ∅ ∧
      ∀ fuel, (after 1 [.insert "a" "x" ∅]).insertAt "b" "y" ∅ fuel (hash "b") = none := by
  have hnone : ∀ fuel,
      (after 1 [.insert "a" "x" ∅]).insertAt "b" "y" ∅ fuel (hash "b") = none := fun fuel =>
    insertAt_eq_none (by decide +kernel) fuel _
  refine ⟨fun H => ?_, hnone⟩
  have hins := H.insert
  rw [hnone] at hins
  cases hins

end K8sIpam.Hash
