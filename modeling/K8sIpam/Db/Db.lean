import K8sIpam.Lib.Prog
import K8sIpam.Api.Labels

/-! # The id database

`pkg/db`: a database of labelled entries under unsigned ids, with an offset, a maximal number of
entries and optional validations, and `pkg/db/vlandb`, its instance for VLAN ids. Ids are
bit vectors, so that the arithmetic on `T` wraps as it does in the source. -/

namespace K8sIpam
open Std Atomic

/-- An entry of the database: `entry[T]`. -/
structure Entry (w : Nat) where
  id : BitVec w
  labels : Labels
  deriving DecidableEq

/-- A validation that is set and rejects an id gives the text of its error. -/
abbrev ValidationFn (w : Nat) := BitVec w → Option String

structure DBConfig (w : Nat) where
  offset : BitVec w
  maxEntries : BitVec w
  initEntries : List (Entry w)
  setValidation : Option (ValidationFn w)
  deleteValidation : Option (ValidationFn w)

abbrev Store (w : Nat) := ExtTreeMap (BitVec w) Labels

structure DB (w : Nat) where
  cfg : DBConfig w
  store : Store w

namespace DB

variable {w : Nat}

def add (d : DB w) (e : Entry w) : DB w := { d with store := d.store.insert e.id e.labels }

def newDB (cfg : DBConfig w) : DB w := cfg.initEntries.foldl add ⟨cfg, ∅⟩

/-- What an optional validation says about an id. -/
def validate (v : Option (ValidationFn w)) (id : BitVec w) : Option String := v.bind (· id)

def set (d : DB w) (e : Entry w) : Except Failure (DB w) :=
  match validate d.cfg.setValidation e.id with
  | some msg => .error (.error msg)
  | none => .ok (d.add e)

def delete (d : DB w) (id : BitVec w) : Except Failure (DB w) :=
  match validate d.cfg.deleteValidation id with
  | some msg => .error (.error msg)
  | none => .ok { d with store := d.store.erase id }

def has (d : DB w) (id : BitVec w) : Bool := decide (id ∈ d.store)

/-- The entries in ascending order of their ids, as `Iterate` visits them. -/
def getAll (d : DB w) : List (Entry w) := d.store.toList.map fun kv => ⟨kv.1, kv.2⟩

def getByLabel (d : DB w) (s : Selector) : List (Entry w) :=
  d.getAll.filter fun e => s.Matches e.labels

/-- `int(id)`, a 64-bit integer. -/
def toInt64 (id : BitVec w) : Int := (id.setWidth 64).toInt

/-- The ids that the loop of `IterateFree` looks at. It counts in `int` and in ascending order, so
that the ids are sorted already, unless a window of 64-bit ids wraps around. -/
def visited (d : DB w) : List (BitVec w) :=
  (List.range' 0 (toInt64 (d.cfg.offset + d.cfg.maxEntries) - toInt64 d.cfg.offset).toNat).map
    fun i : Nat => BitVec.ofInt w (toInt64 d.cfg.offset + i)

/-- The ids of the window that are not in the store, as `IterateFree` collects them. -/
def freeIds (d : DB w) : List (BitVec w) := d.visited.filter fun id => id ∉ d.store

def findFree (d : DB w) : Except Failure (Entry w) :=
  match d.freeIds with
  | [] => .error (.error "no free entry found")
  | id :: _ => .ok ⟨id, ∅⟩

/-- The last id of the window, `Offset + MaxEntries - 1`. -/
def lastId (d : DB w) : BitVec w := d.cfg.offset + d.cfg.maxEntries - 1

def tooBig (what : String) (d : DB w) (id : BitVec w) : Failure :=
  .error (what ++ " " ++ toString id.toNat ++ " is bigger then max allowed entries: " ++
    toString (d.cfg.maxEntries - 1).toNat)

def findFreeID (d : DB w) (id : BitVec w) : Except Failure (Entry w) :=
  if id > d.lastId then .error (tooBig "id" d id)
  else .ok ⟨id, d.store[id]?.getD ∅⟩

/-- The loop of `FindFreeRange` over the free ids. `prev` is the free id before the current one:
`IsConsecutive` reads it, and at the first free id there is none to read. -/
def findFreeRangeLoop (start stop : BitVec w) :
    Option (BitVec w) → List (BitVec w) → List (Entry w) → Except Failure (List (Entry w))
  | _, [], _ => .ok []
  | prev, id :: ids, entries =>
    if id < start then findFreeRangeLoop start stop (some id) ids entries
    else if id = start then findFreeRangeLoop start stop (some id) ids (entries ++ [⟨id, ∅⟩])
    else if id ≤ stop then
      match prev with
      | none => .error (.panic "index out of range [-1]")
      | some p =>
        if p = id - 1 then findFreeRangeLoop start stop (some id) ids (entries ++ [⟨id, ∅⟩])
        else .error (.error ("entry " ++ toString id.toNat ++ " in use in range: start: " ++
          toString start.toNat ++ ", end " ++ toString stop.toNat))
    else .ok entries

def findFreeRange (d : DB w) (start size : BitVec w) : Except Failure (List (Entry w)) :=
  let stop := start + size - 1
  if start ≥ d.lastId then .error (tooBig "start" d start)
  else if stop ≥ d.lastId then .error (tooBig "end" d stop)
  else findFreeRangeLoop start stop none d.freeIds []

/-- The loop of `FindFreeSize`; the counter is of the id type and wraps with it. -/
def findFreeSizeLoop (size : BitVec w) :
    BitVec w → List (BitVec w) → List (Entry w) → Except Failure (List (Entry w))
  | _, [], _ => .error (.error ("could not find free entries that fit in size " ++
      toString size.toNat))
  | i, id :: ids, entries =>
    if i + 1 ≥ size then .ok (entries ++ [⟨id, ∅⟩])
    else findFreeSizeLoop size (i + 1) ids (entries ++ [⟨id, ∅⟩])

def findFreeSize (d : DB w) (size : BitVec w) : Except Failure (List (Entry w)) :=
  if size ≥ d.lastId then .error (tooBig "size" d size)
  else findFreeSizeLoop size 0 d.freeIds []

/-! ## What the operations do to the store -/

theorem mem_getAll {d : DB w} {e : Entry w} : e ∈ d.getAll ↔ d.store[e.id]? = some e.labels := by
  simp only [getAll, List.mem_map, Prod.exists, ExtTreeMap.mem_toList_iff_getElem?_eq_some]
  constructor
  · rintro ⟨k, v, h, rfl⟩
    exact h
  · exact fun h => ⟨e.id, e.labels, h, rfl⟩

theorem mem_getByLabel {d : DB w} {s : Selector} {e : Entry w} :
    e ∈ d.getByLabel s ↔ d.store[e.id]? = some e.labels ∧ s.Matches e.labels = true := by
  rw [getByLabel, List.mem_filter, mem_getAll]

theorem nodup_getByLabel (d : DB w) (s : Selector) : (d.getByLabel s).Nodup := by
  refine List.Nodup.filter _ (List.pairwise_map.mpr ?_)
  refine ExtTreeMap.distinct_keys_toList.imp fun hne heq => hne ?_
  rw [(Entry.mk.inj heq).1]
  exact ReflCmp.compare_self

theorem getByLabel_eq_nil {d : DB w} {s : Selector} :
    d.getByLabel s = [] ↔ ∀ (id : BitVec w) l, d.store[id]? = some l → s.Matches l = false := by
  rw [List.eq_nil_iff_forall_not_mem]
  constructor
  · intro h id l hl
    have := h ⟨id, l⟩
    simpa [mem_getByLabel, hl] using this
  · intro h e he
    obtain ⟨he, hm⟩ := mem_getByLabel.mp he
    rw [h _ _ he] at hm
    cases hm

theorem has_iff {d : DB w} {id : BitVec w} : d.has id = true ↔ d.store[id]?.isSome = true := by
  rw [has, decide_eq_true_eq, ExtTreeMap.mem_iff_isSome_getElem?]

theorem add_getElem? (d : DB w) (e : Entry w) (id : BitVec w) :
    (d.add e).store[id]? = if e.id = id then some e.labels else d.store[id]? := by
  simp [add, ExtTreeMap.getElem?_insert]

theorem set_eq_ok {d d' : DB w} {e : Entry w} :
    d.set e = .ok d' ↔ validate d.cfg.setValidation e.id = none ∧ d' = d.add e := by
  unfold set
  cases validate d.cfg.setValidation e.id with
  | none => simp [eq_comm]
  | some msg => simp

theorem delete_eq_ok {d d' : DB w} {id : BitVec w} :
    d.delete id = .ok d' ↔ validate d.cfg.deleteValidation id = none ∧
      d' = { d with store := d.store.erase id } := by
  unfold delete
  cases validate d.cfg.deleteValidation id with
  | none => simp [eq_comm]
  | some msg => simp

theorem mem_freeIds {d : DB w} {id : BitVec w} (h : id ∈ d.freeIds) : d.store[id]? = none := by
  have h := (List.mem_filter.mp h).2
  rw [decide_eq_true_eq, ExtTreeMap.mem_iff_isSome_getElem?] at h
  simpa using h

/-- The id that `FindFree` hands out is not in the store. -/
theorem findFree_eq_ok {d : DB w} {e : Entry w} (h : d.findFree = .ok e) :
    e.id ∈ d.freeIds ∧ d.store[e.id]? = none := by
  unfold findFree at h
  split at h
  · cases h
  · rename_i id ids hids
    cases h
    have hmem : id ∈ d.freeIds := hids ▸ List.mem_cons_self
    exact ⟨hmem, mem_freeIds hmem⟩

theorem findFreeID_eq_ok {d : DB w} {id : BitVec w} {e : Entry w} (h : d.findFreeID id = .ok e) :
    e.id = id ∧ id ≤ d.lastId := by
  unfold findFreeID at h
  split at h <;> cases h
  exact ⟨rfl, BitVec.not_lt.mp ‹_›⟩

end DB

/-! ## The database as a shared object

Each call is one atomic operation here. `Set`, `Delete`, `GetByLabel` and the searches take the lock
of the database around their reading or writing of the store, as `Db.Locks` has it; `FindFreeID`
takes none and reads the store once or twice. -/

inductive DbOp (w : Nat) where
  | getByLabel (selector : Selector)
  | findFree
  | findFreeID (id : BitVec w)
  | findFreeRange (min size : BitVec w)
  | findFreeSize (size : BitVec w)
  | set (e : Entry w)
  | delete (id : BitVec w)

abbrev DbOp.Resp {w : Nat} : DbOp w → Type
  | .getByLabel _ => List (Entry w)
  | .findFree | .findFreeID _ => Except Failure (Entry w)
  | .findFreeRange _ _ | .findFreeSize _ => Except Failure (List (Entry w))
  | .set _ | .delete _ => Except Failure Unit

abbrev dbSig (w : Nat) : Sig := ⟨DbOp w, DbOp.Resp⟩

/-- A change of the database, with the answer of the method that makes it: a refused change
leaves the database as it is. -/
def DB.change {w : Nat} (d : DB w) : Except Failure (DB w) → Except Failure Unit × DB w
  | .ok d' => (.ok (), d')
  | .error e => (.error e, d)

def DB.handler {w : Nat} : Handler (dbSig w) (DB w)
  | .getByLabel s, d => (d.getByLabel s, d)
  | .findFree, d => (d.findFree, d)
  | .findFreeID id, d => (d.findFreeID id, d)
  | .findFreeRange min size, d => (d.findFreeRange min size, d)
  | .findFreeSize size, d => (d.findFreeSize size, d)
  | .set e, d => d.change (d.set e)
  | .delete id, d => d.change (d.delete id)

/-- A program that uses a database. -/
abbrev DbProg (w : Nat) := Prog (dbSig w) Failure

namespace DbProg

variable {w : Nat} {α : Type}

def getByLabel (s : Selector) : DbProg w (List (Entry w)) := .op (.getByLabel s) .ret
def findFree : DbProg w (Entry w) := .op .findFree Prog.lift
def findFreeID (id : BitVec w) : DbProg w (Entry w) := .op (.findFreeID id) Prog.lift
def findFreeRange (min size : BitVec w) : DbProg w (List (Entry w)) :=
  .op (.findFreeRange min size) Prog.lift
def findFreeSize (size : BitVec w) : DbProg w (List (Entry w)) := .op (.findFreeSize size) Prog.lift
def set (e : Entry w) : DbProg w Unit := .op (.set e) Prog.lift
def delete (id : BitVec w) : DbProg w Unit := .op (.delete id) Prog.lift

section
variable (d : DB w)

@[simp] theorem getByLabel_run (s : Selector) :
    (getByLabel s).run DB.handler d = (.ok (d.getByLabel s), d) := rfl

@[simp] theorem findFree_run : (findFree (w := w)).run DB.handler d = (d.findFree, d) :=
  Prog.run_lift _ _ _

@[simp] theorem findFreeID_run (id : BitVec w) :
    (findFreeID id).run DB.handler d = (d.findFreeID id, d) := Prog.run_lift _ _ _

@[simp] theorem findFreeRange_run (min size : BitVec w) :
    (findFreeRange min size).run DB.handler d = (d.findFreeRange min size, d) :=
  Prog.run_lift _ _ _

@[simp] theorem findFreeSize_run (size : BitVec w) :
    (findFreeSize size).run DB.handler d = (d.findFreeSize size, d) := Prog.run_lift _ _ _

@[simp] theorem set_run (e : Entry w) : (set e).run DB.handler d = d.change (d.set e) :=
  Prog.run_lift _ _ _

@[simp] theorem delete_run (id : BitVec w) :
    (delete id).run DB.handler d = d.change (d.delete id) := Prog.run_lift _ _ _

end
end DbProg

/-! ## VLAN ids -/

namespace Vlan

abbrev VlanId := BitVec 16

instance transOrdVlanId : Std.TransOrd VlanId := inferInstanceAs (Std.TransOrd (BitVec 16))

/-- The validation that `vlandb` uses for setting (`verb` "added to") and deleting. -/
def reservedValidation (verb : String) : ValidationFn 16 := fun id =>
  if id = 0 then some ("VLAN 0 is the untagged VLAN, cannot be " ++ verb ++ " the database")
  else if id = 1 then some ("VLAN 1 is the default VLAN, cannot be " ++ verb ++ " the database")
  else if id = 4095 then some ("VLAN 4095 is reserved, cannot be " ++ verb ++ " the database")
  else none

def setVLANValidation : ValidationFn 16 := reservedValidation "added to"
def deleteVLANValidation : ValidationFn 16 := reservedValidation "deleted from"

/-- The ids that a VLAN database holds from the start. -/
def Reserved (id : VlanId) : Prop := id = 0 ∨ id = 1 ∨ id = 4095

instance (id : VlanId) : Decidable (Reserved id) := by unfold Reserved; infer_instance

theorem reservedValidation_eq_none {verb : String} {id : VlanId} :
    reservedValidation verb id = none ↔ ¬Reserved id := by
  unfold reservedValidation Reserved
  split_ifs <;> simp_all

def reservedLabels (type : String) : Labels := (∅ : Labels).insert "type" type |>.insert "status" "reserved"

def cfg : DBConfig 16 where
  offset := 0
  maxEntries := 4096
  initEntries := [⟨0, reservedLabels "untagged"⟩, ⟨1, reservedLabels "default"⟩,
    ⟨4095, reservedLabels "reserved"⟩]
  setValidation := some setVLANValidation
  deleteValidation := some deleteVLANValidation

/-- `vlandb.New()`. -/
def new : DB 16 := DB.newDB cfg

/-- A database with the configuration of `vlandb.New()`; no operation changes it. -/
def IsVlanDB (d : DB 16) : Prop := d.cfg = cfg

theorem new_isVlanDB : IsVlanDB new := rfl

theorem IsVlanDB.set_eq_ok {d d' : DB 16} (hd : IsVlanDB d) {e : Entry 16} :
    d.set e = .ok d' ↔ ¬Reserved e.id ∧ d' = d.add e := by
  rw [DB.set_eq_ok, hd]
  exact and_congr_left' reservedValidation_eq_none

theorem IsVlanDB.delete_eq_ok {d d' : DB 16} (hd : IsVlanDB d) {id : VlanId} :
    d.delete id = .ok d' ↔ ¬Reserved id ∧ d' = { d with store := d.store.erase id } := by
  rw [DB.delete_eq_ok, hd]
  exact and_congr_left' reservedValidation_eq_none

theorem IsVlanDB.lastId {d : DB 16} (hd : IsVlanDB d) : d.lastId = 4095 := by
  simp only [DB.lastId, IsVlanDB] at *
  rw [hd]; rfl

end Vlan
end K8sIpam
