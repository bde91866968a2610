import K8sIpam.Lib.Run
import K8sIpam.Db.Searches

/-! # VXLAN ids

`pkg/db/vxlandb`: the id database of a range of VXLAN ids. The configuration gives the last id, the
database counts its ids. -/

namespace K8sIpam.Vxlan
open Std Atomic

abbrev VxlanId := BitVec 32

structure Config where
  offset : VxlanId
  maxEntryID : VxlanId

/-- The validation that `vxlandb` uses for setting and deleting. -/
def boundsValidation (cfg : Config) : ValidationFn 32 := fun id =>
  if id < cfg.offset then
    some ("VXLAN " ++ toString id.toNat ++ " is lower than the lowest offset " ++
      toString cfg.offset.toNat)
  else if id > cfg.maxEntryID then
    some ("VXLAN " ++ toString id.toNat ++ " is higher than the max offset " ++
      toString cfg.maxEntryID.toNat)
  else none

def setVLANValidation (cfg : Config) : ValidationFn 32 := boundsValidation cfg
def deleteVLANValidation (cfg : Config) : ValidationFn 32 := boundsValidation cfg

def dbConfig (cfg : Config) : DBConfig 32 where
  offset := cfg.offset
  maxEntries := cfg.maxEntryID - cfg.offset
  initEntries := []
  setValidation := some (setVLANValidation cfg)
  deleteValidation := some (deleteVLANValidation cfg)

/-- `vxlandb.New(cfg)`. -/
def new (cfg : Config) : DB 32 := DB.newDB (dbConfig cfg)

theorem boundsValidation_eq_none {cfg : Config} {id : VxlanId} :
    boundsValidation cfg id = none ↔ cfg.offset ≤ id ∧ id ≤ cfg.maxEntryID := by
  unfold boundsValidation
  split_ifs with hlow hhigh
  · simp [BitVec.not_le.mpr hlow]
  · simp [BitVec.not_le.mpr hhigh]
  · simp [BitVec.not_lt.mp hlow, BitVec.not_lt.mp hhigh]

/-! ## Runs -/

/-- A call that changes the database. -/
inductive Call where
  | set (e : Entry 32)
  | delete (id : VxlanId)

/-- The database after a call, which may be refused. -/
def serve (d : DB 32) : Call → DB 32
  | .set e => (DB.handler (.set e) d).2
  | .delete id => (DB.handler (.delete id) d).2

def databaseAfter (cfg : Config) (calls : List Call) : DB 32 := Run.run serve (new cfg) calls

theorem serve_cfg (d : DB 32) (call : Call) : (serve d call).cfg = d.cfg := by
  cases call with
  | set e =>
    cases h : d.set e with
    | error err => simp [serve, DB.handler, h, DB.change]
    | ok d' =>
      obtain ⟨-, rfl⟩ := DB.set_eq_ok.mp h
      simp [serve, DB.handler, h, DB.change, DB.add]
  | delete id =>
    cases h : d.delete id with
    | error err => simp [serve, DB.handler, h, DB.change]
    | ok d' =>
      obtain ⟨-, rfl⟩ := DB.delete_eq_ok.mp h
      simp [serve, DB.handler, h, DB.change]

/-- No call changes the configuration. -/
theorem databaseAfter_cfg (cfg : Config) (calls : List Call) :
    (databaseAfter cfg calls).cfg = dbConfig cfg := by
  have hkeep : ∀ (d : DB 32) (call : Call), d.cfg = dbConfig cfg → (serve d call).cfg = dbConfig cfg :=
    fun d call h => (serve_cfg d call).trans h
  exact Run.run_inv hkeep rfl

/-! ## The ids that are handed out and the ones that can be set -/

/-- The database accepts an entry under the id. -/
def Admissible (d : DB 32) (id : VxlanId) : Prop := ∀ labels, ∃ d', d.set ⟨id, labels⟩ = .ok d'

/-- The ids that can be found free are the ones that can be set and are not taken. -/
structure Coincide (d : DB 32) : Prop where
  enumerated : ∀ id, id ∈ d.freeIds ↔ Admissible d id ∧ d.has id = false
  exhausted : ∀ e, d.findFree = .error e → ∀ id, Admissible d id → d.has id = true

section
variable {cfg : Config} {d : DB 32} {id : VxlanId} (hd : d.cfg = dbConfig cfg)
include hd

theorem admissible_iff : Admissible d id ↔ cfg.offset ≤ id ∧ id ≤ cfg.maxEntryID := by
  have hset : ∀ labels, (∃ d', d.set ⟨id, labels⟩ = .ok d') ↔ boundsValidation cfg id = none := by
    intro labels
    simp only [DB.set_eq_ok, hd]
    exact ⟨fun ⟨_, h, _⟩ => h, fun h => ⟨_, h, rfl⟩⟩
  simp only [Admissible, hset, boundsValidation_eq_none, forall_const]

theorem mem_freeIds_iff (hcfg : cfg.offset ≤ cfg.maxEntryID) :
    id ∈ d.freeIds ↔ (cfg.offset ≤ id ∧ id < cfg.maxEntryID) ∧ d.has id = false := by
  have hsum : d.cfg.offset.toNat + d.cfg.maxEntries.toNat = cfg.maxEntryID.toNat := by
    rw [hd]
    simp only [dbConfig]
    bv_omega
  have hlt := cfg.maxEntryID.isLt
  have hwrap : d.cfg.offset.toNat + d.cfg.maxEntries.toNat < 2 ^ 32 := by omega
  have hv : d.Visitable := DB.visitable_of_lt hwrap (by decide) (by omega)
  rw [DB.mem_freeIds_iff (by decide) hwrap hv, DB.Free, DB.InWindow, hsum, hd]
  rfl

/-- The id with which the window should end is admissible but never visited. -/
theorem coincide_iff (hcfg : cfg.offset ≤ cfg.maxEntryID) :
    Coincide d ↔ d.has cfg.maxEntryID = true := by
  constructor
  · intro h
    by_contra hfree
    have hmem := (h.enumerated cfg.maxEntryID).mpr
      ⟨(admissible_iff hd).mpr ⟨hcfg, BitVec.le_refl _⟩, Bool.eq_false_iff.mpr hfree⟩
    exact BitVec.lt_irrefl _ ((mem_freeIds_iff hd hcfg).mp hmem).1.2
  · intro hlast
    have henum : ∀ id, id ∈ d.freeIds ↔ Admissible d id ∧ d.has id = false := by
      intro id
      rw [mem_freeIds_iff hd hcfg, admissible_iff hd]
      refine ⟨fun ⟨⟨hlow, hhigh⟩, hid⟩ => ⟨⟨hlow, BitVec.le_of_lt hhigh⟩, hid⟩,
        fun ⟨⟨hlow, hhigh⟩, hid⟩ => ⟨⟨hlow, ?_⟩, hid⟩⟩
      have hne : id ≠ cfg.maxEntryID := by
        rintro rfl
        rw [hlast] at hid
        cases hid
      exact BitVec.lt_of_le_ne hhigh hne
    refine ⟨henum, fun e he id hadm => ?_⟩
    by_contra hid
    have hmem := (henum id).mpr ⟨hadm, Bool.eq_false_iff.mpr hid⟩
    unfold DB.findFree at he
    split at he
    next hnil => rw [hnil] at hmem; cases hmem
    next => cases he

end

/-- In every run from an empty database, the ids coincide if and only if the last one is taken. -/
theorem coincide_databaseAfter_iff (cfg : Config) (calls : List Call)
    (hcfg : cfg.offset ≤ cfg.maxEntryID) :
    Coincide (databaseAfter cfg calls) ↔ (databaseAfter cfg calls).has cfg.maxEntryID = true :=
  coincide_iff (databaseAfter_cfg cfg calls) hcfg

theorem coincide_databaseAfter_last : Coincide (databaseAfter ⟨100, 65536⟩ [.set ⟨65536, ∅⟩]) :=
  (coincide_databaseAfter_iff ⟨100, 65536⟩ [.set ⟨65536, ∅⟩] (by decide)).mpr (by decide)

/-- With two ids of which the first is taken, none is found free, though the second can be set. -/
theorem not_coincide_databaseAfter :
    (databaseAfter ⟨100, 101⟩ [.set ⟨100, ∅⟩]).findFree = .error (.error "no free entry found") ∧
    Admissible (databaseAfter ⟨100, 101⟩ [.set ⟨100, ∅⟩]) 101 ∧
    ¬Coincide (databaseAfter ⟨100, 101⟩ [.set ⟨100, ∅⟩]) := by
  have hadm : Admissible (databaseAfter ⟨100, 101⟩ [.set ⟨100, ∅⟩]) 101 :=
    (admissible_iff (databaseAfter_cfg _ _)).mpr (by decide)
  have hfind : (databaseAfter ⟨100, 101⟩ [.set ⟨100, ∅⟩]).findFree =
      .error (.error "no free entry found") := by decide
  exact ⟨hfind, hadm, fun h => absurd (h.exhausted _ hfind 101 hadm) (by decide)⟩

end K8sIpam.Vxlan
