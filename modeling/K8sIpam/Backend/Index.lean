import K8sIpam.Vlan.Storage

/-! # Requests on one index at the same time

`CreateIndex`, `DeleteIndex`, `Claim` and `DeleteClaim` on one cache id as programs: each operation
of the cache, each restore and each claim is one atomic step. The cache is keyed by the id only; the
tables are told apart by the number they get when they are allocated, and what is restored and
handed out is written down under that number. -/

namespace K8sIpam.Backend.Index
open Atomic

variable {T Text Lists Req Resp α ι : Type}

/-! ## Instances -/

/-- A table with its identity. -/
structure Instance (T : Type) where
  id : Nat
  table : T

def onTable (f : T → Except Failure α × T) (t : Instance T) : Except Failure α × Instance T :=
  let (r, table) := f t.table
  (r, ⟨t.id, table⟩)

/-- The backend over tables with an identity; the next table gets the number `n`. -/
def onInstances (app : App T Text Lists Req Resp) (n : Nat) :
    App (Instance T) Text Lists Req Resp where
  cmPrefix := app.cmPrefix
  newTable := ⟨n, app.newTable⟩
  getData t := app.getData t.table
  restoreData ref lists errs data := onTable (app.restoreData ref lists errs data)
  cacheID := app.cacheID
  claim req := onTable (app.claim req)
  deleteClaim req := onTable (app.deleteClaim req)

/-- `RestoreData` writes into an instance, a restore of an instance has completed, and the cache
hands an instance out to a claim. -/
inductive Event where
  | restoring (id : Nat)
  | restored (id : Nat)
  | handedOut (id : Nat)
  deriving DecidableEq

def Event.instance : Event → Nat
  | .restoring id | .restored id | .handedOut id => id

/-- The memory of the process, the ConfigMaps, and the events so far, the latest first. -/
structure Mem (T Text : Type) where
  world : World (Instance T) Text
  allocated : Nat
  events : List Event

/-- An instance is handed out only after a restore of it has completed, and it is not restored
after it was handed out. -/
def Orderly : List Event → Prop
  | [] => True
  | .handedOut id :: past => .restored id ∈ past ∧ Orderly past
  | .restoring id :: past => .handedOut id ∉ past ∧ Orderly past
  | .restored _ :: past => Orderly past

instance decidableOrderly : (es : List Event) → Decidable (Orderly es)
  | [] => .isTrue trivial
  | .handedOut id :: past =>
    have := decidableOrderly past
    inferInstanceAs (Decidable (.restored id ∈ past ∧ Orderly past))
  | .restoring id :: past =>
    have := decidableOrderly past
    inferInstanceAs (Decidable (.handedOut id ∉ past ∧ Orderly past))
  | .restored _ :: past => decidableOrderly past

/-! ## Operations -/

inductive Op (Lists Req : Type) where
  | create
  | isInitialized
  | restore (errs : ApiErrors) (lists : Lists)
  | setInitialized
  | delete
  | destroy (errs : ApiErrors)
  | claim (errs : ApiErrors) (req : Req)
  | deleteClaim (errs : ApiErrors) (req : Req)

def sig (Lists Req Resp : Type) : Sig where
  Op := Op Lists Req
  Resp
    | .create | .delete => Unit
    | .isInitialized => Bool
    | .restore .. | .setInitialized | .destroy _ | .deleteClaim .. => Except Failure Unit
    | .claim .. => Except Failure Resp

section
variable (app : App T Text Lists Req Resp) (ref : ObjectReference)

/-- What a restore with the given result does to the instance in the cache. Without a ConfigMap
there is nothing to write. -/
def restoreEvents (errs : ApiErrors) (w : World (Instance T) Text) (r : Except Failure Unit) :
    List Event :=
  match w.cache.get ref true with
  | .error _ => []
  | .ok t =>
    (match r with
      | .ok () => [.restored t.id]
      | .error _ => []) ++
    match w.getConfigMap errs (cmName app ref) with
    | .notFound => []
    | .found _ | .failed _ => [.restoring t.id]

/-- A request that begins with `cache.Get(id, false)`. -/
def serve (f : World (Instance T) Text → Except Failure α × World (Instance T) Text)
    (m : Mem T Text) : Except Failure α × Mem T Text :=
  let events := match m.world.cache.get ref false with
    | .error _ => []
    | .ok t => [Event.handedOut t.id]
  let (r, w) := f m.world
  (r, { m with world := w, events := events ++ m.events })

def handler : Handler (sig Lists Req Resp) (Mem T Text)
  | .create, m =>
    ((), { m with world.cache := m.world.cache.create ref ⟨m.allocated, app.newTable⟩
                  allocated := m.allocated + 1 })
  | .isInitialized, m => (m.world.cache.isInitialized ref, m)
  | .restore errs lists, m =>
    let (r, w) := restore (onInstances app m.allocated) errs ref lists m.world
    (r, { m with world := w, events := restoreEvents app ref errs m.world r ++ m.events })
  | .setInitialized, m =>
    match m.world.cache.setInitialized ref with
    | .error e => (.error e, m)
    | .ok c => (.ok (), { m with world.cache := c })
  | .delete, m => ((), { m with world.cache := m.world.cache.delete ref })
  | .destroy errs, m =>
    let (r, w) := destroy (onInstances app m.allocated) errs ref m.world
    (r, { m with world := w })
  | .claim errs req, m =>
    serve ref (change (onInstances app m.allocated) errs ref (onTable (app.claim req))) m
  | .deleteClaim errs req, m =>
    serve ref (change (onInstances app m.allocated) errs ref (onTable (app.deleteClaim req))) m

end

/-! ## Requests -/

/-- A program that uses the cache and the storage of the index. -/
abbrev IndexProg (Lists Req Resp : Type) := Prog (sig Lists Req Resp) Failure

section
variable (errs : ApiErrors) (lists : Lists) (req : Req)

namespace IndexProg

def create : IndexProg Lists Req Resp Unit := .op .create .ret
def isInitialized : IndexProg Lists Req Resp Bool := .op .isInitialized .ret
def restore : IndexProg Lists Req Resp Unit := .op (.restore errs lists) Prog.lift
def setInitialized : IndexProg Lists Req Resp Unit := .op .setInitialized Prog.lift
def delete : IndexProg Lists Req Resp Unit := .op .delete .ret
def destroy : IndexProg Lists Req Resp Unit := .op (.destroy errs) Prog.lift
def claim : IndexProg Lists Req Resp Resp := .op (.claim errs req) Prog.lift
def deleteClaim : IndexProg Lists Req Resp Unit := .op (.deleteClaim errs req) Prog.lift

end IndexProg

def restoreIndex : IndexProg Lists Req Resp Unit := do
  IndexProg.restore errs lists
  IndexProg.setInitialized

def ensureInitialized : IndexProg Lists Req Resp Unit := do
  let initialized ← IndexProg.isInitialized
  match initialized with
  | true => return
  | false => restoreIndex errs lists

/-- The first read of the flag, which is only logged, is left out. -/
def createIndex : IndexProg Lists Req Resp Unit := do
  IndexProg.create
  ensureInitialized errs lists

def deleteIndex : IndexProg Lists Req Resp Unit := do
  IndexProg.delete
  IndexProg.destroy errs

/-- The answer of a claim is not looked at here. -/
def claimEntry : IndexProg Lists Req Resp Unit := do
  let _ ← IndexProg.claim errs req
  return

end

inductive Request (Lists Req : Type) where
  | createIndex (errs : ApiErrors) (lists : Lists)
  | deleteIndex (errs : ApiErrors)
  | claim (errs : ApiErrors) (req : Req)
  | deleteClaim (errs : ApiErrors) (req : Req)

def Request.prog : Request Lists Req → IndexProg Lists Req Resp Unit
  | .createIndex errs lists => Index.createIndex errs lists
  | .deleteIndex errs => Index.deleteIndex errs
  | .claim errs req => claimEntry errs req
  | .deleteClaim errs req => IndexProg.deleteClaim errs req

abbrev IndexConf (T Text Lists Req Resp ι : Type) :=
  Conf (sig Lists Req Resp) (Mem T Text) ι Failure Unit

/-- An empty cache, and requests that have not begun. -/
def start (configMaps : ObjectReference → Option (ConfigMap Text)) (reqs : ι → Request Lists Req) :
    IndexConf T Text Lists Req Resp ι where
  shared := ⟨⟨fun _ => none, configMaps⟩, 0, []⟩
  proc i := (reqs i).prog

/-! ## When an index may be created -/

/-- The operations that a `CreateIndex` performs after it has found the index not initialized. -/
def Op.restores : Op Lists Req → Bool
  | .restore .. | .setInitialized => true
  | _ => false

/-- The operations that a `CreateIndex` performs after its `Create`. -/
def Op.initializes : Op Lists Req → Bool
  | .isInitialized | .restore .. | .setInitialized => true
  | _ => false

def Op.creates : Op Lists Req → Bool
  | .create => true
  | _ => false

section
variable (ref : ObjectReference)

/-- A `CreateIndex` is past its `Create`, and it has found the index not initialized or is about
to. -/
def Restoring (c : IndexConf T Text Lists Req Resp ι) (i : ι) : Bool :=
  match (c.proc i).next with
  | some .isInitialized => !c.shared.world.cache.isInitialized ref
  | some o => Op.restores o
  | none => false

/-- No index is created while another request is restoring it. -/
def CreatesAlone (c : IndexConf T Text Lists Req Resp ι) (i : ι) : Prop :=
  (c.proc i).next.any Op.creates = true → ∀ j, j ≠ i → Restoring ref c j = false

instance [Fintype ι] [DecidableEq ι] (c : IndexConf T Text Lists Req Resp ι) (i : ι) :
    Decidable (CreatesAlone ref c i) := by
  unfold CreatesAlone
  infer_instance

/-! ## What an operation does -/

/-- The flag and the identity of the instance in the cache. -/
def Mem.slot (m : Mem T Text) : Option (Bool × Nat) :=
  (m.world.cache ref).map fun ctx => (ctx.initialized, ctx.table.id)

end

section
variable {ref : ObjectReference} {m : Mem T Text}

theorem slot_some {b : Bool} {id : Nat} (h : m.slot ref = some (b, id)) :
    ∃ t, m.world.cache.get ref true = .ok t ∧ t.id = id := by
  obtain ⟨ctx, hctx, heq⟩ := Option.map_eq_some_iff.mp h
  cases heq
  exact ⟨ctx.table, Cache.get_eq_ok.mpr ⟨ctx, hctx, .inl rfl, rfl⟩, rfl⟩

theorem slot_of_get {t : Instance T} (h : m.world.cache.get ref true = .ok t) :
    ∃ b, m.slot ref = some (b, t.id) := by
  obtain ⟨ctx, hctx, -, rfl⟩ := Cache.get_eq_ok.mp h
  unfold Mem.slot
  rw [hctx]
  exact ⟨ctx.initialized, rfl⟩

theorem slot_put {c : Cache (Instance T)} {b : Bool} {t : Instance T} (h : c.get ref b = .ok t)
    (f : T → Except Failure α × T) :
    (c.put ref (onTable f t).2 ref).map (fun ctx => (ctx.initialized, ctx.table.id)) =
      (c ref).map fun ctx => (ctx.initialized, ctx.table.id) := by
  obtain ⟨ctx, hctx, -, rfl⟩ := Cache.get_eq_ok.mp h
  rw [Cache.put, Function.update_self, hctx]
  rfl

end

section
variable (app : App T Text Lists Req Resp) (ref : ObjectReference) (m : Mem T Text)

theorem isInitialized_eq : m.world.cache.isInitialized ref = (m.slot ref).any Prod.fst := by
  unfold Cache.isInitialized Mem.slot
  cases m.world.cache ref <;> rfl

theorem slot_create :
    Mem.slot ref (handler app ref .create m).2 = some ((m.slot ref).getD (false, m.allocated)) := by
  unfold Mem.slot
  dsimp only [handler]
  unfold Cache.create
  cases h : m.world.cache ref with
  | none => simp
  | some ctx => simp [h]

theorem slot_delete : Mem.slot ref (handler app ref .delete m).2 = none := by
  simp [Mem.slot, handler, Cache.delete]

theorem setInitialized_spec :
    (m.slot ref = none ∧ (∃ e, (handler app ref .setInitialized m).1 = .error e) ∧
      (handler app ref .setInitialized m).2 = m) ∨
    ∃ b id, m.slot ref = some (b, id) ∧ (handler app ref .setInitialized m).1 = .ok () ∧
      Mem.slot ref (handler app ref .setInitialized m).2 = some (true, id) ∧
      (handler app ref .setInitialized m).2.allocated = m.allocated ∧
      (handler app ref .setInitialized m).2.events = m.events := by
  unfold Mem.slot
  dsimp only [handler]
  unfold Cache.setInitialized
  cases h : m.world.cache ref with
  | none => exact .inl ⟨rfl, ⟨_, rfl⟩, rfl⟩
  | some ctx => exact .inr ⟨ctx.initialized, ctx.table.id, rfl, rfl, by simp, rfl, rfl⟩

theorem slot_change (errs : ApiErrors) (f : T → Except Failure α × T) :
    ((change (onInstances app m.allocated) errs ref (onTable f) m.world).2.cache ref).map
        (fun ctx => (ctx.initialized, ctx.table.id)) = m.slot ref := by
  rcases change_cases (onInstances app m.allocated) errs ref (onTable f) m.world with
    ⟨e, he⟩ | ⟨t, hget, hcache, -⟩
  · rw [he]
    rfl
  · rw [hcache]
    exact slot_put hget f

theorem slot_restore (errs : ApiErrors) (lists : Lists) :
    Mem.slot ref (handler app ref (.restore errs lists) m).2 = m.slot ref := by
  unfold Mem.slot
  dsimp only [handler]
  unfold restore
  split
  · dsimp only
    rw [createConfigMap_cache]
  all_goals
    unfold restoreFrom
    split
    · rfl
    · next hget => exact slot_put hget _

/-- A restore writes down the instance in the cache and no other. -/
theorem restoreEvents_spec (errs : ApiErrors) (r : Except Failure Unit) :
    (∀ e ∈ restoreEvents app ref errs m.world r, ∃ b id, m.slot ref = some (b, id) ∧
      (e = .restored id ∨ e = .restoring id)) ∧
    (r = .ok () → ∀ b id, m.slot ref = some (b, id) →
      .restored id ∈ restoreEvents app ref errs m.world r) := by
  unfold restoreEvents
  constructor
  · intro e he
    split at he
    · cases he
    · next t hget =>
      obtain ⟨b, hslot⟩ := slot_of_get hget
      refine ⟨b, t.id, hslot, ?_⟩
      rcases List.mem_append.mp he with he | he
      · split at he
        · exact .inl (List.mem_singleton.mp he)
        · cases he
      · split at he
        · cases he
        all_goals exact .inr (List.mem_singleton.mp he)
  · rintro rfl b id hslot
    obtain ⟨t, hget, rfl⟩ := slot_some hslot
    rw [hget]
    exact List.mem_append_left _ (List.mem_singleton_self _)

/-- A claim is served with the instance in the cache if that is initialized. -/
theorem serve_spec (errs : ApiErrors) (f : T → Except Failure α × T) :
    Mem.slot ref (serve ref (change (onInstances app m.allocated) errs ref (onTable f)) m).2 =
      m.slot ref ∧
    (serve ref (change (onInstances app m.allocated) errs ref (onTable f)) m).2.allocated =
      m.allocated ∧
    (serve ref (change (onInstances app m.allocated) errs ref (onTable f)) m).2.events =
      (match m.slot ref with
        | some (true, id) => [.handedOut id]
        | _ => []) ++ m.events := by
  refine ⟨slot_change app ref m errs f, rfl, ?_⟩
  unfold serve Mem.slot Cache.get
  dsimp only
  cases hc : m.world.cache ref with
  | none => rfl
  | some ctx =>
    obtain ⟨_ | _, t⟩ := ctx
    · rfl
    · rfl

end

/-! ## Orderly restores -/

theorem Orderly.restore {es events : List Event} (h : Orderly events)
    (hes : ∀ e ∈ es, ∃ id, .handedOut id ∉ events ∧ (e = .restored id ∨ e = .restoring id)) :
    Orderly (es ++ events) := by
  induction es with
  | nil => exact h
  | cons e es ih =>
    have hes' := fun e' he' => hes e' (List.mem_cons_of_mem _ he')
    obtain ⟨id, hid, rfl | rfl⟩ := hes e List.mem_cons_self
    · exact ih hes'
    · refine ⟨List.not_mem_append (fun hmem => ?_) hid, ih hes'⟩
      obtain ⟨_, _, heq | heq⟩ := hes' _ hmem
      · cases heq
      · cases heq

/-! ## The invariant -/

/-- What a request has still to do. -/
inductive Rest : IndexProg Lists Req Resp Unit → Prop where
  | create (errs lists) : Rest (createIndex errs lists)
  | check (errs lists) : Rest (ensureInitialized errs lists)
  | restore (errs lists) : Rest (restoreIndex errs lists)
  | finish : Rest IndexProg.setInitialized
  | delete (errs) : Rest (deleteIndex errs)
  | destroy (errs) : Rest (IndexProg.destroy errs)
  | claim (errs req) : Rest (claimEntry errs req)
  | deleteClaim (errs req) : Rest (IndexProg.deleteClaim errs req)
  | ret (u) : Rest (.ret u)
  | fail (e) : Rest (.fail e)

/-- An instance that is served has been restored, and nobody is restoring. One that is not served
has not been handed out, and at most one request is initializing it. -/
structure Inv (ref : ObjectReference) (c : IndexConf T Text Lists Req Resp ι) : Prop where
  rest : ∀ i, Rest (c.proc i)
  fresh : ∀ e ∈ c.shared.events, e.instance < c.shared.allocated
  slot_lt : ∀ b id, c.shared.slot ref = some (b, id) → id < c.shared.allocated
  orderly : Orderly c.shared.events
  served : ∀ id, c.shared.slot ref = some (true, id) →
    .restored id ∈ c.shared.events ∧ ∀ i, (c.proc i).next.any Op.restores = false
  waiting : ∀ id, c.shared.slot ref = some (false, id) →
    .handedOut id ∉ c.shared.events ∧
    (∀ i j, (c.proc i).next.any Op.initializes = true →
      (c.proc j).next.any Op.initializes = true → i = j) ∧
    ∀ i, (c.proc i).next = some .setInitialized → .restored id ∈ c.shared.events

theorem initializes_of_restores {o : Option (Op Lists Req)} (h : o.any Op.restores = true) :
    o.any Op.initializes = true := by
  rcases o with _ | o
  · cases h
  · cases o <;> first | rfl | cases h

namespace Inv

section
variable [DecidableEq ι] {ref : ObjectReference} {c : IndexConf T Text Lists Req Resp ι} {i : ι}
  {p : IndexProg Lists Req Resp Unit}

/-- A request goes on, and begins neither to initialize nor, against the flag, to restore. -/
theorem goOn (hc : Inv ref c) (hrest : Rest p)
    (hinit : p.next.any Op.initializes = true → (c.proc i).next.any Op.initializes = true)
    (hserved : p.next.any Op.restores = true → ∀ id, c.shared.slot ref ≠ some (true, id))
    (hfinish : p.next = some .setInitialized → ∀ id, c.shared.slot ref = some (false, id) →
      .restored id ∈ c.shared.events) :
    Inv ref ⟨c.shared, Function.update c.proc i p⟩ where
  rest := (Function.forall_update_iff c.proc fun _ p => Rest p).mpr ⟨hrest, fun j _ => hc.rest j⟩
  fresh := hc.fresh
  slot_lt := hc.slot_lt
  orderly := hc.orderly
  served id hslot := by
    obtain ⟨hrestored, hnone⟩ := hc.served id hslot
    refine ⟨hrestored, (Function.forall_update_iff c.proc fun _ p =>
      p.next.any Op.restores = false).mpr ⟨?_, fun j _ => hnone j⟩⟩
    exact Bool.eq_false_iff.mpr fun h => hserved h id hslot
  waiting id hslot := by
    obtain ⟨hout, hone, hfin⟩ := hc.waiting id hslot
    have hbefore : ∀ j, (Function.update c.proc i p j).next.any Op.initializes = true →
        (c.proc j).next.any Op.initializes = true :=
      (Function.forall_update_iff c.proc fun j p => p.next.any Op.initializes = true →
        (c.proc j).next.any Op.initializes = true).mpr ⟨hinit, fun j _ h => h⟩
    refine ⟨hout, fun j k hj hk => hone j k (hbefore j hj) (hbefore k hk), ?_⟩
    exact (Function.forall_update_iff c.proc fun _ p => p.next = some .setInitialized → _).mpr
      ⟨fun h => hfinish h id hslot, fun j _ => hfin j⟩

/-- A request that has nothing to do with initializing goes on. -/
theorem goOn_idle (hc : Inv ref c) (hrest : Rest p) (hidle : p.next.any Op.initializes = false) :
    Inv ref ⟨c.shared, Function.update c.proc i p⟩ := by
  refine hc.goOn hrest (fun h => ?_) (fun h => ?_) fun h => ?_
  · rw [hidle] at h
    cases h
  · rw [initializes_of_restores h] at hidle
    cases hidle
  · rw [h] at hidle
    cases hidle

theorem goOn_lift (hc : Inv ref c) (r : Except Failure Unit) :
    Inv ref ⟨c.shared, Function.update c.proc i (Prog.lift r)⟩ := by
  cases r with
  | ok u => exact hc.goOn_idle (.ret u) rfl
  | error e => exact hc.goOn_idle (.fail e) rfl

theorem goOn_lift_ret (hc : Inv ref c) (r : Except Failure Resp) :
    Inv ref ⟨c.shared, Function.update c.proc i (Prog.lift r >>= fun _ => .ret ())⟩ := by
  cases r with
  | ok a => exact hc.goOn_idle (.ret ()) rfl
  | error e => exact hc.goOn_idle (.fail e) rfl

end

section
variable (app : App T Text Lists Req Resp) {ref : ObjectReference}
  {c : IndexConf T Text Lists Req Resp ι} {i : ι} {m : Mem T Text}

/-- Events of the instance in the cache are written down. -/
theorem log (hc : Inv ref c) {es : List Event} (hslot : m.slot ref = c.shared.slot ref)
    (halloc : m.allocated = c.shared.allocated) (hevents : m.events = es ++ c.shared.events)
    (hes : ∀ e ∈ es, ∃ b, c.shared.slot ref = some (b, e.instance))
    (horderly : Orderly m.events)
    (hout : ∀ id, c.shared.slot ref = some (false, id) → .handedOut id ∉ es) :
    Inv ref ⟨m, c.proc⟩ := by
  have hmono : ∀ e ∈ c.shared.events, e ∈ m.events := fun e he => by
    rw [hevents]
    exact List.mem_append_right _ he
  refine ⟨hc.rest, fun e he => ?_, fun b id h => ?_, horderly, fun id h => ?_, fun id h => ?_⟩
  · rw [halloc]
    rw [hevents] at he
    rcases List.mem_append.mp he with he | he
    · obtain ⟨b, hb⟩ := hes e he
      exact hc.slot_lt b _ hb
    · exact hc.fresh e he
  · rw [halloc]
    exact hc.slot_lt b id (hslot.symm.trans h)
  · obtain ⟨hrestored, hnone⟩ := hc.served id (hslot.symm.trans h)
    exact ⟨hmono _ hrestored, hnone⟩
  · obtain ⟨hnot, hone, hfin⟩ := hc.waiting id (hslot.symm.trans h)
    refine ⟨?_, hone, fun i hi => hmono _ (hfin i hi)⟩
    rw [hevents]
    exact List.not_mem_append (hout id (hslot.symm.trans h)) hnot

/-- A claim is served. -/
theorem serve (hc : Inv ref c) (errs : ApiErrors) (f : T → Except Failure α × T) :
    Inv ref ⟨(Index.serve ref (change (onInstances app c.shared.allocated) errs ref (onTable f))
      c.shared).2, c.proc⟩ := by
  obtain ⟨hslot, halloc, hevents⟩ := serve_spec app ref c.shared errs f
  rcases hs : c.shared.slot ref with _ | ⟨_ | _, id⟩
  all_goals rw [hs] at hevents
  · refine hc.log hslot halloc hevents (by simp) (hevents ▸ hc.orderly) (by simp)
  · refine hc.log hslot halloc hevents (by simp) (hevents ▸ hc.orderly) (by simp)
  · refine hc.log hslot halloc hevents ?_ (hevents ▸ ⟨(hc.served id hs).1, hc.orderly⟩) ?_
    · intro e he
      rw [List.mem_singleton.mp he]
      exact ⟨true, hs⟩
    · intro id' h
      cases hs.symm.trans h

/-- The request that is restoring restores the instance in the cache. -/
theorem restore (hc : Inv ref c) (hi : (c.proc i).next.any Op.restores = true)
    (errs : ApiErrors) (lists : Lists) :
    Inv ref ⟨(handler app ref (.restore errs lists) c.shared).2, c.proc⟩ := by
  obtain ⟨hmem, -⟩ := restoreEvents_spec app ref c.shared errs
    (Backend.restore (onInstances app c.shared.allocated) errs ref lists c.shared.world).1
  have hnot : ∀ id, c.shared.slot ref ≠ some (true, id) := fun id h => by
    rw [(hc.served id h).2 i] at hi
    cases hi
  refine hc.log (slot_restore app ref c.shared errs lists) rfl rfl ?_ ?_ ?_
  · intro e he
    obtain ⟨b, id, hslot, rfl | rfl⟩ := hmem e he
    · exact ⟨b, hslot⟩
    · exact ⟨b, hslot⟩
  · refine hc.orderly.restore fun e he => ?_
    obtain ⟨b, id, hslot, hor⟩ := hmem e he
    cases b with
    | true => exact absurd hslot (hnot id)
    | false => exact ⟨id, (hc.waiting id hslot).1, hor⟩
  · intro id _ he
    obtain ⟨_, _, _, h | h⟩ := hmem _ he
    · cases h
    · cases h

theorem destroy (hc : Inv ref c) (errs : ApiErrors) :
    Inv ref ⟨(handler app ref (.destroy errs) c.shared).2, c.proc⟩ := by
  have hslot : Mem.slot ref (handler app ref (.destroy errs) c.shared).2 = c.shared.slot ref := by
    unfold Mem.slot
    dsimp only [handler, Backend.destroy]
    rw [deleteConfigMap_cache]
  have hevents : (handler app ref (.destroy errs) c.shared).2.events = [] ++ c.shared.events := rfl
  exact hc.log hslot rfl hevents (by simp) hc.orderly (by simp)

theorem delete (hc : Inv ref c) : Inv ref ⟨(handler app ref .delete c.shared).2, c.proc⟩ := by
  have hslot := slot_delete app ref c.shared
  exact ⟨hc.rest, hc.fresh, by simp [hslot], hc.orderly, by simp [hslot], by simp [hslot]⟩

theorem restoring_of_initializes (hno : ∀ id, c.shared.slot ref ≠ some (true, id))
    (hi : (c.proc i).next.any Op.initializes = true) : Restoring ref c i = true := by
  have hflag : c.shared.world.cache.isInitialized ref = false := by
    rw [isInitialized_eq]
    rcases hs : c.shared.slot ref with _ | ⟨_ | _, id⟩
    · rfl
    · rfl
    · exact absurd hs (hno id)
  unfold Restoring
  cases hnext : (c.proc i).next with
  | none =>
    rw [hnext] at hi
    cases hi
  | some o =>
    rw [hnext] at hi
    cases o with
    | isInitialized => exact congrArg (!·) hflag
    | restore errs lists => rfl
    | setInitialized => rfl
    | _ => cases hi

end

section
variable [DecidableEq ι] {app : App T Text Lists Req Resp} {ref : ObjectReference}
  {c : IndexConf T Text Lists Req Resp ι} {i : ι}

/-- The request that has restored the index sets its flag. -/
theorem finish (hc : Inv ref c) (hi : (c.proc i).next = some .setInitialized) {id : Nat}
    (hslot : c.shared.slot ref = some (false, id)) {m : Mem T Text}
    (hslot' : m.slot ref = some (true, id)) (halloc : m.allocated = c.shared.allocated)
    (hevents : m.events = c.shared.events) {p : IndexProg Lists Req Resp Unit} (hrest : Rest p)
    (hidle : p.next = none) :
    Inv ref ⟨m, Function.update c.proc i p⟩ := by
  obtain ⟨-, hone, hfin⟩ := hc.waiting id hslot
  have hothers : ∀ j, j ≠ i → (c.proc j).next.any Op.restores = false := fun j hj => by
    refine Bool.eq_false_iff.mpr fun h => hj (hone j i (initializes_of_restores h) ?_)
    rw [hi]
    rfl
  refine ⟨?_, ?_, fun b id' h => ?_, ?_, fun id' h => ?_, by simp [hslot']⟩
  · exact (Function.forall_update_iff c.proc fun _ p => Rest p).mpr
      ⟨hrest, fun j _ => hc.rest j⟩
  · rw [halloc, hevents]
    exact hc.fresh
  · rw [halloc]
    cases hslot'.symm.trans h
    exact hc.slot_lt false id hslot
  · rw [hevents]
    exact hc.orderly
  · cases hslot'.symm.trans h
    rw [hevents]
    refine ⟨hfin i hi, (Function.forall_update_iff c.proc fun _ p =>
      p.next.any Op.restores = false).mpr ⟨?_, hothers⟩⟩
    rw [hidle]
    rfl

theorem check {errs : ApiErrors} {lists : Lists} (hc : Inv ref c)
    (hp : c.proc i = ensureInitialized errs lists) :
    Inv ref ⟨c.shared, Function.update c.proc i (match c.shared.world.cache.isInitialized ref with
      | true => .ret ()
      | false => restoreIndex errs lists)⟩ := by
  cases hflag : c.shared.world.cache.isInitialized ref with
  | true => exact hc.goOn_idle (.ret ()) rfl
  | false =>
    refine hc.goOn (.restore errs lists) (fun _ => ?_) (fun _ id hslot => ?_) fun h => ?_
    · rw [hp]
      rfl
    · rw [isInitialized_eq, hslot] at hflag
      cases hflag
    · cases h

theorem restore_goOn {errs : ApiErrors} {lists : Lists} (hc : Inv ref c)
    (hp : c.proc i = restoreIndex errs lists) :
    Inv ref ⟨(handler app ref (.restore errs lists) c.shared).2, Function.update c.proc i
      (Prog.lift (Backend.restore (onInstances app c.shared.allocated) errs ref lists
        c.shared.world).1 >>= fun _ => IndexProg.setInitialized)⟩ := by
  have hi : (c.proc i).next.any Op.restores = true := by
    rw [hp]
    rfl
  have hinv := hc.restore app hi errs lists
  rcases hr : (Backend.restore (onInstances app c.shared.allocated) errs ref lists
    c.shared.world).1 with e | ⟨⟩
  · exact hinv.goOn_idle (.fail e) rfl
  · refine hinv.goOn .finish (fun _ => initializes_of_restores hi) (fun _ id hslot => ?_)
      fun _ id hslot => ?_
    · cases hi.symm.trans ((hinv.served id hslot).2 i)
    · refine List.mem_append_left _ ((restoreEvents_spec app ref c.shared errs _).2 hr false id ?_)
      exact (slot_restore app ref c.shared errs lists).symm.trans hslot

theorem finish_goOn (hc : Inv ref c) (hp : c.proc i = IndexProg.setInitialized) :
    Inv ref ⟨(handler app ref .setInitialized c.shared).2, Function.update c.proc i
      (Prog.lift (handler app ref .setInitialized c.shared).1)⟩ := by
  have hi : (c.proc i).next = some .setInitialized := by
    rw [hp]
    rfl
  rcases setInitialized_spec app ref c.shared with
    ⟨-, ⟨e, he⟩, hm⟩ | ⟨b, id, hslot, hok, hslot', halloc, hevents⟩
  · rw [hm, he]
    exact hc.goOn_idle (.fail e) rfl
  · rw [hok]
    cases b with
    | true =>
      have hno := (hc.served id hslot).2 i
      rw [hi] at hno
      cases hno
    | false => exact hc.finish hi hslot hslot' halloc hevents (.ret ()) rfl

/-- An index is created, or found, while nobody else is restoring it. -/
theorem create (hc : Inv ref c) (halone : ∀ j, j ≠ i → Restoring ref c j = false)
    (errs : ApiErrors) (lists : Lists) :
    Inv ref ⟨(handler app ref .create c.shared).2,
      Function.update c.proc i (ensureInitialized errs lists)⟩ := by
  have hslot := slot_create app ref c.shared
  have hrest : ∀ j, Rest (Function.update c.proc i (ensureInitialized errs lists) j) :=
    (Function.forall_update_iff c.proc fun _ p => Rest p).mpr
      ⟨.check errs lists, fun j _ => hc.rest j⟩
  have hfresh : ∀ e ∈ c.shared.events, e.instance < c.shared.allocated + 1 :=
    fun e he => Nat.lt_succ_of_lt (hc.fresh e he)
  have hothers : (∀ id, c.shared.slot ref ≠ some (true, id)) → ∀ j,
      (Function.update c.proc i (ensureInitialized errs lists) j).next.any Op.initializes = true →
        j = i := by
    intro hno j hj
    by_contra hji
    rw [Function.update_of_ne hji] at hj
    cases (restoring_of_initializes hno hj).symm.trans (halone j hji)
  have hchecks : (∀ j, (Function.update c.proc i (ensureInitialized errs lists) j).next.any
      Op.initializes = true → j = i) → ∀ j,
      (Function.update c.proc i (ensureInitialized errs lists) j).next ≠ some .setInitialized := by
    intro hone j hj
    obtain rfl := hone j (by rw [hj]; rfl)
    rw [Function.update_self] at hj
    cases hj
  rcases hs : c.shared.slot ref with _ | ⟨_ | _, id⟩
  all_goals rw [hs] at hslot
  · -- a new instance has no events
    have hone := hothers fun id h => by cases hs.symm.trans h
    have hnew : ∀ e ∈ c.shared.events, e.instance ≠ c.shared.allocated :=
      fun e he => Nat.ne_of_lt (hc.fresh e he)
    refine ⟨hrest, hfresh, fun b id h => ?_, hc.orderly, by simp [hslot], fun id h => ?_⟩
    · cases hslot.symm.trans h
      exact Nat.lt_succ_self _
    · cases hslot.symm.trans h
      exact ⟨fun he => hnew _ he rfl, fun j k hj hk => (hone j hj).trans (hone k hk).symm,
        fun j hj => absurd hj (hchecks hone j)⟩
  · have hone := hothers fun id h => by cases hs.symm.trans h
    refine ⟨hrest, hfresh, fun b id' h => ?_, hc.orderly, by simp [hslot], fun id' h => ?_⟩
    · cases hslot.symm.trans h
      exact Nat.lt_succ_of_lt (hc.slot_lt _ _ hs)
    · cases hslot.symm.trans h
      exact ⟨(hc.waiting id hs).1, fun j k hj hk => (hone j hj).trans (hone k hk).symm,
        fun j hj => absurd hj (hchecks hone j)⟩
  · refine ⟨hrest, hfresh, fun b id' h => ?_, hc.orderly, fun id' h => ?_, by simp [hslot]⟩
    · cases hslot.symm.trans h
      exact Nat.lt_succ_of_lt (hc.slot_lt _ _ hs)
    · cases hslot.symm.trans h
      obtain ⟨hrestored, hnone⟩ := hc.served id hs
      exact ⟨hrestored, (Function.forall_update_iff c.proc fun _ p =>
        p.next.any Op.restores = false).mpr ⟨rfl, fun j _ => hnone j⟩⟩

theorem step (hc : Inv ref c) (hok : CreatesAlone ref c i) :
    Inv ref (c.step (handler app ref) i) := by
  have hrest := hc.rest i
  generalize hp : c.proc i = p at hrest
  cases hrest with
  | create errs lists =>
    rw [Conf.step_op hp]
    exact hc.create (hok (by rw [hp]; rfl)) errs lists
  | check errs lists =>
    rw [Conf.step_op hp]
    exact hc.check hp
  | restore errs lists =>
    rw [Conf.step_op hp]
    exact hc.restore_goOn hp
  | finish =>
    rw [Conf.step_op hp]
    exact hc.finish_goOn hp
  | delete errs =>
    rw [Conf.step_op hp]
    exact (hc.delete app).goOn_idle (.destroy errs) rfl
  | destroy errs =>
    rw [Conf.step_op hp]
    exact (hc.destroy app errs).goOn_lift _
  | claim errs req =>
    rw [Conf.step_op hp]
    exact (hc.serve app errs (app.claim req)).goOn_lift_ret _
  | deleteClaim errs req =>
    rw [Conf.step_op hp]
    exact (hc.serve app errs (app.deleteClaim req)).goOn_lift _
  | ret u => simpa only [Conf.step, hp] using hc
  | fail e => simpa only [Conf.step, hp] using hc

end

end Inv

theorem inv_start (ref : ObjectReference) (configMaps : ObjectReference → Option (ConfigMap Text))
    (reqs : ι → Request Lists Req) :
    Inv ref (start configMaps reqs : IndexConf T Text Lists Req Resp ι) where
  rest i := by
    change Rest (reqs i).prog
    cases reqs i with
    | createIndex errs lists => exact .create errs lists
    | deleteIndex errs => exact .delete errs
    | claim errs req => exact .claim errs req
    | deleteClaim errs req => exact .deleteClaim errs req
  fresh := by simp [start]
  slot_lt := by simp [start, Mem.slot]
  orderly := trivial
  served := by simp [start, Mem.slot]
  waiting := by simp [start, Mem.slot]

/-- In every interleaving in which an index is only created while no other request is restoring
it, an instance is handed out only after it was restored and not restored after it was handed
out. -/
theorem index_served_after_restore [DecidableEq ι] (app : App T Text Lists Req Resp)
    (ref : ObjectReference) (configMaps : ObjectReference → Option (ConfigMap Text))
    (reqs : ι → Request Lists Req) (sched : List ι)
    (h : Conf.Guarded (handler app ref) (CreatesAlone ref) (start configMaps reqs) sched) :
    Orderly ((start configMaps reqs).run (handler app ref) sched).shared.events := by
  have hinv : Inv ref ((start configMaps reqs).run (handler app ref) sched) :=
    Run.Guarded.inv (I := Inv ref) (fun _ _ hc hok => hc.step hok) h (inv_start ref configMaps reqs)
  exact hinv.orderly

/-- Two requests that create an index, one that deletes it and a claim. -/
def sampleRequests : Fin 4 → Request Vlan.VlanLists Vlan.VLANClaim
  | 0 | 1 => .createIndex noErrors ⟨[], []⟩
  | 2 => .deleteIndex noErrors
  | 3 => .claim noErrors (Vlan.sampleClaim "a" none none)

/-- The events of the sample requests in a given order. -/
def sampleEvents (sched : List (Fin 4)) : List Event :=
  ((start (fun _ => none) sampleRequests).run
    (handler (Vlan.app (.plain _) .byKey fun _ _ => none) ⟨"vlans", "default"⟩) sched).shared.events

/-- The second creation begins when the first has initialized the index, and its end comes after
the index is deleted. -/
theorem index_served_after_restore_deleted :
    Orderly (sampleEvents [0, 0, 0, 0, 1, 3, 2, 1, 2, 1, 1, 3]) :=
  index_served_after_restore (Vlan.app (.plain _) .byKey fun _ _ => none) ⟨"vlans", "default"⟩
    (fun _ => none) sampleRequests [0, 0, 0, 0, 1, 3, 2, 1, 2, 1, 1, 3] (by decide +kernel)

/-- A creation sets the flag of an instance that was created in place of the one it restored, and
the claim gets an instance that was never restored. Of two creations at the same time, the second
restores an instance that was already handed out. -/
theorem index_served_before_restore :
    sampleEvents [0, 0, 0, 2, 1, 0, 3] = [.handedOut 1, .restored 0] ∧
    sampleEvents [0, 1, 0, 1, 0, 0, 3, 1] =
      [.restored 0, .restoring 0, .handedOut 0, .restored 0] ∧
    ¬Orderly (sampleEvents [0, 0, 0, 2, 1, 0, 3]) ∧
    ¬Orderly (sampleEvents [0, 1, 0, 1, 0, 0, 3, 1]) := by
  refine ⟨?_, ?_, ?_, ?_⟩
  all_goals decide +kernel

/-! ## Requests one after the other -/

section
variable (app : App T Text Lists Req Resp) (ref : ObjectReference) (errs : ApiErrors)
  (lists : Lists) (m : Mem T Text)

/-- The answer of a request that runs alone, and what it leaves in the cache and the API. -/
def alone (p : IndexProg Lists Req Resp Unit) : Except Failure Unit × World (Instance T) Text :=
  let (r, m) := p.run (handler app ref) m
  (r, m.world)

theorem alone_restoreIndex (n : Nat) :
    alone app ref m (restoreIndex errs lists) =
      match restore (onInstances app n) errs ref lists m.world with
      | (.error e, w) => (.error e, w)
      | (.ok (), w) =>
        match w.cache.setInitialized ref with
        | .error e => (.error e, w)
        | .ok c => (.ok (), { w with cache := c }) := by
  have hrun : alone app ref m (restoreIndex errs lists) =
      alone app ref (handler app ref (.restore errs lists) m).2
        (Prog.lift (restore (onInstances app n) errs ref lists m.world).1 >>= fun _ =>
          IndexProg.setInitialized) := rfl
  have hworld : (handler app ref (.restore errs lists) m).2.world =
      (restore (onInstances app n) errs ref lists m.world).2 := rfl
  rw [hrun]
  generalize (handler app ref (.restore errs lists) m).2 = m' at hworld ⊢
  generalize restore (onInstances app n) errs ref lists m.world = x at hworld ⊢
  obtain ⟨e | ⟨⟩, w⟩ := x
  · exact congrArg (Prod.mk _) hworld
  · obtain rfl : m'.world = w := hworld
    change (_, ((Prog.lift (handler app ref .setInitialized m').1).run (handler app ref)
      (handler app ref .setInitialized m').2).2.world) = _
    dsimp only [handler]
    cases m'.world.cache.setInitialized ref with
    | error e => rfl
    | ok c => rfl

/-- Alone, a creation does what it does in the sequential backend. -/
theorem alone_createIndex :
    alone app ref m (createIndex errs lists) =
      Backend.createIndex (onInstances app m.allocated) errs ref lists m.world := by
  let m₁ : Mem T Text := (handler app ref .create m).2
  have hcheck : alone app ref m (createIndex errs lists) =
      alone app ref m₁ (match m₁.world.cache.isInitialized ref with
        | true => .ret ()
        | false => restoreIndex errs lists) := rfl
  have hworld : { m.world with
      cache := m.world.cache.create ref (onInstances app m.allocated).newTable } = m₁.world := rfl
  unfold Backend.createIndex
  rw [hcheck, hworld]
  dsimp only
  cases m₁.world.cache.isInitialized ref with
  | true => rfl
  | false =>
    refine (alone_restoreIndex app ref errs lists m₁ m.allocated).trans ?_
    obtain ⟨e | ⟨⟩, w⟩ := restore (onInstances app m.allocated) errs ref lists m₁.world
    · rfl
    · cases hset : w.cache.setInitialized ref with
      | error e => simp [hset]
      | ok c => simp [hset]

theorem alone_deleteIndex :
    alone app ref m (deleteIndex errs) =
      Backend.deleteIndex (onInstances app m.allocated) errs ref m.world := rfl

end

end K8sIpam.Backend.Index
