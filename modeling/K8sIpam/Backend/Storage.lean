import K8sIpam.Api.Meta

/-! # The backend of an index: cache, ConfigMap storage and requests

`pkg/backend`: the cache of in-memory tables, the storage of a table in a ConfigMap, and the
requests that both backends serve. What differs between IPAM and VLAN, the table and what a
request does to it, is the parameter `App`. -/

namespace K8sIpam.Backend
open Atomic

variable {T Text Lists Req Resp : Type}

/-! ## The cache -/

structure CacheContext (T : Type) where
  initialized : Bool
  table : T

abbrev Cache (T : Type) := ObjectReference → Option (CacheContext T)

/-- The text that `%v` gives for a reference of which only the name and namespace are set. -/
def refString (id : ObjectReference) : String := "\x7b " ++ id.ns ++ " " ++ id.name ++ "    \x7d"

namespace Cache

def create (c : Cache T) (id : ObjectReference) (t : T) : Cache T :=
  match c id with
  | some _ => c
  | none => Function.update c id (some ⟨false, t⟩)

def delete (c : Cache T) (id : ObjectReference) : Cache T := Function.update c id none

def isInitialized (c : Cache T) (id : ObjectReference) : Bool :=
  match c id with
  | some ctx => ctx.initialized
  | none => false

def setInitialized (c : Cache T) (id : ObjectReference) : Except Failure (Cache T) :=
  match c id with
  | some ctx => .ok (Function.update c id (some ⟨true, ctx.table⟩))
  | none => .error (.error ("db not initialized: " ++ refString id))

def get (c : Cache T) (id : ObjectReference) (ignoreInitializing : Bool) : Except Failure T :=
  match c id with
  | none => .error (.error ("db not initialized: " ++ refString id))
  | some ctx =>
    if !ignoreInitializing && !ctx.initialized then
      .error (.error ("db is initializing: " ++ refString id))
    else .ok ctx.table

/-- The cache holds pointers: a table that is changed in place changes in the cache. -/
def put (c : Cache T) (id : ObjectReference) (t : T) : Cache T :=
  Function.update c id ((c id).map fun ctx => ⟨ctx.initialized, t⟩)

/-- A table is found in a context that is initialized, or for a call that does not mind. -/
theorem get_eq_ok {c : Cache T} {id : ObjectReference} {ignoreInitializing : Bool} {t : T} :
    c.get id ignoreInitializing = .ok t ↔
      ∃ ctx, c id = some ctx ∧ (ignoreInitializing = true ∨ ctx.initialized = true) ∧
        ctx.table = t := by
  unfold get
  cases c id with
  | none => simp
  | some ctx =>
    cases ignoreInitializing <;> cases hctx : ctx.initialized <;> simp [hctx]

end Cache

/-! ## The Kubernetes API -/

/-- A ConfigMap: the text under the key `data`. -/
structure ConfigMap (Text : Type) where
  data : Option Text
  deriving DecidableEq

/-- Which API calls of one request fail, other than because an object is missing or exists, and
with which text. -/
structure ApiErrors where
  get : Option String
  create : Option String
  update : Option String
  delete : Option String
  listFirst : Option String
  listSecond : Option String
  deriving DecidableEq

def noErrors : ApiErrors := ⟨none, none, none, none, none, none⟩

/-- The outcome of reading an object. -/
inductive GetResult (Text : Type) where
  | found (cm : ConfigMap Text)
  | notFound
  | failed (msg : String)

/-- The memory of the process and the ConfigMaps in the API. -/
structure World (T Text : Type) where
  cache : Cache T
  configMaps : ObjectReference → Option (ConfigMap Text)

namespace World

variable (w : World T Text) (errs : ApiErrors) (name : ObjectReference)

def getConfigMap : GetResult Text :=
  match errs.get, w.configMaps name with
  | some msg, _ => .failed msg
  | none, some cm => .found cm
  | none, none => .notFound

def setConfigMap (cm : Option (ConfigMap Text)) : World T Text :=
  { w with configMaps := Function.update w.configMaps name cm }

def createConfigMap (cm : ConfigMap Text) : Except String Unit × World T Text :=
  match errs.create, w.configMaps name with
  | some msg, _ => (.error msg, w)
  | none, some _ => (.error ("configmaps \"" ++ name.name ++ "\" already exists"), w)
  | none, none => (.ok (), w.setConfigMap name (some cm))

def updateConfigMap (cm : ConfigMap Text) : Except String Unit × World T Text :=
  match errs.update, w.configMaps name with
  | some msg, _ => (.error msg, w)
  | none, none => (.error ("configmaps \"" ++ name.name ++ "\" not found"), w)
  | none, some _ => (.ok (), w.setConfigMap name (some cm))

def deleteConfigMap : Except String Unit × World T Text :=
  match errs.delete, w.configMaps name with
  | some msg, _ => (.error msg, w)
  | none, none => (.error ("configmaps \"" ++ name.name ++ "\" not found"), w)
  | none, some _ => (.ok (), w.setConfigMap name none)

end World

/-- `errors.Wrap`. -/
def wrap (msg : String) : Except String Unit → Except Failure Unit
  | .ok () => .ok ()
  | .error e => .error (.error (msg ++ ": " ++ e))

/-! ## Storage -/

/-- Writing a table as a document and reading it back. The empty document is what a ConfigMap
without data reads as. -/
structure Yaml (D Text : Type) [EmptyCollection D] where
  marshal : D → Text
  unmarshal : Text → Except Failure D
  noData : Text
  round_trip : ∀ d, unmarshal (marshal d) = .ok d
  unmarshal_noData : unmarshal noData = .ok ∅

/-- Documents that are tables, or nothing. -/
def Yaml.plain (D : Type) [EmptyCollection D] : Yaml D (Option D) where
  marshal := some
  unmarshal x := .ok (x.getD ∅)
  noData := none
  round_trip _ := rfl
  unmarshal_noData := rfl

/-- Changes of a table that can fail halfway. -/
abbrev TableM (T : Type) := ExceptT Failure (StateM T)

theorem liftExcept_ok {α : Type} (a : α) :
    (liftExcept (.ok a : Except Failure α) : TableM T α) = pure a := rfl

/-- A sequence runs its second part on the table that the first one leaves. -/
theorem run_bind_ok {α β : Type} {x : TableM T α} {f : α → TableM T β} {t t' : T} {a : α}
    (h : x.run t = (.ok a, t')) : (x >>= f).run t = (f a).run t' := by
  change (x >>= f) t = f a t'
  simp only [bind, ExceptT.bind, ExceptT.mk, StateT.bind]
  rw [show x t = (.ok a, t') from h]
  rfl

/-- A loop of steps that all succeed is a fold over the table. -/
theorem forM_run {α : Type} {f : α → TableM T Unit} {g : T → α → T} {xs : List α}
    (h : ∀ x ∈ xs, ∀ t, (f x).run t = (.ok (), g t x)) (t : T) :
    (xs.forM f).run t = (.ok (), xs.foldl g t) := by
  induction xs generalizing t with
  | nil => rfl
  | cons x xs ih =>
    exact (run_bind_ok (h x List.mem_cons_self t)).trans
      (ih (fun x' hx' => h x' (List.mem_cons_of_mem _ hx')) _)

/-- The first part of a sequence that succeeds has succeeded. -/
theorem bind_ok {α β : Type} {x : TableM T α} {f : α → TableM T β} {t t' : T} {b : β}
    (h : (x >>= f).run t = (.ok b, t')) :
    ∃ a t₁, x.run t = (.ok a, t₁) ∧ (f a).run t₁ = (.ok b, t') := by
  change (x >>= f) t = (.ok b, t') at h
  simp only [bind, ExceptT.bind, ExceptT.mk, StateT.bind] at h
  cases hx : x t with
  | mk r t₁ =>
    rw [hx] at h
    cases r with
    | error e => cases h
    | ok a => exact ⟨a, t₁, hx, h⟩

/-- Each step of a loop that succeeds has succeeded. -/
theorem forM_ok {α : Type} {f : α → TableM T Unit} {xs : List α} {t t' : T}
    (h : (xs.forM f).run t = (.ok (), t')) :
    ∀ x ∈ xs, ∃ t₁ t₂, (f x).run t₁ = (.ok (), t₂) := by
  induction xs generalizing t with
  | nil => simp
  | cons x xs ih =>
    obtain ⟨_, t₁, hx, hxs⟩ := bind_ok h
    intro x' hx'
    rcases List.mem_cons.mp hx' with rfl | hx'
    · exact ⟨t, t₁, hx⟩
    · exact ih hxs x' hx'

/-- The error of a `List` call, wrapped. -/
def listed (what : String) : Option String → TableM T Unit
  | some msg => throw (.error (what ++ ": " ++ msg))
  | none => pure ()

/-- What a backend does with its table. Restoring and serving change the table even when they
fail. -/
structure App (T Text Lists Req Resp : Type) where
  cmPrefix : String
  newTable : T
  getData : T → Text
  restoreData : ObjectReference → Lists → ApiErrors → Option Text → T → Except Failure Unit × T
  cacheID : Req → ObjectReference
  claim : Req → T → Except Failure Resp × T
  deleteClaim : Req → T → Except Failure Unit × T

section
variable (app : App T Text Lists Req Resp) (errs : ApiErrors) (ref : ObjectReference)

/-- The name of the ConfigMap of an index. -/
def cmName : ObjectReference := ⟨app.cmPrefix ++ "-" ++ ref.name, ref.ns⟩

/-- `RestoreData` on the table of the cache. -/
def restoreFrom (lists : Lists) (cm : ConfigMap Text) (w : World T Text) :
    Except Failure Unit × World T Text :=
  match w.cache.get ref true with
  | .error e => (.error e, w)
  | .ok t =>
    let (r, t) := app.restoreData ref lists errs cm.data t
    (r, { w with cache := w.cache.put ref t })

/-- An error of the read other than not found is ignored: the object read into is then empty. -/
def restore (lists : Lists) (w : World T Text) : Except Failure Unit × World T Text :=
  match w.getConfigMap errs (cmName app ref) with
  | .notFound =>
    let (r, w) := w.createConfigMap errs (cmName app ref) ⟨none⟩
    (wrap "cannot create configmap" r, w)
  | .found cm => restoreFrom app errs ref lists cm w
  | .failed _ => restoreFrom app errs ref lists ⟨none⟩ w

/-- A missing ConfigMap is created empty, and an error of the update is only logged. -/
def saveAll (w : World T Text) : Except Failure Unit × World T Text :=
  match w.getConfigMap errs (cmName app ref) with
  | .notFound =>
    let (r, w) := w.createConfigMap errs (cmName app ref) ⟨none⟩
    (wrap "cannot create configmap" r, w)
  | .found _ | .failed _ =>
    match w.cache.get ref false with
    | .error e => (.error e, w)
    | .ok t => (.ok (), (w.updateConfigMap errs (cmName app ref) ⟨some (app.getData t)⟩).2)

def destroy (w : World T Text) : Except Failure Unit × World T Text :=
  (.ok (), (w.deleteConfigMap errs (cmName app ref)).2)

section
variable (w : World T Text) (name : ObjectReference) (cm : ConfigMap Text)

@[simp] theorem createConfigMap_cache : (w.createConfigMap errs name cm).2.cache = w.cache := by
  unfold World.createConfigMap
  split <;> rfl

@[simp] theorem updateConfigMap_cache : (w.updateConfigMap errs name cm).2.cache = w.cache := by
  unfold World.updateConfigMap
  split <;> rfl

@[simp] theorem deleteConfigMap_cache : (w.deleteConfigMap errs name).2.cache = w.cache := by
  unfold World.deleteConfigMap
  split <;> rfl

theorem saveAll_cache : (saveAll app errs ref w).2.cache = w.cache := by
  unfold saveAll
  split
  · exact createConfigMap_cache ..
  all_goals
    split
    · rfl
    · exact updateConfigMap_cache ..

end

/-! ## Requests -/

def createIndex (lists : Lists) (w : World T Text) : Except Failure Unit × World T Text :=
  let w := { w with cache := w.cache.create ref app.newTable }
  if w.cache.isInitialized ref then (.ok (), w)
  else
    match restore app errs ref lists w with
    | (.error e, w) => (.error e, w)
    | (.ok (), w) =>
      match w.cache.setInitialized ref with
      | .error e => (.error e, w)
      | .ok c => (.ok (), { w with cache := c })

def deleteIndex (w : World T Text) : Except Failure Unit × World T Text :=
  destroy app errs ref { w with cache := w.cache.delete ref }

end

section
variable {α : Type} (app : App T Text Lists Req Resp) (errs : ApiErrors)

/-- A change of the table of an initialized index, saved when it succeeds. -/
def change (ref : ObjectReference) (f : T → Except Failure α × T) (w : World T Text) :
    Except Failure α × World T Text :=
  match w.cache.get ref false with
  | .error e => (.error e, w)
  | .ok t =>
    match f t with
    | (.error e, t) => (.error e, { w with cache := w.cache.put ref t })
    | (.ok a, t) =>
      match saveAll app errs ref { w with cache := w.cache.put ref t } with
      | (.error e, w) => (.error e, w)
      | (.ok (), w) => (.ok a, w)

/-- A change is refused by the cache, or it is made in the cache and then saved. -/
theorem change_cases (ref : ObjectReference) (f : T → Except Failure α × T) (w : World T Text) :
    (∃ e, change app errs ref f w = (.error e, w)) ∨
      ∃ t, w.cache.get ref false = .ok t ∧
        (change app errs ref f w).2.cache = w.cache.put ref (f t).2 ∧
        ∀ a, (change app errs ref f w).1 = .ok a → (f t).1 = .ok a := by
  unfold change
  cases hget : w.cache.get ref false with
  | error e => exact .inl ⟨e, rfl⟩
  | ok t =>
    refine .inr ⟨t, rfl, ?_⟩
    dsimp only
    rcases f t with ⟨e | a, t'⟩
    · exact ⟨rfl, fun a h => by cases h⟩
    · have hcache := saveAll_cache app errs ref { w with cache := w.cache.put ref t' }
      dsimp only
      rcases hsave : saveAll app errs ref { w with cache := w.cache.put ref t' } with ⟨e | u, w'⟩
      all_goals rw [hsave] at hcache
      · exact ⟨hcache, fun a h => by cases h⟩
      · exact ⟨hcache, fun a' h => h⟩

theorem Cache.get_false_eq_ok {c : Cache T} {ref : ObjectReference} {t : T} :
    c.get ref false = .ok t ↔ c ref = some ⟨true, t⟩ := by
  rw [Cache.get_eq_ok]
  constructor
  · rintro ⟨ctx, hctx, hinit, rfl⟩
    rw [hctx, ← hinit.resolve_left Bool.false_ne_true]
  · exact fun hctx => ⟨⟨true, t⟩, hctx, .inr rfl, rfl⟩

/-- A change that is acknowledged has been made to the table of an initialized index. -/
theorem change_acknowledged {ref : ObjectReference} {f : T → Except Failure α × T}
    {w w' : World T Text} {a : α} (h : change app errs ref f w = (.ok a, w')) :
    ∃ t t', w.cache ref = some ⟨true, t⟩ ∧ f t = (.ok a, t') ∧ w'.cache ref = some ⟨true, t'⟩ := by
  rcases change_cases app errs ref f w with ⟨e, he⟩ | ⟨t, hget, hcache, hok⟩
  · cases he.symm.trans h
  · rw [h] at hcache hok
    have href := Cache.get_false_eq_ok.mp hget
    refine ⟨t, (f t).2, href, Prod.ext (hok a rfl) rfl, ?_⟩
    dsimp only at hcache
    rw [hcache, Cache.put, Function.update_self, href, Option.map_some]

def claim (req : Req) : World T Text → Except Failure Resp × World T Text :=
  change app errs (app.cacheID req) (app.claim req)

def deleteClaim (req : Req) : World T Text → Except Failure Unit × World T Text :=
  change app errs (app.cacheID req) (app.deleteClaim req)

end
end K8sIpam.Backend
