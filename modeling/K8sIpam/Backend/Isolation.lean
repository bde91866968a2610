import K8sIpam.Lib.Independent
import K8sIpam.Ipam.Storage
import K8sIpam.Vlan.Storage

/-! # The indices of the two backends are independent

The IPAM and the VLAN backend run in one server and keep their indices in ConfigMaps side by side. A
request reads and writes the table and the ConfigMap of its own index. -/

namespace K8sIpam.Backend.Isolation
open Atomic

variable {T Text Lists Req Resp α : Type}

/-! ## What a request to an index depends on and changes -/

/-- The worlds have the same table of an index and the same ConfigMap of a name. -/
structure Agree (ref name : ObjectReference) (w w' : World T Text) : Prop where
  cache : w.cache ref = w'.cache ref
  configMap : w.configMaps name = w'.configMaps name

/-- Nothing else has changed. -/
structure Frame (ref name : ObjectReference) (w w' : World T Text) : Prop where
  cache : ∀ r, r ≠ ref → w'.cache r = w.cache r
  configMap : ∀ n, n ≠ name → w'.configMaps n = w.configMaps n

structure LocalAt (ref name : ObjectReference) (f : World T Text → α × World T Text) : Prop where
  same : ∀ {w w'}, Agree ref name w w' → (f w).1 = (f w').1 ∧ Agree ref name (f w).2 (f w').2
  frame : ∀ w, Frame ref name w (f w).2

section
variable {ref name : ObjectReference} {w w' w'' : World T Text}

theorem Frame.refl (w : World T Text) : Frame ref name w w := ⟨fun _ _ => rfl, fun _ _ => rfl⟩

theorem Frame.trans (h : Frame ref name w w') (h' : Frame ref name w' w'') :
    Frame ref name w w'' :=
  ⟨fun r hr => (h'.cache r hr).trans (h.cache r hr),
    fun n hn => (h'.configMap n hn).trans (h.configMap n hn)⟩

/-- The table of the index is replaced. -/
theorem Agree.update (h : Agree ref name w w') (x : Option (CacheContext T)) :
    Agree ref name { w with cache := Function.update w.cache ref x }
      { w' with cache := Function.update w'.cache ref x } :=
  ⟨(Function.update_self ref x w.cache).trans (Function.update_self ref x w'.cache).symm,
    h.configMap⟩

theorem Frame.update (w : World T Text) (x : Option (CacheContext T)) :
    Frame ref name w { w with cache := Function.update w.cache ref x } :=
  ⟨fun _ hr => Function.update_of_ne hr _ _, fun _ _ => rfl⟩

theorem Agree.put (h : Agree ref name w w') (t : T) :
    Agree ref name { w with cache := w.cache.put ref t } { w' with cache := w'.cache.put ref t } := by
  unfold Cache.put
  rw [h.cache]
  exact h.update _

theorem Frame.put (w : World T Text) (t : T) :
    Frame ref name w { w with cache := w.cache.put ref t } := .update w _

theorem Agree.create (h : Agree ref name w w') (t : T) :
    Agree ref name { w with cache := w.cache.create ref t }
      { w' with cache := w'.cache.create ref t } := by
  unfold Cache.create
  rw [h.cache]
  cases w'.cache ref with
  | none => exact h.update _
  | some ctx => exact h

theorem Frame.create (w : World T Text) (t : T) :
    Frame ref name w { w with cache := w.cache.create ref t } := by
  unfold Cache.create
  cases w.cache ref with
  | none => exact .update w _
  | some ctx => exact .refl w

theorem Agree.get (h : Agree ref name w w') (b : Bool) : w.cache.get ref b = w'.cache.get ref b := by
  simp only [Cache.get, h.cache]

/-- The ConfigMap of the name is replaced. -/
theorem Agree.setConfigMap (h : Agree ref name w w') (cm : Option (ConfigMap Text)) :
    Agree ref name (w.setConfigMap name cm) (w'.setConfigMap name cm) := by
  have hself : ∀ v : World T Text, (v.setConfigMap name cm).configMaps name = cm :=
    fun v => by simp [World.setConfigMap]
  exact ⟨h.cache, (hself w).trans (hself w').symm⟩

theorem Frame.setConfigMap (w : World T Text) (cm : Option (ConfigMap Text)) :
    Frame ref name w (w.setConfigMap name cm) :=
  ⟨fun _ _ => rfl, fun _ hn => Function.update_of_ne hn _ _⟩

variable (errs : ApiErrors)

theorem Agree.getConfigMap (h : Agree ref name w w') :
    w.getConfigMap errs name = w'.getConfigMap errs name := by
  simp only [World.getConfigMap, h.configMap]

variable (ref name) (cm : ConfigMap Text)

theorem local_createConfigMap :
    LocalAt ref name fun w : World T Text => w.createConfigMap errs name cm := by
  constructor
  · intro w w' h
    simp only [World.createConfigMap, h.configMap]
    split
    · exact ⟨rfl, h⟩
    · exact ⟨rfl, h⟩
    · exact ⟨rfl, h.setConfigMap _⟩
  · intro w
    simp only [World.createConfigMap]
    split
    · exact .refl w
    · exact .refl w
    · exact .setConfigMap w _

theorem local_updateConfigMap :
    LocalAt ref name fun w : World T Text => w.updateConfigMap errs name cm := by
  constructor
  · intro w w' h
    simp only [World.updateConfigMap, h.configMap]
    split
    · exact ⟨rfl, h⟩
    · exact ⟨rfl, h⟩
    · exact ⟨rfl, h.setConfigMap _⟩
  · intro w
    simp only [World.updateConfigMap]
    split
    · exact .refl w
    · exact .refl w
    · exact .setConfigMap w _

theorem local_deleteConfigMap :
    LocalAt ref name fun w : World T Text => w.deleteConfigMap errs name := by
  constructor
  · intro w w' h
    simp only [World.deleteConfigMap, h.configMap]
    split
    · exact ⟨rfl, h⟩
    · exact ⟨rfl, h⟩
    · exact ⟨rfl, h.setConfigMap _⟩
  · intro w
    simp only [World.deleteConfigMap]
    split
    · exact .refl w
    · exact .refl w
    · exact .setConfigMap w _

end

section
variable (app : App T Text Lists Req Resp) (errs : ApiErrors) (ref : ObjectReference)

theorem local_restoreFrom (lists : Lists) (cm : ConfigMap Text) :
    LocalAt ref (cmName app ref) (restoreFrom app errs ref lists cm) := by
  constructor
  · intro w w' h
    unfold restoreFrom
    rw [h.get true]
    cases w'.cache.get ref true with
    | error e => exact ⟨rfl, h⟩
    | ok t => exact ⟨rfl, h.put _⟩
  · intro w
    unfold restoreFrom
    cases w.cache.get ref true with
    | error e => exact .refl w
    | ok t => exact .put w _

theorem local_restore (lists : Lists) :
    LocalAt ref (cmName app ref) (restore app errs ref lists) := by
  have hcreate := local_createConfigMap (T := T) ref (cmName app ref) errs (⟨none⟩ : ConfigMap Text)
  constructor
  · intro w w' h
    unfold restore
    rw [h.getConfigMap errs]
    cases w'.getConfigMap errs (cmName app ref) with
    | notFound =>
      obtain ⟨hanswer, hagree⟩ := hcreate.same h
      exact ⟨congrArg (wrap "cannot create configmap") hanswer, hagree⟩
    | found cm => exact (local_restoreFrom app errs ref lists cm).same h
    | failed msg => exact (local_restoreFrom app errs ref lists ⟨none⟩).same h
  · intro w
    unfold restore
    cases w.getConfigMap errs (cmName app ref) with
    | notFound => exact hcreate.frame w
    | found cm => exact (local_restoreFrom app errs ref lists cm).frame w
    | failed msg => exact (local_restoreFrom app errs ref lists ⟨none⟩).frame w

theorem local_saveAll : LocalAt ref (cmName app ref) (saveAll app errs ref) := by
  have hcreate := local_createConfigMap (T := T) ref (cmName app ref) errs (⟨none⟩ : ConfigMap Text)
  have hupdate := fun t => local_updateConfigMap (T := T) ref (cmName app ref) errs
    (⟨some (app.getData t)⟩ : ConfigMap Text)
  constructor
  · intro w w' h
    unfold saveAll
    rw [h.getConfigMap errs, h.get false]
    cases w'.getConfigMap errs (cmName app ref) with
    | notFound =>
      obtain ⟨hanswer, hagree⟩ := hcreate.same h
      exact ⟨congrArg (wrap "cannot create configmap") hanswer, hagree⟩
    | found | failed =>
      -- an error of the lookup is treated as an existing ConfigMap
      cases w'.cache.get ref false with
      | error e => exact ⟨rfl, h⟩
      | ok t => exact ⟨rfl, ((hupdate t).same h).2⟩
  · intro w
    unfold saveAll
    cases w.getConfigMap errs (cmName app ref) with
    | notFound => exact hcreate.frame w
    | found | failed =>
      cases w.cache.get ref false with
      | error e => exact .refl w
      | ok t => exact (hupdate t).frame w

theorem local_createIndex (lists : Lists) :
    LocalAt ref (cmName app ref) (createIndex app errs ref lists) := by
  have hrestore := local_restore app errs ref lists
  constructor
  · intro w w' h
    have hcreate := h.create app.newTable
    have hcache : w.cache.create ref app.newTable ref = w'.cache.create ref app.newTable ref :=
      hcreate.cache
    have hinit : (w.cache.create ref app.newTable).isInitialized ref =
        (w'.cache.create ref app.newTable).isInitialized ref := by
      simp only [Cache.isInitialized, hcache]
    obtain ⟨hanswer, hagree⟩ := hrestore.same hcreate
    unfold createIndex
    dsimp only
    rw [hinit]
    split
    · exact ⟨rfl, hcreate⟩
    · rcases hrun : restore app errs ref lists { w with cache := w.cache.create ref app.newTable }
        with ⟨x, w₁⟩
      rcases hrun' : restore app errs ref lists { w' with cache := w'.cache.create ref app.newTable }
        with ⟨y, w₂⟩
      rw [hrun, hrun'] at hanswer hagree
      obtain rfl : x = y := hanswer
      cases x with
      | error e => exact ⟨rfl, hagree⟩
      | ok u =>
        dsimp only [Cache.setInitialized]
        rw [hagree.cache]
        cases w₂.cache ref with
        | none => exact ⟨rfl, hagree⟩
        | some ctx => exact ⟨rfl, hagree.update _⟩
  · intro w
    have hcreate : Frame ref (cmName app ref) w
        { w with cache := w.cache.create ref app.newTable } := .create w _
    have hframe := hcreate.trans (hrestore.frame _)
    unfold createIndex
    dsimp only
    split
    · exact hcreate
    · rcases hrun : restore app errs ref lists { w with cache := w.cache.create ref app.newTable }
        with ⟨_ | _, w₁⟩
      all_goals rw [hrun] at hframe
      · exact hframe
      · dsimp only [Cache.setInitialized]
        cases w₁.cache ref with
        | none => exact hframe
        | some ctx => exact hframe.trans (.update w₁ _)

theorem local_deleteIndex : LocalAt ref (cmName app ref) (deleteIndex app errs ref) := by
  have hdelete : LocalAt ref (cmName app ref) fun w : World T Text =>
      w.deleteConfigMap errs (cmName app ref) := local_deleteConfigMap ref (cmName app ref) errs
  constructor
  · intro w w' h
    exact ⟨rfl, (hdelete.same (h.update none)).2⟩
  · intro w
    exact (Frame.update w none).trans (hdelete.frame _)

theorem local_change (f : T → Except Failure α × T) :
    LocalAt ref (cmName app ref) (change app errs ref f) := by
  constructor
  · intro w w' h
    unfold change
    rw [h.get false]
    cases w'.cache.get ref false with
    | error e => exact ⟨rfl, h⟩
    | ok t =>
      dsimp only
      rcases f t with ⟨e | a, t'⟩
      · exact ⟨rfl, h.put t'⟩
      · obtain ⟨hanswer, hagree⟩ := (local_saveAll app errs ref).same (h.put t')
        dsimp only
        rcases hsave : saveAll app errs ref { w with cache := w.cache.put ref t' } with ⟨x, w₁⟩
        rcases hsave' : saveAll app errs ref { w' with cache := w'.cache.put ref t' } with ⟨y, w₂⟩
        rw [hsave, hsave'] at hanswer hagree
        obtain rfl : x = y := hanswer
        cases x with
        | error e => exact ⟨rfl, hagree⟩
        | ok u => exact ⟨rfl, hagree⟩
  · intro w
    unfold change
    cases w.cache.get ref false with
    | error e => exact .refl w
    | ok t =>
      dsimp only
      rcases f t with ⟨e | a, t'⟩
      · exact .put w t'
      · have hframe := (Frame.put w t').trans ((local_saveAll app errs ref).frame _)
        dsimp only
        rcases hsave : saveAll app errs ref { w with cache := w.cache.put ref t' } with ⟨_ | _, w₁⟩
        all_goals rw [hsave] at hframe
        · exact hframe
        · exact hframe

end

/-! ## The server -/

/-- The requests that a backend serves, each with the calls to the API that fail. -/
inductive Request (Lists Req : Type) where
  | createIndex (ref : ObjectReference) (errs : ApiErrors) (lists : Lists)
  | deleteIndex (ref : ObjectReference) (errs : ApiErrors)
  | claim (req : Req) (errs : ApiErrors)
  | deleteClaim (req : Req) (errs : ApiErrors)

/-- The index that a request is for. -/
def Request.index (app : App T Text Lists Req Resp) : Request Lists Req → ObjectReference
  | .createIndex ref _ _ | .deleteIndex ref _ => ref
  | .claim req _ | .deleteClaim req _ => app.cacheID req

def noResponse (x : Except Failure Unit × World T Text) :
    Except Failure (Option Resp) × World T Text :=
  (x.1.map fun _ => none, x.2)

def Request.serve (app : App T Text Lists Req Resp) (w : World T Text) :
    Request Lists Req → Except Failure (Option Resp) × World T Text
  | .createIndex ref errs lists => noResponse (Backend.createIndex app errs ref lists w)
  | .deleteIndex ref errs => noResponse (Backend.deleteIndex app errs ref w)
  | .claim req errs =>
    let x := Backend.claim app errs req w
    (x.1.map some, x.2)
  | .deleteClaim req errs => noResponse (Backend.deleteClaim app errs req w)

theorem LocalAt.map {β : Type} {ref name : ObjectReference} {f : World T Text → α × World T Text}
    (h : LocalAt ref name f) (g : α → β) : LocalAt ref name fun w => (g (f w).1, (f w).2) where
  same hagree := ⟨congrArg g (h.same hagree).1, (h.same hagree).2⟩
  frame := h.frame

theorem Request.local_serve (app : App T Text Lists Req Resp) (r : Request Lists Req) :
    LocalAt (r.index app) (cmName app (r.index app)) fun w => r.serve app w := by
  let none' : Except Failure Unit → Except Failure (Option Resp) := Except.map fun _ => none
  cases r with
  | createIndex ref errs lists => exact (local_createIndex app errs ref lists).map none'
  | deleteIndex ref errs => exact (local_deleteIndex app errs ref).map none'
  | claim req errs =>
    exact (local_change app errs (app.cacheID req) (app.claim req)).map (Except.map some)
  | deleteClaim req errs =>
    exact (local_change app errs (app.cacheID req) (app.deleteClaim req)).map none'

variable {T₁ T₂ Lists₁ Lists₂ Req₁ Req₂ Resp₁ Resp₂ : Type}

/-- The caches of the two backends, and the ConfigMaps of both. -/
structure Server (T₁ T₂ Text : Type) where
  ipam : Cache T₁
  vlan : Cache T₂
  configMaps : ObjectReference → Option (ConfigMap Text)

/-- The backend that serves a request, the index in it, what an index consists of. -/
abbrev Index := ObjectReference ⊕ ObjectReference

abbrev IndexState (T₁ T₂ Text : Type) : Index → Type
  | .inl _ => Option (CacheContext T₁) × Option (ConfigMap Text)
  | .inr _ => Option (CacheContext T₂) × Option (ConfigMap Text)

section
variable (app₁ : App T₁ Text Lists₁ Req₁ Resp₁) (app₂ : App T₂ Text Lists₂ Req₂ Resp₂)

def Server.serve (s : Server T₁ T₂ Text) : Request Lists₁ Req₁ ⊕ Request Lists₂ Req₂ →
    Except Failure (Option (Resp₁ ⊕ Resp₂)) × Server T₁ T₂ Text
  | .inl r =>
    let x := r.serve app₁ ⟨s.ipam, s.configMaps⟩
    (x.1.map (Option.map .inl), ⟨x.2.cache, s.vlan, x.2.configMaps⟩)
  | .inr r =>
    let x := r.serve app₂ ⟨s.vlan, s.configMaps⟩
    (x.1.map (Option.map .inr), ⟨s.ipam, x.2.cache, x.2.configMaps⟩)

def Server.view (i : Index) (s : Server T₁ T₂ Text) : IndexState T₁ T₂ Text i :=
  match i with
  | .inl ref => (s.ipam ref, s.configMaps (cmName app₁ ref))
  | .inr ref => (s.vlan ref, s.configMaps (cmName app₂ ref))

def server : Independent.System (Server T₁ T₂ Text) (Request Lists₁ Req₁ ⊕ Request Lists₂ Req₂)
    (Except Failure (Option (Resp₁ ⊕ Resp₂))) Index (IndexState T₁ T₂ Text) where
  step s r := s.serve app₁ app₂ r
  addr
    | .inl r => .inl (r.index app₁)
    | .inr r => .inr (r.index app₂)
  view i s := s.view app₁ app₂ i

theorem cmName_injective (app : App T Text Lists Req Resp) :
    Function.Injective (cmName app) := by
  intro ref ref' h
  obtain ⟨hname, hns⟩ := ObjectReference.mk.inj h
  have hlist := congrArg String.toList hname
  simp only [String.toList_append, List.append_assoc] at hlist
  have hsame := List.append_cancel_left (List.append_cancel_left hlist)
  cases ref
  cases ref'
  simp_all

/-- The names of the ConfigMaps of the two backends differ. -/
def Apart : Prop := ∀ ref ref', cmName app₁ ref ≠ cmName app₂ ref'

variable {app₁ app₂}

theorem local_server (h : Apart app₁ app₂) : (server app₁ app₂).Local := by
  constructor
  · rintro (r | r) s s' hview
    · have hagree : Agree (r.index app₁) (cmName app₁ (r.index app₁))
          (⟨s.ipam, s.configMaps⟩ : World T₁ Text) ⟨s'.ipam, s'.configMaps⟩ :=
        ⟨congrArg Prod.fst hview, congrArg Prod.snd hview⟩
      obtain ⟨hanswer, hnext⟩ := (r.local_serve app₁).same hagree
      exact ⟨congrArg (Except.map (Option.map Sum.inl)) hanswer,
        Prod.ext hnext.cache hnext.configMap⟩
    · have hagree : Agree (r.index app₂) (cmName app₂ (r.index app₂))
          (⟨s.vlan, s.configMaps⟩ : World T₂ Text) ⟨s'.vlan, s'.configMaps⟩ :=
        ⟨congrArg Prod.fst hview, congrArg Prod.snd hview⟩
      obtain ⟨hanswer, hnext⟩ := (r.local_serve app₂).same hagree
      exact ⟨congrArg (Except.map (Option.map Sum.inr)) hanswer,
        Prod.ext hnext.cache hnext.configMap⟩
  · rintro (r | r) (ref | ref) s hne
    · have hframe := (r.local_serve app₁).frame ⟨s.ipam, s.configMaps⟩
      have href : ref ≠ r.index app₁ := fun heq => hne (congrArg Sum.inl heq.symm)
      exact Prod.ext (hframe.cache ref href)
        (hframe.configMap _ fun heq => href (cmName_injective app₁ heq))
    · have hframe := (r.local_serve app₁).frame ⟨s.ipam, s.configMaps⟩
      exact Prod.ext rfl (hframe.configMap _ (h _ _).symm)
    · have hframe := (r.local_serve app₂).frame ⟨s.vlan, s.configMaps⟩
      exact Prod.ext rfl (hframe.configMap _ (h _ _))
    · have hframe := (r.local_serve app₂).frame ⟨s.vlan, s.configMaps⟩
      have href : ref ≠ r.index app₂ := fun heq => hne (congrArg Sum.inr heq.symm)
      exact Prod.ext (hframe.cache ref href)
        (hframe.configMap _ fun heq => href (cmName_injective app₂ heq))

end

theorem apart (P : Ipam.Platform) (yaml : Yaml Ipam.Document Text) (order : Ipam.MapOrder)
    (yaml' : Yaml (Store 16) Text) (order' : Vlan.RestoreOrder) (refuses : NewRequirement) :
    Apart (Ipam.app P yaml order) (Vlan.app yaml' order' refuses) := by
  intro ref ref' h
  have hlist := congrArg String.toList (ObjectReference.mk.inj h).1
  simp [Ipam.app, Vlan.app] at hlist

/-- Whatever else the server is asked, an index of either backend answers the requests that are for
it, and ends with the table and the ConfigMap, as if only these had been made. -/
theorem indices_independent (P : Ipam.Platform) (yaml : Yaml Ipam.Document Text)
    (order : Ipam.MapOrder) (yaml' : Yaml (Store 16) Text) (order' : Vlan.RestoreOrder)
    (refuses : NewRequirement) (s : Server Ipam.RibState (DB 16) Text)
    (rs : List (Request Ipam.IpamLists Ipam.IPClaim ⊕ Request Vlan.VlanLists Vlan.VLANClaim))
    (i : Index) :
    let S := server (Ipam.app P yaml order) (Vlan.app yaml' order' refuses)
    (S.run s rs).1.filter (fun a => S.addr a.1 = i) =
        (S.run s (rs.filter fun r => S.addr r = i)).1 ∧
      S.view i (S.run s rs).2 = S.view i (S.run s (rs.filter fun r => S.addr r = i)).2 :=
  (local_server (apart P yaml order yaml' order' refuses)).run_filter rfl rs

end K8sIpam.Backend.Isolation
