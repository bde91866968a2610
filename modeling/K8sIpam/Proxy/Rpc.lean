import K8sIpam.Lib.Simulate
import K8sIpam.Controllers.NetworkInstance
import K8sIpam.Ipam.Getter
import K8sIpam.Proxy.Json
import K8sIpam.Proxy.Refresh

/-! # From a controller to the backend

A controller calls the client proxy, which makes a request of the resource and sends it to the server
proxy, which looks for the backend of its group. `clientproxy.go`, `watch.go`, `informer.go` and
`cache.go` on the one side, `serverproxy.go` and `ipam.go` on the other. The proxies are written for
any resource and any backend; how resources are written as JSON is a parameter. -/

namespace K8sIpam.Proxy.Rpc
open Std Atomic Ipam

variable {Ctx Ch σ α β : Type}

/-! ## The backend -/

/-- The interface `Backend`: resources are texts. -/
structure BackendApi (Ctx σ : Type) where
  createIndex : Ctx → String → σ → Except Failure Unit × σ
  deleteIndex : Ctx → String → σ → Except Failure Unit × σ
  getClaim : Ctx → String → σ → Except Failure String × σ
  claim : Ctx → String → σ → Except Failure String × σ
  deleteClaim : Ctx → String → σ → Except Failure Unit × σ

/-- What a request of the backend meets: calls to the API that fail, and what it lists there. -/
structure Context where
  errs : Backend.ApiErrors
  lists : IpamLists

/-- The text is decoded first. -/
def decoded (json : Json α) (f : α → σ → Except Failure β × σ) (b : String) (s : σ) :
    Except Failure β × σ :=
  match json.unmarshal b with
  | .error e => (.error e, s)
  | .ok a => f a s

/-- The answer is encoded. -/
def encoded (json : Json α) (x : Except Failure α × σ) : Except Failure String × σ :=
  (x.1.map json.marshal, x.2)

section
variable {Text : Type} (P : Platform) (yaml : Backend.Yaml Document Text) (order : MapOrder)
  (jsonIndex : Json NetworkInstance) (jsonClaim : Json IPClaim)

/-- The world of the IPAM backend. -/
abbrev IpamWorld (Text : Type) := Backend.World RibState Text

/-- `GetClaim` reads the table of an initialized index. -/
def readClaim (c : IPClaim) (w : IpamWorld Text) : Except Failure IPClaim × IpamWorld Text :=
  match w.cache.get c.getCacheID false with
  | .error e => (.error e, w)
  | .ok t => (((getClaim P c).run (handler P.nipam) t).1, w)

def ipamBackend : BackendApi Context (IpamWorld Text) where
  createIndex ctx := decoded jsonIndex fun cr =>
    Backend.createIndex (app P yaml order) ctx.errs (Controllers.instanceIndex cr.metadata) ctx.lists
  deleteIndex ctx := decoded jsonIndex fun cr =>
    Backend.deleteIndex (app P yaml order) ctx.errs (Controllers.instanceIndex cr.metadata)
  getClaim _ := decoded jsonClaim fun c w => encoded jsonClaim (readClaim P c w)
  claim ctx := decoded jsonClaim fun c w =>
    encoded jsonClaim (Backend.claim (app P yaml order) ctx.errs c w)
  deleteClaim ctx := decoded jsonClaim fun c => Backend.deleteClaim (app P yaml order) ctx.errs c

end

/-! ## The server proxy -/

/-- The backends by the group and the version of what they serve, and how `fmt` prints a kind. -/
structure ServerProxy (Ctx σ : Type) where
  backends : String → String → Option (BackendApi Ctx σ)
  gvkString : ResourcePbGVK → String

namespace ServerProxy

variable (r : ServerProxy Ctx σ) (ctx : Ctx) (claim : ClaimRequest)

/-- The lookup that each of the calls begins with. -/
def registered (f : BackendApi Ctx σ → σ → Except Failure β × σ) (s : σ) : Except Failure β × σ :=
  match r.backends claim.header.gvk.group claim.header.gvk.version with
  | none => (.error (.error ("backend not registered, got: " ++ r.gvkString claim.header.gvk)), s)
  | some be => f be s

/-- The response to a claim, with the status that the backend has returned. -/
def response (x : Except Failure String × σ) : Except Failure ClaimResponse × σ :=
  (x.1.map fun b => ⟨claim.header, claim.spec, b, .valid, claim.expiryTime⟩, x.2)

def createIndex : σ → Except Failure Unit × σ :=
  r.registered claim fun be => be.createIndex ctx claim.spec

def deleteIndex : σ → Except Failure Unit × σ :=
  r.registered claim fun be => be.deleteIndex ctx claim.spec

def getClaim : σ → Except Failure ClaimResponse × σ :=
  r.registered claim fun be s => response claim (be.getClaim ctx claim.spec s)

def serveClaim : σ → Except Failure ClaimResponse × σ :=
  r.registered claim fun be s => response claim (be.claim ctx claim.spec s)

def deleteClaim : σ → Except Failure Unit × σ :=
  r.registered claim fun be => be.deleteClaim ctx claim.spec

end ServerProxy

/-! ## The client proxy -/

/-- What a client proxy is made with: its connection, how an error of the server looks like at the
client, the requests for its resources, and the validations of refreshed claims by their group. -/
structure Client (Ix Obj X : Type) where
  connected : Bool
  rpcError : Failure → Failure
  indexRequest : Ix → ClaimRequest
  normalizeFn : Obj → Except Failure ClaimRequest
  unmarshal : String → Except Failure X
  validator : String → Option (ClaimResponse → ClaimResponse → Bool)

/-- An event on a channel: the kind and the name of its object. -/
abbrev GenericEvent (Ch : Type) := Ch × GroupVersionKind × Nsn

/-- The event channels of the informer by the kind of the owner. -/
abbrev EventChs (Ch : Type) := GroupVersionKind → Option Ch

/-- The event that `NotifyClient` sends: none without a channel for the kind, where the source only
writes to its log. -/
def EventChs.notifyClient (eventCh : EventChs Ch) (owner : GroupVersionKind × Nsn) :
    Option (GenericEvent Ch) :=
  (eventCh owner.1).map (·, owner)

/-- The cache, the informer with the events that were sent on its channels, and the server. -/
structure State (Ch σ : Type) where
  cache : Cache
  eventCh : EventChs Ch
  events : List (GenericEvent Ch)
  server : σ

/-- The client proxy begins with an informer without channels. -/
def State.new (w : σ) : State Ch σ := ⟨fun _ => none, fun _ => none, [], w⟩

def State.addEventChs (eventChannels : EventChs Ch) (s : State Ch σ) : State Ch σ :=
  { s with eventCh := eventChannels }

def State.notifyClient (owner : GroupVersionKind × Nsn) (s : State Ch σ) : State Ch σ :=
  { s with events := s.events ++ (s.eventCh.notifyClient owner).toList }

def unreachable : Failure := .error "backend server unreachable"

namespace Client

variable {Ix Obj X : Type} (r : Client Ix Obj X) (server : ServerProxy Ctx σ) (ctx : Ctx)

/-- A call to the server, if there is a connection. -/
def remote (call : σ → Except Failure β × σ) (s : State Ch σ) : Except Failure β × State Ch σ :=
  if r.connected then
    let x := call s.server
    (x.1.mapError r.rpcError, { s with server := x.2 })
  else (.error unreachable, s)

def createIndex (cr : Ix) : State Ch σ → Except Failure Unit × State Ch σ :=
  r.remote (server.createIndex ctx (r.indexRequest cr))

def deleteIndex (cr : Ix) : State Ch σ → Except Failure Unit × State Ch σ :=
  r.remote (server.deleteIndex ctx (r.indexRequest cr))

/-- A response that is not valid gives no claim and no error. -/
def getClaim (o : Obj) (s : State Ch σ) : Except Failure (Option X) × State Ch σ :=
  match r.normalizeFn o with
  | .error e => (.error e, s)
  | .ok req =>
    match r.remote (server.getClaim ctx req) s with
    | (.error e, s) => (.error e, s)
    | (.ok resp, s) =>
      if resp.statusCode ≠ .valid then (.ok none, s)
      else ((r.unmarshal resp.status).map some, s)

/-- The response from the cache or from the server. The source sets `refresh` to false, and does not
add the response of the server to the cache. -/
def claimRequest (req : ClaimRequest) (s : State Ch σ) : Except Failure ClaimResponse × State Ch σ :=
  if r.connected then
    match s.cache (getKey req) with
    | some cacheData =>
      if isCacheDataValid cacheData req then (.ok cacheData, s)
      else r.remote (server.serveClaim ctx req) s
    | none => r.remote (server.serveClaim ctx req) s
  else (.error unreachable, s)

def claim (o : Obj) (s : State Ch σ) : Except Failure X × State Ch σ :=
  match r.normalizeFn o with
  | .error e => (.error e, s)
  | .ok req =>
    match r.claimRequest server ctx req s with
    | (.error e, s) => (.error e, s)
    | (.ok resp, s) => (r.unmarshal resp.status, s)

/-- The entry of the cache is deleted only if the server has deleted the claim. -/
def deleteClaim (o : Obj) (s : State Ch σ) : Except Failure Unit × State Ch σ :=
  match r.normalizeFn o with
  | .error e => (.error e, s)
  | .ok req =>
    match r.remote (server.deleteClaim ctx req) s with
    | (.error e, s) => (.error e, s)
    | (.ok (), s) => (.ok (), { s with cache := Function.update s.cache (getKey req) none })

end Client

/-- A response on the watch: its entry is deleted from the cache if the status is unknown, and its
owner is notified. -/
def State.watch (response : WatchResponse) (s : State Ch σ) : State Ch σ :=
  let key := (getSchemaGVKFromResourcePbGVK response.header.gvk, response.header.nsn)
  let s := if response.statusCode = .unknown then
      { s with cache := Function.update s.cache key none }
    else s
  s.notifyClient (notified response)

/-- The entries that expire, for the keys of the cache in the order of the loop. -/
def Cache.validateExpiryTime (expires : ClaimResponse → Bool) (cache : Cache)
    (keys : List ObjectKindKey) : List (ObjectKindKey × ClaimResponse) :=
  keys.filterMap fun key => (cache key).bind fun resp =>
    if expires resp then some (key, resp) else none

namespace Client

variable {Ix Obj X : Type} (r : Client Ix Obj X) (server : ServerProxy Ctx σ) (ctx : Ctx)

/-- The entry is deleted and its owner notified. -/
def drop (entry : ObjectKindKey × ClaimResponse) (s : State Ch σ) : State Ch σ :=
  { s with cache := Function.update s.cache entry.1 none }.notifyClient (owner entry.2)

def refresh (expiryTime : String) (s : State Ch σ) (entry : ObjectKindKey × ClaimResponse) :
    State Ch σ :=
  match r.claimRequest server ctx (refreshRequest entry.2 expiryTime) s with
  | (.error _, s) => drop entry s
  | (.ok resp, s) =>
    match r.validator entry.2.header.gvk.group with
    | none => s
    | some validate => if !validate entry.2 resp then drop entry s else s

def refreshAll (expires : ClaimResponse → Bool) (expiryTime : String) (keys : List ObjectKindKey)
    (s : State Ch σ) : State Ch σ :=
  (Cache.validateExpiryTime expires s.cache keys).foldl (r.refresh server ctx expiryTime) s

end Client

/-! ## Runs -/

/-- What happens at a client proxy: calls of the controllers, event channels that are handed to it,
responses on the watch, and passes of the refresh handler. -/
inductive Event (Ix Obj Ch : Type) where
  | createIndex (cr : Ix)
  | deleteIndex (cr : Ix)
  | getClaim (o : Obj)
  | claim (o : Obj)
  | deleteClaim (o : Obj)
  | addEventChs (eventChannels : EventChs Ch)
  | watch (response : WatchResponse)
  | refresh (expires : ClaimResponse → Bool) (expiryTime : String) (keys : List ObjectKindKey)

/-- The informer on its own: what it sends for the responses on the watch. -/
def inform {Ix Obj : Type} (eventCh : EventChs Ch) (e : Event Ix Obj Ch × Ctx) :
    List (GenericEvent Ch) × EventChs Ch :=
  match e.1 with
  | .addEventChs eventChannels => ([], eventChannels)
  | .watch response => ((eventCh.notifyClient (notified response)).toList, eventCh)
  | _ => ([], eventCh)

section
variable {Ix Obj X : Type} (r : Client Ix Obj X) (server : ServerProxy Ctx σ)

/-- The calls that return no claim. -/
def noClaim {τ : Type} (x : Except Failure Unit × τ) : Except Failure (Option X) × τ :=
  (x.1.map fun _ => none, x.2)

def Client.step (s : State Ch σ) (e : Event Ix Obj Ch × Ctx) :
    Except Failure (Option X) × State Ch σ :=
  match e.1 with
  | .createIndex cr => noClaim (r.createIndex server e.2 cr s)
  | .deleteIndex cr => noClaim (r.deleteIndex server e.2 cr s)
  | .getClaim o => r.getClaim server e.2 o s
  | .claim o =>
    let x := r.claim server e.2 o s
    (x.1.map some, x.2)
  | .deleteClaim o => noClaim (r.deleteClaim server e.2 o s)
  | .addEventChs eventChannels => (.ok none, s.addEventChs eventChannels)
  | .watch response => (.ok none, s.watch response)
  | .refresh expires expiryTime keys =>
    (.ok none, r.refreshAll server e.2 expires expiryTime keys s)

end

/-! ## The IPAM client -/

/-- The header names the resource and its owner. -/
def buildResourcePb (ownerGVK : GroupVersionKind) (m : ObjectMeta)
    (nsnName specBody expiryTime : String) (gvk : GroupVersionKind) : ClaimRequest where
  header :=
    { gvk := getResourcePbGVKFromSchemaGVK gvk
      nsn := ⟨m.ns, nsnName⟩
      ownerGvk := getResourcePbGVKFromSchemaGVK ownerGVK
      ownerNsn := ⟨m.ns, m.name⟩ }
  spec := specBody
  expiryTime

section
variable (P : Platform) (jsonIndex : Json NetworkInstance) (jsonClaim : Json IPClaim)

/-- The kind of a prefix and of a network instance is their own owner kind: `NormalizeKRM` has set
the label, or there are no labels. -/
def ownerGVK : KrmObject → GroupVersionKind
  | .ipPrefix _ => ipPrefixGVK
  | .ipClaim cr =>
    match cr.metadata.labels[nephioOwnerGvkKey]? with
    | some value => stringToGVK value
    | none => ipClaimGVK
  | .networkInstance _ _ => networkInstanceGVK

def metadata : KrmObject → ObjectMeta
  | .ipPrefix cr => cr.metadata
  | .ipClaim cr => cr.metadata
  | .networkInstance cr _ => cr.metadata

def nsnName : KrmObject → String
  | .ipPrefix cr => cr.metadata.name
  | .ipClaim cr => cr.metadata.name
  | .networkInstance cr pfx => cr.getNameFromNetworkInstancePrefix pfx.pfx

/-- Only IP claims expire, in an hour from now. -/
def expiryTime (inAnHour : String) : KrmObject → String
  | .ipClaim _ => inAnHour
  | _ => "never"

def normalizeKRMToResourcePb (inAnHour : String) (o : KrmObject) : Except Failure ClaimRequest := do
  let claim ← normalizeKRM P o
  return buildResourcePb (ownerGVK o) (metadata o) (nsnName o) (jsonClaim.marshal claim)
    (expiryTime inAnHour o) ipClaimGVK

def ipamIndexRequest (cr : NetworkInstance) : ClaimRequest :=
  buildResourcePb networkInstanceGVK cr.metadata cr.metadata.name (jsonIndex.marshal cr) "never"
    networkInstanceGVK

def ipamClient (connected : Bool) (rpcError : Failure → Failure)
    (validator : String → Option (ClaimResponse → ClaimResponse → Bool)) (inAnHour : String) :
    Client NetworkInstance KrmObject IPClaim where
  connected
  rpcError
  indexRequest := ipamIndexRequest jsonIndex
  normalizeFn := normalizeKRMToResourcePb P jsonClaim inAnHour
  unmarshal := jsonClaim.unmarshal
  validator

end

/-! ## The refresh handler

At any moment the client is a client proxy whose server answers from the state that it has. The
handler of that proxy tells what a refresh does to the cache and whom it notifies. -/

def failureText : Failure → String
  | .error msg | .panic msg => msg

section
variable {Ix Obj X : Type} (r : Client Ix Obj X) (server : ServerProxy Ctx σ) (ctx : Ctx)

def Client.proxy (w : σ) : ClientProxy where
  resourceClient := if r.connected then
      some fun req => (server.serveClaim ctx req w).1.mapError (failureText ∘ r.rpcError)
    else none
  validator := r.validator

/-- The informer is left as it is. -/
def Quiet (s s' : State Ch σ) : Prop := s'.eventCh = s.eventCh ∧ s'.events = s.events

variable {r} in
theorem remote_connected (hconn : r.connected = true) (call : σ → Except Failure α × σ)
    (s : State Ch σ) : r.remote call s =
      ((call s.server).1.mapError r.rpcError, { s with server := (call s.server).2 }) :=
  if_pos hconn

variable {r} in
theorem remote_quiet (call : σ → Except Failure β × σ) (s : State Ch σ) :
    Quiet s (r.remote call s).2 ∧ (r.remote call s).2.cache = s.cache := by
  unfold Client.remote
  split
  · exact ⟨⟨rfl, rfl⟩, rfl⟩
  · exact ⟨⟨rfl, rfl⟩, rfl⟩

theorem claimRequest_quiet (req : ClaimRequest) (s : State Ch σ) :
    Quiet s (r.claimRequest server ctx req s).2 ∧
      (r.claimRequest server ctx req s).2.cache = s.cache := by
  unfold Client.claimRequest
  split
  · split
    · split
      · exact ⟨⟨rfl, rfl⟩, rfl⟩
      · exact remote_quiet _ s
    · exact remote_quiet _ s
  · exact ⟨⟨rfl, rfl⟩, rfl⟩

theorem claimRequest_answer (req : ClaimRequest) (s : State Ch σ) (refresh : Bool) :
    (r.claimRequest server ctx req s).1.mapError failureText =
      (r.proxy server ctx s.server).claim s.cache req refresh := by
  unfold Client.claimRequest ClientProxy.claim Client.proxy
  by_cases hconn : r.connected = true
  · have hremote : ∀ s : State Ch σ, (r.remote (server.serveClaim ctx req) s).1.mapError failureText =
        (server.serveClaim ctx req s.server).1.mapError (failureText ∘ r.rpcError) := by
      intro s
      rw [remote_connected hconn]
      cases (server.serveClaim ctx req s.server).1 with
      | error e => rfl
      | ok resp => rfl
    simp only [if_pos hconn]
    cases s.cache (getKey req) with
    | none => exact hremote s
    | some cacheData =>
      dsimp only
      split
      · rfl
      · exact hremote s
  · simp only [if_neg hconn]
    rfl

theorem notifyClient_events (owner : GroupVersionKind × Nsn) (s : State Ch σ) :
    (s.notifyClient owner).events = s.events ++ [owner].filterMap s.eventCh.notifyClient := by
  rw [State.notifyClient, List.filterMap_cons]
  cases s.eventCh.notifyClient owner with
  | none => rfl
  | some e => rfl

/-- A refresh deletes from the cache what the handler deletes, and sends an event to each owner that
the handler notifies and that has a channel. -/
theorem refresh_eq_proxy (expiryTime : String) (s : State Ch σ)
    (entry : ObjectKindKey × ClaimResponse) :
    let x := (r.proxy server ctx s.server).refresh expiryTime ⟨s.cache, []⟩ entry
    (r.refresh server ctx expiryTime s entry).cache = x.cache ∧
      (r.refresh server ctx expiryTime s entry).events =
        s.events ++ x.notified.filterMap s.eventCh.notifyClient := by
  have hanswer := claimRequest_answer r server ctx (refreshRequest entry.2 expiryTime) s true
  obtain ⟨⟨hchannels, hevents⟩, hcache⟩ :=
    claimRequest_quiet r server ctx (refreshRequest entry.2 expiryTime) s
  unfold Client.refresh ClientProxy.refresh
  rcases hx : r.claimRequest server ctx (refreshRequest entry.2 expiryTime) s with ⟨x, s'⟩
  rw [hx] at hanswer hchannels hevents hcache
  dsimp only at hanswer hchannels hevents hcache ⊢
  rw [← hanswer]
  have hdrop : (Client.drop entry s').cache = Function.update s.cache entry.1 none ∧
      (Client.drop entry s').events =
        s.events ++ ([] ++ [owner entry.2]).filterMap s.eventCh.notifyClient := by
    constructor
    · rw [← hcache]
      rfl
    · rw [Client.drop, notifyClient_events, hchannels, hevents, List.nil_append]
  have hkeep : s'.cache = s.cache ∧ s'.events = s.events ++ [].filterMap s.eventCh.notifyClient :=
    ⟨hcache, hevents.trans (List.append_nil _).symm⟩
  cases x with
  | error e => exact hdrop
  | ok resp =>
    simp only [Except.mapError, Client.proxy]
    cases r.validator entry.2.header.gvk.group with
    | none => exact hkeep
    | some validate =>
      dsimp only
      split
      · exact hdrop
      · exact hkeep

end

/-! ## What the path amounts to -/

section
variable {Text : Type} (P : Platform) (yaml : Backend.Yaml Document Text) (order : MapOrder)

/-- A call that is made to the backend for the claim of a resource. -/
def normalized {α : Type} (o : KrmObject)
    (call : IPClaim → IpamWorld Text → Except Failure α × IpamWorld Text) (w : IpamWorld Text) :
    Except Failure α × IpamWorld Text :=
  match normalizeKRM P o with
  | .error e => (.error e, w)
  | .ok c => call c w

/-- The calls without the proxies. -/
def direct (w : IpamWorld Text) (e : Event NetworkInstance KrmObject Ch × Context) :
    Except Failure (Option IPClaim) × IpamWorld Text :=
  match e.1 with
  | .createIndex cr => noClaim (Backend.createIndex (app P yaml order) e.2.errs
      (Controllers.instanceIndex cr.metadata) e.2.lists w)
  | .deleteIndex cr => noClaim (Backend.deleteIndex (app P yaml order) e.2.errs
      (Controllers.instanceIndex cr.metadata) w)
  | .getClaim o =>
    let x := normalized P o (readClaim P) w
    (x.1.map some, x.2)
  | .claim o =>
    let x := normalized P o (Backend.claim (app P yaml order) e.2.errs) w
    (x.1.map some, x.2)
  | .deleteClaim o =>
    noClaim (normalized P o (Backend.deleteClaim (app P yaml order) e.2.errs) w)
  | .addEventChs _ | .watch _ | .refresh _ _ _ => (.ok none, w)

/-- An answer that has come over the network: an error of the server has changed its form. -/
def Through {α : Type} (rpcError : Failure → Failure) (x y : Except Failure α) : Prop :=
  x = y ∨ ∃ e, y = .error e ∧ x = .error (rpcError e)

end

section
variable {rpcError : Failure → Failure} {A B : Type}

theorem Through.map {x y : Except Failure A} (h : Through rpcError x y) (f : A → B) :
    Through rpcError (x.map f) (y.map f) := by
  rcases h with rfl | ⟨e, rfl, rfl⟩
  · exact .inl rfl
  · exact .inr ⟨e, rfl, rfl⟩

theorem through_mapError (x : Except Failure A) : Through rpcError (x.mapError rpcError) x := by
  cases x with
  | error e => exact .inr ⟨e, rfl, rfl⟩
  | ok a => exact .inl rfl

/-- What was answered without an error arrives as it is. -/
theorem answers_of_through {xs ys : List (Except Failure A)}
    (h : List.Forall₂ (Through rpcError) xs ys) :
    xs.map Except.toOption = ys.map Except.toOption := by
  induction h with
  | nil => rfl
  | cons hxy _ ih =>
    rw [List.map_cons, List.map_cons, ih]
    rcases hxy with rfl | ⟨e, rfl, rfl⟩
    · rfl
    · rfl

end

section
variable {Ix Obj X : Type} {r : Client Ix Obj X} {server : ServerProxy Ctx σ} {ctx : Ctx}
  {be : BackendApi Ctx σ} {req : ClaimRequest}

theorem registered_eq (hreg : server.backends req.header.gvk.group req.header.gvk.version = some be)
    (f : BackendApi Ctx σ → σ → Except Failure β × σ) (s : σ) :
    server.registered req f s = f be s := by
  unfold ServerProxy.registered
  rw [hreg]

/-- With nothing in the cache, every claim is sent to the server. -/
theorem claimRequest_eq (hconn : r.connected = true) {s : State Ch σ} (hcache : s.cache = fun _ => none) :
    r.claimRequest server ctx req s = r.remote (server.serveClaim ctx req) s := by
  unfold Client.claimRequest
  rw [if_pos hconn, hcache]

/-- With nothing in the cache, nothing is refreshed. -/
theorem refreshAll_eq {s : State Ch σ} (hcache : s.cache = fun _ => none)
    (expires : ClaimResponse → Bool) (expiryTime : String) (keys : List ObjectKindKey) :
    r.refreshAll server ctx expires expiryTime keys s = s := by
  have hnone : Cache.validateExpiryTime expires s.cache keys = [] := by
    unfold Cache.validateExpiryTime
    rw [hcache]
    exact List.filterMap_eq_nil_iff.mpr fun _ _ => rfl
  unfold Client.refreshAll
  rw [hnone]
  rfl

theorem update_empty (k : ObjectKindKey) :
    Function.update (fun _ => none : Cache) k none = fun _ => none :=
  Function.update_eq_self k _

end

theorem Quiet.append_nil {s s' : State Ch σ} (h : Quiet s s') :
    s'.eventCh = s.eventCh ∧ s'.events = s.events ++ [] :=
  ⟨h.1, h.2.trans (List.append_nil _).symm⟩

section
variable {Text : Type} {P : Platform} {yaml : Backend.Yaml Document Text} {order : MapOrder}
  {jsonIndex : Json NetworkInstance} {jsonClaim : Json IPClaim} {rpcError : Failure → Failure}
  {validator : String → Option (ClaimResponse → ClaimResponse → Bool)} {inAnHour : String}
  {server : ServerProxy Context (IpamWorld Text)} {s : State Ch (IpamWorld Text)}

theorem decoded_marshal {A : Type} (json : Json A) (f : A → σ → Except Failure β × σ) (a : A)
    (s : σ) : decoded json f (json.marshal a) s = f a s := by
  unfold decoded
  rw [json.round_trip]

/-- The IPAM backend is registered under the group and the version of its kinds. -/
def Registers (P : Platform) (yaml : Backend.Yaml Document Text) (order : MapOrder)
    (jsonIndex : Json NetworkInstance) (jsonClaim : Json IPClaim)
    (server : ServerProxy Context (IpamWorld Text)) : Prop :=
  server.backends ipClaimGVK.group ipClaimGVK.version =
    some (ipamBackend P yaml order jsonIndex jsonClaim)

/-- The state of the client belongs to a state of the backend. -/
structure Linked (s : State Ch (IpamWorld Text)) (w : IpamWorld Text) : Prop where
  server : s.server = w
  cache : s.cache = fun _ => none

/-- What the client sends for a resource that can be normalized. -/
theorem normalizeFn_ok (jsonClaim : Json IPClaim) (inAnHour : String) {o : KrmObject} {c : IPClaim}
    (h : normalizeKRM P o = .ok c) :
    ∃ req, normalizeKRMToResourcePb P jsonClaim inAnHour o = .ok req ∧
      req.header.gvk = getResourcePbGVKFromSchemaGVK ipClaimGVK ∧ req.spec = jsonClaim.marshal c := by
  unfold normalizeKRMToResourcePb
  rw [h]
  exact ⟨_, rfl, rfl, rfl⟩

theorem normalizeFn_error {o : KrmObject} {e : Failure} (h : normalizeKRM P o = .error e) :
    normalizeKRMToResourcePb P jsonClaim inAnHour o = .error e := by
  unfold normalizeKRMToResourcePb
  rw [h]
  rfl

theorem Linked.next (h : s.cache = fun _ => none) (w : IpamWorld Text) :
    Linked { s with server := w } w := ⟨rfl, h⟩

/-- A request for an index, which the client makes of the resource as it is. -/
theorem index_through (r : Client NetworkInstance KrmObject IPClaim) (hconn : r.connected = true)
    (hcache : s.cache = fun _ => none) {call : IpamWorld Text → Except Failure Unit × IpamWorld Text}
    {y : Except Failure Unit × IpamWorld Text} (hcall : call s.server = y) :
    Through r.rpcError (noClaim (X := IPClaim) (r.remote call s)).1 (noClaim (X := IPClaim) y).1 ∧
      Linked (noClaim (X := IPClaim) (r.remote call s)).2 (noClaim (X := IPClaim) y).2 := by
  rw [remote_connected hconn, hcall]
  exact ⟨(through_mapError y.1).map _, .next hcache y.2⟩

/-- The answer to a claim is decoded to what the backend has returned. -/
theorem answer_through (r : Client NetworkInstance KrmObject IPClaim) (hconn : r.connected = true)
    (hjson : r.unmarshal = jsonClaim.unmarshal) (req : ClaimRequest)
    {call : IpamWorld Text → Except Failure ClaimResponse × IpamWorld Text}
    {y : Except Failure IPClaim × IpamWorld Text}
    (hcall : call s.server = ServerProxy.response req (encoded jsonClaim y)) :
    (∃ e, y.1 = .error e ∧ r.remote call s = (.error (r.rpcError e), { s with server := y.2 })) ∨
    (∃ c resp, y.1 = .ok c ∧ resp.statusCode = .valid ∧ r.unmarshal resp.status = .ok c ∧
      r.remote call s = (.ok resp, { s with server := y.2 })) := by
  rw [remote_connected hconn, hcall]
  obtain ⟨x, w⟩ := y
  cases x with
  | error e => exact .inl ⟨e, rfl, rfl⟩
  | ok c => exact .inr ⟨c, _, rfl, rfl, by rw [hjson]; exact jsonClaim.round_trip c, rfl⟩

/-- An event does the same with the proxies as without. -/
def EventThrough (P : Platform) (yaml : Backend.Yaml Document Text) (order : MapOrder)
    (r : Client NetworkInstance KrmObject IPClaim) (server : ServerProxy Context (IpamWorld Text))
    (s : State Ch (IpamWorld Text)) (e : Event NetworkInstance KrmObject Ch × Context) : Prop :=
  Through r.rpcError (r.step server s e).1 (direct P yaml order s.server e).1 ∧
    Linked (r.step server s e).2 (direct P yaml order s.server e).2

variable (hreg : Registers P yaml order jsonIndex jsonClaim server)
include hreg

theorem serve_eq {req : ClaimRequest} (hgroup : req.header.gvk.group = ipClaimGVK.group)
    (hversion : req.header.gvk.version = ipClaimGVK.version)
    (f : BackendApi Context (IpamWorld Text) → IpamWorld Text → Except Failure β × IpamWorld Text)
    (w : IpamWorld Text) :
    server.registered req f w = f (ipamBackend P yaml order jsonIndex jsonClaim) w := by
  refine registered_eq ?_ f w
  rw [hgroup, hversion]
  exact hreg

theorem getClaim_through (hcache : s.cache = fun _ => none) (o : KrmObject) (ctx : Context) :
    EventThrough P yaml order
      (ipamClient P jsonIndex jsonClaim true rpcError validator inAnHour) server s
      (.getClaim o, ctx) := by
  let r := ipamClient P jsonIndex jsonClaim true rpcError validator inAnHour
  simp only [EventThrough, Client.step, Client.getClaim, direct, normalized]
  cases hn : normalizeKRM P o with
  | error e =>
    have hnorm : r.normalizeFn o = .error e := normalizeFn_error hn
    rw [hnorm]
    exact ⟨.inl rfl, rfl, hcache⟩
  | ok c =>
    obtain ⟨req, hreq, hgvk, hspec⟩ := normalizeFn_ok jsonClaim inAnHour hn
    have hnorm : r.normalizeFn o = .ok req := hreq
    have hcall : server.getClaim ctx req s.server =
        ServerProxy.response req (encoded jsonClaim (readClaim P c s.server)) := by
      refine (serve_eq hreg (by rw [hgvk]; rfl) (by rw [hgvk]; rfl) _ _).trans ?_
      rw [hspec]
      exact congrArg (ServerProxy.response req) (decoded_marshal jsonClaim
        (fun c w => encoded jsonClaim (readClaim P c w)) c s.server)
    rw [hnorm]
    dsimp only
    rcases answer_through r rfl rfl req hcall with
      ⟨e, hy, hx⟩ | ⟨c', resp, hy, hvalid, hdecoded, hx⟩
    · rw [hx, hy]
      exact ⟨.inr ⟨e, rfl, rfl⟩, .next hcache _⟩
    · rw [hx, hy]
      dsimp only
      rw [if_neg (not_not.mpr hvalid), hdecoded]
      exact ⟨.inl rfl, .next hcache _⟩

theorem claim_through (hcache : s.cache = fun _ => none) (o : KrmObject) (ctx : Context) :
    EventThrough P yaml order
      (ipamClient P jsonIndex jsonClaim true rpcError validator inAnHour) server s
      (.claim o, ctx) := by
  let r := ipamClient P jsonIndex jsonClaim true rpcError validator inAnHour
  simp only [EventThrough, Client.step, Client.claim, direct, normalized]
  cases hn : normalizeKRM P o with
  | error e =>
    have hnorm : r.normalizeFn o = .error e := normalizeFn_error hn
    rw [hnorm]
    exact ⟨.inl rfl, rfl, hcache⟩
  | ok c =>
    obtain ⟨req, hreq, hgvk, hspec⟩ := normalizeFn_ok jsonClaim inAnHour hn
    have hnorm : r.normalizeFn o = .ok req := hreq
    have hcall : server.serveClaim ctx req s.server = ServerProxy.response req
        (encoded jsonClaim (Backend.claim (app P yaml order) ctx.errs c s.server)) := by
      refine (serve_eq hreg (by rw [hgvk]; rfl) (by rw [hgvk]; rfl) _ _).trans ?_
      rw [hspec]
      exact congrArg (ServerProxy.response req) (decoded_marshal jsonClaim (fun c w =>
        encoded jsonClaim (Backend.claim (app P yaml order) ctx.errs c w)) c s.server)
    rw [hnorm]
    dsimp only
    rw [claimRequest_eq rfl hcache]
    rcases answer_through r rfl rfl req hcall with
      ⟨e, hy, hx⟩ | ⟨c', resp, hy, -, hdecoded, hx⟩
    · rw [hx, hy]
      exact ⟨.inr ⟨e, rfl, rfl⟩, .next hcache _⟩
    · rw [hx, hy]
      dsimp only
      rw [hdecoded]
      exact ⟨.inl rfl, .next hcache _⟩

theorem deleteClaim_through (hcache : s.cache = fun _ => none) (o : KrmObject) (ctx : Context) :
    EventThrough P yaml order
      (ipamClient P jsonIndex jsonClaim true rpcError validator inAnHour) server s
      (.deleteClaim o, ctx) := by
  let r := ipamClient P jsonIndex jsonClaim true rpcError validator inAnHour
  simp only [EventThrough, Client.step, Client.deleteClaim, direct, normalized]
  cases hn : normalizeKRM P o with
  | error e =>
    have hnorm : r.normalizeFn o = .error e := normalizeFn_error hn
    rw [hnorm]
    exact ⟨.inl rfl, rfl, hcache⟩
  | ok c =>
    obtain ⟨req, hreq, hgvk, hspec⟩ := normalizeFn_ok jsonClaim inAnHour hn
    have hnorm : r.normalizeFn o = .ok req := hreq
    have hcall : server.deleteClaim ctx req s.server =
        Backend.deleteClaim (app P yaml order) ctx.errs c s.server := by
      refine (serve_eq hreg (by rw [hgvk]; rfl) (by rw [hgvk]; rfl) _ _).trans ?_
      rw [hspec]
      exact decoded_marshal jsonClaim _ c _
    rw [hnorm]
    dsimp only
    rw [remote_connected (r := r) rfl, hcall]
    rcases Backend.deleteClaim (app P yaml order) ctx.errs c s.server with ⟨x, w⟩
    cases x with
    | error e => exact ⟨.inr ⟨e, rfl, rfl⟩, .next hcache w⟩
    | ok u =>
      have hempty : Function.update s.cache (getKey req) none = fun _ => none := by
        rw [hcache, update_empty]
      exact ⟨.inl rfl, rfl, hempty⟩

/-- One event, with the proxies and without. -/
theorem step_through (s : State Ch (IpamWorld Text)) (w : IpamWorld Text)
    (e : Event NetworkInstance KrmObject Ch × Context) (h : Linked s w) :
    Through rpcError
        ((ipamClient P jsonIndex jsonClaim true rpcError validator inAnHour).step server s e).1
        (direct P yaml order w e).1 ∧
      Linked ((ipamClient P jsonIndex jsonClaim true rpcError validator inAnHour).step server s e).2
        (direct P yaml order w e).2 := by
  obtain ⟨e, ctx⟩ := e
  obtain ⟨rfl, hcache⟩ := h
  let r := ipamClient P jsonIndex jsonClaim true rpcError validator inAnHour
  cases e with
  | createIndex cr =>
    exact index_through r rfl hcache
      ((serve_eq hreg rfl rfl _ _).trans (decoded_marshal jsonIndex _ cr _))
  | deleteIndex cr =>
    exact index_through r rfl hcache
      ((serve_eq hreg rfl rfl _ _).trans (decoded_marshal jsonIndex _ cr _))
  | getClaim o => exact getClaim_through hreg hcache o ctx
  | claim o => exact claim_through hreg hcache o ctx
  | deleteClaim o => exact deleteClaim_through hreg hcache o ctx
  | addEventChs eventChannels => exact ⟨.inl rfl, rfl, hcache⟩
  | watch response =>
    refine ⟨.inl rfl, ?_⟩
    simp only [Client.step, direct, State.watch, State.notifyClient, hcache, update_empty]
    split
    · exact ⟨rfl, rfl⟩
    · exact ⟨rfl, hcache⟩
  | refresh expires expiryTime keys =>
    refine ⟨.inl rfl, ?_⟩
    simp only [Client.step, direct, refreshAll_eq hcache]
    exact ⟨rfl, hcache⟩

omit hreg in
/-- With nothing in the cache, the informer is told of the responses on the watch and of nothing
else. -/
theorem step_inform (server : ServerProxy Context (IpamWorld Text))
    (r : Client NetworkInstance KrmObject IPClaim) (hconn : r.connected = true)
    (e : Event NetworkInstance KrmObject Ch × Context) (hcache : s.cache = fun _ => none) :
    (r.step server s e).2.eventCh = (inform s.eventCh e).2 ∧
      (r.step server s e).2.events = s.events ++ (inform s.eventCh e).1 := by
  have hremote : ∀ {A : Type} (call : IpamWorld Text → Except Failure A × IpamWorld Text),
      Quiet s (r.remote call s).2 := fun call => (remote_quiet call s).1
  obtain ⟨e, ctx⟩ := e
  cases e with
  | createIndex cr => exact (hremote _).append_nil
  | deleteIndex cr => exact (hremote _).append_nil
  | getClaim o =>
    refine Quiet.append_nil ?_
    simp only [Client.step, Client.getClaim]
    split
    · exact ⟨rfl, rfl⟩
    next req _ =>
      have hcall := hremote (server.getClaim ctx req)
      rcases hx : r.remote (server.getClaim ctx req) s with ⟨e | resp, s'⟩
      all_goals rw [hx] at hcall
      · exact hcall
      · dsimp only
        split
        · exact hcall
        · exact hcall
  | claim o =>
    refine Quiet.append_nil ?_
    simp only [Client.step, Client.claim]
    split
    · exact ⟨rfl, rfl⟩
    next req _ =>
      have hcall := hremote (server.serveClaim ctx req)
      rw [claimRequest_eq hconn hcache]
      rcases hx : r.remote (server.serveClaim ctx req) s with ⟨e | resp, s'⟩
      all_goals rw [hx] at hcall
      · exact hcall
      · exact hcall
  | deleteClaim o =>
    refine Quiet.append_nil ?_
    simp only [Client.step, Client.deleteClaim, noClaim]
    split
    · exact ⟨rfl, rfl⟩
    next req _ =>
      have hcall := hremote (server.deleteClaim ctx req)
      rcases hx : r.remote (server.deleteClaim ctx req) s with ⟨e | u, s'⟩
      all_goals rw [hx] at hcall
      · exact hcall
      · exact hcall
  | addEventChs eventChannels => exact ⟨rfl, (List.append_nil _).symm⟩
  | watch response =>
    simp only [Client.step, State.watch, State.notifyClient, inform]
    split
    · exact ⟨rfl, rfl⟩
    · exact ⟨rfl, rfl⟩
  | refresh expires expiryTime keys =>
    simp only [Client.step, refreshAll_eq hcache]
    exact ⟨rfl, (List.append_nil _).symm⟩

theorem run_inform (es : List (Event NetworkInstance KrmObject Ch × Context))
    (hcache : s.cache = fun _ => none) :
    (Simulate.run ((ipamClient P jsonIndex jsonClaim true rpcError validator inAnHour).step server) s
      es).2.events = s.events ++ (Simulate.run inform s.eventCh es).1.flatten := by
  induction es generalizing s with
  | nil => exact (List.append_nil _).symm
  | cons e es ih =>
    let client := ipamClient P jsonIndex jsonClaim true rpcError validator inAnHour
    have hlinked : Linked (client.step server s e).2 (direct P yaml order s.server e).2 :=
      (step_through hreg s s.server e ⟨rfl, hcache⟩).2
    obtain ⟨hchannels, hevents⟩ := step_inform server client rfl e hcache
    have hrest := ih hlinked.cache
    rw [hchannels, hevents, List.append_assoc] at hrest
    exact hrest

end

/-- A server where the IPAM backend is registered among others. -/
def ipamServer {Text : Type} (P : Platform) (yaml : Backend.Yaml Document Text) (order : MapOrder)
    (jsonIndex : Json NetworkInstance) (jsonClaim : Json IPClaim)
    (others : ServerProxy Context (IpamWorld Text)) : ServerProxy Context (IpamWorld Text) :=
  { others with
    backends := fun group version =>
      if group = ipClaimGVK.group ∧ version = ipClaimGVK.version then
        some (ipamBackend P yaml order jsonIndex jsonClaim)
      else others.backends group version }

/-- The path over the proxies is the backend: however calls, responses on the watch and refreshes
follow each other, each call is answered as the backend answers it, errors apart, which arrive as
errors, and the backend is left in the same state. The cache stays empty, so no claim is ever
refreshed, and the events that are sent are those of the informer for the responses on the watch. -/
theorem calls_reach_backend {Text Ch : Type} (P : Platform) (yaml : Backend.Yaml Document Text)
    (order : MapOrder) (jsonIndex : Json NetworkInstance) (jsonClaim : Json IPClaim)
    (rpcError : Failure → Failure)
    (validator : String → Option (ClaimResponse → ClaimResponse → Bool)) (inAnHour : String)
    (others : ServerProxy Context (IpamWorld Text)) (w : IpamWorld Text)
    (es : List (Event NetworkInstance KrmObject Ch × Context)) :
    let server := ipamServer P yaml order jsonIndex jsonClaim others
    let client := ipamClient P jsonIndex jsonClaim true rpcError validator inAnHour
    let x := Simulate.run (client.step server) (.new w) es
    let y := Simulate.run (direct P yaml order) w es
    List.Forall₂ (Through rpcError) x.1 y.1 ∧ x.2.server = y.2 ∧ x.2.cache = (fun _ => none) ∧
      x.2.events = (Simulate.run inform (fun _ => none) es).1.flatten := by
  have hreg : Registers P yaml order jsonIndex jsonClaim
      (ipamServer P yaml order jsonIndex jsonClaim others) := by
    simp only [Registers, ipamServer, and_self, if_true]
  have hstart : Linked (.new w : State Ch (IpamWorld Text)) w := ⟨rfl, rfl⟩
  obtain ⟨hanswers, hlinked⟩ := Simulate.run_simulates (A := Through rpcError)
    (step_through hreg) hstart es
  exact ⟨hanswers, hlinked.server, hlinked.cache, run_inform hreg es rfl⟩

/-! ## A session -/

def sampleInstance : NetworkInstance := ⟨⟨"vpc", "default", ∅⟩, ⟨[⟨"10.0.0.0/8", ∅⟩]⟩, ⟨[]⟩⟩

def sampleLoopback : IPClaim := sampleClaim ipClaimGVK "a" .loopback none none none (ofKind .aggregate)

/-- The event that the routes of the resource `default/a` of a kind have changed. -/
def sampleResponse (gvk : GroupVersionKind) : WatchResponse where
  header :=
    { gvk := getResourcePbGVKFromSchemaGVK gvk, nsn := ⟨"default", "a"⟩
      ownerGvk := getResourcePbGVKFromSchemaGVK gvk, ownerNsn := ⟨"default", "a"⟩ }
  statusCode := .unknown

/-- An address is claimed, once without a network instance and once with it, and given back. There is
a channel for IP claims only, and not from the beginning. -/
def session : List (Event NetworkInstance KrmObject Nat × Context) :=
  ([.claim (.ipClaim sampleLoopback), .createIndex sampleInstance,
    .claim (.networkInstance sampleInstance ⟨"10.0.0.0/8", ∅⟩), .watch (sampleResponse ipClaimGVK),
    .addEventChs fun gvk => if gvk = ipClaimGVK then some 0 else none,
    .claim (.ipClaim sampleLoopback), .watch (sampleResponse ipClaimGVK),
    .watch (sampleResponse ipPrefixGVK), .refresh (fun _ => true) "2023-06-01T11:00:00Z" [],
    .deleteClaim (.ipClaim sampleLoopback)] : List (Event NetworkInstance KrmObject Nat)).map
      (·, ⟨Backend.noErrors, ⟨[], []⟩⟩)

/-- For each call that was answered, the prefix of the claim in the answer. -/
def reportedPrefixes (answers : List (Except Failure (Option IPClaim))) :
    List (Option (Option String)) :=
  (answers.map Except.toOption).map (Option.map fun c => c.bind fun c => c.status.pfx)

/-- The first claim fails, the other calls are answered, and one event is sent. -/
theorem calls_reach_backend_session :
    let server := ipamServer .reference (.plain Document) .byKey instanceJson claimJson
      ⟨fun _ _ => none, fun _ => ""⟩
    let client := ipamClient .reference instanceJson claimJson true
      (fun e => .error ("rpc error: code = Unknown desc = " ++ failureText e)) (fun _ => none)
      "2023-06-01T11:00:00Z"
    let x := Simulate.run (client.step server) (.new ⟨fun _ => none, fun _ => none⟩) session
    reportedPrefixes x.1 =
        [none, some none, some (some "10.0.0.0/8"), some none, some none, some (some "10.0.0.0/32"),
          some none, some none, some none, some none] ∧
      x.2.events = [(0, ipClaimGVK, ⟨"default", "a"⟩)] := by
  obtain ⟨hanswers, -, -, hevents⟩ := calls_reach_backend .reference (.plain Document) .byKey
    instanceJson claimJson
    (fun e => .error ("rpc error: code = Unknown desc = " ++ failureText e)) (fun _ => none)
    "2023-06-01T11:00:00Z" ⟨fun _ _ => none, fun _ => ""⟩ ⟨fun _ => none, fun _ => none⟩ session
  constructor
  · unfold reportedPrefixes
    rw [answers_of_through hanswers]
    decide +kernel
  · refine hevents.trans ?_
    decide +kernel

end K8sIpam.Proxy.Rpc
