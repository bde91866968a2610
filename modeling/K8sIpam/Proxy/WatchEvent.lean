import K8sIpam.Api.Gvk
import K8sIpam.Ipam.Reference
import K8sIpam.Ipam.Routes
import K8sIpam.Ipam.Watcher

/-! # Watch events

`CreateCallBackFn` of `serverproxystate.go` and the client's side of it in `clientproxy/watch.go`: a
route becomes an event whose header is read from the labels of the route, and the client notifies
the resource that the header names. The watch itself is kept under the text of the owner kind. -/

namespace K8sIpam.Proxy
open Std Ipam Net

structure Nsn where
  ns : String
  name : String
  deriving DecidableEq

structure Header where
  gvk : ResourcePbGVK
  nsn : Nsn
  ownerGvk : ResourcePbGVK
  ownerNsn : Nsn
  deriving DecidableEq

inductive StatusCode where
  | valid | inValid | unknown
  deriving DecidableEq

structure WatchResponse where
  header : Header
  statusCode : StatusCode
  deriving DecidableEq

/-- The event of a route. -/
def watchResponse (statusCode : StatusCode) (route : Route) : WatchResponse where
  header :=
    { gvk := stringToResourcePbGVK (route.labels.get nephioGvkKey)
      nsn := ⟨route.labels.get nephioNsnNamespaceKey, route.labels.get nephioNsnNameKey⟩
      ownerGvk := stringToResourcePbGVK (route.labels.get nephioOwnerGvkKey)
      ownerNsn :=
        ⟨route.labels.get nephioOwnerNsnNamespaceKey, route.labels.get nephioOwnerNsnNameKey⟩ }
  statusCode

/-- What the callback sends on its stream. An error of the stream is logged, and the next route is
sent. -/
def createCallBackFn (routes : List Route) (statusCode : StatusCode) : List WatchResponse :=
  routes.map (watchResponse statusCode)

/-- The key under which `AddCallBackFn` keeps the watch of a request. -/
def watchKey (ownerGvk : ResourcePbGVK) : String := resourcePbGVKTostring ownerGvk

/-- The owner kind of the request that a client makes to watch a kind. -/
def watchRequest (gvk : GroupVersionKind) : ResourcePbGVK := getResourcePbGVKFromSchemaGVK gvk

/-- The kind and the name that the client notifies for an event. -/
def notified (response : WatchResponse) : GroupVersionKind × Nsn :=
  (getSchemaGVKFromResourcePbGVK response.header.ownerGvk, response.header.ownerNsn)

section
variable {g g' : GroupVersionKind} {route : Route} {code : StatusCode}

/-- The event of a route names the kind whose text the route has. -/
theorem watchResponse_ownerGvk (hg : g.Proper)
    (hroute : route.labels.get nephioOwnerGvkKey = gvkToString g) :
    (watchResponse code route).header.ownerGvk = getResourcePbGVKFromSchemaGVK g := by
  dsimp only [watchResponse]
  rw [hroute, stringToResourcePbGVK_eq, hg.stringToGVK_gvkToString]

/-- The routes of a claim have its owner kind. -/
theorem ownerGvk_of_mem_mutated {txt : NetText} {c : IPClaim} {pi : Prefix}
    (hr : route ∈ getMutatedRoutesWithLabels txt c pi) :
    route.labels.get nephioOwnerGvkKey = c.spec.labels.get nephioOwnerGvkKey :=
  congrArg (Option.getD · "") (carriesOwner_of_mem_mutated hr nephioOwnerGvkKey (by decide))

/-- A watch of a kind is the one of the label if and only if the label is the text of the kind. -/
theorem callback_watchKey {F : Type} (d : Watches F) (hg : g.Proper) (hg' : g'.Proper) (fn : F) :
    (d.addWatch nephioOwnerGvkKey (watchKey (watchRequest g')) fn).callback nephioOwnerGvkKey
      (gvkToString g) = if g' = g then some fn else d.callback nephioOwnerGvkKey (gvkToString g) := by
  rw [Watches.callback_addWatch, watchKey, watchRequest, resourcePbGVKTostring_eq]
  simp only [hg'.gvkToString_inj hg, true_and]

/-- The text of a kind is read back and a text of a kind is written back, by both implementations.
So a route that a claim of an owner of the kind has written is handed to the watch of the kind, and
its event makes the client notify a resource of the kind. -/
theorem gvk_text_round_trip (g : GroupVersionKind) (hg : g.Proper) (s : String) (hs : GvkText s) :
    (stringToGVK (gvkToString g) = g ∧
      stringToResourcePbGVK (resourcePbGVKTostring (getResourcePbGVKFromSchemaGVK g)) =
        getResourcePbGVKFromSchemaGVK g) ∧
    (gvkToString (stringToGVK s) = s ∧ resourcePbGVKTostring (stringToResourcePbGVK s) = s) ∧
    ∀ (txt : NetText) (c : IPClaim) (pi : Prefix) (code : StatusCode),
      c.spec.labels.get nephioOwnerGvkKey = gvkToString g →
      (∀ route ∈ getMutatedRoutesWithLabels txt c pi,
        route.labels.get nephioOwnerGvkKey = gvkToString g) ∧
      (∀ response ∈ createCallBackFn (getMutatedRoutesWithLabels txt c pi) code,
        (notified response).1 = g ∧ watchKey response.header.ownerGvk = gvkToString g) ∧
      ∀ (F : Type) (d : Watches F) (g' : GroupVersionKind) (fn : F), g'.Proper →
        (d.addWatch nephioOwnerGvkKey (watchKey (watchRequest g')) fn).callback nephioOwnerGvkKey
          (gvkToString g) = if g' = g then some fn
            else d.callback nephioOwnerGvkKey (gvkToString g) := by
  refine ⟨⟨hg.stringToGVK_gvkToString, ?_⟩, ⟨hs.gvkToString_stringToGVK, ?_⟩, ?_⟩
  · rw [resourcePbGVKTostring_eq, stringToResourcePbGVK_eq, hg.stringToGVK_gvkToString]
  · rw [stringToResourcePbGVK_eq, resourcePbGVKTostring_eq, hs.gvkToString_stringToGVK]
  · intro txt c pi code hc
    have hroutes : ∀ route ∈ getMutatedRoutesWithLabels txt c pi,
        route.labels.get nephioOwnerGvkKey = gvkToString g :=
      fun route hr => (ownerGvk_of_mem_mutated hr).trans hc
    refine ⟨hroutes, fun response hresponse => ?_, fun F d g' fn hg' => callback_watchKey d hg hg' fn⟩
    obtain ⟨route, hr, rfl⟩ := List.mem_map.mp hresponse
    have hevent : (watchResponse code route).header.ownerGvk = getResourcePbGVKFromSchemaGVK g :=
      watchResponse_ownerGvk hg (hroutes route hr)
    constructor
    · rw [notified, hevent, getSchemaGVKFromResourcePbGVK_eq]
    · rw [hevent, watchKey, resourcePbGVKTostring_eq]

end

/-- The kind of IP claims, with a group of several dots, and the text of another kind. -/
theorem gvk_text_round_trip_of_claims :
    stringToGVK "IPClaim.v1alpha1.ipam.resource.nephio.org" = ipClaimGVK ∧
    gvkToString (stringToGVK "Interface.v1alpha1.req.nephio.org") =
      "Interface.v1alpha1.req.nephio.org" ∧
    (createCallBackFn (getMutatedRoutesWithLabels netText (networkClaim "a") (samplePrefix 1 24))
      .valid).map (fun response => (notified response).1) =
        [ipClaimGVK, ipClaimGVK, ipClaimGVK, ipClaimGVK] := by
  obtain ⟨hread, hwrite, hevents⟩ := gvk_text_round_trip ipClaimGVK (by decide +kernel)
    "Interface.v1alpha1.req.nephio.org" (by decide +kernel)
  have htext : gvkToString ipClaimGVK = "IPClaim.v1alpha1.ipam.resource.nephio.org" := by
    decide +kernel
  obtain ⟨-, hresponses, -⟩ :=
    hevents netText (networkClaim "a") (samplePrefix 1 24) .valid (by decide +kernel)
  refine ⟨htext ▸ hread.1, hwrite.1, ?_⟩
  rw [List.map_congr_left fun response hr => (hresponses response hr).1]
  decide +kernel

end K8sIpam.Proxy
