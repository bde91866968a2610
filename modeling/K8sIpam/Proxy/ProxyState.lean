import K8sIpam.Ipam.Notify

/-! # Watch subscriptions

`pkg/proxy/serverproxy/serverproxystate.go` over one backend. Each open stream is a call of
`AddCallBackFn`: it enters the client under the lock of the proxy, adds the callback to the watcher
of the backend and waits for its context to be done. `DeleteCallBackFn` is called in the body of a
loop over the values that come from `ctx.Done()`. That channel is closed and nothing is ever sent on
it, so the loop ends without a round. The steps of different calls come in any order. -/

namespace K8sIpam.Proxy
open Std Ipam

variable {ι : Type}

/-- What a stream subscribes to. -/
structure Subscription where
  addr : String
  ownerGVK : String

/-- The key of a client in `clients`. -/
def Subscription.client (s : Subscription) : String := s.addr ++ ":::" ++ s.ownerGVK

/-- How far a call of `AddCallBackFn` has come. -/
inductive Phase where
  | idle | entered | watching | returned
  deriving DecidableEq

/-- The clients with the stream whose context their `cancel` belongs to, the watches of the backend,
and for each stream its call and whether the context of the call is done. A call whose context is
done returns, and its stream ends with it. -/
structure State (ι : Type) where
  clients : ExtTreeMap String ι
  watches : Watches ι
  phase : ι → Phase
  done : ι → Bool

inductive Step (ι : Type) where
  | addClient (i : ι)
  | addWatch (i : ι)
  | terminate (i : ι)
  | leave (i : ι)

section
variable (sub : ι → Subscription)

def deleteCallBackFn (i : ι) (s : State ι) : State ι :=
  { s with
    watches := s.watches.deleteWatch nephioOwnerGvkKey (sub i).ownerGVK
    clients := s.clients.erase (sub i).client }

/-- A loop over the values that are received from a channel until it is closed, with a body that
returns. -/
def forRange (values : List Unit) (body : State ι → State ι) (s : State ι) : State ι :=
  match values with
  | [] => s
  | _ :: _ => body s

/-- What is received from the `Done` of a context before it is closed. -/
def doneValues : List Unit := []

-- Entering a client again cancels the context of the call that entered it before.
def step [DecidableEq ι] (s : State ι) : Step ι → State ι
  | .addClient i =>
    if s.phase i = .idle then
      { s with
        clients := s.clients.insert (sub i).client i
        done := match s.clients[(sub i).client]? with
          | some j => Function.update s.done j true
          | none => s.done
        phase := Function.update s.phase i .entered }
    else s
  | .addWatch i =>
    if s.phase i = .entered then
      { s with
        watches := s.watches.addWatch nephioOwnerGvkKey (sub i).ownerGVK i
        phase := Function.update s.phase i .watching }
    else s
  | .terminate i => { s with done := Function.update s.done i true }
  | .leave i =>
    if s.phase i = .watching ∧ s.done i = true then
      { forRange doneValues (deleteCallBackFn sub i) s with
        phase := Function.update s.phase i .returned }
    else s

def start : State ι := ⟨∅, ∅, fun _ => .idle, fun _ => false⟩

/-- The stream has subscribed and is open. -/
def Live (s : State ι) (i : ι) : Prop := s.phase i = .watching ∧ s.done i = false

/-- The callbacks are exactly those of the live subscriptions: they are registered, and an update, in
whatever order it goes through the maps, calls each with the routes of its owner kind and calls no
other. -/
structure Exact (s : State ι) : Prop where
  registered : ∀ gvk i, s.watches.callback nephioOwnerGvkKey gvk = some i ↔
    (sub i).ownerGVK = gvk ∧ Live s i
  called : ∀ last routes rs i, (i, rs) ∈ s.watches.handleUpdateIn last routes ↔
    Live s i ∧
      rs = Watches.routesOf nephioOwnerGvkKey (sub i).ownerGVK (routes.map Prod.snd) ∧ rs ≠ []

/-- A callback is added for an open stream, while no other subscription to its owner kind is live;
and no live subscription ends, neither with its stream nor because its client subscribes again. -/
def Allowed (s : State ι) : Step ι → Prop
  | .addClient i => s.phase i = .idle → ∀ j ∈ s.clients[(sub i).client]?, ¬Live s j
  | .addWatch i => s.phase i = .entered →
      s.done i = false ∧ ∀ j, (sub j).ownerGVK = (sub i).ownerGVK → ¬Live s j
  | .terminate i => ¬Live s i
  | .leave _ => True

structure Inv (s : State ι) : Prop where
  onlyKey : Watches.OnlyKey nephioOwnerGvkKey s.watches
  registered : ∀ gvk i, s.watches.callback nephioOwnerGvkKey gvk = some i ↔
    (sub i).ownerGVK = gvk ∧ Live s i

end

variable {sub : ι → Subscription} {s s' : State ι}

theorem Inv.exact (h : Inv sub s) : Exact sub s where
  registered := h.registered
  called last routes rs i := by
    rw [h.onlyKey.mem_handleUpdateIn, h.onlyKey.mem_handleUpdate]
    constructor
    · rintro ⟨gvk, hfn, rfl, hne⟩
      obtain ⟨rfl, hlive⟩ := (h.registered gvk i).mp hfn
      exact ⟨hlive, rfl, hne⟩
    · rintro ⟨hlive, rfl, hne⟩
      exact ⟨(sub i).ownerGVK, (h.registered _ i).mpr ⟨rfl, hlive⟩, rfl, hne⟩

theorem inv_start : Inv sub start where
  onlyKey k hk := by simp [start] at hk
  registered gvk i := by simp [start, Watches.callback, Live]

/-- A step that leaves the watches keeps the property exactly if it ends no live subscription and
begins none. -/
theorem Inv.of_watches_eq (h : Inv sub s) (hw : s'.watches = s.watches)
    (hlive : ∀ j, Live s' j ↔ Live s j) : Inv sub s' where
  onlyKey := hw ▸ h.onlyKey
  registered gvk j := by rw [hw, h.registered, hlive]

theorem Exact.live_of_watches_eq (h : Exact sub s) (h' : Exact sub s')
    (hw : s'.watches = s.watches) {j : ι} (hlive : Live s j) : Live s' j := by
  have hcb := (h.registered (sub j).ownerGVK j).mpr ⟨rfl, hlive⟩
  rw [← hw] at hcb
  exact ((h'.registered _ j).mp hcb).2

theorem not_live_of_phase {i : ι} {phase : Phase} (hi : s.phase i = phase)
    (hphase : phase ≠ .watching) : ¬Live s i := fun h => hphase (hi.symm.trans h.1)

variable [DecidableEq ι]

/-- The context of a call that is not live becomes done. -/
theorem live_update_done {i j : ι} (hi : ¬Live s i) :
    s.phase j = .watching ∧ Function.update s.done i true j = false ↔ Live s j := by
  by_cases hj : j = i
  · subst hj
    refine iff_of_false (fun h => ?_) hi
    rw [Function.update_self] at h
    cases h.2
  · rw [Function.update_of_ne hj]
    exact .rfl

/-- A call that is not live moves to a phase in which it has no callback. -/
theorem live_update_phase {i j : ι} {phase : Phase} (hi : ¬Live s i) (hphase : phase ≠ .watching) :
    Function.update s.phase i phase j = .watching ∧ s.done j = false ↔ Live s j := by
  by_cases hj : j = i
  · subst hj
    refine iff_of_false (fun h => ?_) hi
    rw [Function.update_self] at h
    exact hphase h.1
  · rw [Function.update_of_ne hj]
    exact .rfl

theorem live_addClient {i j : ι} (hok : Allowed sub s (.addClient i)) :
    Live (step sub s (.addClient i)) j ↔ Live s j := by
  dsimp only [Proxy.step]
  split
  next hidle =>
    have hphase : ∀ k, Function.update s.phase i .entered k = .watching ↔ s.phase k = .watching := by
      intro k
      by_cases hk : k = i
      · subst hk
        simp [hidle]
      · rw [Function.update_of_ne hk]
    unfold Live
    dsimp only
    rw [hphase]
    cases hold : s.clients[(sub i).client]? with
    | none => exact .rfl
    | some k => exact live_update_done (hok hidle k hold)
  next => exact .rfl

theorem live_leave (i j : ι) : Live (step sub s (.leave i)) j ↔ Live s j := by
  dsimp only [Proxy.step]
  split
  next hend =>
    refine live_update_phase (fun h => ?_) (by decide)
    rw [h.2] at hend
    cases hend.2
  next => exact .rfl

theorem watches_addClient (i : ι) : (step sub s (.addClient i)).watches = s.watches := by
  dsimp only [Proxy.step]
  split <;> rfl

theorem watches_leave (i : ι) : (step sub s (.leave i)).watches = s.watches := by
  dsimp only [Proxy.step]
  split <;> rfl

/-- The call of an open stream has added its callback. -/
theorem live_addWatch {i j : ι} (hentered : s.phase i = .entered) (hopen : s.done i = false) :
    Live (step sub s (.addWatch i)) j ↔ j = i ∨ Live s j := by
  dsimp only [Proxy.step]
  rw [if_pos hentered]
  unfold Live
  by_cases hj : j = i
  · subst hj
    simp [hopen]
  · simp [hj]

theorem Inv.addWatch (h : Inv sub s) {i : ι} (hentered : s.phase i = .entered)
    (hopen : s.done i = false) (halone : ∀ j, (sub j).ownerGVK = (sub i).ownerGVK → ¬Live s j) :
    Inv sub (step sub s (.addWatch i)) := by
  have hwatches : (step sub s (.addWatch i)).watches =
      s.watches.addWatch nephioOwnerGvkKey (sub i).ownerGVK i := by
    dsimp only [Proxy.step]
    rw [if_pos hentered]
  refine ⟨hwatches ▸ h.onlyKey.addWatch _ _, fun gvk j => ?_⟩
  rw [hwatches, Watches.callback_addWatch, live_addWatch hentered hopen]
  split
  next hgvk =>
    obtain ⟨-, rfl⟩ := hgvk
    constructor
    · rintro ⟨⟩
      exact ⟨rfl, .inl rfl⟩
    · rintro ⟨hgvk, rfl | hlive⟩
      · rfl
      · exact absurd hlive (halone j hgvk)
  next hgvk =>
    rw [h.registered]
    refine and_congr_right fun hj => ⟨.inr, fun hor => hor.resolve_left ?_⟩
    rintro rfl
    exact hgvk ⟨rfl, hj⟩

theorem Inv.step (h : Inv sub s) {e : Step ι} (hok : Allowed sub s e) :
    Inv sub (step sub s e) := by
  cases e with
  | addClient i => exact h.of_watches_eq (watches_addClient i) fun _ => live_addClient hok
  | terminate i => exact h.of_watches_eq rfl fun _ => live_update_done hok
  | leave i => exact h.of_watches_eq (watches_leave i) (live_leave i)
  | addWatch i =>
    by_cases hentered : s.phase i = .entered
    · obtain ⟨hopen, halone⟩ := hok hentered
      exact h.addWatch hentered hopen halone
    · dsimp only [Proxy.step]
      rwa [if_neg hentered]

/-- The property fails after every other step: a live subscription that ends keeps its callback, and
a callback that is added replaces the one of its owner kind. -/
theorem Exact.allowed (h : Exact sub s) {e : Step ι} (h' : Exact sub (step sub s e)) :
    Allowed sub s e := by
  cases e with
  | addClient i =>
    intro hidle j hold hlive
    have hdone := (h.live_of_watches_eq h' (watches_addClient i) hlive).2
    rw [Option.mem_def] at hold
    simp [Proxy.step, hidle, hold] at hdone
  | terminate i =>
    intro hlive
    have hdone := (h.live_of_watches_eq h' rfl hlive).2
    simp [Proxy.step] at hdone
  | leave i => trivial
  | addWatch i =>
    intro hentered
    have hcb : (Proxy.step sub s (.addWatch i)).watches.callback nephioOwnerGvkKey
        (sub i).ownerGVK = some i := by
      dsimp only [Proxy.step]
      rw [if_pos hentered, Watches.callback_addWatch, if_pos ⟨rfl, rfl⟩]
    have hopen : s.done i = false := by
      have hdone := ((h'.registered _ i).mp hcb).2.2
      dsimp only [Proxy.step] at hdone
      rwa [if_pos hentered] at hdone
    refine ⟨hopen, fun j hgvk hlive => ?_⟩
    have hcb' := (h'.registered _ j).mpr ⟨hgvk, (live_addWatch hentered hopen).mpr (.inr hlive)⟩
    obtain rfl : i = j := Option.some.inj (hcb.symm.trans hcb')
    exact not_live_of_phase hentered (by decide) hlive

theorem guarded_of_exact {es : List (Step ι)}
    (h : ∀ pre, pre <+: es → Exact sub (Run.run (step sub) s pre)) :
    Run.Guarded (step sub) (Allowed sub) s es := by
  induction es generalizing s with
  | nil => trivial
  | cons e es ih =>
    refine ⟨(h [] (List.nil_prefix)).allowed (h [e] ⟨es, rfl⟩), ih fun pre hpre => ?_⟩
    exact h (e :: pre) (List.cons_prefix_cons.mpr ⟨rfl, hpre⟩)

/-- At every point of a run the callbacks are those of the live subscriptions, if and only if in the
run a callback is only added for an open stream that is alone with its owner kind, and no
subscription that has its callback ends. -/
theorem watches_exact_iff (sub : ι → Subscription) (es : List (Step ι)) :
    (∀ pre, pre <+: es → Exact sub (Run.run (step sub) start pre)) ↔
      Run.Guarded (step sub) (Allowed sub) start es := by
  refine ⟨guarded_of_exact, fun h pre hpre => ?_⟩
  obtain ⟨post, rfl⟩ := hpre
  have hpre := (Run.guarded_append.mp h).1
  exact (Run.Guarded.inv (I := Inv sub) (fun _ _ hs hok => hs.step hok) hpre inv_start).exact

/-- Two clients that watch the claims of one owner kind. -/
def twoClients : Bool → Subscription
  | true => ⟨"10.0.0.1:40000", "IPClaim.v1alpha1.ipam.resource.nephio.org"⟩
  | false => ⟨"10.0.0.2:40000", "IPClaim.v1alpha1.ipam.resource.nephio.org"⟩

/-- After the stream of the only client has ended and its call has returned. -/
def ended : State Bool :=
  Run.run (step twoClients) start [.addClient true, .addWatch true, .terminate true, .leave true]

/-- After two clients have subscribed. -/
def bothSubscribed : State Bool :=
  Run.run (step twoClients) start [.addClient true, .addWatch true, .addClient false, .addWatch false]

/-- The callback of a stream that has ended stays, and the callback of the first of two clients is
gone while its stream is open. -/
theorem watches_stale :
    (ended.phase true = .returned ∧ ended.done true = true ∧
      ended.watches.callback nephioOwnerGvkKey (twoClients true).ownerGVK = some true) ∧
    bothSubscribed.phase true = .watching ∧ bothSubscribed.done true = false ∧
      bothSubscribed.watches.callback nephioOwnerGvkKey (twoClients true).ownerGVK = some false := by
  constructor
  · decide +kernel
  · decide +kernel

end K8sIpam.Proxy
