import K8sIpam.Api.Labels
import K8sIpam.Net.IpUtil

/-! # The routing table

The RIB of `nipam` is a library that the backend builds on: a finite map from prefixes to labels
with atomic operations. What it promises about its listings and its search for a free prefix is
the structure `Nipam`; the programs of the backend run over its operations. -/

namespace K8sIpam.Ipam
open Std Atomic Net

structure Route where
  pfx : Prefix
  labels : Labels
  deriving DecidableEq

abbrev Rib := ExtTreeMap Prefix Labels

/-- A route is in the table. -/
def Rib.Has (rib : Rib) (r : Route) : Prop := rib[r.pfx]? = some r.labels

/-- The listings of the table, in an order of their own, and the search for a free prefix. -/
structure Nipam where
  getByLabel : Rib → Selector → List Route
  children : Rib → Prefix → List Route
  parents : Rib → Prefix → List Route
  getAvailablePrefixByBitLen : Rib → Prefix → Nat → Option Prefix
  /-- The error texts of an `Add` of a prefix that is there and of a `Delete` of one that is not. -/
  alreadyExists : Prefix → String
  notFound : Prefix → String
  mem_getByLabel : ∀ {rib s r}, r ∈ getByLabel rib s ↔ rib.Has r ∧ s.Matches r.labels = true
  nodup_getByLabel : ∀ rib s, (getByLabel rib s).Nodup
  mem_children : ∀ {rib p r}, r ∈ children rib p ↔ rib.Has r ∧ p.StrictlyContains r.pfx
  mem_parents : ∀ {rib p r}, r ∈ parents rib p ↔ rib.Has r ∧ r.pfx.StrictlyContains p
  /-- The most specific parent comes first. -/
  parents_sorted : ∀ rib p, (parents rib p).Pairwise fun r r' => r'.pfx.bits ≤ r.pfx.bits
  available : ∀ {rib : Rib} {c b p}, getAvailablePrefixByBitLen rib c b = some p →
    p.bits = b ∧ p.masked = p ∧ c.Contains p ∧
      ∀ r, rib.Has r → c.StrictlyContains r.pfx → ¬p.Overlaps r.pfx
  alreadyExists_contains : ∀ p, "already exists".toList <:+: (alreadyExists p).toList

/-! ## Free prefixes -/

/-- No route strictly inside the network of `c` shares an address with the prefix. -/
def Rib.FreeIn (rib : Rib) (c p : Prefix) : Prop :=
  c.Contains p ∧ ∀ r, rib.Has r → c.StrictlyContains r.pfx → ¬p.Overlaps r.pfx

/-- A largest block of free addresses of the network of `c`. -/
structure Rib.FreeBlock (rib : Rib) (c B : Prefix) : Prop where
  masked : B.masked = B
  free : rib.FreeIn c B
  largest : ∀ q : Prefix, q.StrictlyContains B → ¬rib.FreeIn c q

/-- Of the largest blocks of free addresses that have room for a prefix of length `b`, the first of
the smallest ones. -/
structure Rib.BestBlock (rib : Rib) (c : Prefix) (b : Nat) (B : Prefix) : Prop where
  block : rib.FreeBlock c B
  room : B.bits ≤ b ∧ b ≤ B.addr.bitLen
  best : ∀ B', rib.FreeBlock c B' → B'.bits ≤ b →
    B'.bits < B.bits ∨ B'.bits = B.bits ∧ B.addr.val ≤ B'.addr.val

/-- The search finds a prefix whenever one is free. -/
def Nipam.Complete (N : Nipam) : Prop :=
  ∀ (rib : Rib) (c p : Prefix), rib.FreeIn c p →
    (N.getAvailablePrefixByBitLen rib c p.bits).isSome = true

/-- A search that takes the first addresses of the best block. -/
structure Nipam.BestFit (N : Nipam) : Prop where
  complete : N.Complete
  best : ∀ {rib c b p}, N.getAvailablePrefixByBitLen rib c b = some p →
    ∃ B, rib.BestBlock c b B ∧ B.addr = p.addr

section
variable {N : Nipam} {rib : Rib} {c p B B' : Prefix} {b : Nat}

theorem Rib.FreeIn.mono {q : Prefix} (h : rib.FreeIn c p) (hq : p.Contains q) : rib.FreeIn c q := by
  refine ⟨h.1.trans hq, fun r hr hin hover => h.2 r hr hin ?_⟩
  rcases hover with hover | hover
  · exact .inl (hq.trans hover)
  · exact hq.overlaps hover

/-- With a complete search, a prefix is offered exactly if no route is strictly inside it. -/
theorem Nipam.Complete.isSome_self_iff (hN : N.Complete) :
    (N.getAvailablePrefixByBitLen rib p p.bits).isSome = true ↔
      ∀ r, rib.Has r → ¬p.StrictlyContains r.pfx := by
  constructor
  · intro hsome r hr hin
    obtain ⟨q, hq⟩ := Option.isSome_iff_exists.mp hsome
    obtain ⟨hb, -, hpq, hfree⟩ := N.available hq
    have hqp : q.Contains p := Prefix.contains_of_masked_eq (hpq.masked_eq hb.symm).symm
    exact hfree r hr hin (.inl (hqp.trans hin.contains))
  · exact fun hnone => hN _ _ _ ⟨.refl p, fun r hr hin => absurd hin (hnone r hr)⟩

theorem Rib.BestBlock.unique (h : rib.BestBlock c b B) (h' : rib.BestBlock c b B') : B = B' := by
  have hfam : B.family = B'.family := h.block.free.1.1.symm.trans h'.block.free.1.1
  have hbest := h.best B' h'.block h'.room.1
  have hbest' := h'.best B h.block h.room.1
  obtain ⟨⟨f, v, hv⟩, n, hn⟩ := B
  obtain ⟨⟨f', v', hv'⟩, n', hn'⟩ := B'
  dsimp only at hbest hbest'
  obtain rfl : f = f' := hfam
  obtain ⟨rfl, rfl⟩ : n = n' ∧ v = v' := by omega
  rfl

theorem Rib.BestBlock.free (hB : rib.BestBlock c b B) (ha : B.addr = p.addr) (hb : p.bits = b) :
    p.masked = p ∧ rib.FreeIn c p := by
  obtain ⟨a, n, hn⟩ := p
  obtain rfl : B.addr = a := ha
  obtain rfl : n = b := hb
  exact ⟨Prefix.masked_longer hB.block.masked hB.room.1 hn,
    hB.block.free.mono (Prefix.contains_longer hB.room.1 hn)⟩

/-- The search gives the first addresses of the best block, and there is none to give otherwise. -/
theorem Nipam.BestFit.exists_addr_iff (hN : N.BestFit) {a : Addr} :
    (∃ p ∈ N.getAvailablePrefixByBitLen rib c b, p.addr = a) ↔
      ∃ B, rib.BestBlock c b B ∧ B.addr = a := by
  constructor
  · rintro ⟨p, hp, rfl⟩
    exact hN.best hp
  · rintro ⟨B, hB, rfl⟩
    have hfree : rib.FreeIn c ⟨B.addr, b, hB.room.2⟩ :=
      (hB.free (p := ⟨B.addr, b, hB.room.2⟩) rfl rfl).2
    obtain ⟨p, hp⟩ := Option.isSome_iff_exists.mp (hN.complete _ _ _ hfree)
    obtain ⟨B', hB', haddr⟩ := hN.best hp
    exact ⟨p, hp, by rw [hB.unique hB', haddr]⟩

end

/-- The table and the updates that have been sent to the watchers. -/
structure RibState where
  rib : Rib
  updates : List (List Route)

/-! ## Other orders of the listings -/

def moveToFront {α : Type} [DecidableEq α] (a : α) (l : List α) : List α :=
  if a ∈ l then a :: l.erase a else l

theorem moveToFront_perm {α : Type} [DecidableEq α] (a : α) (l : List α) :
    (moveToFront a l).Perm l := by
  unfold moveToFront
  split
  next h => exact (List.perm_cons_erase h).symm
  next => exact .refl l

/-- The route is listed before the other children. -/
def Nipam.childFirst (N : Nipam) (r : Route) : Nipam :=
  { N with
    children := fun rib p => moveToFront r (N.children rib p)
    mem_children := (moveToFront_perm _ _).mem_iff.trans N.mem_children }

/-- The route is listed before the others that have the labels. -/
def Nipam.labelledFirst (N : Nipam) (r : Route) : Nipam :=
  { N with
    getByLabel := fun rib s => moveToFront r (N.getByLabel rib s)
    mem_getByLabel := (moveToFront_perm _ _).mem_iff.trans N.mem_getByLabel
    nodup_getByLabel := fun rib s =>
      (moveToFront_perm _ _).nodup_iff.mpr (N.nodup_getByLabel rib s) }

/-- The route is listed after the others that have the labels. -/
def Nipam.labelledLast (N : Nipam) (r : Route) : Nipam :=
  { N with
    getByLabel := fun rib s => (moveToFront r (N.getByLabel rib s)).reverse
    mem_getByLabel := List.mem_reverse.trans ((moveToFront_perm _ _).mem_iff.trans N.mem_getByLabel)
    nodup_getByLabel := fun rib s => List.nodup_reverse.mpr
      ((moveToFront_perm _ _).nodup_iff.mpr (N.nodup_getByLabel rib s)) }

theorem Nipam.labelledLast_getByLabel {N : Nipam} {rib : Rib} {sel : Selector} {r : Route}
    (h : r ∈ N.getByLabel rib sel) : ∃ os, (N.labelledLast r).getByLabel rib sel = os ++ [r] := by
  refine ⟨((N.getByLabel rib sel).erase r).reverse, ?_⟩
  show (moveToFront r (N.getByLabel rib sel)).reverse = _
  rw [moveToFront, if_pos h, List.reverse_cons]

/-- No prefix is free. -/
def Nipam.nothingFree (N : Nipam) : Nipam :=
  { N with
    getAvailablePrefixByBitLen := fun _ _ _ => none
    available := fun h => nomatch h }

/-! ## Operations -/

inductive RibOp where
  | get (p : Prefix)
  | getByLabel (s : Selector)
  | children (p : Prefix)
  | parents (p : Prefix)
  | getAvailablePrefixByBitLen (c : Prefix) (b : Nat)
  | add (r : Route)
  | set (r : Route)
  | delete (r : Route)
  | clone
  | handleUpdate (rs : List Route)

abbrev RibOp.Resp : RibOp → Type
  | .get _ => Option Route
  | .getByLabel _ | .children _ | .parents _ => List Route
  | .getAvailablePrefixByBitLen _ _ => Option Prefix
  | .add _ | .delete _ => Except String Unit
  | .set _ | .handleUpdate _ => Unit
  | .clone => Rib

abbrev ribSig : Sig := ⟨RibOp, RibOp.Resp⟩

def getRoute (rib : Rib) (p : Prefix) : Option Route := rib[p]?.map fun l => ⟨p, l⟩

def handler (N : Nipam) : Handler ribSig RibState
  | .get p, s => (getRoute s.rib p, s)
  | .getByLabel sel, s => (N.getByLabel s.rib sel, s)
  | .children p, s => (N.children s.rib p, s)
  | .parents p, s => (N.parents s.rib p, s)
  | .getAvailablePrefixByBitLen c b, s => (N.getAvailablePrefixByBitLen s.rib c b, s)
  | .add r, s =>
    match s.rib[r.pfx]? with
    | some _ => (.error (N.alreadyExists r.pfx), s)
    | none => (.ok (), { s with rib := s.rib.insert r.pfx r.labels })
  | .set r, s => ((), { s with rib := s.rib.insert r.pfx r.labels })
  | .delete r, s =>
    match s.rib[r.pfx]? with
    | none => (.error (N.notFound r.pfx), s)
    | some _ => (.ok (), { s with rib := s.rib.erase r.pfx })
  | .clone, s => (s.rib, s)
  | .handleUpdate rs, s => ((), { s with updates := s.updates ++ [rs] })

abbrev RibProg := Prog ribSig Failure

namespace RibProg

def get (p : Prefix) : RibProg (Option Route) := .op (.get p) .ret
def getByLabel (s : Selector) : RibProg (List Route) := .op (.getByLabel s) .ret
def children (p : Prefix) : RibProg (List Route) := .op (.children p) .ret
def parents (p : Prefix) : RibProg (List Route) := .op (.parents p) .ret
def getAvailablePrefixByBitLen (c : Prefix) (b : Nat) : RibProg (Option Prefix) :=
  .op (.getAvailablePrefixByBitLen c b) .ret
def add (r : Route) : RibProg (Except String Unit) := .op (.add r) .ret
def set (r : Route) : RibProg Unit := .op (.set r) .ret
def delete (r : Route) : RibProg (Except String Unit) := .op (.delete r) .ret
def clone : RibProg Rib := .op .clone .ret
def handleUpdate (rs : List Route) : RibProg Unit := .op (.handleUpdate rs) .ret

section
variable {α : Type}

@[simp] theorem get_bind (p : Prefix) (f : Option Route → RibProg α) :
    get p >>= f = .op (.get p) f := rfl
@[simp] theorem getByLabel_bind (s : Selector) (f : List Route → RibProg α) :
    getByLabel s >>= f = .op (.getByLabel s) f := rfl
@[simp] theorem children_bind (p : Prefix) (f : List Route → RibProg α) :
    children p >>= f = .op (.children p) f := rfl
@[simp] theorem parents_bind (p : Prefix) (f : List Route → RibProg α) :
    parents p >>= f = .op (.parents p) f := rfl
@[simp] theorem getAvailablePrefixByBitLen_bind (c : Prefix) (b : Nat)
    (f : Option Prefix → RibProg α) :
    getAvailablePrefixByBitLen c b >>= f = .op (.getAvailablePrefixByBitLen c b) f := rfl
@[simp] theorem add_bind (r : Route) (f : Except String Unit → RibProg α) :
    add r >>= f = .op (.add r) f := rfl
@[simp] theorem set_bind (r : Route) (f : Unit → RibProg α) : set r >>= f = .op (.set r) f := rfl
@[simp] theorem delete_bind (r : Route) (f : Except String Unit → RibProg α) :
    delete r >>= f = .op (.delete r) f := rfl
@[simp] theorem clone_bind (f : Rib → RibProg α) : clone >>= f = .op .clone f := rfl
@[simp] theorem handleUpdate_bind (rs : List Route) (f : Unit → RibProg α) :
    handleUpdate rs >>= f = .op (.handleUpdate rs) f := rfl

end
end RibProg

/-! ## Programs that read the table -/

section
variable {α : Type} (N : Nipam) (s : RibState)

theorem run_get (p : Prefix) (f : Option Route → RibProg α) :
    (RibProg.get p >>= f).run (handler N) s = (f (getRoute s.rib p)).run (handler N) s := rfl

theorem run_getByLabel (sel : Selector) (f : List Route → RibProg α) :
    (RibProg.getByLabel sel >>= f).run (handler N) s =
      (f (N.getByLabel s.rib sel)).run (handler N) s := rfl

theorem run_getAvailablePrefixByBitLen (c : Prefix) (b : Nat) (f : Option Prefix → RibProg α) :
    (RibProg.getAvailablePrefixByBitLen c b >>= f).run (handler N) s =
      (f (N.getAvailablePrefixByBitLen s.rib c b)).run (handler N) s := rfl

theorem run_children (p : Prefix) (f : List Route → RibProg α) :
    (RibProg.children p >>= f).run (handler N) s =
      (f (N.children s.rib p)).run (handler N) s := rfl

theorem run_clone (f : Rib → RibProg α) :
    (RibProg.clone >>= f).run (handler N) s = (f s.rib).run (handler N) s := rfl

end

/-! ## What the operations do to the table -/

section
variable {N : Nipam} {s : RibState} {rib : Rib} {r r' : Route} {p : Prefix} {l : Labels}

theorem handler_add_of_some (h : s.rib[r.pfx]? = some l) :
    handler N (.add r) s = (.error (N.alreadyExists r.pfx), s) := by
  simp only [handler, h]

theorem handler_add_of_none (h : s.rib[r.pfx]? = none) :
    handler N (.add r) s = (.ok (), { s with rib := s.rib.insert r.pfx r.labels }) := by
  simp only [handler, h]

theorem Rib.has_insert :
    Rib.Has (rib.insert r'.pfx r'.labels) r ↔ r = r' ∨ r.pfx ≠ r'.pfx ∧ rib.Has r := by
  obtain ⟨p, l⟩ := r
  obtain ⟨p', l'⟩ := r'
  unfold Rib.Has
  rw [ExtTreeMap.getElem?_insert]
  by_cases h : p' = p
  · subst h
    simp [eq_comm]
  · simp [h, Ne.symm h]

theorem Rib.has_insert_of_ne (h : r.pfx ≠ p) : Rib.Has (rib.insert p l) r ↔ rib.Has r := by
  unfold Rib.Has
  rw [ExtTreeMap.getElem?_insert, if_neg (by simpa using h.symm)]

theorem Rib.has_erase : Rib.Has (rib.erase p) r ↔ r.pfx ≠ p ∧ rib.Has r := by
  unfold Rib.Has
  rw [ExtTreeMap.getElem?_erase]
  by_cases h : p = r.pfx
  · simp [h]
  · simp [h, Ne.symm h]

theorem Rib.has_iff_mem_toList : rib.Has r ↔ (r.pfx, r.labels) ∈ rib.toList :=
  ExtTreeMap.mem_toList_iff_getElem?_eq_some.symm

instance Rib.decidableForall (rib : Rib) (q : Route → Prop) [∀ r, Decidable (q r)] :
    Decidable (∀ r, rib.Has r → q r) :=
  decidable_of_iff (∀ kv ∈ rib.toList, q ⟨kv.1, kv.2⟩)
    ⟨fun h _ hr => h _ (Rib.has_iff_mem_toList.mp hr),
      fun h kv hkv => h ⟨kv.1, kv.2⟩ (Rib.has_iff_mem_toList.mpr hkv)⟩

instance Rib.decidableExists (rib : Rib) (q : Route → Prop) [∀ r, Decidable (q r)] :
    Decidable (∃ r, rib.Has r ∧ q r) :=
  decidable_of_iff (∃ kv ∈ rib.toList, q ⟨kv.1, kv.2⟩)
    ⟨fun ⟨kv, hkv, hq⟩ => ⟨⟨kv.1, kv.2⟩, Rib.has_iff_mem_toList.mpr hkv, hq⟩,
      fun ⟨r, hr, hq⟩ => ⟨(r.pfx, r.labels), Rib.has_iff_mem_toList.mp hr, hq⟩⟩

theorem Rib.Has.unique (h : rib.Has r) (h' : rib.Has r') (hp : r.pfx = r'.pfx) : r = r' := by
  obtain ⟨p, l⟩ := r
  obtain ⟨p', l'⟩ := r'
  obtain rfl : p = p' := hp
  cases h.symm.trans h'
  rfl

/-- No route lies inside a prefix that the search has found, if that is longer than the prefix it
was searched in. -/
theorem Nipam.not_contains_of_available (N : Nipam) {q : Prefix} {b : Nat}
    (h : N.getAvailablePrefixByBitLen rib q b = some p) (hr : rib.Has r)
    (hq : q.StrictlyContains r.pfx) : ¬p.Contains r.pfx :=
  fun hp => (N.available h).2.2.2 r hr hq (.inl hp)

theorem Nipam.available_free (N : Nipam) {q g : Prefix} {b : Nat}
    (h : N.getAvailablePrefixByBitLen rib q b = some p) (hq : q.bits < b) (hg : p.Contains g) :
    rib[g]? = none := by
  obtain ⟨hb, -, hqp, -⟩ := N.available h
  have hstrict : q.StrictlyContains p := ⟨hb ▸ hq, hqp⟩
  by_contra hne
  obtain ⟨l, hl⟩ := Option.ne_none_iff_exists'.mp hne
  exact N.not_contains_of_available (r := ⟨g, l⟩) h hl (hstrict.trans_contains hg) hg

end
end K8sIpam.Ipam
