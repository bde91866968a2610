import Mathlib.Logic.Basic

/-! # Nested positions

A table gives labels to positions, some of which lie around others. The parent of a position is the
innermost position of the table around it, and a rule says which labels the parent may have. Some
labels close a position: only leaves, which are around nothing, lie inside. -/

namespace Nest

variable {α κ : Type} (R : α → α → Prop)

/-- The innermost of the positions of the table around `x`. -/
structure Parent (t : α → Option κ) (x q : α) : Prop where
  mem : (t q).isSome = true
  outer : R q x
  innermost : ∀ q', (t q').isSome = true → R q' x → q' = q ∨ R q' q

/-- Every position that is not exempt has a parent, and one that the rule allows. -/
def Nested (rule : α → κ → κ → Prop) (exempt : κ → Prop) (t : α → Option κ) : Prop :=
  ∀ x l, t x = some l → ¬exempt l → ∃ q m, t q = some m ∧ Parent R t x q ∧ rule x l m

/-- Only leaves lie inside a closed position. -/
def Closed (closed : κ → Prop) (leaf : α → Prop) (t : α → Option κ) : Prop :=
  ∀ q m, t q = some m → closed m → ∀ x, (t x).isSome = true → R q x → leaf x

/-- A strict order in which two positions around a position of the table are comparable. -/
structure Forest (t : α → Option κ) : Prop where
  trans : ∀ {a b c}, R a b → R b c → R a c
  irrefl : ∀ a, ¬R a a
  comparable : ∀ {a b x}, (t a).isSome = true → (t b).isSome = true → R a x → R b x →
    a = b ∨ R a b ∨ R b a

variable {R} {t t' : α → Option κ} {x y q q' : α} {l m : κ} {rule : α → κ → κ → Prop}
  {exempt closed : κ → Prop} {leaf : α → Prop}

/-- What is put around a position, inside its parent, has the same parent. -/
theorem Parent.eq_of_between (hR : Forest R t) (hx : Parent R t x q) (hy : Parent R t y q')
    (hq' : R q' x) (hxy : R x y) : q' = q := by
  rcases hx.innermost q' hy.mem hq' with h | h
  · exact h
  · rcases hy.innermost q hx.mem (hR.trans hx.outer hxy) with h' | h'
    · exact h'.symm
    · exact absurd (hR.trans h h') (hR.irrefl q')

theorem Parent.of_comparable (hR : Forest R t) (hq : (t q).isSome = true) (hqx : R q x)
    (hin : ∀ q', (t q').isSome = true → R q' x → ¬R q q') : Parent R t x q := by
  refine ⟨hq, hqx, fun q' hq' hqx' => ?_⟩
  rcases hR.comparable hq' hq hqx' hqx with h | h | h
  · exact .inl h
  · exact .inr h
  · exact absurd h (hin q' hq' hqx')

/-! ## A new position -/

section
variable (hx : t x = none) (hl : t' x = some l) (hold : ∀ y, y ≠ x → t' y = t y)
include hx hold

theorem Parent.insert (hp : Parent R t y q) (h : R x y → R x q) : Parent R t' y q := by
  have hne : q ≠ x := by
    rintro rfl
    have hmem := hp.mem
    rw [hx] at hmem
    cases hmem
  refine ⟨hold q hne ▸ hp.mem, hp.outer, fun q' hq' hqy => ?_⟩
  by_cases hq'x : q' = x
  · subst hq'x
    exact .inr (h hqy)
  · exact hp.innermost q' (hold q' hq'x ▸ hq') hqy

variable (hR : Forest R t')
include hl hR

/-- A position may be added that the rule allows in its parent and that it allows around the
positions whose parent it becomes. -/
theorem Nested.insert (h : Nested R rule exempt t)
    (hparent : exempt l ∨ ∃ q m, t q = some m ∧ Parent R t x q ∧ rule x l m)
    (hchild : ∀ y k, t y = some k → R x y → ∀ q m, t q = some m → Parent R t y q → R q x →
      rule y k m → rule y k l) : Nested R rule exempt t' := by
  intro y k hy hexempt
  by_cases hyx : y = x
  · subst hyx
    obtain rfl : l = k := Option.some.inj (hl.symm.trans hy)
    obtain ⟨q, m, hq, hp, hrule⟩ := hparent.resolve_left hexempt
    have hne : q ≠ y := by
      rintro rfl
      exact hR.irrefl q hp.outer
    exact ⟨q, m, (hold q hne).trans hq, hp.insert hx hold fun hyy => absurd hyy (hR.irrefl y),
      hrule⟩
  · obtain ⟨q, m, hq, hp, hrule⟩ := h y k ((hold y hyx).symm.trans hy) hexempt
    have hne : q ≠ x := by
      rintro rfl
      cases hx.symm.trans hq
    have hq' : t' q = some m := (hold q hne).trans hq
    have hkeep : (R x y → R x q) → ∃ q m, t' q = some m ∧ Parent R t' y q ∧ rule y k m :=
      fun hin => ⟨q, m, hq', hp.insert hx hold hin, hrule⟩
    by_cases hxy : R x y
    · rcases hR.comparable (by rw [hq']; rfl) (by rw [hl]; rfl) hp.outer hxy with heq | hqx | hxq
      · exact absurd heq hne
      · -- the new position is between `y` and its parent
        refine ⟨x, l, hl, ⟨by rw [hl]; rfl, hxy, fun q' hmem hq'y => ?_⟩,
          hchild y k ((hold y hyx).symm.trans hy) hxy q m hq hp hqx hrule⟩
        by_cases hq'x : q' = x
        · exact .inl hq'x
        · rcases hp.innermost q' (hold q' hq'x ▸ hmem) hq'y with rfl | hlt
          · exact .inr hqx
          · exact .inr (hR.trans hlt hqx)
      · exact hkeep fun _ => hxq
    · exact hkeep fun h => absurd h hxy

theorem Closed.insert (h : Closed R closed leaf t)
    (hin : closed l → ∀ y, (t y).isSome = true → R x y → leaf y)
    (hout : ∀ q m, t q = some m → closed m → R q x → leaf x) : Closed R closed leaf t' := by
  intro q m hq hclosed y hy hqy
  by_cases hyx : y = x
  · subst hyx
    have hne : q ≠ y := by
      rintro rfl
      exact hR.irrefl q hqy
    exact hout q m ((hold q hne).symm.trans hq) hclosed hqy
  · have hy' : (t y).isSome = true := hold y hyx ▸ hy
    by_cases hqx : q = x
    · subst hqx
      obtain rfl : l = m := Option.some.inj (hl.symm.trans hq)
      exact hin hclosed y hy' hqy
    · exact h q m ((hold q hqx).symm.trans hq) hclosed y hy' hqy

end

/-! ## Closed positions -/

/-- What lies in a closed position has it as its parent. -/
theorem Closed.parent (hR : Forest R t) (h : Closed R closed leaf t)
    (hleaf : ∀ a b, leaf a → ¬R a b) (hq : t q = some m) (hclosed : closed m) (hqx : R q x) :
    Parent R t x q :=
  .of_comparable hR (by rw [hq]; rfl) hqx fun q' hq' hq'x hqq' =>
    hleaf q' x (h q m hq hclosed q' hq' hqq') hq'x

/-- Around a position there is no closed one, unless it is the parent. -/
theorem Closed.not_outer (h : Closed R closed leaf t) (hleaf : ∀ a b, leaf a → ¬R a b)
    (hp : Parent R t x q) (hopen : ∀ m, t q = some m → ¬closed m) (hq' : t q' = some m)
    (hclosed : closed m) : ¬R q' x := by
  intro hq'x
  rcases hp.innermost q' (by rw [hq']; rfl) hq'x with rfl | hlt
  · exact hopen m hq' hclosed
  · exact hleaf q x (h q' m hq' hclosed q hp.mem hlt) hp.outer

/-! ## Fewer positions -/

section
variable (same : κ → κ → Prop)
  (hsub : ∀ x l', t' x = some l' → ∃ l, t x = some l ∧ same l l')
include hsub

theorem isSome_of_thin (h : (t' x).isSome = true) : (t x).isSome = true := by
  obtain ⟨l', hl'⟩ := Option.isSome_iff_exists.mp h
  obtain ⟨l, hl, -⟩ := hsub x l' hl'
  rw [hl]
  rfl

/-- Positions may be removed together with all that lies inside, and labels replaced by others that
mean the same to the rule. -/
theorem Nested.thin (h : Nested R rule exempt t)
    (hexempt : ∀ l l', same l l' → exempt l → exempt l')
    (hrule : ∀ x l l' m m', same l l' → same m m' → rule x l m → rule x l' m')
    (hup : ∀ x q, (t' x).isSome = true → (t q).isSome = true → R q x → (t' q).isSome = true) :
    Nested R rule exempt t' := by
  intro x l' hx hno
  obtain ⟨l, hl, hsame⟩ := hsub x l' hx
  obtain ⟨q, m, hq, hp, hr⟩ := h x l hl fun hl => hno (hexempt l l' hsame hl)
  have hmem := hup x q (by rw [hx]; rfl) hp.mem hp.outer
  obtain ⟨m', hm'⟩ := Option.isSome_iff_exists.mp hmem
  obtain ⟨m₁, hm₁, hsame'⟩ := hsub q m' hm'
  obtain rfl : m = m₁ := Option.some.inj (hq.symm.trans hm₁)
  exact ⟨q, m', hm', ⟨hmem, hp.outer, fun q' hq' => hp.innermost q' (isSome_of_thin same hsub hq')⟩,
    hrule x l l' m m' hsame hsame' hr⟩

theorem Closed.thin (h : Closed R closed leaf t) (hclosed : ∀ l l', same l l' → closed l' → closed l) :
    Closed R closed leaf t' := by
  intro q m' hq hm' x hx hqx
  obtain ⟨m, hm, hsame⟩ := hsub q m' hq
  exact h q m hm (hclosed m m' hsame hm') x (isSome_of_thin same hsub hx) hqx

end
end Nest
