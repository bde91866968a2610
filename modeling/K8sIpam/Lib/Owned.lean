import Mathlib

/-! # Tables whose entries have owners

A table maps keys to entries and every entry has an owner. A change of the table respects an
owner's neighbours when every entry of another owner is there before exactly when it is there
after. -/

namespace Owned

variable {K L O : Type} (owner : L → O)

/-- Entries of owners other than `a` are the same in both tables. -/
def Frame (a : O) (s t : K → Option L) : Prop :=
  ∀ k l, owner l ≠ a → (s k = some l ↔ t k = some l)

/-- The keys of the entries of an owner. -/
def keys (a : O) (s : K → Option L) : Set K := {k | ∃ l, s k = some l ∧ owner l = a}

/-- The entries of an owner are the same in both tables. -/
def Same (b : O) (s t : K → Option L) : Prop := ∀ k l, owner l = b → (s k = some l ↔ t k = some l)

variable {owner} {a b : O} {s t u : K → Option L}

theorem Frame.refl : Frame owner a s s := fun _ _ _ => Iff.rfl

theorem Frame.trans (h : Frame owner a s t) (h' : Frame owner a t u) : Frame owner a s u :=
  fun k l hl => (h k l hl).trans (h' k l hl)

theorem Frame.same (h : Frame owner a s t) (hb : b ≠ a) : Same owner b s t :=
  fun k l hl => h k l (hl ▸ hb)

theorem Same.keys_eq (h : Same owner b s t) : keys owner b s = keys owner b t := by
  ext k
  constructor
  · rintro ⟨l, hl, hb⟩
    exact ⟨l, (h k l hb).mp hl, hb⟩
  · rintro ⟨l, hl, hb⟩
    exact ⟨l, (h k l hb).mpr hl, hb⟩

/-- A key has one entry, so it belongs to one owner. -/
theorem keys_disjoint (hab : a ≠ b) : Disjoint (keys owner a s) (keys owner b s) := by
  rw [Set.disjoint_left]
  rintro k ⟨l, hl, rfl⟩ ⟨l', hl', rfl⟩
  rw [hl] at hl'
  cases hl'
  exact hab rfl

/-- Writing an entry of `a` respects the others exactly when the key is free or holds an entry
of `a`. -/
theorem frame_write_iff [DecidableEq K] {k₀ : K} {l₀ : L} (ho : owner l₀ = a)
    (ht : ∀ k, t k = if k₀ = k then some l₀ else s k) :
    Frame owner a s t ↔ ∀ l, s k₀ = some l → owner l = a := by
  constructor
  · intro h l hl
    by_contra hne
    have := (h k₀ l hne).mp hl
    rw [ht, if_pos rfl] at this
    cases this
    exact hne ho
  · intro h k l hl
    rw [ht]
    by_cases hk : k₀ = k
    · subst hk
      rw [if_pos rfl]
      constructor
      · intro hs
        exact absurd (h l hs) hl
      · intro hs
        cases hs
        exact absurd ho hl
    · rw [if_neg hk]

/-- Removing keys that hold nothing but entries of `a` respects the others. -/
theorem frame_erase {p : K → Prop} (ht : ∀ k, ¬p k → t k = s k) (hp : ∀ k, p k → t k = none)
    (ho : ∀ k l, p k → s k = some l → owner l = a) : Frame owner a s t := by
  intro k l hl
  by_cases hk : p k
  · rw [hp k hk]
    constructor
    · intro hs
      exact absurd (ho k l hk hs) hl
    · intro hs
      cases hs
  · rw [ht k hk]

end Owned
