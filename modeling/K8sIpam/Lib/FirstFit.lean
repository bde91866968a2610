import Mathlib.Data.List.Basic
import Mathlib.Data.List.Perm.Subperm

/-! # First fit

Requests take elements out of a list, one after the other. Each takes the first element that suits
it, and what suits the next requests may depend on what was taken. -/

namespace FirstFit

variable {α β σ τ ρ : Type}

/-- What the requests take, if each finds something. -/
def takeAll (suits : σ → ρ → α → Bool) (next : σ → ρ → α → σ) :
    List ρ → σ → List α → Option (List α)
  | [], _, _ => some []
  | r :: rs, s, l =>
    match l.find? (suits s r) with
    | none => none
    | some a => (takeAll suits next rs (next s r a) (l.eraseP (suits s r))).map (a :: ·)

/-- The requests can take the elements of a list in their order. -/
def InOrder (suits : σ → ρ → α → Bool) (next : σ → ρ → α → σ) : List ρ → σ → List α → Prop
  | [], _, _ => True
  | _ :: _, _, [] => False
  | r :: rs, s, a :: l => suits s r a = true ∧ InOrder suits next rs (next s r a) l

instance (suits : σ → ρ → α → Bool) (next : σ → ρ → α → σ) :
    (rs : List ρ) → (s : σ) → (l : List α) → Decidable (InOrder suits next rs s l)
  | [], _, _ => .isTrue trivial
  | _ :: _, _, [] => .isFalse id
  | r :: rs, s, a :: l =>
    have := instDecidableInOrder suits next rs (next s r a) l
    inferInstanceAs (Decidable (_ ∧ _))

/-! ## The first element -/

section
variable {p q : α → Bool} {l : List α} {a : α}

/-- The list around the element that is found. -/
theorem exists_split (h : l.find? p = some a) : ∃ l₁ l₂, l = l₁ ++ a :: l₂ ∧
    l.eraseP p = l₁ ++ l₂ ∧ p a = true ∧ ∀ b ∈ l₁, ¬p b = true := by
  obtain ⟨ha, l₁, l₂, rfl, hl₁⟩ := List.find?_eq_some_iff_append.mp h
  have hno : ∀ b ∈ l₁, ¬p b = true := fun b hb => by simpa using hl₁ b hb
  refine ⟨l₁, l₂, rfl, ?_, ha, hno⟩
  rw [List.eraseP_append_right _ hno, List.eraseP_cons_of_pos ha]

/-- The element that is found and those that are left are those of the list. -/
theorem perm_cons_eraseP (h : l.find? p = some a) : l.Perm (a :: l.eraseP p) := by
  obtain ⟨l₁, l₂, rfl, herase, -, -⟩ := exists_split h
  rw [herase]
  exact List.perm_middle

/-- If the first element with the weaker property has the stronger one, it is found for both. -/
theorem find?_eq_of_first (hq : ∀ a ∈ l, p a = true → q a = true) (h : l.find? q = some a)
    (ha : p a = true) : l.find? p = some a ∧ l.eraseP p = l.eraseP q := by
  obtain ⟨l₁, l₂, rfl, herase, -, hno⟩ := exists_split h
  have hnop : ∀ b ∈ l₁, ¬p b = true := fun b hb hp =>
    hno b hb (hq b (List.mem_append_left _ hb) hp)
  rw [herase, List.eraseP_append_right _ hnop, List.eraseP_cons_of_pos ha]
  refine ⟨List.find?_eq_some_iff_append.mpr ⟨ha, l₁, l₂, rfl, fun b hb => ?_⟩, rfl⟩
  simpa using hnop b hb

/-- Carrying the elements along with what is asked of them changes nothing. -/
theorem find?_map_eq {f : α → β} {p' : β → Bool} (h : ∀ a ∈ l, p' (f a) = q a) :
    (l.map f).find? p' = (l.find? q).map f ∧ (l.map f).eraseP p' = (l.eraseP q).map f := by
  induction l with
  | nil => exact ⟨rfl, rfl⟩
  | cons b l ih =>
    obtain ⟨hfind, herase⟩ := ih fun c hc => h c (List.mem_cons_of_mem b hc)
    have hb := h b List.mem_cons_self
    rw [List.map_cons, List.find?_cons, List.eraseP_cons, hb, hfind, herase, List.find?_cons,
      List.eraseP_cons]
    cases q b with
    | true => exact ⟨rfl, rfl⟩
    | false => exact ⟨rfl, rfl⟩

theorem filter_eq_cons_of_find? (h : l.find? q = some a) :
    l.filter q = a :: (l.eraseP q).filter q := by
  obtain ⟨l₁, l₂, rfl, herase, ha, hno⟩ := exists_split h
  rw [herase, List.filter_append, List.filter_append, List.filter_eq_nil_iff.mpr hno,
    List.filter_cons_of_pos ha, List.nil_append, List.nil_append]

end

/-! ## Runs -/

section
variable {suits : σ → ρ → α → Bool} {next : σ → ρ → α → σ} {r : ρ} {rs : List ρ} {s : σ}
  {l as : List α} {a : α}

theorem takeAll_cons : takeAll suits next (r :: rs) s l = some as ↔
    ∃ a as', l.find? (suits s r) = some a ∧
      takeAll suits next rs (next s r a) (l.eraseP (suits s r)) = some as' ∧ as = a :: as' := by
  rw [takeAll]
  cases l.find? (suits s r) with
  | none => simp
  | some a =>
    rw [Option.map_eq_some_iff]
    constructor
    · rintro ⟨as', h, rfl⟩
      exact ⟨a, as', rfl, h, rfl⟩
    · rintro ⟨_, as', ⟨⟩, h, rfl⟩
      exact ⟨as', h, rfl⟩

theorem length_takeAll (h : takeAll suits next rs s l = some as) : as.length = rs.length := by
  induction rs generalizing s l as with
  | nil =>
    cases h
    rfl
  | cons r rs ih =>
    obtain ⟨a, as', -, hrest, rfl⟩ := takeAll_cons.mp h
    rw [List.length_cons, List.length_cons, ih hrest]

/-- No element is taken more often than the list has it. -/
theorem subperm_of_takeAll (h : takeAll suits next rs s l = some as) : as.Subperm l := by
  induction rs generalizing s l as with
  | nil =>
    cases h
    exact List.nil_subperm
  | cons r rs ih =>
    obtain ⟨a, as', hfind, hrest, rfl⟩ := takeAll_cons.mp h
    exact ((List.subperm_cons a).mpr (ih hrest)).trans (perm_cons_eraseP hfind).symm.subperm

/-- What is taken suits, so it has what all suitable elements have. -/
theorem forall_of_takeAll {P : α → Prop} (hsuits : ∀ s r, ∀ a ∈ l, suits s r a = true → P a)
    (h : takeAll suits next rs s l = some as) : ∀ a ∈ as, P a := by
  induction rs generalizing s l as with
  | nil =>
    cases h
    simp
  | cons r rs ih =>
    obtain ⟨a, as', hfind, hrest, rfl⟩ := takeAll_cons.mp h
    have ha := hsuits s r a (List.mem_of_find?_eq_some hfind) (List.find?_some hfind)
    have hleft := ih (fun s r b hb => hsuits s r b (List.mem_of_mem_eraseP hb)) hrest
    exact List.forall_mem_cons.mpr ⟨ha, hleft⟩

/-- A run that passes over no usable element takes the first ones. -/
theorem takeAll_of_inOrder {usable : α → Bool}
    (husable : ∀ s r, ∀ a ∈ l, suits s r a = true → usable a = true)
    (h : InOrder suits next rs s (l.filter usable)) :
    takeAll suits next rs s l = some ((l.filter usable).take rs.length) := by
  induction rs generalizing s l with
  | nil => rfl
  | cons r rs ih =>
    cases hu : l.find? usable with
    | none =>
      have hnil : l.filter usable = [] :=
        List.filter_eq_nil_iff.mpr fun a ha => List.find?_eq_none.mp hu a ha
      rw [hnil] at h
      cases h
    | some u =>
      rw [filter_eq_cons_of_find? hu] at h ⊢
      obtain ⟨hsuits, hrest⟩ := h
      obtain ⟨hfind, herase⟩ := find?_eq_of_first (husable s r) hu hsuits
      refine takeAll_cons.mpr ⟨u, _, hfind, ?_, rfl⟩
      rw [herase]
      exact ih (fun s r a ha => husable s r a (List.mem_of_mem_eraseP ha)) hrest

end

/-- A second run in which every usable element suits, on a list that carries the first one's elements
along, takes the same elements exactly if the first run passes over no usable element. -/
theorem takeAll_map_iff {suits : σ → ρ → α → Bool} {next : σ → ρ → α → σ}
    {suits' : τ → ρ → β → Bool} {next' : τ → ρ → β → τ} {usable : α → Bool} {f : α → β}
    {rs : List ρ} {s : σ} {t : τ} {l as : List α}
    (husable : ∀ s r, ∀ a ∈ l, suits s r a = true → usable a = true)
    (hsuits' : ∀ r, ∀ a ∈ l, suits' t r (f a) = usable a)
    (hinj : ∀ a ∈ l, ∀ b ∈ l, f a = f b → a = b)
    (h : takeAll suits next rs s l = some as) (hnext' : ∀ r, ∀ a ∈ as, next' t r (f a) = t) :
    takeAll suits' next' rs t (l.map f) = some (as.map f) ↔
      InOrder suits next rs s (l.filter usable) := by
  induction rs generalizing s l as with
  | nil =>
    cases h
    simp [takeAll, InOrder]
  | cons r rs ih =>
    obtain ⟨a, as', hfind, hrest, rfl⟩ := takeAll_cons.mp h
    have hmem := List.mem_of_find?_eq_some hfind
    have hua := husable s r a hmem (List.find?_some hfind)
    -- the second run takes the first usable element
    obtain ⟨u, hu⟩ : ∃ u, l.find? usable = some u :=
      Option.isSome_iff_exists.mp (List.find?_isSome.mpr ⟨a, hmem, hua⟩)
    obtain ⟨hfind', herase'⟩ := find?_map_eq (hsuits' r)
    rw [hu, Option.map_some] at hfind'
    have hmemu := List.mem_of_find?_eq_some hu
    have hleft : ∀ b ∈ l.eraseP usable, b ∈ l := fun b => List.mem_of_mem_eraseP
    rw [takeAll_cons, filter_eq_cons_of_find? hu, InOrder]
    constructor
    · rintro ⟨b, bs, hb, hbs, heq⟩
      rw [hfind'] at hb
      cases hb
      obtain ⟨hau, rfl⟩ := List.cons.inj heq
      obtain rfl := hinj a hmem u hmemu hau
      have hsa := List.find?_some hfind
      obtain ⟨-, herase⟩ := find?_eq_of_first (husable s r) hu hsa
      rw [herase] at hrest
      rw [hnext' r a List.mem_cons_self, herase'] at hbs
      refine ⟨hsa, (ih (fun s r b hb => husable s r b (hleft b hb))
        (fun r b hb => hsuits' r b (hleft b hb))
        (fun b hb c hc => hinj b (hleft b hb) c (hleft c hc)) hrest
        fun r b hb => hnext' r b (List.mem_cons_of_mem a hb)).mp hbs⟩
    · rintro ⟨hsu, hin⟩
      obtain ⟨hfindu, herase⟩ := find?_eq_of_first (husable s r) hu hsu
      rw [hfind] at hfindu
      cases hfindu
      rw [herase] at hrest
      refine ⟨f a, as'.map f, hfind', ?_, rfl⟩
      rw [hnext' r a List.mem_cons_self, herase']
      exact (ih (fun s r b hb => husable s r b (hleft b hb))
        (fun r b hb => hsuits' r b (hleft b hb))
        (fun b hb c hc => hinj b (hleft b hb) c (hleft c hc)) hrest
        fun r b hb => hnext' r b (List.mem_cons_of_mem a hb)).mpr hin

end FirstFit
