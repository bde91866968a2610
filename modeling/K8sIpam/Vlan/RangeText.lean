import K8sIpam.Vlan.Applogic

/-! # Range texts

A range text consists of integers, which `GetVLANClaimCtx` reads as `int` and converts to `uint16`,
and the response to a range claim is such a text again. -/

namespace K8sIpam.Vlan
open Std Atomic Prog

variable {refuses : NewRequirement} {d : DB 16} {c : VLANClaim} {r : String} {s e n : Int}

/-- A number of ids, or the first and the last id of a range. -/
inductive RangeText where
  | size (n : Int)
  | range (s e : Int)

/-- The integers that a text is made of. -/
def Denotes (r : String) : RangeText → Prop
  | .size n => ∃ cs, r.toList.splitOn ':' = [cs] ∧ atoi cs = .ok n
  | .range s e => ∃ cs cs', r.toList.splitOn ':' = [cs, cs'] ∧ atoi cs = .ok s ∧ atoi cs' = .ok e

/-- The claim is one of a range text. -/
def Asks (c : VLANClaim) (r : String) : Prop := c.spec.vlanID = none ∧ c.spec.vlanRange = some r

/-- The context of every claim of the text, and the text that is reported when its owner holds
nothing, say what the integers of the text say. -/
structure AtFaceValue (r : String) : Prop where
  size : ∀ c vctx n, Asks c r → c.getVLANClaimCtx = .ok vctx → Denotes r (.size n) →
    0 ≤ n ∧ n ≤ 65535 ∧ (vctx.size.toNat : Int) = n
  range : ∀ c vctx s e, Asks c r → c.getVLANClaimCtx = .ok vctx → Denotes r (.range s e) →
    (0 ≤ s ∧ s ≤ e ∧ e ≤ 65535) ∧ (vctx.start.toNat : Int) = s ∧
      (vctx.start.toNat + vctx.size.toNat - 1 : Int) = e
  status : ∀ refuses d c resp s e sel, Asks c r → Denotes r (.range s e) →
    c.spec.getOwnerSelector refuses = .ok sel → d.getByLabel sel = [] →
    answer refuses d c = .ok resp →
    ∃ t, resp.status.vlanRange = some t ∧ Denotes t (.range s e)

/-- The integers of a text are ids, and there are fewer than 65536 of them. -/
def Fits : RangeText → Prop
  | .size n => 0 ≤ n ∧ n ≤ 65535
  | .range s e => s ≤ e → 0 ≤ s ∧ e ≤ 65535 ∧ e - s + 1 ≤ 65535

/-! ## What is read -/

theorem Asks.getVLANClaimCtx (h : Asks c r) : c.getVLANClaimCtx = rangeCtx r := by
  rw [VLANClaim.getVLANClaimCtx, h.1, h.2]

theorem rangeCtx_size (h : Denotes r (.size n)) :
    rangeCtx r = .ok ⟨.size, 0, BitVec.ofInt 16 n⟩ := by
  obtain ⟨cs, hcs, hn⟩ := h
  unfold rangeCtx
  rw [hcs]
  dsimp only
  rw [hn]
  rfl

theorem rangeCtx_range (h : Denotes r (.range s e)) (hle : s ≤ e) :
    rangeCtx r = .ok ⟨.range, BitVec.ofInt 16 s, BitVec.ofInt 16 e - BitVec.ofInt 16 s + 1⟩ := by
  obtain ⟨cs, cs', hcs, hs, he⟩ := h
  unfold rangeCtx
  rw [hcs]
  dsimp only
  rw [hs, he]
  exact if_neg hle.not_gt

theorem le_of_rangeCtx {vctx : VLANClaimCtx} (hr : rangeCtx r = .ok vctx)
    (h : Denotes r (.range s e)) : s ≤ e := by
  obtain ⟨cs, cs', hcs, hs, he⟩ := h
  unfold rangeCtx at hr
  rw [hcs] at hr
  dsimp only at hr
  rw [hs, he] at hr
  obtain ⟨s', hs', hr⟩ := bind_eq_ok.mp hr
  obtain ⟨e', he', hr⟩ := bind_eq_ok.mp hr
  cases hs'
  cases he'
  split at hr
  · cases hr
  · omega

/-! ## What is written -/

theorem parseDigits_toDigits (n : Nat) : parseDigits (Nat.toDigits 10 n) = some n := by
  have hall : (Nat.toDigits 10 n).all Char.isDigit = true :=
    List.all_eq_true.mpr fun c hc => Nat.isDigit_of_mem_toDigits (by decide) (by decide) hc
  rw [parseDigits, if_pos ⟨Nat.toDigits_ne_nil, hall⟩]
  exact congrArg some Nat.ofDigitChars_ten_toDigits

/-- What is written is read back. -/
theorem atoi_toDigits {n : Nat} (hn : n < 2 ^ 63) : atoi (Nat.toDigits 10 n) = .ok (n : Int) := by
  have hdigit : ∀ c cs, Nat.toDigits 10 n = c :: cs → c.isDigit = true := fun c cs h =>
    Nat.isDigit_of_mem_toDigits (by decide) (by decide) (h ▸ List.mem_cons_self)
  unfold atoi
  dsimp only
  split
  next heq =>
    split at heq
    next h => cases hdigit _ _ h
    next h => cases hdigit _ _ h
    next => rw [parseDigits_toDigits] at heq; cases heq
  next m heq =>
    split at heq
    next h => cases hdigit _ _ h
    next h => cases hdigit _ _ h
    next =>
      rw [parseDigits_toDigits] at heq
      cases heq
      have hbounds : -2 ^ 63 ≤ (n : Int) ∧ (n : Int) < 2 ^ 63 := by omega
      exact if_pos hbounds

theorem denotes_text {m n : Nat} (hm : m < 2 ^ 63) (hn : n < 2 ^ 63) :
    Denotes (toString m ++ ":" ++ toString n) (.range m n) := by
  have hcolon : ∀ n, ':' ∉ Nat.toDigits 10 n := fun n h => by
    cases Nat.isDigit_of_mem_toDigits (by decide) (by decide) h
  refine ⟨_, _, ?_, atoi_toDigits hm, atoi_toDigits hn⟩
  have htext : (toString m ++ ":" ++ toString n).toList =
      [':'].intercalate [Nat.toDigits 10 m, Nat.toDigits 10 n] := by
    simp [List.intercalate_cons_cons]
  rw [htext, List.splitOn_intercalate _ (by simp [hcolon]) (by simp)]

theorem getVLANClaimCtx_of_answer {resp : VLANClaim} (h : answer refuses d c = .ok resp) :
    ∃ vctx, c.getVLANClaimCtx = .ok vctx := by
  cases hctx : c.getVLANClaimCtx with
  | ok vctx => exact ⟨vctx, rfl⟩
  | error err =>
    rw [answer, claim, hctx] at h
    cases h

/-- The range that is reported for an owner that holds nothing. -/
theorem range_answer {vctx : VLANClaimCtx} {sel : Selector} {resp : VLANClaim}
    (hctx : c.getVLANClaimCtx = .ok vctx) (hk : vctx.kind = .range)
    (hsel : c.spec.getOwnerSelector refuses = .ok sel) (hnil : d.getByLabel sel = [])
    (h : answer refuses d c = .ok resp) :
    resp.status.vlanRange = some (toString vctx.start.toNat ++ ":" ++
      toString (vctx.start + vctx.size - 1).toNat) := by
  rw [answer, claim_run hctx hsel, hnil] at h
  dsimp only at h
  rw [hk, applyHandlerNew, applyHandlerNewVlanRange, run_bind, DbProg.findFreeRange_run] at h
  cases hfind : d.findFreeRange vctx.start vctx.size with
  | error err =>
    rw [hfind] at h
    cases h
  | ok es =>
    rw [hfind] at h
    cases h
    rfl

/-! ## Texts that fit -/

theorem toNat_ofInt_id (h0 : 0 ≤ n) (h : n ≤ 65535) : ((BitVec.ofInt 16 n).toNat : Int) = n := by
  rw [BitVec.toNat_ofInt]
  omega

theorem toNat_size (h0 : 0 ≤ s) (hle : s ≤ e) (he : e ≤ 65535) (hsize : e - s + 1 ≤ 65535) :
    ((BitVec.ofInt 16 e - BitVec.ofInt 16 s + 1).toNat : Int) = e - s + 1 := by
  have hs := toNat_ofInt_id h0 (hle.trans he)
  have he := toNat_ofInt_id (h0.trans hle) he
  bv_omega

/-- A range text is taken at face value if and only if its integers are ids and fewer than 65536. -/
theorem atFaceValue_iff (r : String) : AtFaceValue r ↔ ∀ t, Denotes r t → Fits t := by
  constructor
  · intro h t ht
    -- a claim of the text
    let c := sampleClaim "a" none (some r)
    have hasks : Asks c r := ⟨rfl, rfl⟩
    cases t with
    | size n =>
      have hctx : c.getVLANClaimCtx = _ := hasks.getVLANClaimCtx.trans (rangeCtx_size ht)
      obtain ⟨h0, hle, -⟩ := h.size c _ n hasks hctx ht
      exact ⟨h0, hle⟩
    | range s e =>
      intro hle
      have hctx : c.getVLANClaimCtx = _ := hasks.getVLANClaimCtx.trans (rangeCtx_range ht hle)
      obtain ⟨⟨h0, -, he⟩, hstart, hstop⟩ := h.range c _ s e hasks hctx ht
      have hlt := (BitVec.ofInt 16 e - BitVec.ofInt 16 s + 1).isLt
      exact ⟨h0, he, by omega⟩
  · intro h
    refine ⟨fun c vctx n hasks hctx ht => ?_, fun c vctx s e hasks hctx ht => ?_,
      fun refuses d c resp s e sel hasks ht hsel hnil hresp => ?_⟩
    · obtain ⟨h0, hle⟩ := h _ ht
      rw [hasks.getVLANClaimCtx, rangeCtx_size ht] at hctx
      cases hctx
      exact ⟨h0, hle, toNat_ofInt_id h0 hle⟩
    · rw [hasks.getVLANClaimCtx] at hctx
      have hle := le_of_rangeCtx hctx ht
      obtain ⟨h0, he, hsize⟩ := h _ ht hle
      rw [rangeCtx_range ht hle] at hctx
      cases hctx
      have hstart := toNat_ofInt_id h0 (hle.trans he)
      have hcount := toNat_size h0 hle he hsize
      exact ⟨⟨h0, hle, he⟩, hstart, by dsimp only; omega⟩
    · obtain ⟨vctx, hctx⟩ := getVLANClaimCtx_of_answer hresp
      have hrange := hasks.getVLANClaimCtx.symm.trans hctx
      have hle := le_of_rangeCtx hrange ht
      obtain ⟨h0, he, -⟩ := h _ ht hle
      rw [rangeCtx_range ht hle] at hrange
      cases hrange
      refine ⟨_, range_answer hctx rfl hsel hnil hresp, ?_⟩
      have hstop : BitVec.ofInt 16 s + (BitVec.ofInt 16 e - BitVec.ofInt 16 s + 1) - 1 =
          BitVec.ofInt 16 e := by ring
      have htext := denotes_text (m := (BitVec.ofInt 16 s).toNat) (n := (BitVec.ofInt 16 e).toNat)
        (by omega) (by omega)
      rw [toNat_ofInt_id h0 (hle.trans he), toNat_ofInt_id (h0.trans hle) he] at htext
      dsimp only
      rw [hstop]
      exact htext

/-- Numbers outside of `uint16` are accepted and read as other ids, which is also what is reported;
and the range of all ids has no size. -/
theorem not_atFaceValue :
    rangeCtx "70000" = .ok ⟨.size, 0, 4464⟩ ∧ ¬AtFaceValue "70000" ∧
    rangeCtx "-1" = .ok ⟨.size, 0, 65535⟩ ∧ ¬AtFaceValue "-1" ∧
    rangeCtx "0:65535" = .ok ⟨.range, 0, 0⟩ ∧ ¬AtFaceValue "0:65535" ∧
    answer (fun _ _ => none) new (sampleClaim "a" none (some "65538:65539")) =
      .ok ((sampleClaim "a" none (some "65538:65539")).setVLANRange "2:3") ∧
    ¬AtFaceValue "65538:65539" := by
  have hasks : ∀ r, Asks (sampleClaim "a" none (some r)) r := fun r => ⟨rfl, rfl⟩
  have hbig : Denotes "70000" (.size 70000) := ⟨"70000".toList, by decide, by decide⟩
  have hneg : Denotes "-1" (.size (-1)) := ⟨"-1".toList, by decide, by decide⟩
  have hall : Denotes "0:65535" (.range 0 65535) :=
    ⟨"0".toList, "65535".toList, by decide, by decide, by decide⟩
  have hpast : Denotes "65538:65539" (.range 65538 65539) :=
    ⟨"65538".toList, "65539".toList, by decide, by decide, by decide⟩
  refine ⟨by decide, fun h => ?_, by decide, fun h => ?_, by decide, fun h => ?_, by decide +kernel,
    fun h => ?_⟩
  · exact absurd (h.size _ _ _ (hasks _) (rangeCtx_size hbig) hbig).2.1 (by decide)
  · exact absurd (h.size _ _ _ (hasks _) (rangeCtx_size hneg) hneg).1 (by decide)
  · exact absurd (h.range _ _ _ _ (hasks _) (rangeCtx_range hall (by decide)) hall).2.2 (by decide)
  · exact absurd (h.range _ _ _ _ (hasks _) (rangeCtx_range hpast (by decide)) hpast).1 (by decide)

end K8sIpam.Vlan
