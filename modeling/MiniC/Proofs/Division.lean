import MiniC.Proofs.Exact
import MiniC.Proofs.Width

/-! Division of integers. The quotient is cut toward zero, so what it leaves lies on the dividend's
side of zero. Side and size determine both of them, and neither is wider than the dividend. -/

namespace MiniC.Number

/-- A quotient of `a` by `b` and what it leaves: less than the divisor, and with the sign of the
dividend. -/
structure Divides (a b q r : Int) : Prop where
  total : a = q * b + r
  small : r.natAbs < b.natAbs
  side : r = 0 ∨ r.sign = a.sign
  quotient : q.natAbs ≤ a.natAbs

variable {a b q r q' r' : Int}

theorem divides_tdiv (a : Int) (hb : b ≠ 0) : Divides a b (a.tdiv b) (a.tmod b) where
  total := by
    rw [Int.mul_comm]
    exact (Int.mul_tdiv_add_tmod a b).symm
  small := by
    rw [Int.natAbs_tmod]
    exact Nat.mod_lt _ (Int.natAbs_pos.2 hb)
  side := by
    have hsign := Int.sign_tmod a b
    by_cases hdvd : b ∣ a
    · rw [if_pos hdvd] at hsign
      exact .inl (Int.sign_eq_zero_iff_zero.1 hsign)
    · rw [if_neg hdvd] at hsign
      exact .inr hsign
  quotient := Int.natAbs_tdiv_le_natAbs a b

theorem Divides.nonneg (h : Divides a b q r) (ha : 0 ≤ a) : 0 ≤ r := by
  rcases h.side with hr | hr
  · omega
  · rw [← Int.sign_nonneg_iff, hr, Int.sign_nonneg_iff]
    exact ha

theorem Divides.nonpos (h : Divides a b q r) (ha : a ≤ 0) : r ≤ 0 := by
  rcases h.side with hr | hr
  · omega
  · rw [← Int.sign_nonpos_iff, hr, Int.sign_nonpos_iff]
    exact ha

/-- Two remainders lie on one side of zero, so they differ by less than the divisor. -/
theorem Divides.close (h : Divides a b q r) (h' : Divides a b q' r') :
    (r - r').natAbs < b.natAbs := by
  have hr := h.small
  have hr' := h'.small
  rcases Int.le_total 0 a with ha | ha
  · have := h.nonneg ha
    have := h'.nonneg ha
    omega
  · have := h.nonpos ha
    have := h'.nonpos ha
    omega

theorem Divides.unique (h : Divides a b q r) (h' : Divides a b q' r') : q' = q ∧ r' = r := by
  have hdiff : (q' - q) * b = r - r' := by
    have htotal := h.total
    have htotal' := h'.total
    rw [Int.sub_mul]
    omega
  have hr : r - r' = 0 := by
    apply Int.eq_zero_of_dvd_of_natAbs_lt_natAbs (d := b)
    · rw [← hdiff]
      exact Int.dvd_mul_left (q' - q) b
    · exact h.close h'
  have hb : b ≠ 0 := Int.natAbs_pos.1 (Nat.zero_lt_of_lt h.small)
  have hq : q' - q = 0 := by
    rw [hr] at hdiff
    exact (Int.mul_eq_zero.1 hdiff).resolve_right hb
  omega

/-- Quotient and remainder of integers are the only ones that add up to the dividend, with a
remainder less than the divisor and of the dividend's sign. Neither is wider than the dividend. -/
theorem division_determined (a b : Int) (hb : b ≠ 0) :
    ∃ q r, truncDiv a b = .ok q ∧ wholeDiv (.int a) (.int b) = .ok (.int q) ∧
      remainder (.int a) (.int b) = .ok (.int r) ∧ Divides a b q r ∧
      (∀ q' r', Divides a b q' r' → q' = q ∧ r' = r) ∧
      bitLength q ≤ bitLength a ∧ bitLength r ≤ bitLength a := by
  have hq := truncDiv_eq a hb
  have hdivides := divides_tdiv a hb
  have hnarrow := narrow_truncDiv hq (Nat.le_refl (bitLength a))
  refine ⟨a.tdiv b, a.tmod b, hq, ?_, remainder_int a hb, hdivides, ?_, hnarrow.1, ?_⟩
  · simp only [wholeDiv, hq]
    rfl
  · intro q' r' h
    exact hdivides.unique h
  · rw [Int.tmod_def]
    exact hnarrow.2

theorem division_determined_negative : (2 : Int) ≠ 0 ∧ truncDiv (-7) 2 = .ok (-3) ∧
    remainder (.int (-7)) (.int 2) = .ok (.int (-1)) ∧ Divides (-7) 2 (-3) (-1) ∧
    ∀ q r, Divides (-7) 2 q r → q = -3 ∧ r = -1 := by
  have hb : (2 : Int) ≠ 0 := by decide
  obtain ⟨q, r, hq, -, hr, hdivides, hunique, -⟩ := division_determined (-7) 2 hb
  have hquotient : truncDiv (-7) 2 = .ok (-3) := rfl
  have hremainder : remainder (.int (-7)) (.int 2) = .ok (.int (-1)) := rfl
  rw [hquotient] at hq
  rw [hremainder] at hr
  cases hq
  cases hr
  exact ⟨hb, hquotient, hremainder, hdivides, hunique⟩

end MiniC.Number
