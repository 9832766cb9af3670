import Folio.Proofs.Scalar.Rational
import Mathlib.Algebra.Order.Field.Rat

/-!
# Laws of coordinates

What layout relies on when it counts with coordinates: comparisons are those of exact values, small
whole numbers are exact, and a magnitude over something positive is not negative. Sums and products
may be rounded, and there may be infinities and undefined values. Double precision is meant, and the
rational numbers satisfy the laws as well.
-/

namespace Folio

/-- Fractions with positive denominators are compared by multiplying across. -/
theorem Exact.cross_lt_trans {a b c : Int} {d e f : Nat} (hd : 0 < d) (he : 0 < e) (hf : 0 < f)
    (hab : a * e < b * d) (hbc : b * f < c * e) : a * f < c * d := by
  have hleft : a * e * f < b * d * f := mul_lt_mul_of_pos_right hab (by exact_mod_cast hf)
  have hright : b * f * d < c * e * d := mul_lt_mul_of_pos_right hbc (by exact_mod_cast hd)
  have hscaled : a * f * e < c * d * e := by
    calc a * f * e = a * e * f := mul_right_comm a f e
      _ < b * d * f := hleft
      _ = b * f * d := mul_right_comm b d f
      _ < c * e * d := hright
      _ = c * d * e := mul_right_comm c e d
  exact lt_of_mul_lt_mul_right hscaled (by exact_mod_cast he.le)

theorem Exact.below_trans {x y z : Exact} (hxy : x.below y = true) (hyz : y.below z = true) :
    x.below z = true := by
  cases x with
  | undefined => cases hxy
  | infinite negative =>
    cases negative with
    | false => cases y <;> cases hxy
    | true =>
      cases z with
      | undefined => cases y <;> cases hyz
      | finite => rfl
      | infinite negative' =>
        cases negative' with
        | false => rfl
        | true => cases y <;> simp [below] at hyz
  | finite negative num den hden =>
    cases z with
    | undefined => cases y <;> cases hyz
    | infinite negative' =>
      cases negative' with
      | false => rfl
      | true => cases y <;> simp [below] at hyz
    | finite negative' num' den' hden' =>
      cases y with
      | undefined => cases hxy
      | infinite sign => cases sign <;> simp_all [below]
      | finite sign n d hd =>
        have hsigned : ∀ (b : Bool) (k m : Nat), (if b then -((k * m : Nat) : Int) else (k * m : Nat))
            = (if b then -(k : Int) else k) * m := by
          intro b k m
          cases b <;> simp
        simp only [below, decide_eq_true_eq, hsigned] at hxy hyz ⊢
        exact cross_lt_trans hden hd hden' hxy hyz

namespace Scalar

/-- Coordinates are compared by their exact values, and small whole numbers are exact. -/
class Lawful (α : Type) [Scalar α] : Prop where
  lt_iff_below : ∀ a b : α, a < b ↔ (exact a).below (exact b) = true
  ofNat_zero : (ofNat 0 : α) = 0
  /-- The whole numbers of 53 bits are exact. -/
  exact_ofNat : ∀ n : Nat, n ≤ 2 ^ 53 →
    ∃ den hden, exact (ofNat n : α) = .finite false (n * den) den hden
  ofInt?_natCast : ∀ n : Nat, n ≤ 2 ^ 53 → ofInt? (n : Int) = some (ofNat n : α)
  beq_zero_of_ofInt? : ∀ (n : Int) (x : α), 0 < n → ofInt? n = some x → (x == 0) = false
  not_abs_div_lt_zero : ∀ a b : α, 0 < b → ¬ abs a / b < 0

section

variable {α : Type} [Scalar α] [Lawful α]

/-- No whole number of 53 bits is out of range. -/
theorem isSome_ofInt?_natCast {n : Nat} (h : n ≤ 2 ^ 53) :
    (ofInt? (n : Int) : Option α).isSome = true := by
  rw [Lawful.ofInt?_natCast n h]
  rfl

/-- Whole numbers are in order. -/
theorem ofNat_lt_ofNat {m n : Nat} (h : m < n) (hn : n ≤ 2 ^ 53) : (ofNat m : α) < ofNat n := by
  obtain ⟨den, hden, hm'⟩ := Lawful.exact_ofNat (α := α) m (by omega)
  obtain ⟨den', hden', hn'⟩ := Lawful.exact_ofNat (α := α) n hn
  rw [Lawful.lt_iff_below, hm', hn']
  simp only [Exact.below, Bool.false_eq_true, if_false, decide_eq_true_eq]
  have hscaled : m * (den * den') < n * (den * den') :=
    Nat.mul_lt_mul_of_pos_right h (Nat.mul_pos hden hden')
  have hleft : m * den * den' = m * (den * den') := Nat.mul_assoc _ _ _
  have hright : n * den' * den = n * (den * den') := by rw [Nat.mul_assoc, Nat.mul_comm den' den]
  rw [hleft, hright]
  exact_mod_cast hscaled

theorem lt_trans {a b c : α} (hab : a < b) (hbc : b < c) : a < c := by
  rw [Lawful.lt_iff_below] at hab hbc ⊢
  exact Exact.below_trans hab hbc

/-- What is below anything is below infinity. -/
theorem isBelowInfinity_of_lt {a b : α} (h : a < b) : isBelowInfinity a = true := by
  rw [Lawful.lt_iff_below] at h
  unfold isBelowInfinity
  cases hexact : exact a with
  | finite => rfl
  | infinite negative =>
    rw [hexact] at h
    cases negative with
    | true => rfl
    | false => cases hb : exact b <;> rw [hb] at h <;> cases h
  | undefined =>
    rw [hexact] at h
    cases h

theorem truncate_zero : truncate (0 : α) = .ok 0 := by
  obtain ⟨den, hden, hexact⟩ := Lawful.exact_ofNat (α := α) 0 (Nat.zero_le _)
  rw [truncate, ← Lawful.ofNat_zero, hexact, Nat.zero_mul, Exact.truncate, Nat.zero_div]
  rfl

/-- A magnitude over something positive that is not above `n` is undefined or has a whole part of
at most `n`. -/
theorem truncate_abs_div {a b : α} {n : Nat} (hn : n ≤ 2 ^ 53) (hb : 0 < b)
    (hle : ¬ ofNat n < abs a / b) :
    truncate (abs a / b) = .error .undefinedWhole
      ∨ ∃ count ≤ (n : Int), truncate (abs a / b) = .ok count := by
  obtain ⟨den, hden, hexact⟩ := Lawful.exact_ofNat (α := α) n hn
  obtain ⟨zden, hzden, hzero⟩ := Lawful.exact_ofNat (α := α) 0 (Nat.zero_le _)
  rw [Lawful.ofNat_zero] at hzero
  have hpos := Lawful.not_abs_div_lt_zero a b hb
  rw [Lawful.lt_iff_below, hzero] at hpos
  rw [Lawful.lt_iff_below, hexact] at hle
  rw [truncate]
  -- Of the infinities, one is above `n` and the other is below zero.
  cases hgap : exact (abs a / b) with
  | undefined => exact .inl rfl
  | infinite negative =>
    rw [hgap] at hpos hle
    cases negative
    · exact absurd rfl hle
    · exact absurd rfl hpos
  | finite negative num gden hgden =>
    refine .inr ⟨_, ?_, rfl⟩
    cases negative with
    | true =>
      have hnonneg : 0 ≤ ((num / gden : Nat) : Int) := Int.natCast_nonneg _
      simp only [if_true]
      omega
    | false =>
      rw [hgap] at hle
      simp only [Exact.below, Bool.false_eq_true, if_false, decide_eq_true_eq, not_lt] at hle
      have hle' : num * den ≤ n * gden * den := by
        have hcast : num * den ≤ n * den * gden := by exact_mod_cast hle
        rw [Nat.mul_right_comm]
        exact hcast
      have hnum : num ≤ n * gden := Nat.le_of_mul_le_mul_right hle' hden
      have hdiv : num / gden ≤ n := Nat.div_le_of_le_mul (by rw [Nat.mul_comm]; exact hnum)
      simp only [Bool.false_eq_true, if_false]
      exact_mod_cast hdiv

end

/-- The exact value of a rational number has its numerator and denominator. -/
theorem below_exactOfRat (a b : ℚ) :
    (exactOfRat a).below (exactOfRat b) = true ↔ a.num * b.den < b.num * a.den := by
  have hsigned : ∀ (q : ℚ) (m : Nat),
      (if q < 0 then -((q.num.natAbs * m : Nat) : Int) else ((q.num.natAbs * m : Nat) : Int))
        = q.num * m := by
    intro q m
    by_cases hq : q < 0
    · have hnum : q.num < 0 := Rat.num_neg.mpr hq
      rw [if_pos hq, Nat.cast_mul, Int.ofNat_natAbs_of_nonpos hnum.le, neg_mul,
        neg_neg]
    · have hnum : 0 ≤ q.num := Rat.num_nonneg.mpr (not_lt.mp hq)
      rw [if_neg hq, Nat.cast_mul, Int.natAbs_of_nonneg hnum]
  simp only [exactOfRat, Exact.below, decide_eq_true_eq, hsigned]

instance : Lawful ℚ where
  lt_iff_below a b := by
    show a < b ↔ (exactOfRat a).below (exactOfRat b) = true
    rw [below_exactOfRat, Rat.lt_iff]
  ofNat_zero := Nat.cast_zero
  exact_ofNat n _ := by
    refine ⟨1, Nat.one_pos, ?_⟩
    show exactOfRat (n : ℚ) = _
    have hneg : ¬ (n : ℚ) < 0 := not_lt.mpr (Nat.cast_nonneg n)
    simp [exactOfRat, hneg]
  ofInt?_natCast n _ := congrArg some (Int.cast_natCast n)
  beq_zero_of_ofInt? n x hn hx := by
    have hx' : x = (n : ℚ) := (Option.some.inj hx).symm
    have hne : x ≠ 0 := by
      rw [hx']
      exact_mod_cast hn.ne'
    exact beq_false_of_ne hne
  not_abs_div_lt_zero a b hb := not_lt.mpr (div_nonneg (abs_nonneg a) (le_of_lt hb))

end Scalar

end Folio
