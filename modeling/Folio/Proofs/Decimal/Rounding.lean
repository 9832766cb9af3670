import Folio.Decimal.Exact
import Mathlib.Algebra.Group.Int.Even
import Mathlib.Algebra.Order.Field.Basic
import Mathlib.Algebra.Order.Field.Rat
import Mathlib.Tactic.Linarith
import Mathlib.Tactic.Positivity
import Mathlib.Tactic.Ring

/-!
# Rounding to whole numbers

A whole number is what a rational one rounds to if it is at most half a unit away and, where it is
just half a unit away, even. That is said without any quotient or remainder (`IsRounded`), and it
settles the number: rounding keeps the order (`IsRounded.mono`), so that nothing rounds to two
numbers. `roundHalfEven` comes to the number that is meant (`isRounded_roundHalfEven`).
-/

namespace Folio

/-- The number goes to that whole number, a tie to the even one. -/
structure IsRounded (x : ℚ) (k : ℤ) : Prop where
  near : |x - k| ≤ 1 / 2
  even : |x - k| = 1 / 2 → Even k

namespace IsRounded

variable {x y : ℚ} {k l : ℤ}

theorem le (h : IsRounded x k) : k - 1 / 2 ≤ x := by
  have hnear := (abs_le.mp h.near).1
  linarith

theorem ge (h : IsRounded x k) : x ≤ k + 1 / 2 := by
  have hnear := (abs_le.mp h.near).2
  linarith

/-- Two numbers in order that went to whole numbers out of order would both be the tie between
them, and only one of two neighbours is even. -/
theorem mono (hx : IsRounded x k) (hy : IsRounded y l) (hle : x ≤ y) : k ≤ l := by
  by_contra hlt
  have hstep : l + 1 ≤ k := by omega
  have hstep' : (l : ℚ) + 1 ≤ k := by exact_mod_cast hstep
  have hxk := hx.le
  have hyl := hy.ge
  have hk : (k : ℚ) = l + 1 := by linarith
  have hxtie : x - k = -(1 / 2) := by linarith
  have hytie : y - l = 1 / 2 := by linarith
  have hkeven : Even k := hx.even (by rw [hxtie, abs_neg, abs_of_pos (by norm_num)])
  have hleven : Even l := hy.even (by rw [hytie, abs_of_pos (by norm_num)])
  have hk' : k = l + 1 := by exact_mod_cast hk
  rw [hk', Int.even_add_one] at hkeven
  exact hkeven hleven

theorem unique (hk : IsRounded x k) (hl : IsRounded x l) : k = l :=
  le_antisymm (hk.mono hl le_rfl) (hl.mono hk le_rfl)

theorem iff_eq (hk : IsRounded x k) : IsRounded x l ↔ l = k :=
  ⟨fun hl => hl.unique hk, fun hl => hl ▸ hk⟩

theorem neg (h : IsRounded x k) : IsRounded (-x) (-k) := by
  have habs : |-x - ((-k : ℤ) : ℚ)| = |x - k| := by
    rw [Int.cast_neg, neg_sub_neg, abs_sub_comm]
  constructor
  · rw [habs]
    exact h.near
  · rw [habs]
    exact fun htie => (h.even htie).neg

theorem of_lt (h : |x - k| < 1 / 2) : IsRounded x k :=
  ⟨h.le, fun htie => absurd htie h.ne⟩

/-- Of the two neighbours of a tie, the even one is right. -/
theorem of_tie (h : x = k + 1 / 2 ∨ x = k - 1 / 2) (heven : Even k) : IsRounded x k := by
  refine ⟨?_, fun _ => heven⟩
  rw [abs_le]
  rcases h with rfl | rfl <;> constructor <;> linarith

/-- A whole number goes to itself. -/
theorem intCast (k : ℤ) : IsRounded k k := by
  constructor
  · rw [sub_self, abs_zero]
    norm_num
  · rw [sub_self, abs_zero]
    norm_num

end IsRounded

namespace Exact

/-- The finite values as rational numbers. -/
def rational? : Exact → Option ℚ
  | finite negative num den _ => some ((if negative then -1 else 1) * (num / den))
  | _ => none

/-- Half a unit away from a quotient is half the divisor left over. -/
theorem isRounded_roundHalfEven (num : Nat) {den : Nat} (hden : 0 < den) :
    IsRounded (num / den : ℚ) (roundHalfEven num den : ℤ) := by
  have hpos : (0 : ℚ) < den := by exact_mod_cast hden
  have hrest : (num : ℚ) / den = (num / den : Nat) + ((num % den : Nat) : ℚ) / den := by
    have hdiv : (num : ℚ) = den * (num / den : Nat) + (num % den : Nat) := by
      exact_mod_cast (Nat.div_add_mod num den).symm
    rw [eq_comm, add_div' _ _ _ hpos.ne', mul_comm, ← hdiv]
  have hbelow : ((num % den : Nat) : ℚ) / den < 1 := by
    rw [div_lt_one hpos]
    exact_mod_cast Nat.mod_lt num hden
  have habove : 0 ≤ ((num % den : Nat) : ℚ) / den := by positivity
  rw [hrest, roundHalfEven]
  generalize num / den = whole at *
  generalize num % den = rest at *
  by_cases hlow : 2 * rest < den
  · have hlow' : (rest : ℚ) / den < 1 / 2 := by
      rw [div_lt_div_iff₀ hpos two_pos]
      exact_mod_cast (by omega : rest * 2 < 1 * den)
    rw [if_pos hlow]
    apply IsRounded.of_lt
    rwa [Int.cast_natCast, add_sub_cancel_left, abs_of_nonneg habove]
  · rw [if_neg hlow]
    by_cases hhigh : den < 2 * rest
    · have hhigh' : 1 / 2 < (rest : ℚ) / den := by
        rw [div_lt_div_iff₀ two_pos hpos]
        exact_mod_cast (by omega : 1 * den < rest * 2)
      rw [if_pos hhigh]
      apply IsRounded.of_lt
      rw [abs_lt]
      push_cast
      constructor <;> linarith
    · have htie : (rest : ℚ) / den = 1 / 2 := by
        rw [div_eq_div_iff hpos.ne' two_ne_zero]
        exact_mod_cast (by omega : rest * 2 = 1 * den)
      rw [if_neg hhigh, htie]
      rcases Nat.mod_two_eq_zero_or_one whole with heven | hodd
      · rw [heven]
        exact IsRounded.of_tie (.inl rfl) (by exact_mod_cast Nat.even_iff.mpr heven)
      · have hnext : Even (whole + 1) := Nat.even_iff.mpr (by omega)
        rw [hodd]
        refine IsRounded.of_tie (.inr ?_) (by exact_mod_cast hnext)
        push_cast
        ring

end Exact

end Folio
