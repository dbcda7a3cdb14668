import Mathlib.Data.Nat.Prime.Basic
import Mathlib.Tactic.Ring
import Mathlib.Tactic.Linarith

namespace GccXml

/-! # `Lib.Division` — dividing without division, and dividing by everything

An unsigned number of `N` bits is divided by a constant `d` with a multiplication and shifts, when the constant comes
with a good enough inverse. A number is prime when no candidate up to its square root divides it; the candidates are
searched by halving, so that the check is no deeper than their number has bits. -/

namespace Division

/-! ## Division by an invariant number -/

/-- A multiplier that is a little above `2 ^ k / d` gives the quotient of every `x` below `2 ^ N`. -/
theorem mul_div_two_pow {N l d m x : Nat} (hd : 0 < d) (hlow : 2 ^ (N + l) ≤ m * d) (hhigh : m * d ≤ 2 ^ (N + l) + 2 ^ l)
    (hx : x < 2 ^ N) : x * m / 2 ^ (N + l) = x / d := by
  obtain ⟨e, he⟩ : ∃ e, m * d = 2 ^ (N + l) + e := ⟨m * d - 2 ^ (N + l), by omega⟩
  have hel : e ≤ 2 ^ l := by omega
  have hdivision : d * (x / d) + x % d = x := Nat.div_add_mod x d
  have hmod : x % d < d := Nat.mod_lt x hd
  have hproduct : x * m * d = x * 2 ^ (N + l) + x * e := by rw [Nat.mul_assoc, he, Nat.mul_add]
  -- the error of the multiplier is too small to reach the next quotient
  have herror : x * e < 2 ^ (N + l) := by
    calc x * e ≤ x * 2 ^ l := Nat.mul_le_mul_left x hel
      _ < 2 ^ N * 2 ^ l := Nat.mul_lt_mul_of_pos_right hx (Nat.two_pow_pos l)
      _ = 2 ^ (N + l) := (pow_add 2 N l).symm
  apply Nat.div_eq_of_lt_le
  · apply Nat.le_of_mul_le_mul_right _ hd
    calc x / d * 2 ^ (N + l) * d = d * (x / d) * 2 ^ (N + l) := by ring
      _ ≤ x * 2 ^ (N + l) := Nat.mul_le_mul_right _ (by omega)
      _ ≤ x * m * d := by omega
  · apply Nat.lt_of_mul_lt_mul_right (a := d)
    calc x * m * d = x * 2 ^ (N + l) + x * e := hproduct
      _ < x * 2 ^ (N + l) + 2 ^ (N + l) := by omega
      _ = (x + 1) * 2 ^ (N + l) := by ring
      _ ≤ (d * (x / d) + d) * 2 ^ (N + l) := Nat.mul_le_mul_right _ (by omega)
      _ = (x / d + 1) * 2 ^ (N + l) * d := by ring

/-- **Division by multiplication.** The multiplier is `2 ^ N + m`, one bit longer than a word; the top half of `x * m` and
    two shifts give the quotient without leaving the word. -/
theorem div_by_multiplication {N l d m x : Nat} (hd : 0 < d) (hm : m < 2 ^ N)
    (hlow : 2 ^ (N + (l + 1)) ≤ (2 ^ N + m) * d) (hhigh : (2 ^ N + m) * d ≤ 2 ^ (N + (l + 1)) + 2 ^ (l + 1))
    (hx : x < 2 ^ N) : (x * m / 2 ^ N + (x - x * m / 2 ^ N) / 2) / 2 ^ l = x / d := by
  have htop : x * m / 2 ^ N ≤ x := by
    apply Nat.div_le_of_le_mul
    rw [Nat.mul_comm (2 ^ N)]
    exact Nat.mul_le_mul_left x (Nat.le_of_lt hm)
  have hhalf : x * m / 2 ^ N + (x - x * m / 2 ^ N) / 2 = (x + x * m / 2 ^ N) / 2 := by omega
  have hsum : x + x * m / 2 ^ N = x * (2 ^ N + m) / 2 ^ N := by
    rw [Nat.mul_add, Nat.add_comm (x * 2 ^ N), Nat.add_mul_div_right _ _ (Nat.two_pow_pos N), Nat.add_comm]
  rw [hhalf, hsum, Nat.div_div_eq_div_mul, Nat.div_div_eq_div_mul]
  rw [show 2 ^ N * (2 * 2 ^ l) = 2 ^ (N + (l + 1)) by ring]
  exact mul_div_two_pow hd hlow hhigh hx

/-! ## Trial division -/

/-- None of the `2 ^ (l + 1)` numbers `6 * j + 5` and `6 * j + 7`, from `j = i * 2 ^ l` on, divides `n`. -/
def noDivisor (n : Nat) : Nat → Nat → Bool
  | 0, i => n % (6 * i + 5) != 0 && n % (6 * i + 7) != 0
  | l + 1, i => noDivisor n l (2 * i) && noDivisor n l (2 * i + 1)

theorem not_dvd_of_noDivisor {n l i j : Nat} (h : noDivisor n l i = true) (hlow : i * 2 ^ l ≤ j)
    (hhigh : j < (i + 1) * 2 ^ l) : n % (6 * j + 5) ≠ 0 ∧ n % (6 * j + 7) ≠ 0 := by
  induction l generalizing i with
  | zero =>
      obtain rfl : j = i := by omega
      simpa only [noDivisor, Bool.and_eq_true, bne_iff_ne] using h
  | succ l ih =>
      rw [noDivisor, Bool.and_eq_true] at h
      by_cases hj : j < (2 * i + 1) * 2 ^ l
      · refine ih h.1 ?_ hj
        calc 2 * i * 2 ^ l = i * 2 ^ (l + 1) := by ring
          _ ≤ j := hlow
      · refine ih h.2 (Nat.le_of_not_lt hj) ?_
        calc j < (i + 1) * 2 ^ (l + 1) := hhigh
          _ = (2 * i + 1 + 1) * 2 ^ l := by ring

/-- **Trial division.** The candidates are the numbers that are neither even nor divisible by three. -/
theorem prime_of_noDivisor {n l : Nat} (hone : 1 < n) (htwo : n % 2 ≠ 0) (hthree : n % 3 ≠ 0)
    (h : noDivisor n l 0 = true) (hsqrt : n < (6 * 2 ^ l + 5) * (6 * 2 ^ l + 5)) : n.Prime := by
  by_contra hcomposite
  have hdvd : n.minFac ∣ n := n.minFac_dvd
  have hprime : n.minFac.Prime := Nat.minFac_prime (by omega)
  have hsq : n.minFac * n.minFac ≤ n := by
    rw [← sq]
    exact Nat.minFac_sq_le_self (by omega) hcomposite
  have hlt : n.minFac < 6 * 2 ^ l + 5 := by
    by_contra hge
    have hmul := Nat.mul_le_mul (Nat.le_of_not_lt hge) (Nat.le_of_not_lt hge)
    omega
  -- the least factor is one of the candidates
  have hodd : n.minFac % 2 ≠ 0 := fun hmod => htwo (Nat.mod_eq_zero_of_dvd ((Nat.dvd_of_mod_eq_zero hmod).trans hdvd))
  have hnot : n.minFac % 3 ≠ 0 := fun hmod => hthree (Nat.mod_eq_zero_of_dvd ((Nat.dvd_of_mod_eq_zero hmod).trans hdvd))
  have htwoLe := hprime.two_le
  generalize n.minFac = q at hdvd hlt hodd hnot htwoLe
  have hmod : n % q = 0 := Nat.mod_eq_zero_of_dvd hdvd
  obtain ⟨j, rfl | rfl⟩ : ∃ j, q = 6 * j + 5 ∨ q = 6 * j + 7 := by
    have hfive : 5 ≤ q := by omega
    by_cases hfifth : q % 6 = 5
    · exact ⟨(q - 5) / 6, .inl (by omega)⟩
    · have hfirst : q % 6 = 1 := by omega
      exact ⟨q / 6 - 1, .inr (by omega)⟩
  · exact (@not_dvd_of_noDivisor n l 0 j h (by omega) (by omega)).1 hmod
  · exact (@not_dvd_of_noDivisor n l 0 j h (by omega) (by omega)).2 hmod

end Division

end GccXml
