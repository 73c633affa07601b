import Mathlib.Data.Nat.Basic
import Mathlib.Data.String.Basic
import Mathlib.Tactic.IntervalCases
import Mathlib.Tactic.Positivity

/-!
# Decimal digits of a fixed width

Padded with zeros to one width, numbers have the order of their digits read as text.
-/

namespace FixedDigits

/-- The decimal digit of a number below ten. -/
def digit (n : ℕ) : Char := Char.ofNat (48 + n)

/-- The lowest digits of a number, most significant first. -/
def digits : ℕ → ℕ → List Char
  | 0, _ => []
  | width + 1, n => digit (n / 10 ^ width % 10) :: digits width n

theorem digit_lt_digit {m n : ℕ} (hm : m < 10) (hn : n < 10) : digit m < digit n ↔ m < n := by
  have hmVal : (digit m).toNat = 48 + m := by
    interval_cases m <;> rfl
  have hnVal : (digit n).toNat = 48 + n := by
    interval_cases n <;> rfl
  change (digit m).toNat < (digit n).toNat ↔ m < n
  omega

theorem digit_inj {m n : ℕ} (hm : m < 10) (hn : n < 10) : digit m = digit n ↔ m = n := by
  constructor
  · intro h
    have hnot := (digit_lt_digit hm hn).not
    have hnot' := (digit_lt_digit hn hm).not
    rw [h] at hnot hnot'
    have := hnot.mp (lt_irrefl _)
    have := hnot'.mp (lt_irrefl _)
    omega
  · rintro rfl
    rfl

/-- Two numbers compare first by their leading part, then by the rest. -/
theorem lt_iff_div_mod (m n base : ℕ) : m < n ↔ m / base < n / base ∨ m / base = n / base ∧ m % base < n % base := by
  have hm := Nat.div_add_mod m base
  have hn := Nat.div_add_mod n base
  rcases Nat.eq_zero_or_pos base with rfl | hpos
  · simp
  have hmod := Nat.mod_lt m hpos
  have hmod' := Nat.mod_lt n hpos
  rcases lt_trichotomy (m / base) (n / base) with h | h | h
  · have := Nat.mul_le_mul_left base h
    simp only [h, true_or, iff_true]
    rw [Nat.mul_succ] at this
    omega
  · rw [h] at hm ⊢
    simp only [lt_irrefl, true_and, false_or]
    omega
  · have := Nat.mul_le_mul_left base h
    rw [Nat.mul_succ] at this
    constructor
    · omega
    · rintro (h' | h') <;> omega

/-- Digits depend only on the part of a number they show. -/
theorem digits_mod (width n : ℕ) : ∀ larger, width ≤ larger → digits width (n % 10 ^ larger) = digits width n := by
  induction width with
  | zero => exact fun _ _ => rfl
  | succ width ih =>
    intro larger hle
    have hdvd : 10 ^ width * 10 ∣ 10 ^ larger := by
      rw [← pow_succ]
      exact Nat.pow_dvd_pow 10 hle
    have hhead : n % 10 ^ larger / 10 ^ width % 10 = n / 10 ^ width % 10 := by
      rw [← Nat.mod_mul_right_div_self, Nat.mod_mod_of_dvd _ hdvd, Nat.mod_mul_right_div_self]
    rw [digits, digits, hhead, ih larger (by omega)]

/-- Numbers that fit one width have the order of their digits. -/
theorem digits_lt_iff {width m n : ℕ} (hm : m < 10 ^ width) (hn : n < 10 ^ width) :
    digits width m < digits width n ↔ m < n := by
  induction width generalizing m n with
  | zero =>
    simp only [pow_zero, Nat.lt_one_iff] at hm hn
    subst hm hn
    simp
  | succ width ih =>
    have hmHead : m / 10 ^ width < 10 := Nat.div_lt_of_lt_mul (by rwa [pow_succ] at hm)
    have hnHead : n / 10 ^ width < 10 := Nat.div_lt_of_lt_mul (by rwa [pow_succ] at hn)
    have hpos : 0 < 10 ^ width := by positivity
    have htail := ih (Nat.mod_lt m hpos) (Nat.mod_lt n hpos)
    rw [digits_mod width m width le_rfl, digits_mod width n width le_rfl] at htail
    rw [digits, digits, Nat.mod_eq_of_lt hmHead, Nat.mod_eq_of_lt hnHead, List.cons_lt_cons_iff,
      digit_lt_digit hmHead hnHead, digit_inj hmHead hnHead, htail]
    exact (lt_iff_div_mod m n (10 ^ width)).symm

end FixedDigits
