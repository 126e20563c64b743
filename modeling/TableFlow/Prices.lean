/-
  Prices on their way through MongoDB, where they are doubles.

  1. **The code** — `create_product` stores `float(price)`; `get_product`, `list_products` and
     `create_order` read it back as `Decimal(str(price))`.
  2. **A price survives** — ten digits, two of them behind the point, are fewer than a double has:
     what is printed is what was posted (`decimal_float`).
  3. **Prices compare as doubles** as they do as decimals (`round_ofCents_le_iff`).
-/
import TableFlow.Lib.Double

namespace TableFlow.Prices

open Lib

/-! ## Doubles -/

/-- IEEE 754 `binary64`. -/
def binary64 : FloatFormat := ⟨53, -1074, 1024, by decide⟩

/-- `float(d)`, of a decimal that is not negative. -/
def float (d : Decimal) : Double binary64 := .ofRat binary64 d.value

/-- `Decimal(str(x))`: `str` writes whole numbers below `10 ^ 16` with a zero behind the point.
    No product costs infinitely much. -/
def decimal : Double binary64 → Decimal
  | .finite x _ =>
    if x = 0 then ⟨0, -1⟩
    else
      let d := binary64.shortest 17 x
      if 0 ≤ d.exponent ∧ Int.log 10 x < 16 then
        ⟨d.coefficient * 10 ^ (d.exponent + 1).toNat, -1⟩
      else d
  | .infinite => ⟨0, 0⟩

/-! ### Hundredths -/

/-- `n` hundredths. -/
def ofCents (n : Nat) : ℚ := n / 100

theorem ofCents_le {n : Nat} (hn : n < 10 ^ 10) : ofCents n ≤ 10 ^ 8 := by
  have : (n : ℚ) ≤ 10 ^ 10 := by exact_mod_cast hn.le
  show (n : ℚ) / 100 ≤ 10 ^ 8
  linarith

theorem le_ofCents {n : Nat} (hpos : 0 < n) : 1 / 100 ≤ ofCents n := by
  have : (1 : ℚ) ≤ n := by exact_mod_cast hpos
  show (1 : ℚ) / 100 ≤ n / 100
  linarith

/-- Numbers that are not tiny have all their digits. -/
theorem normal_of_le {q : ℚ} (h : 1 / 1000 ≤ q) : binary64.Normal q := by
  have hpow : (2 : ℚ) ^ (binary64.lowest + binary64.precision - 1) ≤ 2 ^ (-10 : Int) :=
    zpow_le_zpow_right₀ one_le_two (by decide)
  have hq : (2 : ℚ) ^ (-10 : Int) ≤ q := by
    norm_num at h ⊢
    linarith
  exact (hpow.trans hq).trans (le_abs_self q)

/-- Fifty-three binary digits are more than fifteen decimal ones. -/
theorem abs_round_sub_le {q : ℚ} (h : 1 / 1000 ≤ q) : |binary64.round q - q| ≤ q / 10 ^ 15 := by
  have hpow : (2 : ℚ) ^ (-(binary64.precision : Int)) ≤ 1 / 10 ^ 15 := by
    show (2 : ℚ) ^ (-53 : Int) ≤ 1 / 10 ^ 15
    norm_num
  have hpos : 0 ≤ q := by linarith
  calc |binary64.round q - q| ≤ |q| * 2 ^ (-(binary64.precision : Int)) :=
        FloatFormat.abs_round_sub_le_mul (normal_of_le h)
    _ ≤ q * (1 / 10 ^ 15) := by
        rw [abs_of_nonneg hpos]
        exact mul_le_mul_of_nonneg_left hpow hpos
    _ = q / 10 ^ 15 := by ring

/-- The largest error of a price. -/
theorem abs_round_ofCents {n : Nat} (hn : n < 10 ^ 10) (hpos : 0 < n) :
    |binary64.round (ofCents n) - ofCents n| ≤ 1 / 10 ^ 7 := by
  have hlow := le_ofCents hpos
  have hup := ofCents_le hn
  have := abs_round_sub_le (q := ofCents n) (by linarith)
  linarith

/-- The double of a cent is not below it. -/
theorem le_round_ofCents {n : Nat} (hpos : 0 < n) : 1 / 100 ≤ binary64.round (ofCents n) := by
  have hcent : (1 : ℚ) / 100 ≤ binary64.round (1 / 100) := by decide +kernel
  exact hcent.trans (FloatFormat.round_mono (by norm_num) (le_ofCents hpos))

theorem ofCents_eq (n : Nat) : ofCents n = ((n : Int) : ℚ) * 10 ^ (-2 : Int) := by
  show (n : ℚ) / 100 = _
  norm_num [div_eq_mul_inv]

/-- The zero behind the point of a whole number. -/
theorem value_whole {c e : Int} (he : 0 ≤ e) :
    (Decimal.mk (c * 10 ^ (e + 1).toNat) (-1)).value = (Decimal.mk c e).value := by
  show ((c * 10 ^ (e + 1).toNat : Int) : ℚ) * 10 ^ (-1 : Int) = c * 10 ^ e
  rw [Decimal.zpow_split (a := -1) (b := e) (by omega), sub_neg_eq_add]
  push_cast
  ring

section Cents

variable {n : Nat} (hn : n < 10 ^ 10)
include hn

/-- Prices are in range. -/
theorem round_ofCents_lt : binary64.round (ofCents n) < 2 ^ binary64.top := by
  have htop : (2 : ℚ) ^ (40 : Int) ≤ 2 ^ binary64.top := zpow_le_zpow_right₀ one_le_two (by decide)
  refine lt_of_lt_of_le ?_ htop
  rcases Nat.eq_zero_or_pos n with rfl | hpos
  · show binary64.round ((0 : Nat) / 100) < _
    rw [Nat.cast_zero, zero_div, FloatFormat.round_zero]
    exact zpow_pos two_pos _
  · have hnear := abs_le.mp (abs_round_ofCents hn hpos)
    have hup := ofCents_le hn
    norm_num
    linarith

/-- What else is read as the double of a price is nearer to it than a cent. -/
theorem near_of_round {q : ℚ} (hpos : 0 < n) (h0 : 0 ≤ q)
    (hq : binary64.round q = binary64.round (ofCents n)) :
    |q - ofCents n| < 10 ^ (-2 : Int) := by
  have hprice := abs_le.mp (abs_round_ofCents hn hpos)
  have hup := ofCents_le hn
  have hlow : 1 / 1000 ≤ q := by
    by_contra hlt
    -- the double of a thousandth is below that of a cent
    have hle := FloatFormat.round_mono (f := binary64) h0 (not_le.mp hlt).le
    have hthousandth := abs_le.mp (abs_round_sub_le (q := 1 / 1000) le_rfl)
    have := le_ofCents hpos
    rw [hq] at hle
    linarith
  have hself := abs_le.mp (abs_round_sub_le hlow)
  rw [hq] at hself
  rw [abs_lt]
  norm_num
  constructor <;> linarith

/-- **A price is printed as it was posted.** -/
theorem shortest_ofCents (hpos : 0 < n) :
    (binary64.shortest 17 (binary64.round (ofCents n))).value = ofCents n := by
  have hprice := abs_le.mp (abs_round_ofCents hn hpos)
  have hcent := le_round_ofCents hpos
  have hup := ofCents_le hn
  have hx : 0 < binary64.round (ofCents n) := by linarith
  rw [ofCents_eq n]
  refine FloatFormat.shortest_value (by rwa [← ofCents_eq]) rfl ?_ ?_ ?_ ?_
  · rw [← ofCents_eq, abs_lt]
    norm_num
    constructor <;> linarith
  · refine (Int.zpow_le_iff_le_log (by decide) (by rwa [← ofCents_eq])).mp ?_
    rw [← ofCents_eq]
    norm_num at hcent ⊢
    linarith
  · have hlog : Int.log 10 (binary64.round (ofCents n)) < 9 := by
      refine (Int.lt_zpow_iff_log_lt (by decide) hx).mp ?_
      norm_num
      linarith
    rw [← ofCents_eq]
    omega
  · intro q h0 hq
    rw [← ofCents_eq] at hq ⊢
    exact near_of_round hn hpos h0 hq

/-- **A price survives `float` and `Decimal(str(·))`.** -/
theorem decimal_float {d : Decimal} (hd : d.value = ofCents n) :
    (decimal (float d)).value = ofCents n := by
  unfold float
  rw [hd, Double.ofRat_of_lt (round_ofCents_lt hn)]
  rcases Nat.eq_zero_or_pos n with rfl | hpos
  · have h0 : binary64.round (ofCents 0) = 0 := by
      show binary64.round ((0 : Nat) / 100) = 0
      rw [Nat.cast_zero, zero_div, FloatFormat.round_zero]
    show (if binary64.round (ofCents 0) = 0 then _ else _ : Decimal).value = _
    rw [if_pos h0]
    show ((0 : Int) : ℚ) * _ = ((0 : Nat) : ℚ) / 100
    simp
  · have hne : binary64.round (ofCents n) ≠ 0 := by
      have := le_round_ofCents hpos
      intro h0
      rw [h0] at this
      norm_num at this
    refine Eq.trans ?_ (shortest_ofCents hn hpos)
    show (if binary64.round (ofCents n) = 0 then _ else _ : Decimal).value = _
    rw [if_neg hne]
    split
    · next hwhole => exact value_whole hwhole.1
    · rfl

end Cents

/-- **Doubles of hundredths are in order**, if one of them is a price. -/
theorem round_ofCents_le_iff {k n : Nat} (h : k < 10 ^ 10 ∨ n < 10 ^ 10) :
    binary64.round (ofCents k) ≤ binary64.round (ofCents n) ↔ k ≤ n := by
  have hmono : ∀ {a b : Nat}, a ≤ b → ofCents a ≤ ofCents b := by
    intro a b hab
    exact div_le_div_of_nonneg_right (by exact_mod_cast hab) (by norm_num)
  have hnonneg : ∀ a : Nat, 0 ≤ ofCents a := fun a => div_nonneg a.cast_nonneg (by norm_num)
  constructor
  · intro hle
    by_contra hlt
    have hn : n < 10 ^ 10 := by omega
    -- the next hundredth is above `n` by more than the errors of both
    have hnext := (FloatFormat.round_mono (f := binary64) (hnonneg (n + 1))
      (hmono (by omega : n + 1 ≤ k))).trans hle
    have hstep : ofCents (n + 1) = ofCents n + 1 / 100 := by
      show ((n + 1 : Nat) : ℚ) / 100 = n / 100 + 1 / 100
      push_cast
      ring
    have hup := ofCents_le hn
    have habove := abs_le.mp (abs_round_sub_le (q := ofCents (n + 1)) (by
      have := hnonneg n
      linarith))
    rcases Nat.eq_zero_or_pos n with rfl | hpos
    · have hzero : ofCents 0 = 0 := by
        show ((0 : Nat) : ℚ) / 100 = 0
        norm_num
      rw [hstep, hzero] at hnext habove
      rw [FloatFormat.round_zero] at hnext
      norm_num at hnext habove
      linarith
    · have hbelow := abs_le.mp (abs_round_ofCents hn hpos)
      linarith
  · exact fun hle => FloatFormat.round_mono (hnonneg k) (hmono hle)

end TableFlow.Prices
